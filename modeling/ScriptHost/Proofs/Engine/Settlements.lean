import ScriptHost.Proofs.Engine.Courses

set_option autoImplicit false

/-!
How promises settle in a run.

The first call of one of its functions decides how a promise settles, and nothing changes it afterwards.
-/

namespace ScriptHost

namespace Hosting

variable {d : Discipline} {moves : List Move} {p q v : Ptr} {reject : Bool} {i j k : Nat} {r r' : PromiseRecord}

/-- The host after its first moves. -/
def after (moves : List Move) (k : Nat) : Hosting :=
  start.run (moves.take k)

def settlement? (s : Hosting) (p : Ptr) : Option Settlement :=
  (s.engine.heap.promise? p).map PromiseRecord.settlement

/-- Whether the pointer is a promise all along. Once that is freed, the pointer may come to name another one. -/
def Lives (moves : List Move) (p : Ptr) (i j : Nat) : Prop :=
  ∀ k, i ≤ k -> k ≤ j -> (after moves k).engine.heap.isPromise p = true

/-- Whether the `k`-th move calls a function of `p`. -/
def CallsFor (moves : List Move) (k : Nat) (p v : Ptr) (reject : Bool) : Prop :=
  ∃ m, moves[k]? = some m ∧ (after moves k).resolving m = some (p, v, reject)

/-- Whether no function of `p` was called before the `k`-th move, in the life of `p`. -/
def Unresolved (moves : List Move) (p : Ptr) (k : Nat) : Prop :=
  ∀ i v reject, i < k -> Lives moves p i k -> ¬ CallsFor moves i p v reject

def Tells (moves : List Move) (k : Nat) (x : Happening) : Prop :=
  News (after moves k).engine.heap.history (after moves (k + 1)).engine.heap.history x

/-- `q` has settled with the outcome at the `k`-th move or settles with it from then on, before the `j`-th. -/
def Settles (moves : List Move) (q : Ptr) (k j : Nat) (w : Ptr) (rejected : Bool) : Prop :=
  (after moves k).settlement? q = some (.ofPayload rejected w) ∨
    ∃ i, k ≤ i ∧ i < j ∧ Lives moves q k i ∧ Tells moves i (.settled q w rejected)

structure Settling (moves : List Move) : Prop where
  once : ∀ p i j x, i ≤ j -> Lives moves p i j -> (after moves i).settlement? p = some x -> x ≠ .pending ->
    (after moves j).settlement? p = some x
  waits : ∀ p k v reject, CallsFor moves k p v reject -> (after moves k).engine.heap.isPromise p = true ->
    Unresolved moves p k -> (after moves k).settlement? p = some .pending
  rejected : ∀ p v k j, CallsFor moves k p v true -> Unresolved moves p k -> k < j -> Lives moves p k j ->
    (after moves j).settlement? p = some (.rejected v)
  fulfilled : ∀ p v k j, CallsFor moves k p v false -> (after moves k).engine.heap.isPromise v = false ->
    Unresolved moves p k -> k < j -> Lives moves p k j -> (after moves j).settlement? p = some (.fulfilled v)
  -- Zero stands for the error if every pointer is in use.
  refused : ∀ p k j, CallsFor moves k p p false -> Unresolved moves p k -> k < j -> Lives moves p k j ->
    ∃ e, (after moves j).settlement? p = some (.rejected e) ∧ (e = 0 ∨ (after moves k).engine.heap.get? e = none ∧
      ∃ fields, ((after moves k).engine.heap.callResolving p p false).get? e = some (.object .error fields))
  adopted : ∀ p q k j w rejected, CallsFor moves k p q false -> q ≠ p ->
    (after moves k).engine.heap.isPromise q = true -> Unresolved moves p k -> k < j -> Lives moves p k j ->
    (after moves j).settlement? p = some (.ofPayload rejected w) -> Settles moves q k j w rejected
  told : ∀ p i j w rejected, Tells moves i (.settled p w rejected) -> i < j -> Lives moves p (i + 1) j ->
    (after moves j).settlement? p = some (.ofPayload rejected w)
  repeated : ∀ p i k v w reject reject', CallsFor moves i p v reject -> i < k -> Lives moves p i k ->
    CallsFor moves k p w reject' ->
      (after moves k).engine.heap.callResolving p w reject' = (after moves k).engine.heap
  plain : ∀ p k v, (after moves k).settlement? p = some (.fulfilled v) ->
    (after moves k).engine.heap.isPromise v = false
  single : ∀ p k, (after moves k).settlement? p = some .pending -> (targets (after moves k).state).count p ≤ 1
  untouched : ∀ p i k out, moves[i]? = some (.request (.newPromiseCapability out)) ->
    (after moves i).engine.heap.isPromise p = false -> i < k -> Lives moves p (i + 1) k -> Unresolved moves p k ->
      (after moves k).settlement? p = some .pending ∧ p ∉ targets (after moves k).state

theorem after_succ {m : Move} (here : moves[k]? = some m) : after moves (k + 1) = (after moves k).step m := by
  simp [after, run, List.take_add_one, here]

theorem after_past (here : moves[k]? = none) : after moves (k + 1) = after moves k := by
  simp [after, List.take_add_one, here]

theorem callsFor_iff {m : Move} (here : moves[k]? = some m) :
    CallsFor moves k p v reject ↔ (after moves k).resolving m = some (p, v, reject) := by
  simp [CallsFor, here]

theorem Lives.to_succ (lives : Lives moves p i k)
    (next : (after moves (k + 1)).engine.heap.isPromise p = true) :
    Lives moves p i (k + 1) := by
  intro j first last
  by_cases same : j = k + 1
  next => exact same ▸ next
  next => exact lives j first (by omega)

theorem Lives.self (here : (after moves k).engine.heap.isPromise p = true) : Lives moves p k k := by
  intro j first last
  obtain rfl : j = k := Nat.le_antisymm last first
  exact here

theorem Disciplined.at {s : Hosting} {m : Move} (allowed : s.Disciplined d moves) (here : moves[k]? = some m) :
    (s.run (moves.take k)).Allowed d m ∧ s.Disciplined d (moves.take k) := by
  induction moves generalizing s k with
  | nil => simp at here
  | cons first rest ih =>
    cases k with
    | zero =>
      obtain rfl : first = m := by simpa using here
      exact ⟨allowed.1, trivial⟩
    | succ n =>
      obtain ⟨now, before⟩ := ih allowed.2 (by simpa using here)
      exact ⟨now, allowed.1, before⟩

theorem after_next (moves : List Move) (k : Nat) :
    (after moves k).engine.heap.next ≤ (start.run moves).engine.heap.next := by
  have whole : start.run moves = (after moves k).run (moves.drop k) := by
    rw [after, run, run, run, ← List.foldl_append, List.take_append_drop]
  rw [whole]
  exact run_next _ _

theorem start_promise? (moves : List Move) (p : Ptr) : (after moves 0).engine.heap.promise? p = none := by
  simp [after, run, start, Engine.empty, Heap.promise?, Heap.get?, Heap.empty]

theorem start_steady : Steady start.state := by
  have none : ∀ p r, start.state.2.promises.get? p ≠ some r := by
    intro p r
    simp [state, start, Engine.empty, Heap.affairs, Heap.promises, Heap.empty]
  constructor
  next => exact fun p r found => absurd found (none p r)
  next => exact fun p r found => absurd found (none p r)
  next => exact fun f p reject r able found => absurd found (none p r)
  next => exact fun p r v found => absurd found (none p r)
  next =>
    intro j waiting
    simp [start, state, tasks, Engine.empty, Heap.empty, Heap.affairs] at waiting

section

variable (allowed : start.Disciplined d moves)
variable (numbered : d = .any -> (start.run moves).engine.heap.next ≤ UInt32.size)

include allowed in
theorem sound_at (k : Nat) : (after moves k).Sound d := by
  induction k with
  | zero => exact start_sound
  | succ k ih =>
    cases here : moves[k]? with
    | none => rwa [after_past here]
    | some m =>
      rw [after_succ here]
      exact step_sound ih (Disciplined.at allowed here).1

include allowed numbered

theorem fit_of_steady {m : Move} (here : moves[k]? = some m) (steady : Steady (after moves k).state) :
    Fit d (after moves k) m where
  sound := sound_at allowed k
  allowed := (Disciplined.at allowed here).1
  numbered := by
    cases d with
    | owning => exact .inl rfl
    | any =>
      rw [← after_succ here]
      exact .inr (Nat.le_trans (after_next moves (k + 1)) (numbered rfl))
  steady := steady

theorem steady_at (k : Nat) : Steady (after moves k).state := by
  induction k with
  | zero => exact start_steady
  | succ k ih =>
    cases here : moves[k]? with
    | none => rwa [after_past here]
    | some m =>
      rw [after_succ here]
      exact step_steady (fit_of_steady allowed numbered here ih)

theorem fit_at {m : Move} (here : moves[k]? = some m) : Fit d (after moves k) m :=
  fit_of_steady allowed numbered here (steady_at allowed numbered k)

theorem record_next (before : (after moves k).engine.heap.promise? p = some r)
    (found : (after moves (k + 1)).engine.heap.promise? p = some r') :
    (r.settlement ≠ .pending -> r'.settlement = r.settlement) ∧
      (r'.resolved = true ↔ r.resolved = true ∨ ∃ v reject, CallsFor moves k p v reject) := by
  cases here : moves[k]? with
  | none =>
    rw [after_past here] at found
    obtain rfl : r = r' := Option.some.inj (before.symm.trans found)
    exact ⟨fun _ => rfl, by simp [CallsFor, here]⟩
  | some m =>
    rw [after_succ here] at found
    have moved := step_moved (fit_at allowed numbered here) ((Heap.get?_promises _ p).trans before)
      ((Heap.get?_promises _ p).trans found)
    exact ⟨moved.settled, by simpa only [Calls, callsFor_iff here] using moved.resolved⟩

theorem born_next (absent : (after moves k).engine.heap.promise? p = none)
    (found : (after moves (k + 1)).engine.heap.promise? p = some r) : r.resolved = false := by
  cases here : moves[k]? with
  | none =>
    rw [after_past here, absent] at found
    cases found
  | some m =>
    rw [after_succ here] at found
    exact step_born (fit_at allowed numbered here) ((Heap.get?_promises _ p).trans absent)
      ((Heap.get?_promises _ p).trans found)

theorem marked_of_unresolved (unresolved : Unresolved moves p k)
    (found : (after moves k).engine.heap.promise? p = some r) : r.resolved = false := by
  induction k generalizing r with
  | zero =>
    have none := start_promise? moves p
    exact absurd (none.symm.trans found) (by simp)
  | succ k ih =>
    cases before : (after moves k).engine.heap.promise? p with
    | none => exact born_next allowed numbered before found
    | some x =>
      have alive : (after moves (k + 1)).engine.heap.isPromise p = true := by simp [Heap.isPromise, found]
      have here : Lives moves p k k := .self (by simp [Heap.isPromise, before])
      have first := ih (fun i v reject earlier lives called =>
        unresolved i v reject (by omega) (lives.to_succ alive) called) before
      have marked := (record_next allowed numbered before found).2
      by_contra other
      rcases marked.1 (by simpa using other) with old | ⟨v, reject, called⟩
      next => simp [first] at old
      next => exact unresolved k v reject (by omega) (here.to_succ alive) called

theorem marked_of_called (called : CallsFor moves i p v reject) (before : i < k) (lives : Lives moves p i k)
    (found : (after moves k).engine.heap.promise? p = some r) : r.resolved = true := by
  induction k generalizing r with
  | zero => omega
  | succ k ih =>
    obtain ⟨x, here⟩ := Option.isSome_iff_exists.1 (lives k (by omega) (by omega))
    have marked := (record_next allowed numbered here found).2
    by_cases same : i = k
    next => exact marked.2 (.inr ⟨v, reject, same ▸ called⟩)
    next => exact marked.2 (.inl (ih (by omega) (fun j first last => lives j first (by omega)) here))

theorem settled_later {x : Settlement} (first : i ≤ j) (lives : Lives moves p i j)
    (settled : (after moves i).settlement? p = some x) (past : x ≠ .pending) :
    (after moves j).settlement? p = some x := by
  induction j with
  | zero => rwa [← Nat.le_zero.1 first]
  | succ j ih =>
    by_cases same : i = j + 1
    next => rwa [← same]
    next =>
      have before := ih (by omega) fun k early late => lives k early (by omega)
      obtain ⟨r, here, kind⟩ := Option.map_eq_some_iff.1 before
      obtain ⟨r', there⟩ := Option.isSome_iff_exists.1 (lives (j + 1) first (Nat.le_refl _))
      have kept := (record_next allowed numbered here there).1 (kind ▸ past)
      simp [settlement?, there, kept, kind]

theorem sealed_next {source : Ptr -> Bool -> Prop} (found : (after moves k).engine.heap.promise? p = some r)
    (past : r.resolved = true ∨ ∀ v reject, ¬ CallsFor moves k p v reject)
    (sealed : Sealed source p (after moves k).state) : Sealed source p (after moves (k + 1)).state := by
  cases here : moves[k]? with
  | none => rwa [after_past here]
  | some m =>
    rw [after_succ here]
    refine step_sealed (fit_at allowed numbered here) ((Heap.get?_promises _ p).trans found) ?_ sealed
    refine past.imp_right ?_
    rintro never ⟨v, reject, target⟩
    exact never v reject ((callsFor_iff here).2 target)

theorem attached_next (found : (after moves k).engine.heap.promise? p = some r)
    (attached : Attached p q (after moves k).state) :
    Attached p q (after moves (k + 1)).state ∨
      Sealed (fun w rejected => Tells moves k (.settled q w rejected)) p (after moves (k + 1)).state := by
  cases here : moves[k]? with
  | none => exact .inl (by rwa [after_past here])
  | some m =>
    simp only [Tells, after_succ here]
    exact step_attached (fit_at allowed numbered here) ((Heap.get?_promises _ p).trans found) attached
      fun w rejected told => told

/-- A promise that was resolved with another one goes on waiting for it or takes its outcome. -/
theorem adopting (called : CallsFor moves k p q false) (other : q ≠ p)
    (promise : (after moves k).engine.heap.isPromise q = true) (unresolved : Unresolved moves p k) (later : k < j)
    (lives : Lives moves p k j) :
    (Attached p q (after moves j).state ∧ Lives moves q k j) ∨ Sealed (Settles moves q k j) p (after moves j).state := by
  have extend : ∀ {n}, Lives moves q k n -> Attached p q (after moves (n + 1)).state -> Lives moves q k (n + 1) := by
    rintro n alive ⟨r, here, -, -⟩
    exact alive.to_succ (by simp [Heap.isPromise, (Heap.get?_promises _ q).symm.trans here])
  induction j with
  | zero => omega
  | succ j ih =>
    obtain ⟨r, found⟩ := Option.isSome_iff_exists.1 (lives j (by omega) (by omega))
    by_cases first : k = j
    next =>
      subst first
      obtain ⟨m, here, target⟩ := called
      obtain ⟨y, there⟩ := Option.isSome_iff_exists.1 promise
      have unmarked := marked_of_unresolved allowed numbered unresolved found
      rw [after_succ here]
      rcases step_adopts (fit_at allowed numbered here) target found unmarked other there with attached | sealed
      next => exact .inl ⟨attached, extend (.self promise) (by rwa [after_succ here])⟩
      next =>
        refine .inr (sealed.mono fun w rejected cause => cause.imp (fun settled => ?_) fun told => ?_)
        next => simp [settlement?, there, settled]
        next =>
          refine ⟨k, Nat.le_refl k, by omega, .self promise, ?_⟩
          rw [Tells, after_succ here]
          exact told
    next =>
      have alive : Lives moves p k j := fun i early late => lives i early (by omega)
      rcases ih (by omega) alive with ⟨attached, waiting⟩ | sealed
      next =>
        rcases attached_next allowed numbered found attached with still | now
        next => exact .inl ⟨still, extend waiting still⟩
        next => exact .inr (now.mono fun w rejected told => .inr ⟨j, by omega, by omega, waiting, told⟩)
      next =>
        have marked := marked_of_called allowed numbered called (by omega) alive found
        refine .inr (sealed_next allowed numbered found (.inl marked) (sealed.mono fun w rejected cause => ?_))
        refine cause.imp_right ?_
        rintro ⟨i, early, late, waiting, told⟩
        exact ⟨i, early, by omega, waiting, told⟩

theorem told_later {w : Ptr} {rejected : Bool} (told : Tells moves i (.settled p w rejected)) (later : i < j)
    (lives : Lives moves p (i + 1) j) : (after moves j).settlement? p = some (.ofPayload rejected w) := by
  refine settled_later allowed numbered later lives ?_ (ofPayload_ne_pending rejected w)
  obtain ⟨r, found⟩ := Option.isSome_iff_exists.1 (lives (i + 1) (Nat.le_refl _) later)
  cases here : moves[i]? with
  | none =>
    rw [Tells, after_past here] at told
    exact absurd told News.irrefl
  | some m =>
    rw [Tells, after_succ here] at told
    have next := found
    rw [after_succ here] at next
    have settled := step_told (fit_at allowed numbered here) told ((Heap.get?_promises _ p).trans next)
    simp [settlement?, found, settled]

theorem untouched_at {out : Addr} (made : moves[i]? = some (.request (.newPromiseCapability out)))
    (absent : (after moves i).engine.heap.isPromise p = false) (later : i < k) (lives : Lives moves p (i + 1) k)
    (unresolved : Unresolved moves p k) : Untouched p (after moves k).state := by
  induction k with
  | zero => omega
  | succ k ih =>
    obtain ⟨r, found⟩ := Option.isSome_iff_exists.1 (lives (k + 1) (by omega) (Nat.le_refl _))
    by_cases first : i = k
    next =>
      subst first
      rw [after_succ made] at found ⊢
      have before : (after moves i).engine.heap.promise? p = none := by simpa [Heap.isPromise] using absent
      exact made_untouched (fit_at allowed numbered made) ((Heap.get?_promises _ p).trans before)
        ((Heap.get?_promises _ p).trans found)
    next =>
      have alive : Lives moves p (i + 1) k := fun j early late => lives j early (by omega)
      have next := lives (k + 1) (by omega) (Nat.le_refl _)
      have still := ih (by omega) alive fun j v reject early alive => unresolved j v reject (by omega) (alive.to_succ next)
      have present := alive k (by omega) (Nat.le_refl k)
      obtain ⟨x, here⟩ := Option.isSome_iff_exists.1 present
      refine sealed_next allowed numbered here (.inr fun v reject called => ?_) still
      exact unresolved k v reject (by omega) (Lives.to_succ (.self present) next) called

theorem pending_at (called : CallsFor moves k p v reject) (unresolved : Unresolved moves p k)
    (found : (after moves k).engine.heap.promise? p = some r) : r.settlement = .pending ∧ r.resolved = false := by
  have first := marked_of_unresolved allowed numbered unresolved found
  obtain ⟨m, here, target⟩ := called
  exact ⟨resolving_pending (fit_at allowed numbered here) target ((Heap.get?_promises _ p).trans found) first, first⟩

/-- What the call of a function settles at once stays. -/
theorem plain_at (called : CallsFor moves k p v reject) (plain : reject = false -> (after moves k).engine.heap.isPromise v = false)
    (unresolved : Unresolved moves p k) (later : k < j) (lives : Lives moves p k j) :
    (after moves j).settlement? p = some (.ofPayload reject v) := by
  obtain ⟨r, found⟩ := Option.isSome_iff_exists.1 (lives k (Nat.le_refl k) (by omega))
  obtain ⟨r', next⟩ := Option.isSome_iff_exists.1 (lives (k + 1) (by omega) later)
  have first := (pending_at allowed numbered called unresolved found).2
  obtain ⟨m, here, target⟩ := called
  refine settled_later allowed numbered later (fun i early late => lives i (by omega) late) ?_
    (ofPayload_ne_pending reject v)
  have kept := after_succ here ▸ next
  have settled := step_plain (fit_at allowed numbered here) target found first (fun fulfilled => by
    simpa [Heap.isPromise] using plain fulfilled) kept
  simp [settlement?, next, settled]

theorem refused_at (called : CallsFor moves k p p false) (unresolved : Unresolved moves p k) (later : k < j)
    (lives : Lives moves p k j) : ∃ e, (after moves j).settlement? p = some (.rejected e) ∧
      (e = 0 ∨ (after moves k).engine.heap.get? e = none ∧
        ∃ fields, ((after moves k).engine.heap.callResolving p p false).get? e = some (.object .error fields)) := by
  obtain ⟨r, found⟩ := Option.isSome_iff_exists.1 (lives k (Nat.le_refl k) (by omega))
  obtain ⟨r', next⟩ := Option.isSome_iff_exists.1 (lives (k + 1) (by omega) later)
  have first := (pending_at allowed numbered called unresolved found).2
  obtain ⟨m, here, target⟩ := called
  have kept := after_succ here ▸ next
  obtain ⟨e, settled, fresh⟩ := step_self (fit_at allowed numbered here) target found first kept
  refine ⟨e, ?_, fresh⟩
  refine settled_later allowed numbered later (fun i early late => lives i (by omega) late) ?_ (by simp)
  simp [settlement?, next, settled]

end

/-- However calls, reactions, jobs and answers of the host are mixed, promises settle as their functions say. A
host that also passes stale pointers on must not have used up all pointers. -/
theorem run_settling (d : Discipline) (moves : List Move) (allowed : start.Disciplined d moves)
    (numbered : d = .any -> (start.run moves).engine.heap.next ≤ UInt32.size) : Settling moves where
  once p i j x first lives settled past := settled_later allowed numbered first lives settled past
  waits p k v reject called alive unresolved := by
    obtain ⟨r, found⟩ := Option.isSome_iff_exists.1 alive
    simp [settlement?, found, (pending_at allowed numbered called unresolved found).1]
  rejected p v k j called unresolved later lives :=
    plain_at allowed numbered called (by simp) unresolved later lives
  fulfilled p v k j called plain unresolved later lives :=
    plain_at allowed numbered called (fun _ => plain) unresolved later lives
  refused p k j called unresolved later lives := refused_at allowed numbered called unresolved later lives
  adopted p q k j w rejected called other promise unresolved later lives settled := by
    obtain ⟨r, found, kind⟩ := Option.map_eq_some_iff.1 settled
    have here := (Heap.get?_promises _ p).trans found
    have past : r.settlement ≠ .pending := kind ▸ ofPayload_ne_pending rejected w
    have steady := steady_at allowed numbered j
    rcases adopting allowed numbered called other promise unresolved later lives with ⟨attached, -⟩ | sealed
    next => exact absurd (steady.pending attached.target here) past
    next =>
      obtain ⟨x, b, cause, same⟩ := sealed.outcome steady here past
      obtain ⟨rfl, rfl⟩ := ofPayload_inj (kind.symm.trans same)
      exact cause
  told p i j w rejected told later lives := told_later allowed numbered told later lives
  repeated p i k v w reject reject' called before lives _ := by
    obtain ⟨r, found⟩ := Option.isSome_iff_exists.1 (lives k (by omega) (Nat.le_refl k))
    simp [Heap.callResolving, found, marked_of_called allowed numbered called before lives found]
  plain p k v settled := by
    obtain ⟨r, found, fulfilled⟩ := Option.map_eq_some_iff.1 settled
    have absent := (steady_at allowed numbered k).plain p r v ((Heap.get?_promises _ p).trans found) fulfilled
    simp [Heap.isPromise, (Heap.get?_promises _ v).symm.trans absent]
  single p k pending := by
    obtain ⟨r, found, -⟩ := Option.map_eq_some_iff.1 pending
    exact (steady_at allowed numbered k).single p r ((Heap.get?_promises _ p).trans found)
  untouched p i k out made absent later lives unresolved := by
    obtain ⟨r, found⟩ := Option.isSome_iff_exists.1 (lives k later (Nat.le_refl k))
    have fate := untouched_at allowed numbered made absent later lives unresolved
    obtain ⟨pending, free⟩ := fate.pending ((Heap.get?_promises _ p).trans found)
    exact ⟨by simp [settlement?, found, pending], free⟩

/-- Resolves a promise with undefined, and then rejects it in vain. -/
def resolvingOnce : List Move :=
  [.allocate 8, .request (.newPromiseCapability 16), .call 17 Ptr.undefined 0 0, .poll false,
    .call 18 Ptr.undefined 0 0, .poll false]

theorem resolvingOnce_disciplined : start.Disciplined .owning resolvingOnce := by
  have writable : (Request.newPromiseCapability 16).Writable (start.step (.allocate 8)).engine.memory := by
    refine ⟨?_, by simp [Request.outPointers]⟩
    simp only [Request.outPointers, List.forall_mem_singleton]
    exact ⟨(16, 8), by decide, by decide⟩
  -- Both calls come without arguments.
  exact ⟨trivial, ⟨by simp [Request.passedOn], by simp [Request.givenUp], writable, by simp [Request.clears]⟩,
    trivial, fun p member => absurd member List.not_mem_nil, trivial, fun p member => absurd member List.not_mem_nil,
    trivial⟩

theorem resolvingOnce_settling : start.Disciplined .owning resolvingOnce ∧ Settling resolvingOnce := by
  refine ⟨resolvingOnce_disciplined, run_settling .owning resolvingOnce resolvingOnce_disciplined ?_⟩
  intro other
  cases other

end Hosting

end ScriptHost
