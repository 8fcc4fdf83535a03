import ScriptHost.Proofs.Engine.Decisions
import ScriptHost.Proofs.Engine.Hosting

set_option autoImplicit false

/-!
What one move of a host does to promises.

A move may call a function of a promise, which settles it or binds it to another one. All else that a move
does leaves settled promises and those that wait for another one as they are.
-/

namespace ScriptHost

def Waiting.tasks : Waiting -> List Task
  | checking c => c.tasks
  | calling _ f => f.tasks

namespace Hosting

variable {d : Discipline} {s : Hosting} {m : Move} {p q v : Ptr} {reject : Bool} {r r' : PromiseRecord}

def tasks (s : Hosting) : List Task :=
  s.waiting.flatMap Waiting.tasks

def state (s : Hosting) : List Task × Affairs :=
  (s.tasks, s.engine.heap.affairs)

/-- The promise one of whose functions is called by a move, with what it is called for. -/
def resolving (s : Hosting) : Move -> Option (Ptr × Ptr × Bool)
  | .poll false =>
      match s.waiting with
      | .checking c :: _ => c.resolving s.engine.heap
      | _ => none
  | _ => none

/-- The heap right after that call. -/
def afterCall (s : Hosting) (m : Move) : Heap :=
  match s.resolving m with
  | some (p, v, reject) => s.engine.heap.callResolving p v reject
  | none => s.engine.heap

/-- The state right after that call. -/
def called (s : Hosting) (m : Move) : List Task × Affairs :=
  (s.tasks, (s.afterCall m).affairs)

theorem tasks_children (s : Hosting) (t : Task) (under : t ∈ s.tasks) (u : Ptr) (child : u ∈ t.children) :
    u ∈ s.owned ++ s.running := by
  obtain ⟨w, waiting, inside⟩ := List.mem_flatMap.1 under
  apply List.mem_append_right
  refine List.mem_flatMap.2 ⟨w, waiting, ?_⟩
  cases w with
  | checking c =>
    cases c <;> simp_all [Waiting.tasks, Check.tasks, Waiting.children, Check.children, Task.children]
  | calling i f =>
    cases f <;> simp_all [Waiting.tasks, Frame.tasks, Waiting.children, Frame.children, Task.children]

theorem enter_engine (s : Hosting) (hands : Scalar -> List Ptr) (r : Stage × Engine) : (s.enter hands r).engine = r.2 := by
  obtain ⟨stage, engine⟩ := r
  rcases stage with (_ | answer) | c | ⟨i, f⟩ <;> rfl

theorem enter_state (s : Hosting) (hands : Scalar -> List Ptr) (r : Stage × Engine) :
    (s.enter hands r).state = (r.1.tasks ++ s.tasks, r.2.heap.affairs) := by
  obtain ⟨stage, engine⟩ := r
  rcases stage with (_ | answer) | c | ⟨i, f⟩ <;> rfl

theorem afterCall_checking {c : Check} {rest : List Waiting} (waiting : s.waiting = .checking c :: rest)
    (interrupted : Bool) : s.afterCall (.poll interrupted) = c.afterCall interrupted s.engine.heap := by
  cases interrupted with
  | true =>
    have kept : c.afterCall true s.engine.heap = s.engine.heap := by
      unfold Check.afterCall
      split <;> rfl
    exact kept.symm
  | false =>
    cases target : c.resolving s.engine.heap with
    | none => simp [afterCall, resolving, waiting, Check.afterCall, target]
    | some t =>
      obtain ⟨p, v, reject⟩ := t
      simp [afterCall, resolving, waiting, Check.afterCall, target]

theorem afterCall_other {interrupted : Bool} (other : ∀ c rest, s.waiting ≠ .checking c :: rest) :
    s.afterCall (.poll interrupted) = s.engine.heap := by
  have nothing : s.resolving (.poll interrupted) = none := by
    cases interrupted with
    | true => rfl
    | false => simp only [resolving]
  simp only [afterCall, nothing]

theorem poll_turns (s : Hosting) (interrupted : Bool) :
    Turns (s.called (.poll interrupted)) (s.step (.poll interrupted)).state := by
  simp only [step, poll]
  split
  next c rest waiting =>
    have under : s.tasks = c.tasks ++ rest.flatMap Waiting.tasks := by
      rw [tasks, waiting]
      rfl
    rw [called, afterCall_checking waiting, under, enter_state]
    exact Engine.afterCheck_turns interrupted c
  next other =>
    rw [called, afterCall_other other]
    exact .refl

theorem answer_turns (s : Hosting) (p : Ptr) : Turns s.state (s.step (.answer p)).state := by
  simp only [step, answer]
  split
  next i f rest waiting =>
    have under : s.tasks = f.tasks ++ rest.flatMap Waiting.tasks := by
      rw [tasks, waiting]
      rfl
    rw [state, under]
    exact Engine.afterHost_turns p f
  next => exact .refl

theorem call_state (s : Hosting) (function this : Ptr) (count : UInt32) (arguments : Addr) :
    (s.step (.call function this count arguments)).state = s.state := by
  obtain ⟨heap, tasks⟩ := Engine.beginCall_heap (s := s.engine) function this count arguments
  simp only [step, enter_state, heap, tasks]
  rfl

/-- A move calls a function of a promise or opens otherwise, and goes on with turns. -/
theorem step_course {exact : Prop}
    (grounded : exact -> Engine.Grounded s.tasks s.engine.heap (s.step m).engine.heap) :
    Turns (s.called m) (s.step m).state ∨
    s.called m = s.state ∧ ∃ mid, Opening exact s.state mid ∧ Turns mid (s.step m).state := by
  cases m with
  | request r =>
    obtain ⟨mid, opening, turns, -⟩ := Engine.perform_opens r grounded
    exact .inr ⟨rfl, mid, opening, turns⟩
  | call function this count arguments => exact .inl (call_state s function this count arguments ▸ .refl)
  | job =>
    refine .inr ⟨rfl, _, Engine.beginJob_opens, ?_⟩
    simp only [step, enter_state]
    exact .refl
  | poll interrupted => exact .inl (poll_turns s interrupted)
  | answer p => exact .inl (answer_turns s p)
  | install => exact .inl .refl
  | allocate size => exact .inl .refl
  | deallocate a => exact .inl .refl
  | write a bytes => exact .inl .refl

/-- The first call of a function of a promise marks the promise. All later ones change nothing. -/
theorem called_cases (s : Hosting) (m : Move) :
    (s.called m = s.state ∧ ∀ p v reject r, s.resolving m = some (p, v, reject) ->
      s.state.2.promises.get? p = some r -> r.resolved = true) ∨
    ∃ p v reject r f, s.resolving m = some (p, v, reject) ∧ s.state.2.resolver? f = some (p, reject) ∧
      s.state.2.promises.get? p = some r ∧ r.resolved = false ∧
      Turns (.resolution p v reject :: s.tasks, s.state.2.mark p r) (s.called m) := by
  cases m with
  | poll interrupted =>
    by_cases checking : ∃ c rest, s.waiting = .checking c :: rest
    next =>
      obtain ⟨c, rest, waiting⟩ := checking
      have same := afterCall_checking waiting interrupted
      rcases Engine.afterCall_cases c interrupted s.engine.heap with
        ⟨idle, before⟩ | ⟨p, v, reject, r, f, rfl, resolving, able, found, first, turns⟩
      next =>
        refine .inl ⟨by rw [called, same, idle]; rfl, fun p v reject r target => ?_⟩
        cases interrupted with
        | true => cases target
        | false => exact before p v reject r rfl (by simpa only [resolving, waiting] using target)
      next =>
        refine .inr ⟨p, v, reject, r, f, ?_, able, found, first, ?_⟩
        next => simp only [Hosting.resolving, waiting, resolving]
        next =>
          rw [called, same]
          exact turns s.tasks
    next =>
      have other : ∀ c rest, s.waiting ≠ .checking c :: rest := fun c rest waiting => checking ⟨c, rest, waiting⟩
      refine .inl ⟨by rw [called, afterCall_other other]; rfl, fun p v reject r target => ?_⟩
      cases interrupted <;> simp [resolving] at target
  | _ => exact .inl ⟨rfl, fun _ _ _ _ target => by cases target⟩

theorem called_next (s : Hosting) (m : Move) : s.engine.heap.next ≤ (s.called m).2.next := by
  rcases called_cases s m with ⟨idle, -⟩ | ⟨p, v, reject, r, f, -, -, -, -, turns⟩
  next => exact idle ▸ Nat.le_refl _
  next =>
    have reached := turns.next_le
    exact reached

theorem step_next (s : Hosting) (m : Move) : s.engine.heap.next ≤ (s.step m).engine.heap.next := by
  rcases step_course (s := s) (m := m) fun none : False => none.elim with turns | ⟨-, mid, opening, turns⟩
  next => exact Nat.le_trans (called_next s m) turns.next_le
  next => exact Nat.le_trans opening.next_le turns.next_le

theorem run_next (s : Hosting) (moves : List Move) : s.engine.heap.next ≤ (s.run moves).engine.heap.next := by
  induction moves generalizing s with
  | nil => exact Nat.le_refl _
  | cons m rest ih => exact Nat.le_trans (step_next s m) (ih (s.step m))

/-- What makes the next move one like any other. -/
structure Fit (d : Discipline) (s : Hosting) (m : Move) : Prop where
  sound : s.Sound d
  allowed : s.Allowed d m
  numbered : Heap.Numbered (d.stale s.engine.heap) (s.step m).engine.heap
  steady : Steady s.state

theorem Fit.grounded (fit : Fit d s m) : Engine.Grounded s.tasks s.engine.heap (s.step m).engine.heap :=
  ⟨_, _, fit.sound.heap, fit.numbered, s.tasks_children⟩

theorem Fit.course (fit : Fit d s m) : Turns (s.called m) (s.step m).state ∨
    s.called m = s.state ∧ ∃ mid, Opening True s.state mid ∧ Turns mid (s.step m).state :=
  step_course fun _ => fit.grounded

theorem called_steady (m : Move) (ok : Steady s.state) : Steady (s.called m) := by
  rcases called_cases s m with ⟨idle, -⟩ | ⟨p, v, reject, r, f, -, able, found, first, turns⟩
  next =>
    rw [idle]
    exact ok
  next => exact Turns.steady turns (call_steady able found first ok)

theorem called_sealed {source : Ptr -> Bool -> Prop} (m : Move) (ok : Steady s.state)
    (found : s.state.2.promises.get? p = some r)
    (past : r.resolved = true ∨ ∀ v reject, s.resolving m ≠ some (p, v, reject)) (sealed : Sealed source p s.state) :
    Sealed source p (s.called m) := by
  rcases called_cases s m with ⟨idle, -⟩ | ⟨p', v, reject, r', f, target, able, here, first, turns⟩
  next =>
    rw [idle]
    exact sealed
  next =>
    have other : p' ≠ p := by
      rintro rfl
      obtain rfl : r = r' := Option.some.inj (found.symm.trans here)
      rcases past with before | never
      next => simp [before] at first
      next => exact never v reject target
    exact Turns.sealed turns (call_steady able here first ok) (call_sealed here other sealed)

theorem called_attached {source : Ptr -> Bool -> Prop} (m : Move) (ok : Steady s.state) (attached : Attached p q s.state)
    (told : ∀ x rejected, News s.state.2.history (s.called m).2.history (.settled q x rejected) -> source x rejected) :
    Attached p q (s.called m) ∨ Sealed source p (s.called m) := by
  rcases called_cases s m with ⟨idle, -⟩ | ⟨p', v, reject, r', f, target, able, here, first, turns⟩
  next =>
    rw [idle]
    exact .inl attached
  next => exact Turns.attached turns (call_steady able here first ok) (call_attached here attached) told

/-- Whether the functions of `p` are called by a move. -/
def Calls (s : Hosting) (m : Move) (p : Ptr) : Prop :=
  ∃ v reject, s.resolving m = some (p, v, reject)

/-- How the record of a promise may change in a move. -/
structure Moved (s : Hosting) (m : Move) (p : Ptr) (r r' : PromiseRecord) : Prop where
  settled : r.settlement ≠ .pending -> r'.settlement = r.settlement
  resolved : r'.resolved = true ↔ r.resolved = true ∨ s.Calls m p

theorem called_moved (m : Move) (ok : Steady s.state) (found : (s.called m).2.promises.get? p = some r') :
    ∃ r, s.state.2.promises.get? p = some r ∧ Moved s m p r r' := by
  rcases called_cases s m with ⟨idle, again⟩ | ⟨p', v, reject, x, f, target, able, here, first, turns⟩
  next =>
    rw [idle] at found
    refine ⟨r', found, fun _ => rfl, Iff.symm (or_iff_left_of_imp ?_)⟩
    rintro ⟨v, reject, target⟩
    exact again p v reject r' target found
  next =>
    obtain ⟨y, there, aged⟩ := Turns.aged turns found
    simp only [Affairs.mark, Table.get?_set] at there
    split at there
    next same =>
      subst same
      cases there
      have pending := (ok.guarded f p' reject x able here first).1
      exact ⟨x, here, fun settled => absurd pending settled, by simp [aged.resolved, Calls, target]⟩
    next other =>
      refine ⟨y, there, aged.settled, ?_⟩
      rw [aged.resolved]
      refine Iff.symm (or_iff_left_of_imp ?_)
      rintro ⟨v', reject', mine⟩
      simp_all

theorem Moved.trans {x : PromiseRecord} (moved : Moved s m p r x) (aged : Aged x r') : Moved s m p r r' where
  settled settled := (aged.settled (moved.settled settled ▸ settled)).trans (moved.settled settled)
  resolved := aged.resolved ▸ moved.resolved

theorem step_steady (fit : Fit d s m) : Steady (s.step m).state := by
  rcases fit.course with turns | ⟨-, mid, opening, turns⟩
  next => exact Turns.steady turns (called_steady m fit.steady)
  next => exact Turns.steady turns (opening.steady fit.steady)

theorem course_aged (fit : Fit d s m) (before : s.state.2.promises.get? p = some r)
    (found : (s.step m).state.2.promises.get? p = some r') :
    ∃ y, (s.called m).2.promises.get? p = some y ∧ Aged y r' := by
  rcases fit.course with turns | ⟨idle, mid, opening, turns⟩
  next => exact Turns.aged turns found
  next =>
    obtain ⟨y, there, aged⟩ := Turns.aged turns found
    obtain rfl := opening.same before there
    exact ⟨y, idle ▸ before, aged⟩

theorem step_moved (fit : Fit d s m) (before : s.state.2.promises.get? p = some r)
    (found : (s.step m).state.2.promises.get? p = some r') : Moved s m p r r' := by
  obtain ⟨y, there, aged⟩ := course_aged fit before found
  obtain ⟨x, here, moved⟩ := called_moved m fit.steady there
  obtain rfl : r = x := Option.some.inj (before.symm.trans here)
  exact moved.trans aged

theorem step_born (fit : Fit d s m) (before : s.state.2.promises.get? p = none)
    (found : (s.step m).state.2.promises.get? p = some r) : r.resolved = false := by
  rcases fit.course with turns | ⟨-, mid, opening, turns⟩
  next =>
    obtain ⟨y, there, -⟩ := Turns.aged turns found
    obtain ⟨x, here, -⟩ := called_moved m fit.steady there
    simp [before] at here
  next =>
    obtain ⟨y, there, aged⟩ := Turns.aged turns found
    obtain rfl := opening.born before there
    exact aged.resolved

theorem course_next (fit : Fit d s m) : (s.called m).2.next ≤ (s.step m).state.2.next := by
  rcases fit.course with turns | ⟨idle, mid, opening, turns⟩
  next => exact turns.next_le
  next => exact idle ▸ Nat.le_trans opening.next_le turns.next_le

theorem course_sealed {source : Ptr -> Bool -> Prop} (fit : Fit d s m) (found : s.state.2.promises.get? p = some r)
    (sealed : Sealed source p (s.called m)) : Sealed source p (s.step m).state := by
  rcases fit.course with turns | ⟨idle, mid, opening, turns⟩
  next => exact Turns.sealed turns (called_steady m fit.steady) sealed
  next => exact Turns.sealed turns (opening.steady fit.steady) (opening.sealed found (idle ▸ sealed))

theorem step_sealed {source : Ptr -> Bool -> Prop} (fit : Fit d s m) (found : s.state.2.promises.get? p = some r)
    (past : r.resolved = true ∨ ¬ s.Calls m p) (sealed : Sealed source p s.state) :
    Sealed source p (s.step m).state := by
  refine course_sealed fit found (called_sealed m fit.steady found ?_ sealed)
  exact past.imp_right fun never v reject target => never ⟨v, reject, target⟩

theorem called_history (s : Hosting) (m : Move) : s.state.2.history <:+ (s.called m).2.history := by
  rcases called_cases s m with ⟨idle, -⟩ | ⟨p, v, reject, r, f, -, -, -, -, turns⟩
  next => exact idle ▸ List.suffix_refl _
  next =>
    have told := Turns.history turns
    exact told

theorem course_history (fit : Fit d s m) : (s.called m).2.history <:+ (s.step m).state.2.history := by
  rcases fit.course with turns | ⟨idle, mid, opening, turns⟩
  next => exact Turns.history turns
  next => exact idle ▸ opening.history ▸ Turns.history turns

theorem course_attached {source : Ptr -> Bool -> Prop} (fit : Fit d s m) (attached : Attached p q (s.called m))
    (told : ∀ x rejected, News s.state.2.history (s.step m).state.2.history (.settled q x rejected) -> source x rejected) :
    Attached p q (s.step m).state ∨ Sealed source p (s.step m).state := by
  rcases fit.course with turns | ⟨idle, mid, opening, turns⟩
  next =>
    refine Turns.attached turns (called_steady m fit.steady) attached fun x rejected news => told x rejected ?_
    exact news.earlier (called_history s m)
  next =>
    have fine := opening.steady fit.steady
    rcases opening.attached (idle ▸ attached) with still | gone
    next =>
      exact Turns.attached turns fine still fun x rejected news => told x rejected (opening.history ▸ news)
    next => exact .inr (Turns.sealed turns fine (.gone gone))

theorem step_attached {source : Ptr -> Bool -> Prop} (fit : Fit d s m) (found : s.state.2.promises.get? p = some r)
    (attached : Attached p q s.state)
    (told : ∀ x rejected, News s.state.2.history (s.step m).state.2.history (.settled q x rejected) -> source x rejected) :
    Attached p q (s.step m).state ∨ Sealed source p (s.step m).state := by
  rcases called_attached m fit.steady attached fun x rejected news => told x rejected (news.later (course_history fit))
    with still | sealed
  next => exact course_attached fit still told
  next => exact .inr (course_sealed fit found sealed)

theorem called_told {x : Ptr} {rejected : Bool} (m : Move)
    (news : News s.state.2.history (s.called m).2.history (.settled p x rejected))
    (found : (s.called m).2.promises.get? p = some r) : r.settlement = .ofPayload rejected x := by
  rcases called_cases s m with ⟨idle, -⟩ | ⟨p, v, reject, r, f, -, -, -, -, turns⟩
  next => exact absurd (idle ▸ news) News.irrefl
  next => exact Turns.told turns news found

theorem step_told {x : Ptr} {rejected : Bool} (fit : Fit d s m)
    (news : News s.state.2.history (s.step m).state.2.history (.settled p x rejected))
    (found : (s.step m).state.2.promises.get? p = some r) : r.settlement = .ofPayload rejected x := by
  rcases fit.course with turns | ⟨idle, mid, opening, turns⟩
  next =>
    rcases news.split (called_history s m) (Turns.history turns) with before | now
    next =>
      obtain ⟨y, there, aged⟩ := Turns.aged turns found
      have settled := called_told m before there
      exact (aged.settled (settled ▸ ofPayload_ne_pending rejected x)).trans settled
    next => exact Turns.told turns now found
  next => exact Turns.told turns (opening.history ▸ news) found

/-- Nothing but its own functions can settle `p`. -/
def Untouched (p : Ptr) (s : List Task × Affairs) : Prop :=
  Sealed (fun _ _ => False) p s

theorem Untouched.pending {s : List Task × Affairs} (untouched : Untouched p s)
    (found : s.2.promises.get? p = some r) : r.settlement = .pending ∧ p ∉ targets s := by
  cases untouched with
  | gone absent => simp [found] at absent
  | lost free pending => exact ⟨pending r found, free⟩
  | passes x rejected cause => exact cause.elim
  | done r x rejected cause => exact cause.elim

theorem made_untouched {out : Addr} (fit : Fit d s (.request (.newPromiseCapability out)))
    (before : s.state.2.promises.get? p = none)
    (found : (s.step (.request (.newPromiseCapability out))).state.2.promises.get? p = some r) :
    Untouched p (s.step (.request (.newPromiseCapability out))).state := by
  obtain ⟨a, opening, turns, -⟩ := Engine.newPromiseCapability_opens out fun _ : True => fit.grounded
  obtain ⟨y, there, -⟩ := Turns.aged turns found
  obtain ⟨rfl, free⟩ := opening.made fit.steady before there
  refine Turns.sealed turns (opening.steady fit.steady) (.lost free fun x here => ?_)
  obtain rfl : PromiseRecord.fresh = x := Option.some.inj (there.symm.trans here)
  rfl

theorem resolving_checking (target : s.resolving m = some (p, v, reject)) :
    m = .poll false ∧ ∃ c rest, s.waiting = .checking c :: rest ∧ c.resolving s.engine.heap = some (p, v, reject) := by
  cases m with
  | poll interrupted =>
    cases interrupted with
    | true => cases target
    | false =>
      simp only [resolving] at target
      split at target
      next c rest waiting => exact ⟨rfl, c, rest, waiting, target⟩
      next => cases target
  | _ => cases target

theorem resolving_pending (fit : Fit d s m) (target : s.resolving m = some (p, v, reject))
    (found : s.state.2.promises.get? p = some r) (first : r.resolved = false) : r.settlement = .pending := by
  obtain ⟨-, c, rest, -, resolving⟩ := resolving_checking target
  obtain ⟨f, able⟩ := Check.resolving_able resolving
  exact (fit.steady.guarded f p reject r able found first).1

theorem resolving_lasting (fit : Fit d s m) (target : s.resolving m = some (p, v, reject)) :
    Heap.Lasting (d.stale s.engine.heap) (s.owned ++ s.running) v := by
  obtain ⟨rfl, c, rest, waiting, resolving⟩ := resolving_checking target
  have allowed := fit.allowed
  simp only [Allowed, waiting] at allowed
  cases c with
  | job j => cases resolving
  | call function this args table =>
    obtain ⟨t, -, same⟩ := Option.map_eq_some_iff.1 resolving
    cases same
    cases args with
    | nil => exact .inl (by decide)
    | cons a others => exact (allowed a List.mem_cons_self).lasting
  | handler j function =>
    obtain ⟨t, -, same⟩ := Option.map_eq_some_iff.1 resolving
    cases same
    refine .inr (.inl (List.mem_append_right _ (List.mem_flatMap.2 ⟨_, waiting ▸ List.mem_cons_self, ?_⟩)))
    simp [Waiting.children, Check.children, Job.children]

theorem called_callResolving (target : s.resolving m = some (p, v, reject)) :
    s.called m = (s.tasks, (s.engine.heap.callResolving p v reject).affairs) := by
  simp only [called, afterCall, target]

theorem step_plain (fit : Fit d s m) (target : s.resolving m = some (p, v, reject))
    (before : s.engine.heap.promise? p = some r) (first : r.resolved = false)
    (plain : reject = false -> s.engine.heap.promise? v = none)
    (found : (s.step m).engine.heap.promise? p = some r') : r'.settlement = .ofPayload reject v := by
  have here := (Heap.get?_promises _ p).trans before
  obtain ⟨y, there, aged⟩ := course_aged fit here ((Heap.get?_promises _ p).trans found)
  rw [called_callResolving target] at there
  have settled := Heap.callResolving_plain before first (resolving_pending fit target here first) plain
    ((Heap.get?_promises _ p).symm.trans there)
  exact (aged.settled (settled ▸ ofPayload_ne_pending reject v)).trans settled

theorem step_self (fit : Fit d s m) (target : s.resolving m = some (p, p, false))
    (before : s.engine.heap.promise? p = some r) (first : r.resolved = false)
    (found : (s.step m).engine.heap.promise? p = some r') :
    ∃ e, r'.settlement = .rejected e ∧ (e = 0 ∨ s.engine.heap.get? e = none ∧
      ∃ fields, (s.engine.heap.callResolving p p false).get? e = some (.object .error fields)) := by
  have here := (Heap.get?_promises _ p).trans before
  obtain ⟨y, there, aged⟩ := course_aged fit here ((Heap.get?_promises _ p).trans found)
  rw [called_callResolving target] at there
  have numbered : Heap.Numbered (d.stale s.engine.heap) (s.engine.heap.callResolving p p false) := by
    refine fit.numbered.of_le ?_
    have reached := course_next fit
    rw [called_callResolving target] at reached
    exact reached
  obtain ⟨e, rejected, fresh⟩ := Heap.callResolving_self fit.sound.heap (resolving_lasting fit target) numbered before
    first (resolving_pending fit target here first) ((Heap.get?_promises _ p).symm.trans there)
  refine ⟨e, (aged.settled ?_).trans rejected, fresh⟩
  simp [rejected]

theorem step_adopts {y : PromiseRecord} (fit : Fit d s m) (target : s.resolving m = some (p, q, false))
    (before : s.engine.heap.promise? p = some r) (first : r.resolved = false) (other : q ≠ p)
    (promise : s.engine.heap.promise? q = some y) :
    Attached p q (s.step m).state ∨
      Sealed (fun x rejected => y.settlement = .ofPayload rejected x ∨
        News s.state.2.history (s.step m).state.2.history (.settled q x rejected)) p (s.step m).state := by
  have here := (Heap.get?_promises _ p).trans before
  obtain ⟨-, c, rest, -, resolving⟩ := resolving_checking target
  obtain ⟨f, able⟩ := Check.resolving_able resolving
  rcases Heap.callResolving_adopts before first able other promise fit.steady with attached | sealed
  next =>
    refine course_attached fit ?_ fun x rejected news => .inr news
    rw [called_callResolving target]
    exact attached
  next =>
    refine .inr (course_sealed fit here ?_)
    rw [called_callResolving target]
    exact sealed.mono fun x rejected settled => .inl settled

end Hosting

end ScriptHost
