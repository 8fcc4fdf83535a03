import ScriptHost.Proofs.Engine.Groves
import ScriptHost.Proofs.Engine.Resolving

set_option autoImplicit false

/-!
How the moves of a host grow a grove.

The host may do whatever else it likes meanwhile, but for running jobs and settling or reacting to promises in
other ways.
-/

namespace ScriptHost

namespace Heap

variable {h h' : Heap} {p q v : Ptr} {r y : PromiseRecord} {rejected reject : Bool} {f : Grove} {outside : List Ptr}

theorem affairs_enqueue_bare (h : Heap) (p v : Ptr) (rejected : Bool) :
    (h.enqueue ⟨p, none, none⟩ v rejected).affairs = h.affairs.post [⟨none, p, v, rejected⟩] := by
  have kept := affairs_retain h v
  cases rejected <;>
    simp only [enqueue, Reaction.handler, Bool.not_false, Bool.not_true, if_true, Bool.false_eq_true, if_false,
      Option.toList_none, releaseAll_nil] <;>
    exact congrArg (fun a => Affairs.post a _) kept

theorem affairs_enqueueAll_bare (xs : List Reaction) (bare : ∀ x ∈ xs, ∃ c, x = ⟨c, none, none⟩) (h : Heap) (v : Ptr)
    (rejected : Bool) : (h.enqueueAll xs v rejected).affairs = h.affairs.post (xs.map fun x => x.job v rejected) := by
  induction xs generalizing h with
  | nil => simp [enqueueAll, Affairs.post]
  | cons x rest ih =>
    obtain ⟨c, rfl⟩ := bare x List.mem_cons_self
    have later := ih (fun y member => bare y (List.mem_cons_of_mem _ member)) (h.enqueue ⟨c, none, none⟩ v rejected)
    have job : Reaction.job ⟨c, none, none⟩ v rejected = ⟨none, c, v, rejected⟩ := by cases rejected <;> rfl
    rw [affairs_enqueue_bare] at later
    refine later.trans ?_
    simp [Affairs.post, job]

theorem affairs_settle_bare (found : h.promise? p = some r) (pending : r.settlement = .pending)
    (bare : ∀ x ∈ r.reactions, ∃ c, x = ⟨c, none, none⟩) (v : Ptr) (rejected : Bool) :
    (h.settle p v rejected).affairs =
      (h.affairs.settle p r v rejected).post (r.reactions.map fun x => x.job v rejected) := by
  obtain ⟨m, settled, told⟩ := settle_enqueues found pending v rejected
  rw [settled, affairs_enqueueAll_bare _ bare, told]

theorem affairs_attach_settled (found : h.promise? q = some r) (settled : r.settlement = .ofPayload rejected v) (p : Ptr) :
    ∃ events, (h.attach q ⟨p, none, none⟩).affairs = (h.affairs.react q r events).post [⟨none, p, v, rejected⟩] := by
  rcases attach_enqueues found ⟨p, none, none⟩ with ⟨pending, -⟩ | ⟨w, rejected', m, same, attached, told⟩
  next => exact absurd (settled.symm.trans pending) (ofPayload_ne_pending rejected v)
  next =>
    obtain ⟨rfl, rfl⟩ := ofPayload_inj (same.symm.trans settled)
    exact ⟨_, by rw [attached, affairs_enqueue_bare, told]⟩

theorem affairs_attach_pending (found : h.promise? q = some r) (pending : r.settlement = .pending) (p : Ptr) :
    (h.attach q ⟨p, none, none⟩).affairs =
      h.affairs.react q { r with reactions := r.reactions ++ [⟨p, none, none⟩] } [] := by
  rcases attach_enqueues found ⟨p, none, none⟩ with ⟨-, stored⟩ | ⟨v, rejected, _, settled, -⟩
  next => exact stored
  next => exact absurd (settled.symm.trans pending) (ofPayload_ne_pending rejected v)

/-- What is to be settled is there. -/
theorem Accounted.target_there (a : Accounted 0 outside h) (target : p ∈ targets ([], h.affairs)) (big : Ptr.firstCounted ≤ p) :
    ∃ value, h.get? p = some value := by
  have referred : p ∈ h.references := by
    simp only [targets, List.map_nil, List.nil_append, List.mem_append, List.mem_map, List.mem_flatMap] at target
    rcases target with ⟨j, waiting, rfl⟩ | ⟨e, inside, among⟩
    next =>
      refine List.mem_append_right _ (List.mem_append_left _ (List.mem_flatMap.2 ⟨j, waiting, ?_⟩))
      simp [Job.children]
    next =>
      obtain ⟨x, attached, rfl⟩ := List.mem_map.1 among
      have found := promise?_eq_some.1 ((get?_promises h e.1).symm.trans (Table.find_of_mem h.promises.nodup inside))
      obtain ⟨c, here, kind⟩ := get?_eq_some.1 found
      refine List.mem_append_left _ (mem_held_of_find here ?_)
      rw [kind]
      exact List.mem_append_right _ (List.mem_flatMap.2 ⟨x, attached, by simp [Reaction.children]⟩)
  have counted := List.count_pos_iff.2 referred
  have named : Names 0 h p := fun numbered => (a.balanced numbered).nameable (by
    simp only [references, List.count_append] at *
    omega)
  exact named.there big

/-- What something under way is to settle is kept, so it is a promise as long as it stays what it is. -/
theorem lasting (a : Accounted 0 outside h') (old : ∀ p, h.isPromise p = true -> Ptr.firstCounted ≤ p)
    (stays : ∀ p value, h.isPromise p = true -> h'.get? p = some value -> h'.isPromise p = true) :
    ∀ p ∈ targets ([], h'.affairs), (h.affairs.promises.get? p).isSome -> (h'.affairs.promises.get? p).isSome := by
  intro p target alive
  simp only [affairs, get?_promises] at alive ⊢
  obtain ⟨value, there⟩ := a.target_there target (old p alive)
  exact stays p value alive there

theorem big_of_promise (counted : Counted h.cells) (q : Ptr) (promise : h.isPromise q = true) : Ptr.firstCounted ≤ q := by
  obtain ⟨r, found⟩ := isPromise_iff.1 promise
  exact big_of_found counted found

theorem big_of_settled (counted : Counted h.cells) (found : h.promise? p = some r) (v : Ptr) (rejected : Bool) (q : Ptr)
    (promise : (h.settle p v rejected).isPromise q = true) : Ptr.firstCounted ≤ q := by
  obtain ⟨y, there⟩ := isPromise_iff.1 promise
  by_cases same : p = q
  next => exact same ▸ big_of_found counted (promise?_eq_some.1 found)
  next => exact big_of_found counted (get?_settle same there)

def marked (h : Heap) (p : Ptr) : Heap :=
  match h.promise? p with
  | none => h
  | some r => h.setValue p (.promise { r with resolved := true })

/-- What the promise is settled with when a function of it is called, unless with another promise. -/
def verdict (h : Heap) (p v : Ptr) (reject : Bool) : Ptr × Bool :=
  if v = p ∧ reject = false then (((h.marked p).newError selfResolution).1, true) else (v, reject)

end Heap

namespace Grove

variable {f : Grove} {h : Heap} {p q v : Ptr} {r y : PromiseRecord} {reject : Bool} {outside : List Ptr}

theorem Awaits.bare (awaits : f.Awaits q r) (x : Reaction) (attached : x ∈ r.reactions) : ∃ c, x = ⟨c, none, none⟩ := by
  obtain ⟨c, -, same⟩ := (awaits.reactions x).1 attached
  exact ⟨c, same⟩

namespace Grown

/-- Something is hung on a promise, whether that has settled or not. -/
theorem attach (grown : f.Grown h.affairs) (free : Free f h.affairs p) (big : q ≠ 0) (member : q ∈ f.planted)
    (found : h.promise? q = some y) : (f.hang p q).Grown (h.attach q ⟨p, none, none⟩).affairs := by
  have here : h.affairs.promises.get? q = some y := (Heap.get?_promises h q).trans found
  by_cases root : f.root = some q ∧ f.outcome.isSome
  next =>
    obtain ⟨root, past⟩ := root
    obtain ⟨⟨v, rejected⟩, outcome⟩ := Option.isSome_iff_exists.1 past
    obtain ⟨events, attached⟩ :=
      Heap.affairs_attach_settled found (grown.settled q y v rejected root outcome here) p
    exact attached ▸ grown.hang_settled free big root outcome here events
  next =>
    have open' : f.root ≠ some q ∨ f.outcome = none := by
      simpa only [Decidable.not_and_iff_or_not, Bool.not_eq_true, Option.isSome_eq_false_iff, Option.isNone_iff_eq_none]
        using root
    have pending := (grown.waiting q y member open' here).pending
    exact Heap.affairs_attach_pending found pending p ▸ grown.hang_waiting free big member open' here

/-- A new promise is hung on another one. -/
theorem andThen (grown : f.Grown h.affairs) (big : q ≠ 0) (member : q ∈ f.planted) (found : h.promise? q = some y)
    (unknown : ∀ n, h.next ≤ n -> Ptr.firstCounted ≤ UInt32.ofNat n -> h.cells.get? (UInt32.ofNat n) = none ->
      UInt32.ofNat n ∉ targets ([], h.affairs)) :
    ((f.sprout h.newPromise.1).hang h.newPromise.1 q).Grown (h.andThen q none none).2.affairs := by
  have retained := Heap.affairs_retain h.newPromise.2 h.newPromise.1
  have kept : (h.newPromise.2.retain h.newPromise.1).promise? q = some y := by
    rw [Heap.promise?_eq_some, Heap.get?_retain]
    have unheld : (Value.promise .fresh).children = [] := rfl
    exact Heap.get?_insert_of_found unheld (Heap.promise?_eq_some.1 found)
  suffices sprouted : (f.sprout h.newPromise.1).Grown h.newPromise.2.affairs ∧
      Free (f.sprout h.newPromise.1) h.newPromise.2.affairs h.newPromise.1 ∧ q ∈ (f.sprout h.newPromise.1).planted by
    obtain ⟨grown, free, member⟩ := sprouted
    exact (retained.symm ▸ grown).attach (retained.symm ▸ free) big member kept
  rcases Heap.newPromise_cases h with ⟨n, later, counted, absent, pointer, begun⟩ | full
  next =>
    have some : UInt32.ofNat n ≠ 0 := by
      rintro zero
      exact absurd counted (by rw [zero]; decide)
    rw [pointer, begun]
    refine ⟨grown.sprout (unknown n later counted absent) some, .inr ⟨?_, ?_, ?_⟩, (planted_sprout some).2 (.inr member)⟩
    · simp [Affairs.begin]
    · exact (planted_sprout some).2 (.inl rfl)
    · simp [root_sprout some]
  next =>
    rw [full]
    exact ⟨grown, .inl rfl, member⟩

/-- The root settles, and what hangs on it gets its jobs. -/
theorem settling (grown : f.Grown h.affairs) (root : f.root = some p) (found : h.promise? p = some r)
    (pending : r.settlement = .pending) (v : Ptr) (rejected : Bool) :
    { f with outcome := some (v, rejected) : Grove }.Grown (h.settle p v rejected).affairs := by
  have here : h.affairs.promises.get? p = some r := (Heap.get?_promises h p).trans found
  have open' : f.outcome = none := by
    cases outcome : f.outcome with
    | none => rfl
    | some o =>
      have settled := grown.settled p r o.1 o.2 root outcome here
      exact absurd (settled.symm.trans pending) (ofPayload_ne_pending _ _)
  have awaits := grown.waiting p r (grown.rooted p root) (.inr open') here
  exact Heap.affairs_settle_bare found pending awaits.bare v rejected ▸ grown.settle root open' here v rejected

section Resolving

variable (grown : f.Grown h.affairs) (found : h.promise? p = some r) (first : r.resolved = false)

include grown found

theorem marked : f.Grown (h.setValue p (.promise { r with resolved := true })).affairs := by
  have marked : (h.setValue p (.promise { r with resolved := true })).affairs = h.affairs.mark p r :=
    Heap.affairs_setValue_promise found _
  exact marked ▸ grown.mark ((Heap.get?_promises h p).trans found)

include first

theorem settleRoot (root : f.root = some p) (pending : r.settlement = .pending)
    (plain : reject = true ∨ h.isPromise v = false) :
    { f with outcome := some (v, reject) : Grove }.Grown (h.callResolving p v reject).affairs := by
  have there := Heap.promise?_marked found
  have called := grown.marked found
  have still : reject = false -> v ≠ p ∧ (h.setValue p (.promise { r with resolved := true })).isPromise v = false := by
    intro fulfilled
    have clear := plain.resolve_left (by simp [fulfilled])
    have other : v ≠ p := by
      rintro rfl
      simp [Heap.isPromise, found] at clear
    refine ⟨other, ?_⟩
    simpa only [Heap.isPromise, Heap.promise?, Heap.get?_setValue, if_neg (Ne.symm other)] using clear
  simp only [Heap.callResolving, found, first, Bool.false_eq_true, if_false]
  generalize h.setValue p (.promise { r with resolved := true }) = m at *
  have settled := called.settling root there pending v reject
  cases reject with
  | true => exact settled
  | false =>
    obtain ⟨other, clear⟩ := still rfl
    simpa only [Heap.resolveWith, other, clear, Bool.false_eq_true, if_false] using settled

/-- A root that is resolved with itself is rejected with an error. -/
theorem refuseRoot (counted : Heap.Counted h.cells) (root : f.root = some p) (pending : r.settlement = .pending)
    (accounted : Heap.Accounted 0 outside (h.callResolving p p false)) :
    { f with outcome := some (h.verdict p p false) : Grove }.Grown (h.callResolving p p false).affairs := by
  have there := Heap.promise?_marked found
  have called := grown.marked found
  have kept : h.Keeps (h.setValue p (.promise { r with resolved := true })) :=
    Heap.keeps_setValue (Heap.promise?_eq_some.1 found) fun _ => rfl
  have counted' := kept.counted counted
  have refused : h.verdict p p false =
      (((h.setValue p (.promise { r with resolved := true })).newError Heap.selfResolution).1, true) := by
    simp [Heap.verdict, Heap.marked, found]
  simp only [Heap.callResolving, found, first, Bool.false_eq_true, if_false, Heap.resolveWith, if_true] at accounted ⊢
  rw [refused]
  generalize h.setValue p (.promise { r with resolved := true }) = m at *
  have less := Heap.forgets_newError m Heap.selfResolution
  have keeps := Heap.keeps_newError m Heap.selfResolution
  generalize m.newError Heap.selfResolution = made at *
  obtain ⟨error, k⟩ := made
  have alive (q : Ptr) (promise : (m.affairs.promises.get? q).isSome) : (k.affairs.promises.get? q).isSome := by
    have promise' : m.isPromise q = true := (congrArg Option.isSome (Heap.get?_promises m q)).symm.trans promise
    exact (congrArg Option.isSome (Heap.get?_promises k q)).trans (keeps.promise counted' q promise')
  obtain ⟨y, held⟩ := Option.isSome_iff_exists.1 (alive p (by simp [(Heap.get?_promises m p).trans there, Heap.affairs]))
  have held : k.promise? p = some y := (Heap.get?_promises k p).symm.trans held
  obtain rfl := Option.some.inj (there.symm.trans (less.promise? held))
  have settled := (called.forget less fun q _ => alive q).settling root held pending error true
  -- What is left of the error is freed at last.
  have big := Heap.big_of_settled (keeps.counted counted') held error true
  exact settled.forget (Heap.forgets_releaseAll _ _) (Heap.lasting accounted big fun q value promise there =>
    Heap.isPromise_of_value promise (Heap.get?_releaseAll there) there)

theorem adopt (member : p ∈ f.planted) (other : f.root ≠ some p) (apart : v ≠ p) (big : v ≠ 0) (host : v ∈ f.planted)
    (promise : h.isPromise v = true) : (f.hang p v).Grown (h.callResolving p v false).affairs := by
  have there := Heap.promise?_marked found
  have called := grown.marked found
  obtain ⟨y, held⟩ := Option.isSome_iff_exists.1 promise
  have kept : (h.setValue p (.promise { r with resolved := true })).promise? v = some y := by
    simp [Heap.promise?_eq_some, Ne.symm apart, Heap.promise?_eq_some.1 held]
  simp only [Heap.callResolving, found, first, Bool.false_eq_true, if_false]
  generalize h.setValue p (.promise { r with resolved := true }) = m at *
  have retained := Heap.affairs_retain m p
  have free : Free f m.affairs p := .inr ⟨by simp [(Heap.get?_promises m p).trans there, Heap.affairs], member, other⟩
  have joined : (m.retain p).promise? v = some y :=
    Heap.promise?_eq_some.2 ((Heap.get?_retain m p v).trans (Heap.promise?_eq_some.1 kept))
  simp only [Heap.resolveWith, apart, Heap.isPromise, kept, Option.isSome_some, if_true, if_false]
  exact (retained.symm ▸ called).attach (retained.symm ▸ free) big host joined

end Resolving

end Grown

end Grove

namespace Engine

variable {s : Engine} {function this : Ptr} {args : List Ptr} {table : Addr} {p : Ptr} {reject interrupted : Bool}

theorem runCall_resolving (able : s.heap.resolver? function = some (p, reject)) :
    (s.runCall false function this args table).2.heap = s.heap.callResolving p (args.head?.getD Ptr.undefined) reject := by
  obtain ⟨value, found, selected⟩ := Option.bind_eq_some_iff.1 able
  unfold Value.resolver? at selected
  split at selected <;> cases selected <;> simp [runCall, start, found, finished, endCall]

theorem runCall_tasks (s : Engine) (interrupted : Bool) (function this : Ptr) (args : List Ptr) (table : Addr) :
    (s.runCall interrupted function this args table).1.tasks = [] := by
  simp only [runCall]
  split <;> rfl

theorem start_keeps (calm : interrupted = true ∨ s.heap.resolver? function = none) :
    s.heap.Keeps (s.start interrupted function args).2.heap := by
  cases interrupted with
  | true => exact throwing_keeps s _
  | false =>
    have unable := calm.resolve_left (by simp)
    simp only [start, Bool.false_eq_true, if_false]
    split
    next =>
      split
      next => exact .refl s.heap
      next => exact throwing_keeps s _
    next found => simp [Heap.resolver?, found, Value.resolver?] at unable
    next found => simp [Heap.resolver?, found, Value.resolver?] at unable
    next => exact throwing_keeps s _

/-- A call of what is not a resolving function. -/
theorem runCall_calm (s : Engine) (this : Ptr) (args : List Ptr) (table : Addr)
    (calm : interrupted = true ∨ s.heap.resolver? function = none) :
    s.heap.Forgets (s.runCall interrupted function this args table).2.heap ∧
      s.heap.Stays (s.runCall interrupted function this args table).2.heap := by
  have same : (Check.call function this args table).afterCall interrupted s.heap = s.heap := by
    unfold Check.afterCall
    rcases calm with rfl | unable
    · split <;> rfl
    · simp [Check.resolving, Check.called, unable]
  have started := start_forgets (s := s) interrupted (c := .call function this args table) rfl
  have kept : s.heap.Keeps (s.start interrupted function args).2.heap := start_keeps calm
  rw [same] at started
  simp only [runCall]
  split
  next c s' ended =>
    rw [ended] at started kept
    exact ⟨started.trans (endCall_forgets s' c), kept.then (endCall_stays s' c)⟩
  next id s' hosted =>
    rw [hosted] at started kept
    exact ⟨started, kept.stays⟩

theorem afterHost_bare (s : Engine) (answer : Ptr) :
    s.heap.Forgets (s.afterHost answer .call).2.heap ∧ s.heap.Stays (s.afterHost answer .call).2.heap :=
  ⟨(completion_forgets s answer).trans (endCall_forgets _ _), (completion_keeps s answer).then (endCall_stays _ _)⟩

end Engine

namespace Hosting

/-- Whether neither of the functions of the promise has been called yet. -/
def undecided (s : Hosting) (p : Ptr) : Bool :=
  (s.engine.heap.promise? p).any fun r => !r.resolved

theorem request_heap (s : Hosting) (r : Request) :
    (s.step (.request r)).engine.heap = (outcome (Engine.perform r) s.engine).2.heap :=
  rfl

theorem capability_heap (s : Hosting) (out : Addr) :
    (s.step (.request (.newPromiseCapability out))).engine.heap = s.engine.heap.newCapability.2 := by
  have performed : Engine.perform (.newPromiseCapability out) = Engine.newPromiseCapability out := rfl
  rw [request_heap, performed, Engine.newPromiseCapability_heap]

theorem request_tasks (s : Hosting) (r : Request) : (s.step (.request r)).tasks = s.tasks :=
  rfl

theorem enter_tasks (s : Hosting) (hands : Scalar -> List Ptr) (r : Stage × Engine) :
    (s.enter hands r).tasks = r.1.tasks ++ s.tasks :=
  congrArg Prod.fst (enter_state s hands r)

end Hosting

namespace Grove

variable {f : Grove} {s : Hosting} {m : Move} {p : Ptr} {h h' : Heap} {outside : List Ptr}

/-- What a move adds to a grove. -/
def tend (f : Grove) (s : Hosting) : Move -> Grove
  | .request (.newPromiseCapability _) => f.sprout s.engine.heap.newPromise.1
  | .request (.promiseThen q _ _) =>
      let p := s.engine.heap.newPromise.1
      if s.engine.heap.isPromise q then (f.sprout p).hang p q else f
  | m =>
      match s.resolving m with
      | some (p, v, reject) =>
          if !s.undecided p then f
          else if f.root = some p then { f with outcome := some (s.engine.heap.verdict p v reject) }
          else f.hang p v
      | none => f

/-- Which moves are made while a grove grows. Reactions come without handlers, the root is settled at once,
and other promises are resolved with promises of the grove. -/
def Tends (f : Grove) (s : Hosting) : Move -> Prop
  | .request (.promiseThen q onFulfilled onRejected) =>
      s.engine.heap.isPromise q = true -> q ∈ f.planted ∧ onFulfilled = none ∧ onRejected = none
  | .request r => r.clears = false
  | .job => False
  | m => ∀ p v reject, s.resolving m = some (p, v, reject) -> s.undecided p = true ->
      p ∈ f.planted ∧
        if f.root = some p then reject = true ∨ v = p ∨ s.engine.heap.isPromise v = false
        else reject = false ∧ v ≠ p ∧ v ∈ f.planted ∧ s.engine.heap.isPromise v = true

/-- A grove in the hands of a host that runs no job. -/
structure Tended (f : Grove) (s : Hosting) : Prop where
  sound : s.Sound .owning
  steady : Steady s.state
  calm : s.tasks = []
  grown : f.Grown s.engine.heap.affairs

/-- A step that is not about the grove. -/
theorem Grown.idle (grown : f.Grown h.affairs) (counted : Heap.Counted h.cells) (a : Heap.Accounted 0 outside h')
    (less : h.Forgets h') (stays : h.Stays h') : f.Grown h'.affairs :=
  grown.forget less (Heap.lasting a (Heap.big_of_promise counted) (stays counted))

namespace Tended

variable (tended : f.Tended s) (allowed : s.Allowed .owning m)

include tended

theorem counted : Heap.Counted s.engine.heap.cells :=
  tended.sound.heap.counted

include allowed

theorem fit : Hosting.Fit .owning s m :=
  ⟨tended.sound, allowed, .inl rfl, tended.steady⟩

/-- Only the grove itself has to be seen to. -/
theorem next {f' : Grove} (calm : (s.step m).tasks = []) (grown : f'.Grown (s.step m).engine.heap.affairs) :
    f'.Tended (s.step m) :=
  ⟨Hosting.step_sound tended.sound allowed, Hosting.step_steady (tended.fit allowed), calm, grown⟩

theorem idle (calm : (s.step m).tasks = []) (less : s.engine.heap.Forgets (s.step m).engine.heap)
    (stays : s.engine.heap.Stays (s.step m).engine.heap) : f.Tended (s.step m) :=
  tended.next allowed calm
    (tended.grown.idle tended.counted (Hosting.step_sound tended.sound allowed).heap less stays)

theorem same (calm : (s.step m).tasks = []) (heap : (s.step m).engine.heap = s.engine.heap) : f.Tended (s.step m) :=
  tended.idle allowed calm (heap ▸ .refl _) (heap ▸ (Heap.Keeps.refl _).stays)

end Tended

/-- A new promise has a pointer that nothing refers to. -/
theorem Tended.unknown (tended : f.Tended s) {n : Nat} (later : s.engine.heap.next ≤ n)
    (big : Ptr.firstCounted ≤ UInt32.ofNat n) (absent : s.engine.heap.cells.get? (UInt32.ofNat n) = none) :
    UInt32.ofNat n ∉ targets ([], s.engine.heap.affairs) :=
  (tended.sound.heap.unknown later big absent (.inl rfl) (o := []) nofun).target

theorem Tended.capability (tended : f.Tended s) {out : Addr} (allowed : s.Allowed .owning (.request (.newPromiseCapability out))) :
    (f.sprout s.engine.heap.newPromise.1).Tended (s.step (.request (.newPromiseCapability out))) := by
  have sound := Hosting.step_sound tended.sound allowed
  refine tended.next allowed ((Hosting.request_tasks s _).trans tended.calm) ?_
  have fresh : s.engine.heap.Keeps s.engine.heap.newPromise.2 := Heap.keeps_insert s.engine.heap rfl
  have counted := fresh.counted tended.counted
  have sprouted : (f.sprout s.engine.heap.newPromise.1).Grown s.engine.heap.newPromise.2.affairs := by
    rcases Heap.newPromise_cases s.engine.heap with ⟨n, later, big, absent, pointer, begun⟩ | full
    next =>
      rw [pointer, begun]
      refine tended.grown.sprout (tended.unknown later big absent) ?_
      rintro zero
      exact absurd big (by rw [zero]; decide)
    next =>
      rw [full]
      exact tended.grown
  rw [Hosting.capability_heap]
  have kept := (Heap.newPromise_keeps s.engine.heap).promise counted
  have empowers := Heap.newCapability_empowers s.engine.heap
  generalize s.engine.heap.newCapability.2 = h at *
  -- The functions of the promise do not matter to the grove.
  have unable := sprouted.forget empowers.forgets fun p _ alive => by
    simpa only [Heap.affairs, Heap.get?_promises, Heap.isPromise] using
      kept p (by simpa only [Heap.affairs, Heap.get?_promises, Heap.isPromise] using alive)
  exact unable.congr rfl rfl

theorem Tended.andThen (tended : f.Tended s) {q : Ptr} (allowed : s.Allowed .owning (.request (.promiseThen q none none)))
    (member : q ∈ f.planted) (promise : s.engine.heap.isPromise q = true) :
    ((f.sprout s.engine.heap.newPromise.1).hang s.engine.heap.newPromise.1 q).Tended
      (s.step (.request (.promiseThen q none none))) := by
  refine tended.next allowed ((Hosting.request_tasks s _).trans tended.calm) ?_
  have made : (s.step (.request (.promiseThen q none none))).engine.heap = (s.engine.heap.andThen q none none).2 := by
    have performed : Engine.perform (.promiseThen q none none) = Engine.promiseThen q none none := rfl
    rw [Hosting.request_heap, performed]
    simp only [Engine.promiseThen, outcome_bind, Engine.outcome_readHeap, promise, if_true]
    rfl
  obtain ⟨y, found⟩ := Option.isSome_iff_exists.1 promise
  have big := Heap.big_of_promise tended.counted q promise
  rw [made]
  refine tended.grown.andThen ?_ member found fun n => tended.unknown
  rintro rfl
  exact absurd big (by decide)

theorem Tended.request (tended : f.Tended s) {r : Request} (allowed : s.Allowed .owning (.request r))
    (tends : f.Tends s (.request r)) : (f.tend s (.request r)).Tended (s.step (.request r)) := by
  have plain (forgetful : Engine.Forgetful (Engine.perform r)) (staying : Engine.Staying (Engine.perform r)) :
      f.Tended (s.step (.request r)) :=
    tended.idle allowed ((Hosting.request_tasks s _).trans tended.calm) (forgetful s.engine) (staying s.engine)
  cases r with
  | newPromiseCapability out => exact tended.capability allowed
  | promiseThen q onFulfilled onRejected =>
    simp only [tend]
    cases promise : s.engine.heap.isPromise q with
    | true =>
      obtain ⟨member, rfl, rfl⟩ := tends promise
      exact tended.andThen allowed member promise
    | false =>
      have performed : Engine.perform (.promiseThen q onFulfilled onRejected) = Engine.promiseThen q onFulfilled onRejected := rfl
      have failed : (s.step (.request (.promiseThen q onFulfilled onRejected))).engine.heap =
          s.engine.heap.raiseMessage "then called on a non-promise value" := by
        rw [Hosting.request_heap, performed]
        simp only [Engine.promiseThen, outcome_bind, Engine.outcome_readHeap, promise, Bool.false_eq_true, if_false,
          Engine.outcome_raising]
      refine tended.idle allowed ((Hosting.request_tasks s _).trans tended.calm) ?_ ?_ <;> rw [failed]
      · exact Heap.forgets_raiseMessage _ _
      · exact Heap.stays_raiseMessage _ _
  | takeRejectionEvents outCount =>
    have collected : f.Grown s.engine.heap.takeRejections.2.affairs := tended.grown.congr rfl rfl
    have stays := Engine.staying_takeRejectionEvents outCount s.engine
    have kept : s.engine.heap.takeRejections.2.Stays (ScriptHost.outcome (Engine.takeRejectionEvents outCount) s.engine).2.heap :=
      fun counted p value here there => stays counted p value here there
    have sound := (Hosting.step_sound tended.sound allowed).heap
    exact tended.next allowed ((Hosting.request_tasks s _).trans tended.calm)
      (collected.idle tended.counted sound (Engine.takeRejectionEvents_forgets outCount s.engine) kept)
  | freeContext => cases tends
  | freeRuntime => cases tends
  | _ => exact plain (Engine.perform_forgetful _ rfl) (Engine.perform_staying _ (by simp))

/-- A function of the promise is called. -/
theorem Tended.call (tended : f.Tended s) {function this : Ptr} {args : List Ptr} {table : Addr} {rest : List Waiting}
    {reject : Bool} (allowed : s.Allowed .owning (.poll false)) (tends : f.Tends s (.poll false))
    (waiting : s.waiting = .checking (.call function this args table) :: rest)
    (able : s.engine.heap.resolver? function = some (p, reject)) : (f.tend s (.poll false)).Tended (s.step (.poll false)) := by
  have target : s.resolving (.poll false) = some (p, args.head?.getD Ptr.undefined, reject) := by
    simp only [Hosting.resolving, waiting, Check.resolving, Check.called, able, Option.map_some]
  have heap : (s.step (.poll false)).engine.heap = s.engine.heap.callResolving p (args.head?.getD Ptr.undefined) reject := by
    simp only [Hosting.step, Hosting.poll, waiting, Hosting.enter_engine]
    exact Engine.runCall_resolving able
  have calm : (s.step (.poll false)).tasks = [] := by
    simp only [Hosting.step, Hosting.poll, waiting, Hosting.enter_tasks]
    refine List.append_eq_nil_iff.2 ⟨Engine.runCall_tasks _ _ _ _ _ _, ?_⟩
    have before := tended.calm
    simp only [Hosting.tasks, waiting, List.flatMap_cons, List.append_eq_nil_iff] at before
    exact before.2
  have due := tends p _ reject target
  generalize args.head?.getD Ptr.undefined = v at *
  simp only [tend, target]
  cases first : s.undecided p with
  | false =>
    refine tended.same allowed calm (heap.trans ?_)
    unfold Hosting.undecided at first
    unfold Heap.callResolving
    split
    next => rfl
    next r found =>
      have before : r.resolved = true := by simpa [found] using first
      rw [if_pos before]
  | true =>
    obtain ⟨r, found, flag⟩ := (Option.any_eq_true _ _).1 first
    have new : r.resolved = false := by simpa using flag
    have here : s.engine.heap.affairs.promises.get? p = some r := (Heap.get?_promises _ p).trans found
    obtain ⟨member, due⟩ := due first
    have sound := (Hosting.step_sound tended.sound allowed).heap
    refine tended.next allowed calm (heap ▸ ?_)
    rw [heap] at sound
    simp only [Bool.not_true, Bool.false_eq_true, if_false]
    by_cases root : f.root = some p
    next =>
      rw [if_pos root] at due ⊢
      have pending := (tended.steady.guarded function p reject r able here new).1
      by_cases self : v = p ∧ reject = false
      next =>
        obtain ⟨rfl, rfl⟩ := self
        exact tended.grown.refuseRoot found new tended.counted root pending sound
      next =>
        rw [Heap.verdict, if_neg self]
        refine tended.grown.settleRoot found new root pending ?_
        rcases due with rejecting | same | plain
        · exact .inl rejecting
        · exact .inl (by simpa using fun fulfilled => self ⟨same, fulfilled⟩)
        · exact .inr plain
    next =>
      rw [if_neg root] at due ⊢
      obtain ⟨rfl, apart, host, promise⟩ := due
      refine tended.grown.adopt found new member root apart ?_ host promise
      rintro rfl
      exact absurd (Heap.big_of_promise tended.counted 0 promise) (by decide)

theorem Tended.poll (tended : f.Tended s) {interrupted : Bool} (allowed : s.Allowed .owning (.poll interrupted))
    (tends : f.Tends s (.poll interrupted)) : (f.tend s (.poll interrupted)).Tended (s.step (.poll interrupted)) := by
  have stuck (same : s.step (.poll interrupted) = s) (nothing : s.resolving (.poll interrupted) = none) :
      (f.tend s (.poll interrupted)).Tended (s.step (.poll interrupted)) := by
    simp only [tend, nothing, same]
    exact tended
  cases waiting : s.waiting with
  | nil => exact stuck (by simp [Hosting.step, Hosting.poll, waiting]) (by cases interrupted <;> simp [Hosting.resolving, waiting])
  | cons w rest =>
    cases w with
    | calling i frame =>
      exact stuck (by simp [Hosting.step, Hosting.poll, waiting]) (by cases interrupted <;> simp [Hosting.resolving, waiting])
    | checking c =>
      have calm := tended.calm
      simp only [Hosting.tasks, waiting, List.flatMap_cons, Waiting.tasks, List.append_eq_nil_iff] at calm
      cases c with
      | job j => cases calm.1
      | handler j function => cases calm.1
      | call function this args table =>
        have other (idle : interrupted = true ∨ s.engine.heap.resolver? function = none) :
            (f.tend s (.poll interrupted)).Tended (s.step (.poll interrupted)) := by
          have nothing : s.resolving (.poll interrupted) = none := by
            rcases idle with rfl | unable
            · rfl
            · cases interrupted <;> simp [Hosting.resolving, waiting, Check.resolving, Check.called, unable]
          obtain ⟨less, stays⟩ := s.engine.runCall_calm this args table idle
          simp only [tend, nothing]
          refine tended.idle allowed ?_ ?_ ?_ <;> simp only [Hosting.step, Hosting.poll, waiting]
          · rw [Hosting.enter_tasks]
            exact List.append_eq_nil_iff.2 ⟨Engine.runCall_tasks _ _ _ _ _ _, calm.2⟩
          · rw [Hosting.enter_engine]
            exact less
          · rw [Hosting.enter_engine]
            exact stays
        cases interrupted with
        | true => exact other (.inl rfl)
        | false =>
          cases able : s.engine.heap.resolver? function with
          | none => exact other (.inr able)
          | some target => exact tended.call allowed tends waiting able

theorem Tended.answer (tended : f.Tended s) {p : Ptr} (allowed : s.Allowed .owning (.answer p)) :
    f.Tended (s.step (.answer p)) := by
  have calm := tended.calm
  cases waiting : s.waiting with
  | nil =>
    have stuck : s.step (.answer p) = s := by simp [Hosting.step, Hosting.answer, waiting]
    rw [stuck]
    exact tended
  | cons w rest =>
    cases w with
    | checking c =>
      have stuck : s.step (.answer p) = s := by simp [Hosting.step, Hosting.answer, waiting]
      rw [stuck]
      exact tended
    | calling i frame =>
      simp only [Hosting.tasks, waiting, List.flatMap_cons, Waiting.tasks, List.append_eq_nil_iff] at calm
      cases frame with
      | handler job table => cases calm.1
      | call =>
        have answered := s.engine.afterHost_bare p
        refine tended.idle allowed ?_ ?_ ?_ <;> simp only [Hosting.step, Hosting.answer, waiting, Hosting.tasks]
        · exact calm.2
        · exact answered.1
        · exact answered.2

theorem Tended.step (tended : f.Tended s) (allowed : s.Allowed .owning m) (tends : f.Tends s m) :
    (f.tend s m).Tended (s.step m) := by
  cases m with
  | request r => exact tended.request allowed tends
  | call function this count arguments =>
    obtain ⟨heap, tasks⟩ := Engine.beginCall_heap (s := s.engine) function this count arguments
    refine tended.same allowed ?_ ?_ <;> simp only [Hosting.step]
    · rw [Hosting.enter_tasks, tasks]
      exact tended.calm
    · rw [Hosting.enter_engine]
      exact heap
  | job => exact tends.elim
  | poll interrupted => exact tended.poll allowed tends
  | answer p => exact tended.answer allowed
  | install => exact tended.same allowed tended.calm rfl
  | allocate size => exact tended.same allowed tended.calm rfl
  | deallocate a => exact tended.same allowed tended.calm rfl
  | write a bytes => exact tended.same allowed tended.calm rfl

end Grove

end ScriptHost
