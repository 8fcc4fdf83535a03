import ScriptHost.Proofs.Engine.Decisions
import ScriptHost.Proofs.Engine.Planting

set_option autoImplicit false

/-!
What a call of a resolving function has made of its promise, seen later on when references have been let go.
-/

namespace ScriptHost

namespace Heap

variable {h h' h'' : Heap} {p q v : Ptr} {r y : PromiseRecord} {value : Value} {rejected reject : Bool}
variable {outside outside' : List Ptr}

/-- Values may be gone. Those that are left are what they were, no job has come or gone, and nothing has happened to
promises. -/
structure Sheds (h h' : Heap) : Prop where
  values : ∀ q value, h'.get? q = some value -> h.get? q = some value
  jobs : h'.jobs = h.jobs
  history : h'.history = h.history

theorem Sheds.refl (h : Heap) : h.Sheds h :=
  ⟨fun _ _ => id, rfl, rfl⟩

theorem Sheds.trans (first : h.Sheds h') (second : h'.Sheds h'') : h.Sheds h'' :=
  ⟨fun q value found => first.values q value (second.values q value found), second.jobs.trans first.jobs,
    second.history.trans first.history⟩

theorem Sheds.of_cells (cells : h'.cells = h.cells) (jobs : h'.jobs = h.jobs) (history : h'.history = h.history) :
    h.Sheds h' := by
  refine ⟨fun q value found => ?_, jobs, history⟩
  rwa [get?, cells] at found

theorem sheds_releaseAll (h : Heap) (ps : List Ptr) : h.Sheds (h.releaseAll ps) :=
  ⟨fun _ _ => get?_releaseAll, rfl, rfl⟩

theorem Accounted.counted (a : Accounted 0 outside h) : Counted h.cells :=
  fun p c found => ((a.balanced (.inl rfl)).counted p c found).imp_right And.left

/-- With no stale references only the cells and what is pending count. -/
theorem Accounted.still (a : Accounted 0 outside h) (cells : h'.cells = h.cells) (pending : h'.pending = h.pending) :
    Accounted 0 outside h' := by
  refine ⟨Nat.zero_le _, fun _ => ?_⟩
  rw [cells, pending]
  exact a.balanced (.inl rfl)

/-- What is referred to is there. -/
theorem Names.there (names : Names 0 h q) (big : Ptr.firstCounted ≤ q) :
    ∃ value, h.get? q = some value := by
  rcases names (.inl rfl) with small | ⟨c, found⟩ | stale
  · exact absurd big (UInt32.not_le.2 small)
  · exact ⟨c.value, get?_eq_some.2 ⟨c, found, rfl⟩⟩
  · exact absurd stale (Nat.not_lt_zero _)

theorem big_of_found (counted : Counted h.cells) (found : h.get? q = some value) : Ptr.firstCounted ≤ q := by
  obtain ⟨c, here, -⟩ := get?_eq_some.1 found
  exact (counted q c here).1

def settlement? (h : Heap) (p : Ptr) : Option Settlement :=
  (h.promise? p).map PromiseRecord.settlement

/-- Whether `p` takes up what `q` settles with. -/
def Passes (h : Heap) (q p : Ptr) : Prop :=
  ∃ r, h.promise? q = some r ∧
    match r.settlement with
    | .pending => ⟨p, none, none⟩ ∈ r.reactions
    | .fulfilled w => ⟨none, p, w, false⟩ ∈ h.jobs
    | .rejected w => ⟨none, p, w, true⟩ ∈ h.jobs

/-- What becomes of a promise that is resolved or rejected with a value. Zero stands for the error if every
pointer is in use. -/
structure Resolves (h : Heap) (p v : Ptr) (reject : Bool) (h' : Heap) : Prop where
  rejected : reject = true -> h'.settlement? p = some (.rejected v)
  fulfilled : reject = false -> v ≠ p -> h.isPromise v = false -> h'.settlement? p = some (.fulfilled v)
  refused : reject = false -> v = p -> ∃ e, h'.settlement? p = some (.rejected e) ∧
    (e = 0 ∨ h.get? e = none ∧ ∃ fields, h'.get? e = some (.object .error fields))
  adopted : reject = false -> v ≠ p -> h.isPromise v = true -> h'.settlement? p = some .pending ∧ h'.Passes v p

theorem get?_settled (found : h.promise? p = some r) (pending : r.settlement = .pending)
    (there : (h.settle p v rejected).get? q = some value) :
    (h.setValue p (.promise { r with settlement := .ofPayload rejected v, reactions := [] })).get? q = some value := by
  have told : ∀ y : Heap, (y.tell (.settled p v rejected)).get? q = y.get? q := fun _ => rfl
  simp only [settle, found, pending] at there
  have before := get?_enqueueAll there
  split at before <;> simpa only [get?_record, told, get?_retain] using before

theorem settled_value (found : h.promise? p = some r) (pending : r.settlement = .pending)
    (there : (h.settle p v rejected).get? p = some value) :
    value = .promise { r with settlement := .ofPayload rejected v, reactions := [] } := by
  have settled := get?_settled found pending there
  simp only [get?_setValue, if_true, promise?_eq_some.1 found, Option.map_some, Option.some.injEq] at settled
  exact settled.symm

theorem callResolving_first (found : h.promise? p = some r) (first : r.resolved = false) :
    h.callResolving p v reject =
      if reject then (h.setValue p (.promise { r with resolved := true })).settle p v true
      else (h.setValue p (.promise { r with resolved := true })).resolveWith p v := by
  simp only [callResolving, found, first, Bool.false_eq_true, if_false]

theorem settlement?_of_get? (found : h.get? p = some (.promise r)) : h.settlement? p = some r.settlement := by
  simp [settlement?, promise?_eq_some.2 found]

theorem settles (found : h.promise? p = some r) (pending : r.settlement = .pending)
    (sheds : (h.settle p v rejected).Sheds h') (there : h'.get? p = some value) :
    h'.settlement? p = some (.ofPayload rejected v) := by
  obtain rfl := settled_value found pending (sheds.values p value there)
  exact settlement?_of_get? there

theorem attach_passes (joined : h.promise? v = some y) (p : Ptr) :
    ∃ reactions, (∀ q value, (h.attach v ⟨p, none, none⟩).get? q = some value ->
        (h.setValue v (.promise { y with handled := true, reactions })).get? q = some value) ∧
      match y.settlement with
      | .pending => ⟨p, none, none⟩ ∈ reactions
      | .fulfilled w => ⟨none, p, w, false⟩ ∈ (h.attach v ⟨p, none, none⟩).jobs
      | .rejected w => ⟨none, p, w, true⟩ ∈ (h.attach v ⟨p, none, none⟩).jobs := by
  have told : ∀ x : PromiseRecord, ((h.tell (.reacted v)).setValue v (.promise x)).get? = (h.setValue v (.promise x)).get? :=
    fun _ => rfl
  cases settlement : y.settlement with
  | pending =>
    refine ⟨y.reactions ++ [⟨p, none, none⟩], fun q value found => ?_, by simp⟩
    simpa only [attach, Option.toList_none, List.append_nil, List.foldl_nil, joined, settlement, told] using found
  | fulfilled w =>
    refine ⟨y.reactions, fun q value found => ?_, ?_⟩
    · simp only [attach, Option.toList_none, List.append_nil, List.foldl_nil, joined, settlement] at found
      rw [← told]
      exact get?_enqueue found
    · simp [attach, joined, settlement, enqueue, Reaction.handler]
  | rejected w =>
    refine ⟨y.reactions, fun q value found => ?_, ?_⟩
    · simp only [attach, Option.toList_none, List.append_nil, List.foldl_nil, joined, settlement] at found
      have before := get?_enqueue found
      rw [← told]
      split at before
      next => exact before
      next => simpa only [get?_record] using before
    · simp [attach, joined, settlement, enqueue, Reaction.handler]

section Resolution

variable (found : h.promise? p = some r) (pending : r.settlement = .pending)
variable (there : h'.get? p = some value) {last : Value}

include found pending there

theorem resolves_self (a : Accounted 0 outside h') (counted : Counted h.cells) (sheds : (h.resolveWith p p).Sheds h') :
    ∃ e, h'.settlement? p = some (.rejected e) ∧
      (e = 0 ∨ h.get? e = none ∧ ∃ fields, h'.get? e = some (.object .error fields)) := by
  have here := promise?_eq_some.1 found
  simp only [resolveWith, if_true] at sheds
  rcases newError_plants counted selfResolution with
    ⟨e, text, n, -, big, -, absent', absent, apart, made⟩ | ⟨-, n, -, made⟩
  · rw [made] at sheds
    -- The error and its text are new, so the promise is neither of them.
    have other : ∀ k, h.cells.get? k = none -> k ≠ p := by
      rintro k none rfl
      simp [get?, none] at here
    let grown : Heap := { h with cells := withError h.cells e text selfResolution, next := n }
    have kept : grown.promise? p = some r := by
      refine promise?_eq_some.2 ?_
      simpa [grown, get?, withError, other e absent, other text absent'] using here
    have settled := (sheds_releaseAll (grown.settle p e true) [e]).trans sheds
    have outcome := settles kept pending settled there
    refine ⟨e, outcome, .inr ⟨by simp [get?, absent], Table.empty.set messageKey text, ?_⟩⟩
    obtain rfl := settled_value kept pending (settled.values p value there)
    obtain ⟨error, left⟩ := (a.names_child there (q := e) (by
      simp [Value.children, PromiseRecord.children, Settlement.ofPayload, Settlement.payload?])).there big
    have before := get?_settled kept pending (settled.values e error left)
    rw [get?_setValue, if_neg (Ne.symm (other e absent))] at before
    have new : grown.get? e = some (errorValue text) :=
      get?_eq_some.2 ⟨_, (withError_get? h.cells selfResolution apart).1, rfl⟩
    rw [left, ← before, new]
    rfl
  · rw [made] at sheds
    exact ⟨0, settles (h := { h with next := n }) found pending ((sheds_releaseAll _ [0]).trans sheds) there, .inl rfl⟩

theorem resolves_adopting (promise : h.promise? v = some y) (other : v ≠ p) (left : h'.get? v = some last)
    (sheds : (h.resolveWith p v).Sheds h') : h'.settlement? p = some .pending ∧ h'.Passes v p := by
  have joined : (h.retain p).promise? v = some y :=
    promise?_eq_some.2 ((get?_retain h p v).trans (promise?_eq_some.1 promise))
  obtain ⟨reactions, values, passes⟩ := attach_passes joined p
  have adopted : h.resolveWith p v = (h.retain p).attach v ⟨p, none, none⟩ := by
    simp only [resolveWith, other, if_false, isPromise, promise, Option.isSome_some, if_true]
  rw [adopted] at sheds
  have kept := values p value (sheds.values p value there)
  have marked := values v last (sheds.values v last left)
  simp only [get?_setValue, other, if_false, if_true, get?_retain, promise?_eq_some.1 found, promise?_eq_some.1 promise,
    Option.map_some, Option.some.injEq] at kept marked
  subst kept marked
  refine ⟨(settlement?_of_get? there).trans (congrArg some pending), _, promise?_eq_some.2 left, ?_⟩
  dsimp only
  rw [sheds.jobs]
  exact passes

end Resolution

/-- What was decided by the first call of a resolving function is still so when other references have been let
go, as long as the promise is there, and the value is referred to if it is a promise as well. -/
theorem callResolving_resolves (a : Accounted 0 outside h) (a' : Accounted 0 outside' h') (found : h.promise? p = some r)
    (first : r.resolved = false) (pending : r.settlement = .pending)
    (sheds : (h.callResolving p v reject).Sheds h') (there : h'.get? p = some value)
    (kept : h.isPromise v = true -> v ∈ outside') : h.Resolves p v reject h' := by
  have marked := promise?_marked found
  have counted : Counted (h.setValue p (.promise { r with resolved := true })).cells :=
    a.counted.modify (f := fun c => { c with value := .promise { r with resolved := true } }) (fun _ => Nat.le_refl _) p
  have same (other : v ≠ p) : (h.setValue p (.promise { r with resolved := true })).promise? v = h.promise? v := by
    simp only [promise?, get?_setValue, if_neg (Ne.symm other)]
  have fresh (e : Ptr) (absent : (h.setValue p (.promise { r with resolved := true })).get? e = none) : h.get? e = none := by
    rw [get?_setValue] at absent
    split at absent
    next => simpa using absent
    next => exact absent
  rw [callResolving_first found first] at sheds
  generalize h.setValue p (.promise { r with resolved := true }) = m at *
  constructor
  case rejected =>
    rintro rfl
    exact settles marked pending sheds there
  case fulfilled =>
    rintro rfl other plain
    have still : m.isPromise v = false := by rwa [isPromise, same other]
    simp only [resolveWith, other, still, Bool.false_eq_true, if_false] at sheds
    exact settles marked pending sheds there
  case refused =>
    rintro rfl rfl
    obtain ⟨e, outcome, new⟩ := resolves_self marked pending there a' counted sheds
    exact ⟨e, outcome, new.imp_right (And.imp_left (fresh e))⟩
  case adopted =>
    rintro rfl other promise
    obtain ⟨y, held⟩ := Option.isSome_iff_exists.1 promise
    obtain ⟨last, left⟩ := (a'.names (kept promise)).there (big_of_found a.counted (promise?_eq_some.1 held))
    exact resolves_adopting marked pending there ((same other).trans held) other left sheds

theorem Resolves.released (resolves : (h.retain q).Resolves p v reject h') : h.Resolves p v reject h' := by
  have same : (h.retain q).isPromise v = h.isPromise v := by
    simp only [isPromise, promise?, get?_retain]
  refine ⟨resolves.rejected, fun no other plain => resolves.fulfilled no other (same ▸ plain), fun no self => ?_,
    fun no other promise => resolves.adopted no other (same ▸ promise)⟩
  obtain ⟨e, outcome, new⟩ := resolves.refused no self
  exact ⟨e, outcome, new.imp_right (And.imp_left (get?_retain h q e).symm.trans)⟩

section Concluding

/-- The promise has settled, just once, and its reactions have become jobs. -/
structure Concludes (h : Heap) (p v : Ptr) (reject : Bool) (r : PromiseRecord) (h' : Heap) : Prop where
  value : ∀ value, h'.get? p = some value ->
    value = .promise { r with settlement := .ofPayload reject v, reactions := [], resolved := true }
  jobs : h'.jobs = h.jobs ++ r.reactions.map fun x => x.job v reject
  history : h'.history = .settled p v reject :: h.history

theorem Concludes.released (concludes : (h.retain q).Concludes p v reject r h') : h.Concludes p v reject r h' :=
  ⟨concludes.value, concludes.jobs, concludes.history⟩

theorem Concludes.sheds (concludes : h.Concludes p v reject r h') (sheds : h'.Sheds h'') : h.Concludes p v reject r h'' where
  value value found := concludes.value value (sheds.values p value found)
  jobs := sheds.jobs.trans concludes.jobs
  history := sheds.history.trans concludes.history

theorem enqueueAll_jobs (h : Heap) (xs : List Reaction) (v : Ptr) (rejected : Bool) :
    (h.enqueueAll xs v rejected).jobs = h.jobs ++ xs.map fun x => x.job v rejected := by
  induction xs generalizing h with
  | nil => simp [enqueueAll]
  | cons x rest ih =>
    refine (ih (h.enqueue x v rejected)).trans ?_
    simp [enqueue, Reaction.job, releaseAll, retain]

theorem enqueueAll_history (h : Heap) (xs : List Reaction) (v : Ptr) (rejected : Bool) :
    (h.enqueueAll xs v rejected).history = h.history := by
  induction xs generalizing h with
  | nil => rfl
  | cons x rest ih => exact ih (h.enqueue x v rejected)

theorem settle_concludes (found : h.promise? p = some r) (pending : r.settlement = .pending) (marked : r.resolved = true)
    (v : Ptr) (rejected : Bool) : h.Concludes p v rejected r (h.settle p v rejected) := by
  obtain ⟨m, settled, told⟩ := settle_enqueues found pending v rejected
  have jobs : m.jobs = h.jobs := congrArg Affairs.jobs told
  have history : m.history = .settled p v rejected :: h.history := congrArg Affairs.history told
  refine ⟨fun value there => ?_, ?_, ?_⟩
  · rw [settled_value found pending there, ← marked]
  · rw [settled, enqueueAll_jobs, jobs]
  · rw [settled, enqueueAll_history, history]

/-- The first call of a function of a promise, with a value that is no promise, settles it. -/
theorem callResolving_concludes (found : h.promise? p = some r) (first : r.resolved = false) (pending : r.settlement = .pending)
    (plain : h.isPromise v = false) (reject : Bool) : h.Concludes p v reject r (h.callResolving p v reject) := by
  have other : v ≠ p := by
    rintro rfl
    simp [isPromise, found] at plain
  have still : (h.setValue p (.promise { r with resolved := true })).isPromise v = false := by
    rwa [isPromise, promise?, get?_setValue, if_neg (Ne.symm other)]
  have settled := settle_concludes (promise?_marked found) pending rfl v reject
  rw [callResolving_first found first]
  cases reject with
  | true => exact ⟨settled.value, settled.jobs, settled.history⟩
  | false =>
    simp only [resolveWith, other, still, Bool.false_eq_true, if_false]
    exact ⟨settled.value, settled.jobs, settled.history⟩

end Concluding

section Exception

theorem exception_insert (h : Heap) (value : Value) : (h.insert value).2.exception = h.exception := by
  rcases insert_cases h value with ⟨n, -, -, -, made⟩ | full
  · rw [made]
  · rw [full]
    rfl

theorem exception_enqueueAll (h : Heap) (xs : List Reaction) (v : Ptr) (rejected : Bool) :
    (h.enqueueAll xs v rejected).exception = h.exception := by
  induction xs generalizing h with
  | nil => rfl
  | cons x rest ih => exact ih (h.enqueue x v rejected)

theorem exception_settle (h : Heap) (p v : Ptr) (rejected : Bool) : (h.settle p v rejected).exception = h.exception := by
  unfold settle
  split
  next => rfl
  next =>
    split
    next =>
      rw [exception_enqueueAll]
      split <;> rfl
    next => rfl

theorem exception_attach (h : Heap) (p : Ptr) (x : Reaction) : (h.attach p x).exception = h.exception := by
  have retained (ps : List Ptr) (h : Heap) : (ps.foldl retain h).exception = h.exception := by
    induction ps generalizing h with
    | nil => rfl
    | cons q rest ih => exact ih (h.retain q)
  have before := retained (x.onFulfilled.toList ++ x.onRejected.toList) h
  unfold attach
  generalize (x.onFulfilled.toList ++ x.onRejected.toList).foldl retain h = m at *
  dsimp only
  split
  next => exact before
  next =>
    split
    next => exact before
    next => exact before
    next => split <;> exact before

theorem exception_callResolving (h : Heap) (p v : Ptr) (reject : Bool) :
    (h.callResolving p v reject).exception = h.exception := by
  unfold callResolving
  split
  next => rfl
  next r _ =>
    split
    next => rfl
    next =>
      have marked : (h.setValue p (.promise { r with resolved := true })).exception = h.exception := rfl
      generalize h.setValue p (.promise { r with resolved := true }) = m at *
      dsimp only
      split
      next => exact (exception_settle m p v true).trans marked
      next =>
        unfold resolveWith
        split
        next =>
          have made : (m.newError selfResolution).2.exception = m.exception :=
            (exception_insert _ _).trans (exception_insert m _)
          exact (exception_settle _ p _ true).trans (made.trans marked)
        next =>
          split
          next => exact (exception_attach (m.retain p) v _).trans marked
          next => exact (exception_settle m p v false).trans marked

end Exception

/-- A call with a value that is no promise changes nothing but the promise. -/
theorem get?_callResolving (plain : h.isPromise v = false) (other : p ≠ q)
    (there : (h.callResolving p v reject).get? q = some value) : h.get? q = some value := by
  unfold callResolving at there
  split at there
  next => exact there
  next r found =>
    split at there
    next => exact there
    next =>
      have apart : v ≠ p := by
        rintro rfl
        simp [isPromise, found] at plain
      have marked : (h.setValue p (.promise { r with resolved := true })).get? q = h.get? q := by
        rw [get?_setValue, if_neg other]
      have still : (h.setValue p (.promise { r with resolved := true })).isPromise v = false := by
        rw [isPromise, promise?, get?_setValue, if_neg (Ne.symm apart)]
        exact plain
      generalize h.setValue p (.promise { r with resolved := true }) = m at *
      rw [← marked]
      dsimp only at there
      split at there
      next => exact get?_settle other there
      next =>
        simp only [resolveWith, apart, still, Bool.false_eq_true, if_false] at there
        exact get?_settle other there

/-- A tree of values lasts as long as its roots are referred to. -/
theorem Forest.lasts {cells : Cells} {ps ks : List Ptr} (forest : Forest cells ps ks) (counted : Counted cells)
    (a : Accounted 0 outside h')
    (kept : ∀ k ∈ ks, ∀ c, cells.get? k = some c -> ∀ value, h'.get? k = some value -> value = c.value)
    (roots : ∀ p ∈ ps, Names 0 h' p) : ∀ k ∈ ks, ∀ c, cells.get? k = some c -> h'.get? k = some c.value := by
  induction forest with
  | nothing => simp
  | constant _ _ ih => exact ih kept fun p member => roots p (List.mem_cons_of_mem _ member)
  | @cell p ps ks c found sole _ ih =>
    obtain ⟨value, there⟩ := (roots p List.mem_cons_self).there (counted p c found).1
    obtain rfl := kept p List.mem_cons_self c found value there
    have below := ih (fun k member => kept k (List.mem_cons_of_mem p member)) fun q member => by
      rcases List.mem_append.1 member with child | other
      · exact a.names_child there child
      · exact roots q (List.mem_cons_of_mem p other)
    intro k member d here
    rcases List.mem_cons.1 member with rfl | later
    · obtain rfl := Option.some.inj (found.symm.trans here)
      exact there
    · exact below k later d here

end Heap

end ScriptHost
