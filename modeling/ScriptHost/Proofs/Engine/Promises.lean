import ScriptHost.Proofs.Engine.Ownership

set_option autoImplicit false

/-!
Who owns the references that settling, reactions and jobs pass on.

A job takes over what its reaction held, but for one handler, which is freed before the argument gets its
new reference. So the argument has to be kept by someone else than that handler.
-/

namespace ScriptHost

namespace Heap

variable {stale : Nat} {outside : List Ptr} {h : Heap} {p q u v : Ptr} {value : Value}
  {r : Reaction} {known : PromiseRecord} {rejected : Bool}

theorem promise?_eq_some : h.promise? p = some known ↔ h.get? p = some (.promise known) := by
  unfold promise?
  split
  next found => simp [found]
  next other => simpa using fun same => other known same

@[simp] theorem get?_setValue (h : Heap) (p q : Ptr) (v : Value) :
    (h.setValue p v).get? q = if p = q then (h.get? q).map fun _ => v else h.get? q := by
  unfold get? setValue
  simp only [Table.get?_modify]
  split
  next => simp [Function.comp_def]
  next => rfl

/-- Freeing one reference does not remove the value. -/
def Spared (stale : Nat) (h : Heap) (u : Ptr) : Prop :=
  Numbered stale h -> ∀ c, h.cells.get? u = some c -> 2 ≤ c.refs

theorem spared_retain_self (a : Accounted stale outside h) : Spared stale (h.retain u) u := by
  intro numbered c found
  simp only [Heap.retain, Table.get?_modify, if_true, Option.map_eq_some_iff] at found
  obtain ⟨d, here, rfl⟩ := found
  have := (a.balanced numbered).counted u d here
  dsimp only
  omega

theorem spared_retain (spared : Spared stale h u) : Spared stale (h.retain q) u := by
  intro numbered c found
  simp only [Heap.retain, Table.get?_modify] at found
  split at found
  next =>
    obtain ⟨d, here, rfl⟩ := Option.map_eq_some_iff.1 found
    have := spared numbered d here
    dsimp only
    omega
  next => exact spared numbered c found

theorem spared_setValue (spared : Spared stale h u) : Spared stale (h.setValue q value) u := by
  intro numbered c found
  simp only [Heap.setValue, Table.get?_modify] at found
  split at found
  next =>
    obtain ⟨d, here, rfl⟩ := Option.map_eq_some_iff.1 found
    exact spared numbered d here
  next => exact spared numbered c found

theorem names_releaseAll_spared {handler : Option Ptr} (names : Names stale h p)
    (spared : ∀ u ∈ handler, Spared stale h u) : Names stale (h.releaseAll handler.toList) p := by
  intro numbered
  refine (names numbered).imp_right fun known => known.imp_left fun ⟨c, here⟩ => ?_
  cases handler with
  | none => exact ⟨c, by simpa [Heap.releaseAll, freeAll] using here⟩
  | some u =>
    simp only [Heap.releaseAll, Option.toList, freeAll]
    split
    next => exact ⟨c, here⟩
    next d there =>
      have more := spared u rfl numbered d there
      rw [if_neg (by omega), Table.get?_set]
      split
      next => exact ⟨_, rfl⟩
      next => exact ⟨c, here⟩

theorem count_handlers (r : Reaction) (rejected : Bool) (q : Ptr) :
    r.children.count q =
      (r.handler (!rejected)).toList.count q + ([r.derived].count q + (r.handler rejected).toList.count q) := by
  cases rejected <;>
    simp only [Reaction.children, Reaction.handler, List.count_cons, List.count_append, List.count_nil,
      Bool.not_false, Bool.not_true, if_true, Bool.false_eq_true, if_false] <;> omega

namespace Accounted

theorem freeUnused (a : Accounted stale (r.children ++ outside) h) (rejected : Bool) :
    Accounted stale (r.derived :: ((r.handler rejected).toList ++ outside))
      (h.releaseAll (r.handler (!rejected)).toList) := by
  refine releaseAll (a.congr fun q _ => ?_)
  simp only [List.count_append, List.count_cons, count_handlers r rejected, List.count_nil]
  omega

theorem enqueue (a : Accounted stale (r.children ++ outside) h)
    (names : Names stale (h.releaseAll (r.handler (!rejected)).toList) v) :
    Accounted stale outside (h.enqueue r v rejected) := by
  refine ((a.freeUnused rejected).retain names).shift rfl rfl fun q _ => ?_
  simp only [pending, Heap.enqueue, Heap.retain, Heap.releaseAll, Job.children, List.flatMap_append,
    List.flatMap_cons, List.flatMap_nil, List.count_append, List.count_cons, List.count_nil]
  omega

theorem enqueueAll (reactions : List Reaction)
    (a : Accounted stale (reactions.flatMap Reaction.children ++ outside) h)
    (lasting : Lasting stale outside v) : Accounted stale outside (h.enqueueAll reactions v rejected) := by
  induction reactions generalizing h with
  | nil => exact a
  | cons r rest ih =>
    rw [List.flatMap_cons, List.append_assoc] at a
    have kept := (lasting.append (rest.flatMap Reaction.children)).append
      (r.derived :: (r.handler rejected).toList)
    exact ih (a.enqueue ((a.freeUnused rejected).names_lasting kept))

theorem record (a : Accounted stale outside h) (promise : Names stale h p) (reason : Names stale h v)
    (handled : Bool) : Accounted stale outside (h.record p v handled) := by
  refine ((a.retain promise).retain (names_retain reason)).shift rfl rfl fun q _ => ?_
  simp only [pending, Heap.record, Heap.retain, Rejection.children, List.flatMap_append,
    List.flatMap_cons, List.flatMap_nil, List.count_append, List.count_cons, List.count_nil]
  omega

theorem tell (a : Accounted stale outside h) (x : Happening) : Accounted stale outside (h.tell x) :=
  a.shift rfl rfl fun _ _ => rfl

theorem settle (a : Accounted stale outside h) (lasting : Lasting stale outside v) :
    Accounted stale outside (h.settle p v rejected) := by
  unfold Heap.settle
  split
  next => exact a
  next record found =>
    have here := promise?_eq_some.1 found
    split
    next pending =>
      dsimp only
      -- The reactions leave the promise and are handed over to their jobs one by one.
      rw [retain_setValue]
      have settled : Accounted stale (record.reactions.flatMap Reaction.children ++ outside)
          ((h.retain v).setValue p (.promise
            { record with settlement := .ofPayload rejected v, reactions := [] })) := by
        refine (a.retain (a.names_lasting lasting)).setValue ((get?_retain h v p).trans here) fun q _ => ?_
        cases rejected <;>
          simp only [Value.children, PromiseRecord.children, Settlement.ofPayload, Settlement.payload?,
            pending, Option.toList, List.flatMap_nil, List.append_nil, List.nil_append,
            List.count_append, List.count_cons, List.count_nil, if_true, Bool.false_eq_true,
            if_false] <;> omega
      refine enqueueAll record.reactions ?_ lasting
      split
      next =>
        have kept : Names stale h p := names_of_found here
        exact (settled.tell _).record (names_setValue (names_retain kept))
          (settled.names_lasting (lasting.append _)) false
      next => exact settled.tell _
    next => exact a

theorem retainAll (ps : List Ptr) (a : Accounted stale outside h) (names : ∀ p ∈ ps, Names stale h p) :
    Accounted stale (ps ++ outside) (ps.foldl Heap.retain h) := by
  induction ps generalizing h outside with
  | nil => exact a
  | cons p rest ih =>
    have kept := ih (a.retain (names p List.mem_cons_self)) fun q member =>
      names_retain (names q (List.mem_cons_of_mem p member))
    refine kept.congr fun q _ => ?_
    simp only [List.count_append, List.count_cons]
    omega

end Accounted

@[simp] theorem get?_retainAll (ps : List Ptr) (h : Heap) (p : Ptr) :
    (ps.foldl retain h).get? p = h.get? p := by
  induction ps generalizing h with
  | nil => rfl
  | cons q rest ih => simp only [List.foldl_cons, ih, get?_retain]

theorem spared_foldl_retain (ps : List Ptr) (spared : Spared stale h u) :
    Spared stale (ps.foldl retain h) u := by
  induction ps generalizing h with
  | nil => exact spared
  | cons q rest ih => exact ih (spared_retain spared)

theorem spared_retainAll (ps : List Ptr) (a : Accounted stale outside h)
    (names : ∀ p ∈ ps, Names stale h p) (member : u ∈ ps) : Spared stale (ps.foldl retain h) u := by
  induction ps generalizing h outside with
  | nil => simp at member
  | cons p rest ih =>
    rcases List.mem_cons.1 member with rfl | later
    · exact spared_foldl_retain rest (spared_retain_self a)
    · refine ih (a.retain (names p List.mem_cons_self)) (fun q among => ?_) later
      exact names_retain (names q (List.mem_cons_of_mem p among))

theorem spared_record (spared : Spared stale h u) (handled : Bool) :
    Spared stale (h.record p v handled) u := by
  intro numbered
  exact spared_retain (spared_retain spared) numbered

theorem mem_handlers (r : Reaction) (rejected : Bool) (member : u ∈ r.handler rejected) :
    u ∈ r.onFulfilled.toList ++ r.onRejected.toList := by
  cases rejected <;> simp_all [Reaction.handler]

namespace Accounted

/-- The handlers have their new references already when one of them is freed again. -/
theorem attach (a : Accounted stale (r.derived :: outside) h) (found : h.get? p = some (.promise known))
    (names : ∀ u ∈ r.onFulfilled.toList ++ r.onRejected.toList, Names stale h u) :
    Accounted stale outside (h.attach p r) := by
  have taken := a.retainAll _ names
  have spared := fun u member => spared_retainAll (u := u) _ a names member
  have here := (get?_retainAll (r.onFulfilled.toList ++ r.onRejected.toList) h p).trans found
  unfold Heap.attach
  generalize (r.onFulfilled.toList ++ r.onRejected.toList).foldl Heap.retain h = s at *
  simp only [promise?_eq_some.2 here]
  replace taken := taken.tell (.reacted p)
  replace spared : ∀ u ∈ _, Spared stale (s.tell (.reacted p)) u := spared
  replace here : (s.tell (.reacted p)).get? p = _ := here
  generalize s.tell (.reacted p) = s at *
  have marked : Accounted stale (r.children ++ outside)
      (s.setValue p (.promise { known with handled := true })) := by
    refine taken.setValue here fun q _ => ?_
    simp only [Value.children, PromiseRecord.children, Reaction.children, List.count_append,
      List.count_cons]
    omega
  split
  next settlement pending =>
    refine taken.setValue here fun q _ => ?_
    simp only [Value.children, PromiseRecord.children, Reaction.children, List.flatMap_append,
      List.flatMap_cons, List.flatMap_nil, List.count_append, List.count_cons, List.count_nil]
    omega
  next settlement payload settled =>
    refine marked.enqueue (names_releaseAll_spared ?_ fun u unused => ?_)
    · exact names_setValue (taken.names_child here (by simp [Value.children, PromiseRecord.children, settled, Settlement.payload?]))
    · exact spared_setValue (spared u (mem_handlers r _ unused))
  next settlement reason settled =>
    have payload : Names stale s reason := taken.names_child here (by
      simp [Value.children, PromiseRecord.children, settled, Settlement.payload?])
    split
    next =>
      refine marked.enqueue (names_releaseAll_spared (names_setValue payload) fun u unused => ?_)
      exact spared_setValue (spared u (mem_handlers r _ unused))
    next =>
      have kept : Names stale s p := names_of_found here
      refine (marked.record (names_setValue kept) (names_setValue payload) true).enqueue
        (names_releaseAll_spared ?_ fun u unused => ?_)
      · exact names_retain (names_retain (names_setValue payload))
      · exact spared_record (spared_setValue (spared u (mem_handlers r _ unused))) true

theorem resolveWith (a : Accounted stale outside h) (promise : Names stale h p)
    (lasting : Lasting stale outside v) : Accounted stale outside (h.resolveWith p v) := by
  unfold Heap.resolveWith
  split
  next =>
    have failed := a.newError selfResolution
    exact (failed.settle (.inr (.inl List.mem_cons_self))).release
  next =>
    split
    next adopted =>
      obtain ⟨known, found⟩ := Option.isSome_iff_exists.1 adopted
      have here := (get?_retain h p v).trans (promise?_eq_some.1 found)
      have passing : Accounted stale ((Reaction.mk p none none).derived :: outside) (h.retain p) :=
        a.retain promise
      exact passing.attach here (by simp)
    next => exact a.settle lasting

theorem callResolving (a : Accounted stale outside h) (lasting : Lasting stale outside v)
    (reject : Bool) : Accounted stale outside (h.callResolving p v reject) := by
  unfold Heap.callResolving
  split
  next => exact a
  next known found =>
    have here := promise?_eq_some.1 found
    split
    next => exact a
    next =>
      have marked : Accounted stale outside
          (h.setValue p (.promise { known with resolved := true })) :=
        a.setValue here fun q _ => by simp only [Value.children, PromiseRecord.children]
      dsimp only
      split
      next => exact marked.settle lasting
      next =>
        have kept : Names stale h p := names_of_found here
        exact marked.resolveWith (names_setValue kept) lasting

theorem newPromise (a : Accounted stale outside h) :
    Accounted stale (h.newPromise.1 :: outside) h.newPromise.2 := by
  have given : Accounted stale ((Value.promise .fresh).children ++ outside) h := a
  exact given.insert

theorem newCapability (a : Accounted stale outside h) :
    Accounted stale
      (h.newCapability.1.1 :: h.newCapability.1.2.1 :: h.newCapability.1.2.2 :: outside)
      h.newCapability.2 := by
  -- Each resolving function holds a reference to the promise besides the one handed out.
  have first := a.newPromise
  have second : Accounted stale _ ((h.newPromise.2.retain h.newPromise.1).insert _).2 :=
    insert (v := .function "" (.resolve h.newPromise.1)) (first.retain (first.names List.mem_cons_self))
  refine (insert (v := .function "" (.reject h.newPromise.1))
    (second.retain (second.names (by simp)))).congr fun q _ => ?_
  simp only [Heap.newCapability, List.count_cons]
  omega

theorem andThen (a : Accounted stale outside h) (promise : h.isPromise p = true)
    {onFulfilled onRejected : Option Ptr}
    (names : ∀ u ∈ onFulfilled.toList ++ onRejected.toList, Names stale h u) :
    Accounted stale ((h.andThen p onFulfilled onRejected).1 :: outside)
      (h.andThen p onFulfilled onRejected).2 := by
  obtain ⟨known, found⟩ := Option.isSome_iff_exists.1 promise
  have unheld : (Value.promise .fresh).children = [] := rfl
  have made := a.newPromise
  have here : (h.newPromise.2.retain h.newPromise.1).get? p = some (.promise known) :=
    (get?_retain _ _ p).trans (get?_insert_of_found unheld (promise?_eq_some.1 found))
  have kept := made.retain (made.names List.mem_cons_self)
  have passing : Accounted stale
      ((Reaction.mk h.newPromise.1 onFulfilled onRejected).derived :: h.newPromise.1 :: outside)
      (h.newPromise.2.retain h.newPromise.1) := kept
  exact passing.attach here fun u member => names_retain (names_insert unheld (names u member))

theorem promiseResult {r : Ptr × Heap} (a : Accounted stale outside h)
    (answered : h.promiseResult p = some r) : Accounted stale (r.1 :: outside) r.2 := by
  unfold Heap.promiseResult at answered
  obtain ⟨known, found, rfl⟩ := Option.map_eq_some_iff.1 answered
  refine a.retain ?_
  cases settled : known.settlement.payload? with
  | none => exact names_small (show Ptr.undefined < Ptr.firstCounted by decide)
  | some v =>
    exact a.names_child (promise?_eq_some.1 found) (by
      simp [Value.children, PromiseRecord.children, settled])

theorem takeJob {job : Job} (a : Accounted stale outside h) (next : h.takeJob.1 = some job) :
    Accounted stale (job.children ++ outside) h.takeJob.2 := by
  unfold Heap.takeJob at *
  cases queue : h.jobs with
  | nil => simp [queue] at next
  | cons first rest =>
    obtain rfl : first = job := by simpa [queue] using next
    refine a.shift rfl rfl fun q _ => ?_
    simp only [pending, queue, List.flatMap_cons, List.count_append]
    omega

theorem finishJob {job : Job} (a : Accounted stale (job.children ++ outside) h) :
    Accounted stale outside (h.finishJob job) :=
  a.releaseAll

theorem takeRejections (a : Accounted stale outside h) :
    Accounted stale (h.takeRejections.1.flatMap Rejection.children ++ outside) h.takeRejections.2 := by
  refine a.shift rfl rfl fun q _ => ?_
  simp only [pending, Heap.takeRejections, List.flatMap_nil, List.nil_append, List.count_append]
  omega

end Accounted

end Heap

end ScriptHost
