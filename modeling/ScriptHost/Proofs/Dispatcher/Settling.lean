import ScriptHost.Proofs.Conversion.Tidy
import ScriptHost.Proofs.Dispatcher.Belongings

set_option autoImplicit false

/-!
Settling a deferred.

One of its two functions is called, by a handle that is made for the call. Whatever ends the attempt early,
everything is as it was. If the call returns, the promise has been resolved or rejected and the functions
are let go.
-/

namespace ScriptHost

namespace Deferred

def capability (d : Deferred) (fulfil : Bool) : Option Handle :=
  if fulfil then d.resolve else d.reject

end Deferred

namespace Desk

variable {s t u : Desk} {c v x : Handle} {q p : Ptr} {n : ReferenceId} {reject fulfil : Bool} {polls : Option Nat}
variable {others : List Ptr} {id : DeferredId} {d : Deferred} {l : Link}

/-- There is one more handle, of what this one refers to, for a call. -/
def calling (s : Desk) (c : Handle) : Desk :=
  (s.withLink (s.link.retaining c.ptr)).owning

theorem gained_calling (s : Desk) (c : Handle) : s.Gained (s.calling c) (s.fresh c.ptr) s.vault.nextReference :=
  ((Kept.refl s).withLink _).gained c.ptr

/-- Only counters may have moved on, and polls have been answered. -/
structure Restored (s t : Desk) : Prop extends Kept s t where
  link : ∃ polls, Link.Same (s.link.patient polls) t.link

/-- What a call of a function of `p` with one argument comes to, when the handle it was called by is gone. -/
inductive Attempted (s : Desk) (q p : Ptr) (v : Handle) (reject : Bool) : Except Error Settled -> Desk -> Prop
  | failed {e : Error} {t : Desk} (restored : s.Restored t) : Attempted s q p v reject (.error e) t
  | threw {x : Handle} {text : Ptr} {n : ReferenceId} {t : Desk} {polls : Option Nat} (gained : s.Gained t x n)
      (raised : Link.Raised (s.link.patient polls) Engine.interruptedText x.ptr text t.link) :
      Attempted s q p v reject (.ok (.failure (.live x))) t
  | returned {x : Handle} {n : ReferenceId} {t : Desk} {l : Link} {polls : Option Nat} (alive : v.isAlive s.vault = true)
      (gained : s.Gained t x n) (undefined : x.ptr = Ptr.undefined)
      (same : Link.Same (((s.link.retaining q).patient polls).resolving p v.ptr reject) l) (link : t.link = l.released q) :
      Attempted s q p v reject (.ok (.success (.live x))) t

theorem retained_restored (usable : s.Usable) (same : Link.Same ((s.link.retaining q).patient polls) l)
    (gained : s.Gained t x n) (pointer : x.ptr = q) (link : t.link = l) : s.Restored (t.discarding x) := by
  have ready := usable.ready.patient polls
  have same' : Link.Same ((s.link.patient polls).retaining q) l := same
  subst pointer link
  obtain ⟨kept, released⟩ := gained.discarding usable (same.1.faults.trans ready.clear)
  exact ⟨kept, polls, released ▸ same'.released ready⟩

/-- A deferred that nobody has settled. Besides its own references to values the host holds `others`. -/
structure Pending (id : DeferredId) (p : Ptr) (others : List Ptr) (d : Deferred) (s : Desk) : Prop where
  found : s.deferreds.get? id = some d
  held : 1 ≤ d.holders
  unsettled : d.settled = false
  promise : d.promise.map Handle.ptr = some p
  capable : ∀ fulfil, ∃ c n, d.capability fulfil = some c ∧ s.Owns c n ∧ s.heap.resolver? c.ptr = some (p, !fulfil)
  unresolved : ∃ record, s.heap.promise? p = some record ∧ record.settlement = .pending ∧ record.resolved = false
  sound : s.Sound (d.handles.map Handle.ptr ++ others)

/-- A handle that was made before. If it is alive, its value is kept besides by the functions of the promise. -/
structure Known (p : Ptr) (others : List Ptr) (s : Desk) (v : Handle) : Prop where
  earlier : ∀ m, v.reference = some m -> m < s.vault.nextReference
  kept : v.isAlive s.vault = true -> v.ptr < Ptr.firstCounted ∨ v.ptr ∈ p :: others

structure Done (s : Desk) (id : DeferredId) (p : Ptr) (others : List Ptr) (d : Deferred) (fulfil : Bool) (v : Ptr)
    (t : Desk) : Prop where
  deferreds : t.deferreds = s.deferreds.set id { d with settled := true, resolve := none, reject := none }
  config : t.config = s.config
  sound : ∃ more, t.Sound (more ++ p :: others)
  sheds : ∃ q, s.heap.get? q ≠ none ∧ ((s.heap.retain q).callResolving p v (!fulfil)).Sheds t.heap

/-- What an attempt to settle comes to. -/
inductive Settles (s : Desk) (id : DeferredId) (p : Ptr) (others : List Ptr) (d : Deferred) (fulfil : Bool) (v : Handle) :
    Except Error Unit -> Desk -> Prop
  | failed {e : Error} {t : Desk} (deferreds : t.deferreds = s.deferreds)
      (restored : Link.Legible s.link t.link -> s.Restored t) : Settles s id p others d fulfil v (.error e) t
  | done {t : Desk} (alive : v.isAlive s.vault = true) (done : s.Done id p others d fulfil v.ptr t) :
      Settles s id p others d fulfil v (.ok ()) t

theorem Pending.capabilities (pending : s.Pending id p others d) : ∃ c c' n n', d.resolve = some c ∧ d.reject = some c' ∧
    s.Owns c n ∧ s.Owns c' n' := by
  obtain ⟨c, n, held, owns, -⟩ := pending.capable true
  obtain ⟨c', n', held', owns', -⟩ := pending.capable false
  exact ⟨c, c', n, n', held, held', owns, owns'⟩

theorem Pending.count_handles (pending : s.Pending id p others d) {c c' : Handle} (resolve : d.resolve = some c)
    (reject : d.reject = some c') (q : Ptr) :
    (d.handles.map Handle.ptr ++ others).count q = (c.ptr :: c'.ptr :: p :: others).count q := by
  obtain ⟨h, promise, rfl⟩ := Option.map_eq_some_iff.1 pending.promise
  simp only [Deferred.handles, promise, resolve, reject, Option.toList_some, List.map_append, List.map_cons, List.map_nil,
    List.count_append, List.count_cons, List.count_nil]
  omega

theorem Pending.lasting (pending : s.Pending id p others d) (kept : q < Ptr.firstCounted ∨ q ∈ p :: others) :
    Heap.Lasting 0 (d.handles.map Handle.ptr ++ others) q := by
  obtain ⟨c, c', -, -, resolve, reject, -⟩ := pending.capabilities
  refine kept.imp_right fun member => .inl (List.count_pos_iff.1 ?_)
  have some := List.count_pos_iff.2 member
  rw [pending.count_handles resolve reject]
  simp only [List.count_cons] at some ⊢
  omega

/-- The call of a function of the promise has changed the heap as it should, and its handle is gone. -/
theorem resolved_sound {outside : List Ptr} (sound : s.Sound outside) (gained : s.Gained t x n)
    (same : Link.Same (((s.link.retaining q).patient polls).resolving p v.ptr reject) l) (link : t.link = l.released q)
    (found : s.heap.get? q ≠ none) (lasting : Heap.Lasting 0 (q :: outside) v.ptr) :
    t.Sound outside ∧ ((s.heap.retain q).callResolving p v.ptr reject).Sheds t.heap := by
  obtain ⟨value, here⟩ := Option.ne_none_iff_exists'.1 found
  have accounted : ((s.heap.retain q).callResolving p v.ptr reject).Accounted 0 (q :: outside) :=
    (sound.accounted.retain (Heap.names_of_found here)).callResolving lasting reject
  have ready : (((s.link.retaining q).patient polls).resolving p v.ptr reject).Ready :=
    ⟨sound.ready.clear, sound.ready.memory, accounted.counted,
      (Heap.exception_callResolving _ _ _ _).trans sound.ready.calm⟩
  have accounted' : l.engine.heap.Accounted 0 (q :: outside) := accounted.still same.2 same.1.pending
  have ready' := same.ready ready
  have released : (l.released q).engine.heap.Accounted 0 outside := accounted'.release
  have ready'' : (l.released q).Ready := ⟨ready'.clear, ready'.memory, released.counted, ready'.calm⟩
  refine ⟨⟨sound.more gained (link ▸ ready''), ?_⟩, (Heap.Sheds.of_cells same.2 same.1.jobs same.1.history).trans ?_⟩
  · rwa [Desk.heap, link]
  · rw [Desk.heap, link]
    exact Heap.sheds_releaseAll _ _

theorem Gained.threw_restored {text : Ptr} {polls : Option Nat} (gained : s.Gained t x n) (usable : s.Usable)
    (raised : Link.Raised (s.link.patient polls) Engine.interruptedText x.ptr text t.link) (clear : l.faults = Table.empty)
    (same : Link.Legible t.link l -> Link.Same t.link l)
    (legible : Link.Legible s.link ((t.withLink l).discarding x).link) : s.Restored ((t.withLink l).discarding x) := by
  obtain ⟨kept, released⟩ := (gained.withLink l).discarding usable clear
  rw [released] at legible
  have room : Link.Legible (s.link.patient polls) l := ⟨legible.spare, legible.last⟩
  exact ⟨kept, polls, released ▸ raised.undone (usable.ready.patient polls) (same (room.after raised.changed))⟩

end Desk

namespace Runner

open Desk

variable {r : Runner} {s t : Desk} {c v x : Handle} {q p : Ptr} {n : ReferenceId} {reject fulfil : Bool}
variable {others : List Ptr} {id : DeferredId} {d : Deferred} {l : Link} {polls : Option Nat}

theorem yields_duplicated (usable : s.Usable) (owns : s.Owns c n) {value : Value} (found : s.heap.get? c.ptr = some value) :
    r.Yields (Attempt.duplicate c).run s (.ok (s.fresh c.ptr)) (s.calling c) := by
  have made := yields_duplicate (r := r) (s := s) c
  obtain ⟨cell, here, -⟩ := Heap.get?_eq_some.1 found
  have big := (usable.ready.counted c.ptr cell here).1
  rwa [Handle.duplicate_granted owns.isAlive usable.opened (Link.direct_of_faultless usable.ready.clear _)
    (Heap.contains_iff.2 (.inr ⟨cell, here⟩)) (Link.nonzero_of_big big)] at made

section Calling

variable {value : Value}

theorem usable_calling (usable : s.Usable) (found : s.heap.get? c.ptr = some value) : (s.calling c).Usable := by
  obtain ⟨cell, here, -⟩ := Heap.get?_eq_some.1 found
  refine usable.more (s.gained_calling c) ⟨usable.ready.clear, usable.ready.memory, ?_, usable.ready.calm⟩
  exact usable.ready.counted.modify (fun _ => Nat.le_succ _) _

theorem isAlive_calling (known : ∀ m, v.reference = some m -> m < s.vault.nextReference) :
    v.isAlive (s.calling c).vault = v.isAlive s.vault := by
  cases reference : v.reference with
  | none => simp [Handle.isAlive, reference]
  | some m =>
    have other : m ≠ s.vault.nextReference := Nat.ne_of_lt (known m reference)
    simp [Handle.isAlive, reference, (s.gained_calling c).alive, other]

theorem resolver_calling (able : s.heap.resolver? c.ptr = some (p, reject)) :
    (s.calling c).heap.resolver? c.ptr = some (p, reject) := by
  change (s.heap.retain c.ptr).resolver? c.ptr = _
  rw [Heap.resolver?, Heap.get?_retain]
  exact able

theorem yields_undefined (usable : s.Usable) :
    r.Yields (Attempt.withLink "undefined" Link.undefined).run s (.ok Ptr.undefined) s := by
  have asked := yields_withLink (r := r) usable.opened "undefined" Link.undefined
  rwa [Link.answered_undefined usable.ready.clear] at asked

theorem yields_rawAll_one (alive : v.isAlive s.vault = true) : r.Yields (Attempt.rawAll [v]).run s (.ok [v.ptr]) s :=
  brings_after (yields_raw_alive alive) (brings_after (yields_pure []) (yields_pure _))

end Calling

theorem brings_calling (usable : s.Usable) (able : s.heap.resolver? c.ptr = some (p, reject))
    (known : ∀ m, v.reference = some m -> m < s.vault.nextReference) :
    r.Brings (Attempt.holding (s.fresh c.ptr) fun f => Attempt.call f none [v]).run (s.calling c)
      (s.Attempted c.ptr p v reject) := by
  obtain ⟨value, found, -⟩ := Option.bind_eq_some_iff.1 able
  refine brings_holding ?_
  let mid := s.calling c
  have gained : s.Gained mid (s.fresh c.ptr) s.vault.nextReference := s.gained_calling c
  have usable' : mid.Usable := usable_calling usable found
  have ready : mid.link.Ready := usable'.ready
  have still : v.isAlive mid.vault = v.isAlive s.vault := isAlive_calling known
  refine brings_after (yields_raw_alive gained.owns.isAlive) (brings_after (yields_undefined usable') ?_)
  by_cases alive : v.isAlive s.vault = true
  next =>
    refine brings_after (yields_rawAll_one (still.trans alive)) ?_
    refine brings_after (yields_checkAccess usable'.opened "call") ?_
    refine brings_attempt (brings_call ready (resolver_calling able)) ?_ ?_
    · rintro e _ ⟨polls, l, rfl, called⟩
      cases called with
      | refused same => exact .failed (retained_restored usable same (gained.withLink l) rfl rfl)
    · rintro a _ ⟨polls, l, rfl, called⟩
      -- The new handle stays when that of the call is discarded.
      have passing (q : Ptr) (clear : l.faults = Table.empty) :=
        gained.passing (((Kept.refl mid).withLink l).gained q) usable clear
      cases called with
      | @interrupted e text l raised =>
        obtain ⟨gained', link⟩ := passing e (raised.ready (ready.patient polls)).clear
        obtain ⟨cell, here, -⟩ := Heap.get?_eq_some.1 found
        have raised' : Link.Raised (s.link.patient polls) Engine.interruptedText e text (l.released c.ptr) :=
          Link.Raised.released raised (usable.ready.patient polls) here
        exact brings_after (yields_own e) (brings_pure (.threw gained' (link ▸ raised')))
      | resolved same =>
        obtain ⟨gained', link⟩ := passing Ptr.undefined (same.1.faults.trans ready.clear)
        exact brings_after (yields_own _) (brings_pure (.returned alive gained' rfl same link))
  next =>
    have dead : v.isAlive mid.vault = false := still.trans (by simpa using alive)
    have operands : r.Yields (Attempt.rawAll [v]).run mid (.error Handle.deadError) mid :=
      brings_failed (yields_raw_dead dead) ⟨rfl, rfl⟩
    exact brings_failed operands (.failed (retained_restored usable (Link.Same.refl ready) gained rfl rfl))

section Endings

variable (opened : t.vault.closed = false) (owns : t.Owns x n)

include opened owns

theorem yields_released (clear : t.link.faults = Table.empty) :
    r.Yields (Attempt.release x).run t (.ok ()) (t.discarding x) := by
  have released := yields_release (r := r) (s := t) x
  have gone : t.discarding x = t.withVault { t.vault.without x with link := t.link.released x.ptr } :=
    discarding_owned opened clear owns
  rwa [released_granted opened clear owns.isAlive owns.owned, ← gone] at released

/-- What a call returned or threw goes when it is disposed of. -/
theorem yields_disposed (clear : t.link.faults = Table.empty) (make : Slot Handle -> Settled)
    (discarded : WorldM.discardOutcome (make .transferred) = pure ())
    (disposed : (Outcome.dispose (make (.live x)) : WorldM (Ending × Settled)) = (do
      let (ending, slot) <- (Slot.live x).release
      pure (ending, make slot))) : r.Yields (Attempt.dispose (make (.live x))).run t (.ok ()) (t.discarding x) := by
  have released : r.Yields (Resource.release x : WorldM (Ending × Handle)) t (.done, x) (t.discarding x) :=
    brings_then (yields_released opened owns clear) (brings_pure ⟨rfl, rfl⟩)
  have slot : r.Yields (Slot.live x).release t (.done, .transferred) (t.discarding x) :=
    brings_then released (brings_pure ⟨rfl, rfl⟩)
  have gone : r.Yields (Outcome.dispose (make (.live x))) t (.done, make .transferred) (t.discarding x) :=
    disposed ▸ brings_then slot (brings_pure ⟨rfl, rfl⟩)
  refine brings_lifted gone ?_
  rintro _ _ ⟨rfl, rfl⟩
  refine brings_lifted (P := fun _ u => u = t.discarding x) (discarded ▸ brings_pure rfl) ?_
  rintro _ _ rfl
  exact yields_pure ()

/-- An exception that came of a call goes once its text has been taken. -/
theorem brings_threw (ready : t.link.Ready) (operation : String) :
    r.Brings (Attempt.returned operation (.failure (.live x))).run t fun a u => ∃ e l, a = .error e ∧
      l.faults = Table.empty ∧ u = (t.withLink l).discarding x ∧ (Link.Legible t.link l -> Link.Same t.link l) := by
  have text : r.Yields (Attempt.toText x).run t (Link.answered (Link.toText x.ptr) t.link).1
      (t.withLink (Link.answered (Link.toText x.ptr) t.link).2) :=
    brings_after (yields_raw_alive owns.isAlive) (yields_withLink opened "to string" _)
  have reads := Link.toText_reads ready x.ptr
  have clear := Link.answered_faultless (Link.toText x.ptr) ready.clear
  generalize Link.answered (Link.toText x.ptr) t.link = answer at *
  cases reads with
  | @ok l same _ =>
    have kept : r.Yields (Attempt.orDiscard (.failure (.live x)) (Attempt.toText x)).run t
        (.ok (Text.untilNul (t.link.engine.heap.display x.ptr))) (t.withLink l) := by
      refine brings_lifted text ?_
      rintro _ _ ⟨rfl, rfl⟩
      exact yields_pure _
    have gone := yields_disposed (r := r) (t := t.withLink l) opened ⟨owns.owned, owns.reference, owns.alive⟩ clear
      Outcome.failure rfl rfl
    exact brings_after kept (brings_after gone (brings_pure ⟨_, l, rfl, clear, rfl, fun _ => same⟩))
  | @error e l same _ =>
    have failed : r.Yields (Attempt.orDiscard (.failure (.live x)) (Attempt.toText x) : Attempt String).run t (.error e)
        ((t.withLink l).discarding x) := by
      refine brings_lifted text ?_
      rintro _ _ ⟨rfl, rfl⟩
      refine brings_lifted (yields_discardHandle x) ?_
      rintro _ _ ⟨-, rfl⟩
      exact brings_pure ⟨rfl, rfl⟩
    exact brings_failed failed ⟨e, l, rfl, clear, rfl, same⟩

end Endings

/-- When a call of a function of the promise has returned, the functions go, and so does what it returned. -/
theorem brings_concluded (pending : s.Pending id p others d) (known : s.Known p others v)
    (found : s.heap.get? c.ptr ≠ none) (alive : v.isAlive s.vault = true) (gained : s.Gained t x n)
    (undefined : x.ptr = Ptr.undefined)
    (same : Link.Same (((s.link.retaining c.ptr).patient polls).resolving p v.ptr (!fulfil)) l)
    (link : t.link = l.released c.ptr) :
    r.Brings (do
      match (<- WorldM.look).deferreds.get? id with
      | none => pure ()
      | some d =>
          WorldM.alter (.deferreds fun t => t.set id { d with settled := true, resolve := none, reject := none })
          WorldM.discardHandles (d.resolve.toList ++ d.reject.toList)
      Attempt.dispose (.success (.live x)) : Attempt Unit).run t
      fun a u => a = .ok () ∧ s.Done id p others d fulfil v.ptr u := by
  have usable := pending.sound.toUsable
  have lasting := (pending.lasting (known.kept alive)).append [c.ptr]
  obtain ⟨sound, sheds⟩ := resolved_sound pending.sound gained same link found lasting
  refine brings_looking fun w here => ?_
  have slots : w.deferreds.get? id = some d :=
    (congrArg (fun s => s.deferreds.get? id) here).trans (gained.deferreds ▸ pending.found)
  obtain ⟨c₁, c₂, n₁, n₂, resolve, reject, owns₁, owns₂⟩ := pending.capabilities
  have functions : d.resolve.toList ++ d.reject.toList = [c₁, c₂] := by simp [resolve, reject]
  simp only [slots, functions]
  refine brings_lifted (yields_deferreds _) ?_
  rintro _ _ ⟨-, rfl⟩
  let t₁ := t.withDeferred id { d with settled := true, resolve := none, reject := none }
  refine brings_lifted (yields_discardHandles (s := t₁) [c₁, c₂]) ?_
  rintro _ _ ⟨-, rfl⟩
  have sound₁ : t₁.Sound (c₁.ptr :: c₂.ptr :: p :: others) :=
    ⟨⟨sound.opened, sound.ready, sound.fresh⟩,
      sound.accounted.congr fun q _ => (pending.count_handles resolve reject q).symm⟩
  have owns : t₁.Owns x n := ⟨gained.owns.owned, gained.owns.reference, gained.owns.alive⟩
  have apart {m : ReferenceId} (alive : m ∈ s.vault.alive) : some m ≠ some n := by
    simpa using usable.unnamed gained.new m alive
  obtain ⟨usable₃, owns₃, more, sound₄, sheds'⟩ :=
    sound₁.letting_go owns (owns₁.reference ▸ apart owns₁.alive) (owns₂.reference ▸ apart owns₂.alive) undefined
  refine (yields_disposed usable₃.opened owns₃ usable₃.ready.clear Outcome.success rfl rfl).imp ?_
  rintro _ _ ⟨rfl, rfl⟩
  refine ⟨rfl, ?_, gained.config, ⟨more, sound₄⟩, c.ptr, found, sheds.trans sheds'⟩
  change t.deferreds.set id _ = _
  rw [gained.deferreds]

theorem brings_settle (pending : s.Pending id p others d) (known : s.Known p others v) (fulfil : Bool) :
    r.Brings (Attempt.settle id fulfil v).run s (s.Settles id p others d fulfil v) := by
  have usable := pending.sound.toUsable
  obtain ⟨c, n, held, owns, able⟩ := pending.capable fulfil
  obtain ⟨value, found, -⟩ := Option.bind_eq_some_iff.1 able
  refine brings_after (yields_checkAccess usable.opened _) (brings_looking fun w here => ?_)
  have slots : w.deferreds.get? id = some d := (congrArg (fun s => s.deferreds.get? id) here).trans pending.found
  have function : (if fulfil then d.resolve else d.reject) = some c := held
  simp only [slots, pending.unsettled, function, Bool.false_eq_true, if_false]
  refine brings_after (yields_duplicated usable owns found) ?_
  refine brings_attempt (brings_calling usable able known.earlier) ?_ ?_
  · intro e t attempted
    cases attempted with
    | failed restored => exact .failed restored.deferreds fun _ => restored
  · intro o t attempted
    cases attempted with
    | @threw x text n t polls gained raised =>
      have ready := raised.ready (usable.ready.patient polls)
      refine brings_attempt (brings_threw (gained.closed.trans usable.opened) gained.owns ready _) ?_ ?_
      · rintro e _ ⟨e', l, -, clear, rfl, same⟩
        exact .failed gained.deferreds (gained.threw_restored usable raised clear same)
      · rintro a _ ⟨e', l, none, -⟩
        cases none
    | @returned x m t l polls alive gained undefined same link =>
      refine brings_after (yields_pure x) ?_
      refine (brings_concluded pending known (by simp [found]) alive gained undefined same link).imp ?_
      rintro _ _ ⟨rfl, done⟩
      exact .done alive done

end Runner

end ScriptHost
