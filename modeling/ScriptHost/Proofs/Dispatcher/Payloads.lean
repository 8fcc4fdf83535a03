import ScriptHost.Proofs.Dispatcher.Settling
import ScriptHost.Proofs.Handles.Calls

set_option autoImplicit false

/-!
Settling a deferred with a value or with a snapshot.

A value is made of a snapshot first. It goes when the attempt is over, and the promise keeps it if it was
settled with it.
-/

namespace ScriptHost

/-- A promise that was pending has been settled with a value that shows a snapshot. -/
def Heap.SettlesWith (h : Heap) (p : Ptr) (reject : Bool) (v : Snapshot) (h' : Heap) : Prop :=
  ∃ q record, h.promise? p = some record ∧ h.Concludes p q reject record h' ∧
    ∀ settled, h'.get? p = some settled -> ∃ ks, v.Shows h'.cells q ks

namespace Desk

variable {s t u : Desk} {c h x : Handle} {q p : Ptr} {n : ReferenceId} {reject fulfil : Bool} {polls : Option Nat}
variable {others outside : List Ptr} {id : DeferredId} {d : Deferred} {l : Link} {v : Snapshot}

section Done

/-- Whoever refers to the promise later on still finds something there. -/
theorem Pending.kept (pending : s.Pending id p others d) (sound : u.Sound outside) (member : p ∈ outside) :
    ∃ value, u.heap.get? p = some value := by
  obtain ⟨record, found, -⟩ := pending.unresolved
  have big := Heap.big_of_found pending.sound.ready.counted (Heap.promise?_eq_some.1 found)
  exact (sound.accounted.names member).there big

/-- What was decided stays so when more is let go. -/
theorem Done.resolves {v : Ptr} (done : s.Done id p others d fulfil v t) (pending : s.Pending id p others d)
    (sheds : t.heap.Sheds u.heap) (sound : u.Sound outside) {value : Value} (there : u.heap.get? p = some value)
    (kept : s.heap.isPromise v = true -> v ∈ outside) : s.heap.Resolves p v (!fulfil) u.heap := by
  obtain ⟨record, found, settlement, first⟩ := pending.unresolved
  obtain ⟨q, some, shed⟩ := done.sheds
  obtain ⟨_, here⟩ := Option.ne_none_iff_exists'.1 some
  have still (q v : Ptr) : (s.heap.retain q).promise? v = s.heap.promise? v := by
    simp only [Heap.promise?, Heap.get?_retain]
  refine Heap.Resolves.released (q := q) (Heap.callResolving_resolves
    (pending.sound.accounted.retain (Heap.names_of_found here)) sound.accounted ((still q p).trans found) first settlement
    (shed.trans sheds) there fun promise => kept ?_)
  rwa [Heap.isPromise, still] at promise

end Done

section Conversion

/-- What making a value comes to. -/
inductive Converted (s : Desk) (v : Snapshot) : Except Error Handle -> Desk -> Prop
  | failed {e : Error} {t : Desk} (restored : s.Restored t) : Converted s v (.error e) t
  | made {x : Handle} {n : ReferenceId} {t : Desk} (gained : s.Gained t x n)
      (grown : Link.Grown s.link v.engraved x.ptr t.link) : Converted s v (.ok x) t

theorem next_discarding (s : Desk) (h : Handle) : s.link.memory.next ≤ (s.discarding h).link.memory.next := by
  have law : Vault.Custodial fun v v' => v.link.memory.next ≤ v'.link.memory.next :=
    .of_asks ⟨fun _ => Nat.le_refl _, Nat.le_trans⟩ (fun q _ v => (q.perform_onward v.link).toGrown.memory)
      fun _ _ _ => Nat.le_refl _
  exact law.discard h .worker s.vault

/-- If the value that was made has no part in what happened meanwhile, it goes without a trace. -/
theorem Gained.restored (gained : s.Gained t x n) (usable : s.Usable) (grown : Link.Grown s.link v x.ptr t.link)
    (restored : t.Restored u) : s.Restored (u.discarding x) := by
  obtain ⟨polls, same⟩ := restored.link
  have clear : u.link.faults = Table.empty :=
    same.1.faults.trans (grown.changed.faults.trans usable.ready.clear)
  obtain ⟨kept, released⟩ := (gained.still restored.toKept).discarding usable clear
  exact ⟨kept, polls, released ▸ ((grown.patient polls).still same.1 same.2).undone⟩

theorem Pending.grown (pending : s.Pending id p others d) (gained : s.Gained t x n) (grown : Link.Grown s.link v x.ptr t.link) :
    t.Pending id p (x.ptr :: others) d := by
  obtain ⟨ks, planted, shown⟩ := grown.planted
  have old {q : Ptr} {value : Value} (found : s.heap.get? q = some value) : t.heap.get? q = some value := by
    obtain ⟨cell, here, same⟩ := Heap.get?_eq_some.1 found
    exact Heap.get?_eq_some.2 ⟨cell, (planted.get?_old (planted.apart here)).trans here, same⟩
  refine ⟨(congrArg (fun t => t.get? id) gained.deferreds).trans pending.found, pending.held, pending.unsettled,
    pending.promise, fun fulfil => ?_, ?_, ?_⟩
  · obtain ⟨c, n, held, owns, able⟩ := pending.capable fulfil
    obtain ⟨value, found, resolver⟩ := Option.bind_eq_some_iff.1 able
    refine ⟨c, n, held, ⟨owns.owned, owns.reference, gained.alive ▸ List.mem_cons_of_mem _ owns.alive⟩, ?_⟩
    exact Option.bind_eq_some_iff.2 ⟨value, old found, resolver⟩
  · obtain ⟨record, found, rest⟩ := pending.unresolved
    exact ⟨record, Heap.promise?_eq_some.2 (old (Heap.promise?_eq_some.1 found)), rest⟩
  · refine ⟨pending.sound.more gained (grown.ready pending.sound.ready), Nat.zero_le _, fun _ => ?_⟩
    have balanced := planted.balanced (shown.forest planted.there) grown.counted (pending.sound.accounted.balanced (.inl rfl))
    refine balanced.congr fun q _ => ?_
    have jobs : t.heap.pending = s.heap.pending := grown.changed.pending
    rw [jobs]
    simp only [List.count_append, List.count_cons]
    omega

/-- The function of the promise was called with a value that is no promise. -/
theorem Done.concludes {q : Ptr} {record : PromiseRecord} (done : s.Done id p others d fulfil q t)
    (pending : s.Pending id p others d) (found : s.heap.promise? p = some record) (plain : s.heap.isPromise q = false) :
    s.heap.Concludes p q (!fulfil) record t.heap := by
  obtain ⟨record', found', settlement, first⟩ := pending.unresolved
  obtain rfl := Option.some.inj (found.symm.trans found')
  obtain ⟨c, -, shed⟩ := done.sheds
  have still (v : Ptr) : (s.heap.retain c).promise? v = s.heap.promise? v := by
    simp only [Heap.promise?, Heap.get?_retain]
  have plain' : (s.heap.retain c).isPromise q = false := by rwa [Heap.isPromise, still]
  exact ((Heap.callResolving_concludes ((still p).trans found) first settlement plain' (!fulfil)).sheds shed).released

/-- What a promise was settled with shows the snapshot that it was made from. -/
theorem Done.shows (done : t.Done id p (x.ptr :: others) d fulfil x.ptr u) (pending : t.Pending id p (x.ptr :: others) d)
    (grown : Link.Grown s.link v x.ptr t.link) {old : Value} (earlier : s.heap.get? p = some old) {u' : Desk}
    (sheds : u.heap.Sheds u'.heap) (sound : u'.Sound outside) {settled : Value} (there : u'.heap.get? p = some settled) :
    ∃ ks, v.Shows u'.heap.cells x.ptr ks := by
  obtain ⟨ks, planted, shown⟩ := grown.planted
  have plain : t.heap.isPromise x.ptr = false := shown.plain grown.counted
  obtain ⟨record, found, -⟩ := pending.unresolved
  obtain rfl := ((done.concludes pending found plain).sheds sheds).value settled there
  obtain ⟨cell, here, -⟩ := Heap.get?_eq_some.1 earlier
  obtain ⟨q, -, shed⟩ := done.sheds
  have child : x.ptr ∈ (Value.promise { record with
      settlement := .ofPayload (!fulfil) x.ptr, reactions := [], resolved := true }).children := by
    cases fulfil <;> simp [Value.children, PromiseRecord.children, Settlement.ofPayload, Settlement.payload?]
  have root := sound.accounted.names_child there child
  have lasts := (shown.forest planted.there).lasts grown.counted sound.accounted (fun k member c found value left => ?_)
    (by simpa using root)
  · refine ⟨ks, shown.congr fun k member w held => ?_⟩
    obtain ⟨c, found, value⟩ := held
    exact Heap.get?_eq_some.1 (value ▸ lasts k member c found)
  · -- The promise is older than what was made from the snapshot.
    have apart : p ≠ k := by
      rintro rfl
      exact planted.apart here member
    have still : (t.heap.retain q).isPromise x.ptr = false := by
      simpa only [Heap.isPromise, Heap.promise?, Heap.get?_retain] using plain
    have before := Heap.get?_callResolving still apart ((shed.trans sheds).values k value left)
    rw [Heap.get?_retain] at before
    exact Option.some.inj (before.symm.trans (Heap.get?_eq_some.2 ⟨c, found, rfl⟩))

theorem Done.settlesWith (done : t.Done id p (x.ptr :: others) d fulfil x.ptr u) (pending : s.Pending id p others d)
    (pending' : t.Pending id p (x.ptr :: others) d) (grown : Link.Grown s.link v x.ptr t.link) {u' : Desk}
    (sheds : u.heap.Sheds u'.heap) (sound : u'.Sound outside) : s.heap.SettlesWith p (!fulfil) v u'.heap := by
  obtain ⟨ks, planted, shown⟩ := grown.planted
  obtain ⟨record, found, -⟩ := pending.unresolved
  have earlier := Heap.promise?_eq_some.1 found
  obtain ⟨cell, here, value⟩ := Heap.get?_eq_some.1 earlier
  have still : t.heap.promise? p = some record :=
    Heap.promise?_eq_some.2 (Heap.get?_eq_some.2 ⟨cell, (planted.get?_old (planted.apart here)).trans here, value⟩)
  have later := (done.concludes pending' still (shown.plain grown.counted)).sheds sheds
  have concludes : s.heap.Concludes p x.ptr (!fulfil) record u'.heap :=
    ⟨later.value, grown.changed.jobs ▸ later.jobs, grown.changed.history ▸ later.history⟩
  exact ⟨x.ptr, record, found, concludes, fun settled there => done.shows pending' grown earlier sheds sound there⟩

end Conversion

end Desk

/-- What a deferred can be settled with. -/
inductive Payload where
  | handle (h : Handle)
  | snapshot (v : Snapshot)

namespace Payload

def attempt (id : DeferredId) (fulfil : Bool) : Payload -> Attempt Unit
  | handle h => Attempt.settle id fulfil h
  | snapshot v => Attempt.settleValue id fulfil v

def Known (p : Ptr) (others : List Ptr) (s : Desk) : Payload -> Prop
  | handle h => s.Known p others h
  | snapshot _ => True

/-- That a promise of one heap has been resolved or rejected with just this in another. -/
def Decides (h : Heap) (p : Ptr) (reject : Bool) (h' : Heap) : Payload -> Prop
  | handle v => h.Resolves p v.ptr reject h'
  | snapshot v => ∃ q ks, h'.settlement? p = some (.ofPayload reject q) ∧ v.engraved.Shows h'.cells q ks

end Payload

namespace Desk

variable {s t : Desk} {p : Ptr} {others : List Ptr} {id : DeferredId} {d : Deferred} {fulfil : Bool} {payload : Payload}

/-- What an attempt comes to while the promise is pending. -/
inductive Comes (s : Desk) (id : DeferredId) (p : Ptr) (d : Deferred) (fulfil : Bool) (payload : Payload) :
    Except Error Unit -> Desk -> Prop
  | failed {e : Error} {t : Desk} (deferreds : t.deferreds = s.deferreds)
      (restored : Link.Legible s.link t.link -> s.Restored t) : Comes s id p d fulfil payload (.error e) t
  | succeeded {t : Desk} (usable : t.Usable)
      (deferreds : t.deferreds = s.deferreds.set id { d with settled := true, resolve := none, reject := none })
      (config : t.config = s.config)
      (decides : payload.Decides s.heap p (!fulfil) t.heap) : Comes s id p d fulfil payload (.ok ()) t

/-- The promise has been settled with a value that was made of a snapshot, and stays so when more is let go. -/
structure Delivered (s : Desk) (id : DeferredId) (p : Ptr) (others : List Ptr) (d : Deferred) (fulfil : Bool) (v : Snapshot)
    (t : Desk) : Prop where
  deferreds : t.deferreds = s.deferreds.set id { d with settled := true, resolve := none, reject := none }
  config : t.config = s.config
  sound : ∃ more, t.Sound (more ++ p :: others)
  settles : ∀ {u : Desk} {outside : List Ptr}, t.heap.Sheds u.heap -> u.Sound outside ->
    s.heap.SettlesWith p (!fulfil) v.engraved u.heap

/-- What an attempt with a snapshot comes to. -/
inductive Offered (s : Desk) (id : DeferredId) (p : Ptr) (others : List Ptr) (d : Deferred) (fulfil : Bool) (v : Snapshot) :
    Except Error Unit -> Desk -> Prop
  | failed {e : Error} {t : Desk} (deferreds : t.deferreds = s.deferreds)
      (restored : Link.Legible s.link t.link -> s.Restored t) : Offered s id p others d fulfil v (.error e) t
  | delivered {t : Desk} (delivered : s.Delivered id p others d fulfil v t) : Offered s id p others d fulfil v (.ok ()) t

theorem Delivered.decides {v : Snapshot} (delivered : s.Delivered id p others d fulfil v t)
    (pending : s.Pending id p others d) : (Payload.snapshot v).Decides s.heap p (!fulfil) t.heap := by
  obtain ⟨more, sound⟩ := delivered.sound
  obtain ⟨settled, there⟩ := pending.kept sound (List.mem_append_right more List.mem_cons_self)
  obtain ⟨q, _, -, concludes, shows'⟩ := delivered.settles (.refl _) sound
  obtain ⟨ks, shown⟩ := shows' settled there
  obtain rfl := concludes.value settled there
  exact ⟨q, ks, Heap.settlement?_of_get? there, shown⟩

end Desk

namespace Runner

open Desk

variable {r : Runner} {s t : Desk} {x : Handle} {p : Ptr} {n : ReferenceId} {fulfil : Bool} {payload : Payload}
variable {others : List Ptr} {id : DeferredId} {d : Deferred} {v : Snapshot}

section Making

variable {q : Ptr} {l : Link}

theorem yields_fromSnapshot_ok (opened : s.vault.closed = false)
    (made : Link.answered (Conversion.toEngine s.config.maxDepth s.config.maxBytes v) s.link = (.ok q, l)) :
    r.Yields (Attempt.fromSnapshot v).run s (.ok (s.fresh q)) (s.withLink l).owning := by
  refine brings_looking fun w here => ?_
  have same : w.worker.config = s.config := congrArg Desk.config here
  have asked := yields_withLink (r := r) opened "convert to engine value"
    (Conversion.toEngine s.config.maxDepth s.config.maxBytes v)
  rw [made] at asked
  rw [same]
  exact brings_after asked (yields_own q)

theorem yields_fromSnapshot_error {e : Error} (opened : s.vault.closed = false)
    (failed : Link.answered (Conversion.toEngine s.config.maxDepth s.config.maxBytes v) s.link = (.error e, l)) :
    r.Yields (Attempt.fromSnapshot v).run s (.error e) (s.withLink l) := by
  refine brings_looking fun w here => ?_
  have same : w.worker.config = s.config := congrArg Desk.config here
  have asked := yields_withLink (r := r) opened "convert to engine value"
    (Conversion.toEngine s.config.maxDepth s.config.maxBytes v)
  rw [failed] at asked
  rw [same]
  exact brings_failed asked ⟨rfl, rfl⟩

theorem brings_fromSnapshot (usable : s.Usable) (word : s.config.maxBytes < UInt64.size) (v : Snapshot) :
    r.Brings (Attempt.fromSnapshot v).run s (s.Converted v) := by
  have ends := Conversion.toEngine_ends usable.ready s.config.maxDepth word v
  generalize answered : Link.answered (Conversion.toEngine s.config.maxDepth s.config.maxBytes v) s.link = answer at *
  cases ends with
  | @ok q l grown =>
    refine (yields_fromSnapshot_ok usable.opened answered).imp ?_
    rintro _ _ ⟨rfl, rfl⟩
    exact .made (((Kept.refl s).withLink l).gained q) grown
  | @error e l same _ =>
    refine (yields_fromSnapshot_error usable.opened answered).imp ?_
    rintro _ _ ⟨rfl, rfl⟩
    exact .failed ⟨(Kept.refl s).withLink l, s.link.patience, same⟩

end Making

theorem brings_handle (pending : s.Pending id p others d) (known : s.Known p others x) (fulfil : Bool) :
    r.Brings (Attempt.settle id fulfil x).run s (s.Comes id p d fulfil (.handle x)) := by
  refine (brings_settle pending known fulfil).imp fun a t settles => ?_
  cases settles with
  | failed deferreds restored => exact .failed deferreds restored
  | done alive done =>
    obtain ⟨more, sound⟩ := done.sound
    obtain ⟨value, there⟩ := pending.kept sound (List.mem_append_right more List.mem_cons_self)
    refine .succeeded sound.toUsable done.deferreds done.config
      (done.resolves pending (.refl _) sound there fun promise => ?_)
    rcases known.kept alive with small | listed
    · simp [Heap.isPromise, Heap.promise?, Heap.get?, pending.sound.ready.counted.absent small] at promise
    · exact List.mem_append_right _ listed

theorem brings_settleValue (pending : s.Pending id p others d) (word : s.config.maxBytes < UInt64.size) (fulfil : Bool)
    (v : Snapshot) : r.Brings (Attempt.settleValue id fulfil v).run s (s.Offered id p others d fulfil v) := by
  have usable := pending.sound.toUsable
  refine brings_attempt (brings_fromSnapshot usable word v) ?_ ?_
  · intro e t converted
    cases converted with
    | failed restored => exact .failed restored.deferreds fun _ => restored
  · intro h t converted
    cases converted with
    | @made _ n _ gained grown =>
      have pending' := pending.grown gained grown
      have known : t.Known p (h.ptr :: others) h :=
        ⟨fun m same => Option.some.inj (gained.reference.symm.trans same) ▸ gained.next, fun _ => .inr (by simp)⟩
      refine brings_holding ((brings_settle pending' known fulfil).imp fun a u settles => ?_)
      cases settles with
      | failed deferreds restored =>
        refine .failed (deferreds.trans gained.deferreds) fun legible => gained.restored usable grown (restored ?_)
        refine Link.Legible.after ⟨legible.spare, ?_⟩ grown.changed
        exact Nat.le_trans (Nat.add_le_add_right (next_discarding u h) 24) legible.last
      | done alive done =>
        obtain ⟨more, sound⟩ := done.sound
        have listed : u.Sound ([] ++ h.ptr :: (more ++ p :: others)) := sound.congr fun q _ => by
          simp only [List.nil_append, List.count_append, List.count_cons]
          omega
        obtain ⟨more', sound', sheds⟩ := listed.discarding
        refine .delivered ⟨?_, done.config.trans gained.config, ⟨more' ++ more, ?_⟩, fun sheds' sound => ?_⟩
        · change u.deferreds = _
          rw [done.deferreds, gained.deferreds]
        · rwa [List.append_assoc]
        · exact done.settlesWith pending pending' grown (sheds.trans sheds') sound

theorem brings_snapshot (pending : s.Pending id p others d) (word : s.config.maxBytes < UInt64.size) (fulfil : Bool)
    (v : Snapshot) : r.Brings (Attempt.settleValue id fulfil v).run s (s.Comes id p d fulfil (.snapshot v)) := by
  refine (brings_settleValue pending word fulfil v).imp fun a t offered => ?_
  cases offered with
  | failed deferreds restored => exact .failed deferreds restored
  | delivered delivered =>
    obtain ⟨more, sound⟩ := delivered.sound
    exact .succeeded sound.toUsable delivered.deferreds delivered.config (delivered.decides pending)

end Runner

end ScriptHost
