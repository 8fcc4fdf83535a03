import ScriptHost.Proofs.Dispatcher.Settling
import ScriptHost.Proofs.Link.Properties

set_option autoImplicit false

/-!
Making deferreds.

The engine makes a promise with the two functions that settle it. The host reads their pointers from a block
that is gone when it has read them, and owns all three.
-/

namespace ScriptHost

namespace Heap

variable {h h' : Heap} {p f g : Ptr}

/-- A new promise with the functions that resolve and reject it. -/
structure Capability (h : Heap) (p f g : Ptr) (h' : Heap) : Prop where
  big : Ptr.firstCounted ≤ p
  grown : ∃ cells n, h.next ≤ n ∧ h' = { h with cells, next := n }
  promise : h'.promise? p = some .fresh
  resolve : h'.resolver? f = some (p, false)
  reject : h'.resolver? g = some (p, true)

theorem newCapability_makes (few : h.cells.size + 20 ≤ UInt32.size) :
    ∃ p f g h', h.newCapability = ((p, f, g), h') ∧ h.Capability p f g h' := by
  have more (cells : Cells) (p : Ptr) : (cells.modify p fun c => { c with refs := c.refs + 1 }).size = cells.size :=
    Table.size_modify cells p _
  obtain ⟨p, n, later, big, absent, made⟩ := (insert_plants h (.promise .fresh)).resolve_right fun full => by omega
  let first : Heap := { h with cells := h.cells.set p ⟨1, .promise .fresh⟩, next := n }
  have size : (first.retain p).cells.size = h.cells.size + 1 := (more _ p).trans (Table.size_set_new absent _)
  obtain ⟨f, n', later', -, absent', made'⟩ :=
    (insert_plants (first.retain p) (.function "" (.resolve p))).resolve_right fun full => by omega
  let second : Heap :=
    { first.retain p with cells := (first.retain p).cells.set f ⟨1, .function "" (.resolve p)⟩, next := n' }
  have size' : (second.retain p).cells.size = h.cells.size + 2 :=
    (more _ p).trans ((Table.size_set_new absent' _).trans (by omega))
  obtain ⟨g, n'', later'', -, absent'', made''⟩ :=
    (insert_plants (second.retain p) (.function "" (.reject p))).resolve_right fun full => by omega
  let third : Heap :=
    { second.retain p with cells := (second.retain p).cells.set g ⟨1, .function "" (.reject p)⟩, next := n'' }
  have apart : f ≠ p := by
    rintro rfl
    simp [first, retain] at absent'
  have apart' : g ≠ p ∧ g ≠ f := by
    constructor
    · rintro rfl
      simp [second, first, retain, apart] at absent''
    · rintro rfl
      simp [second, retain, Ne.symm apart] at absent''
  refine ⟨p, f, g, third, ?_, big, ⟨_, n'', Nat.le_trans later (Nat.le_trans later' later''), rfl⟩, ?_, ?_, ?_⟩
  · have one : h.newPromise = (p, first) := made
    have two : (first.retain p).insert (.function "" (.resolve p)) = (f, second) := made'
    simp only [newCapability, one, two]
    rw [made'']
  · simp [promise?_eq_some, get?, third, second, first, retain, apart, apart'.1]
  · simp [resolver?, get?, third, second, retain, Ne.symm apart, apart'.2, Value.resolver?]
  · simp [resolver?, get?, third, Value.resolver?]

end Heap

namespace Link

variable {l : Link} {p f g : Ptr} {h : Heap}

/-- The two functions are written next to each other. -/
theorem newPromiseCapability_fits (ready : l.Ready) (fits : l.memory.Fits 8)
    (made : l.engine.heap.newCapability = ((p, f, g), h)) :
    ∃ m, outcome (Engine.perform (.newPromiseCapability (UInt32.ofNat l.memory.next))) (l.placed 8).engine =
        (.ok (.ofWord p), { l.engine with memory := m, heap := h }) ∧
      l.memory.Atop m [(l.memory.next, 8)] ∧ m.Inside l.memory.next 8 ∧ m.Stores l.memory.next [f] ∧
      m.Stores (l.memory.next + 4) [g] := by
  have out := Memory.toNat_next ready.memory
  have second := toNat_second fits
  have atop := Memory.topped_atop ready.memory fits.2 ByteArray.empty
  have whole := Memory.topped_inside l.memory 8 ByteArray.empty
  obtain ⟨e, member, low, high, within⟩ := whole
  have half : (l.placed 8).memory.Inside (UInt32.ofNat l.memory.next).toNat 4 := ⟨e, member, by omega, by omega, by omega⟩
  have rest : (l.placed 8).memory.Inside (UInt32.ofNat l.memory.next + 4).toNat 4 :=
    ⟨e, member, by omega, by omega, by omega⟩
  obtain ⟨m, done, noted⟩ := Memory.writeWord_notes ready.memory atop half
    ⟨(l.memory.next, 8), by simp, by omega, by dsimp only; omega⟩ f
  obtain ⟨m', done', noted'⟩ := Memory.writeWord_notes ready.memory noted.atop (noted.inside rest)
    ⟨(l.memory.next, 8), by simp, by omega, by dsimp only; omega⟩ g
  refine ⟨m', ?_, noted'.atop, noted'.inside (noted.inside ⟨e, member, low, high, within⟩), ?_, second ▸ noted'.there⟩
  · have named : (l.placed 8).engine.heap.newCapability = ((p, f, g), h) := made
    simp only [Engine.perform, Engine.newPromiseCapability, outcome_bind, Engine.outcome_onHeap, named]
    rw [Engine.outcome_writeWord done]
    dsimp only
    rw [Engine.outcome_writeWord done']
    rfl
  · have first : m.Stores l.memory.next [f] := out ▸ noted.there
    exact noted'.stores first (.inl (by simp [second]))

theorem answered_newPromiseCapability (ready : l.Ready) (few : l.cells.size + 20 ≤ UInt32.size) :
    (∃ e, answered newPromiseCapability l = (.error e, l)) ∨
      ∃ p f g h l', l.engine.heap.newCapability = ((p, f, g), h) ∧ l.engine.heap.Capability p f g h ∧
        answered newPromiseCapability l = (.ok (p, f, g), l') ∧ Changed [] l l' ∧ l'.engine.heap = h := by
  by_cases fits : l.memory.Fits 8
  next =>
    obtain ⟨p, f, g, h, made, capability⟩ := Heap.newCapability_makes few
    obtain ⟨m, done, atop, whole, first, behind⟩ := newPromiseCapability_fits ready fits made
    obtain ⟨cells, n, next, rfl⟩ := capability.grown
    have out := Memory.toNat_next ready.memory
    have second := toNat_second fits
    obtain ⟨e, member, low, high, within⟩ := whole
    have some : p ≠ 0 := by
      rintro rfl
      exact absurd capability.big (by decide)
    have asked : answered (value (.newPromiseCapability (UInt32.ofNat l.memory.next))) (l.placed 8) =
        (.ok p, l.moved cells n m) :=
      answered_value (l := l.placed 8) ready.clear done some
    have resolve : answered (readWord (UInt32.ofNat l.memory.next)) (l.moved cells n m) = (.ok f, l.moved cells n m) :=
      answered_readWord (l := l.moved cells n m) ready.clear atop.wellFormed ⟨e, member, by omega, by omega, by omega⟩
        (out.symm ▸ first)
    have reject : answered (readWord (UInt32.ofNat l.memory.next + 4)) (l.moved cells n m) = (.ok g, l.moved cells n m) :=
      answered_readWord (l := l.moved cells n m) ready.clear atop.wellFormed ⟨e, member, by omega, by omega, by omega⟩
        (second.symm ▸ behind)
    have changed : Changed [(l.memory.next, 8)] l (l.moved cells n m) := ⟨cells, n, m, next, atop, rfl⟩
    refine .inr ⟨p, f, g, _, _, made, capability, ?_, changed.free out, rfl⟩
    rw [newPromiseCapability, answered_withBlock_fits ready.clear ready.memory fits]
    simp only [answered_bind, asked, resolve, reject, answered_pure, unscratched]
  next =>
    exact .inl ⟨_, answered_withBlock_refused ready.clear fits⟩

end Link

namespace Desk

variable {s : Desk} {l : Link} {p f g : Ptr} {outside : List Ptr}

/-- A deferred of which the next three handles will be. -/
def deferring (s : Desk) (p f g : Ptr) : Deferred where
  promise := some (s.fresh p)
  resolve := some (s.owning.fresh f)
  reject := some (s.owning.owning.fresh g)
  settled := false
  holders := 1

theorem Usable.owning (usable : s.Usable) : s.owning.Usable :=
  usable.more ((Kept.refl s).gained 0) usable.ready

theorem pending_deferring (sound : s.Sound (p :: f :: g :: outside)) (promise : s.heap.promise? p = some .fresh)
    (resolve : s.heap.resolver? f = some (p, false)) (reject : s.heap.resolver? g = some (p, true)) (id : DeferredId) :
    (s.owning.owning.owning.withDeferred id (s.deferring p f g)).Pending id p outside (s.deferring p f g) where
  found := by simp [withDeferred]
  held := Nat.le_refl 1
  unsettled := rfl
  promise := rfl
  capable fulfil := by
    cases fulfil with
    | true => exact ⟨_, _, rfl, ⟨rfl, rfl, List.mem_cons_of_mem _ List.mem_cons_self⟩, resolve⟩
    | false => exact ⟨_, _, rfl, ⟨rfl, rfl, List.mem_cons_self⟩, reject⟩
  unresolved := ⟨.fresh, promise, rfl, rfl⟩
  sound := by
    have usable := sound.toUsable.owning.owning.owning
    refine ⟨⟨usable.opened, usable.ready, usable.fresh⟩, sound.accounted.congr fun q _ => ?_⟩
    simp only [deferring, Desk.fresh, Deferred.handles, Option.toList_some, List.map_append, List.map_cons, List.map_nil,
      List.count_append, List.count_cons, List.count_nil]
    omega

end Desk

namespace Runner

open Desk

variable {r : Runner} {s : Desk} {outside : List Ptr}

theorem brings_newDeferred (d : Deferred) :
    r.Brings (do
      let id := (<- WorldM.look).nextDeferred
      WorldM.alter (.newDeferred d)
      pure id : Attempt DeferredId).run s fun a t => ∃ id, a = .ok id ∧ t = s.withDeferred id d := by
  constructor
  rintro w rfl
  exact ⟨.ok w.arrive.nextDeferred, rfl, w.arrive.nextDeferred, rfl,
    congrArg (fun s => s.withDeferred w.arrive.nextDeferred d) w.desk_arrive⟩

/-- A deferred is made in full or not at all. -/
theorem brings_createDeferred (sound : s.Sound outside) (few : s.heap.cells.size + 20 ≤ UInt32.size) :
    r.Brings Attempt.createDeferred.run s fun a t =>
      (∃ e, a = .error e ∧ t = s) ∨ ∃ id h n d, a = .ok id ∧ t.Pending id h.ptr outside d ∧ d.promise = some h ∧
        t.Owns h n ∧ d.holders = 1 := by
  have asked := yields_withLink (r := r) sound.opened "create deferred" Link.newPromiseCapability
  rcases Link.answered_newPromiseCapability sound.ready few with
    ⟨e, answer⟩ | ⟨p, f, g, h, l, made, capability, answer, changed, rfl⟩
  · rw [answer] at asked
    exact brings_failed asked (.inl ⟨e, rfl, rfl⟩)
  · rw [answer] at asked
    have accounted := sound.accounted.newCapability
    rw [made] at accounted
    have sound' : (s.withLink l).Sound (p :: f :: g :: outside) :=
      ⟨⟨sound.opened, changed.ready sound.ready accounted.counted, sound.fresh⟩, accounted⟩
    refine brings_after asked (brings_after (yields_own p) (brings_after (yields_own f) (brings_after (yields_own g) ?_)))
    refine (brings_newDeferred _).imp ?_
    rintro _ _ ⟨id, rfl, rfl⟩
    have pending := pending_deferring sound' capability.promise capability.resolve capability.reject id
    refine .inr ⟨id, (s.withLink l).fresh p, _, (s.withLink l).deferring p f g, rfl, pending, rfl, ⟨rfl, rfl, ?_⟩, rfl⟩
    exact List.mem_cons_of_mem _ (List.mem_cons_of_mem _ List.mem_cons_self)

end Runner

end ScriptHost
