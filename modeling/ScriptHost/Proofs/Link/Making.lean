import ScriptHost.Proofs.Link.Changes

set_option autoImplicit false

/-!
Calls that make new values.

What they need of memory on the way is free again afterwards. They fail only for lack of room, and then
have made nothing.
-/

namespace ScriptHost

namespace Link

variable {α : Type} {l l' : Link} {p q : Ptr} {r : Request} {v : Value} {size bytes cells : Nat} {content : ByteArray}

structure Spacious (l : Link) (bytes : Nat) : Prop where
  unlimited : l.memory.limit = none
  bytes : l.memory.next + bytes ≤ Memory.lastAddress

/-- With these bytes of memory and this many cells to spare, no call fails for lack of room. -/
structure Roomy (l : Link) (bytes cells : Nat) : Prop extends Spacious l bytes where
  cells : l.cells.size + cells + 16 ≤ UInt32.size

/-- What a call comes to that fails only for lack of room. -/
inductive Ends (l : Link) (room : Prop) (good : α -> Link -> Prop) : Except Error α × Link -> Prop
  | ok {a : α} {l' : Link} (done : good a l') : Ends l room good (.ok a, l')
  | error {e : Error} {l' : Link} (same : Same l l') (unfit : ¬room) : Ends l room good (.error e, l')

theorem Ends.imp {room more : Prop} {good better : α -> Link -> Prop} {r : Except Error α × Link}
    (ends : Ends l room good r) (enough : more -> room) (weaker : ∀ a l', good a l' -> better a l') :
    Ends l more better r := by
  cases ends with
  | ok done => exact .ok (weaker _ _ done)
  | error same unfit => exact .error same fun room => unfit (enough room)

theorem Spacious.fits (room : l.Spacious bytes) (few : Memory.span size ≤ bytes) : l.memory.Fits size := by
  refine ⟨by simp only [Memory.withinLimit, room.unlimited], ?_⟩
  have := room.bytes
  omega

theorem Spacious.mono {bytes' : Nat} (room : l.Spacious bytes) (fewer : bytes' ≤ bytes) : l.Spacious bytes' := by
  have := room.bytes
  exact ⟨room.unlimited, by omega⟩

theorem Roomy.mono {bytes' cells' : Nat} (room : l.Roomy bytes cells) (fewer : bytes' ≤ bytes) (less : cells' ≤ cells) :
    l.Roomy bytes' cells' := by
  have := room.cells
  exact ⟨room.toSpacious.mono fewer, by omega⟩

section Blocks

def placed (l : Link) (size : Nat) : Link :=
  l.withMemory (l.memory.topped size ByteArray.empty)

theorem Spacious.placed (room : l.Spacious (Memory.span size + bytes)) : (l.placed size).Spacious bytes :=
  ⟨room.unlimited, (Nat.add_assoc _ _ _).trans_le room.bytes⟩

theorem answered_allocate_fits (clear : l.faults = Table.empty) (fits : l.memory.Fits size) (ok : l.memory.WellFormed) :
    answered (allocate size) l =
      (.ok (UInt32.ofNat l.memory.next), l.placed size) := by
  have room := Memory.le_span size
  have last := fits.2
  unfold Memory.lastAddress at last
  rw [answered_allocate clear (by unfold largestBlock; omega), Ask.newBlock_granted ok fits]
  rfl

theorem answered_allocate_refused (clear : l.faults = Table.empty) (unfit : ¬l.memory.Fits size) :
    answered (allocate size) l = (.error (.allocation size), l) := by
  by_cases small : size ≤ largestBlock
  next =>
    rw [answered_allocate clear small, Ask.newBlock_refused unfit]
    rfl
  next => simp only [allocate, Nat.not_le.1 small, if_true, answered_bind, answered_throw]

theorem answered_writeBytes (clear : l.faults = Table.empty) {a : Addr} {m : Memory}
    (done : l.memory.write a content = .ok m) : answered (writeBytes a content) l = (.ok (), l.withMemory m) := by
  have asked : answered (writeBytes a content) l = (Ask.writeBytes a content).perform.run l := rfl
  rw [asked, Ask.perform, unlessFaulty_clear clear, Engine.outcome_onMemory (by rw [done]; rfl)]
  rfl

theorem answered_writeBlock_fits (clear : l.faults = Table.empty) (ok : l.memory.WellFormed)
    (few : content.size ≤ size) (fits : l.memory.Fits size) :
    answered (writeBlock size content) l =
      (.ok (UInt32.ofNat l.memory.next), l.withMemory (l.memory.topped size content)) := by
  have written := Memory.topped_write ok (Memory.toNat_next ok) few
  have put : answered (writeBytes (UInt32.ofNat l.memory.next) content) (l.placed size) =
      (.ok (), l.withMemory (l.memory.topped size content)) :=
    answered_writeBytes (l := l.placed size) clear written
  simp only [writeBlock, answered_bind, answered_allocate_fits clear fits ok, answered_attempt, put,
    answered_pure]

theorem answered_writeBlock_refused (clear : l.faults = Table.empty) (unfit : ¬l.memory.Fits size) :
    answered (writeBlock size content) l = (.error (.allocation size), l) := by
  simp only [writeBlock, answered_bind, answered_allocate_refused clear unfit]

end Blocks

section Made

/-- A new value is there, with one reference to it. -/
structure Made (l : Link) (v : Value) (bytes : Nat) (p : Ptr) (l' : Link) : Prop where
  big : Ptr.firstCounted ≤ p
  absent : l.cells.get? p = none
  changed : Changed [] l l'
  cells : l'.cells = l.cells.set p ⟨1, v⟩
  next : l'.memory.next ≤ l.memory.next + bytes

theorem Made.counted (made : Made l v bytes p l') (ready : l.Ready) : Heap.Counted l'.cells := by
  rw [made.cells]
  exact ready.counted.set made.big (Nat.le_refl 1)

theorem Made.ready (made : Made l v bytes p l') (ready : l.Ready) : l'.Ready :=
  made.changed.ready ready (made.counted ready)

theorem Made.get?_new (made : Made l v bytes p l') : l'.engine.heap.get? p = some v :=
  Heap.get?_eq_some.2 ⟨⟨1, v⟩, by simp [made.cells], rfl⟩

theorem Made.get?_old {w : Value} (made : Made l v bytes p l') (found : l.engine.heap.get? q = some w) :
    l'.engine.heap.get? q = some w := by
  obtain ⟨c, here, value⟩ := Heap.get?_eq_some.1 found
  have other : p ≠ q := by
    rintro rfl
    simp [made.absent] at here
  exact Heap.get?_eq_some.2 ⟨c, by simp [made.cells, other, here], value⟩

theorem nonzero_of_big (big : Ptr.firstCounted ≤ p) : p ≠ 0 := by
  rintro rfl
  exact absurd big (by decide)

theorem Made.mono {more : Nat} (made : Made l v bytes p l') (enough : bytes ≤ more) : Made l v more p l' :=
  { made with next := Nat.le_trans made.next (Nat.add_le_add_left enough _) }

theorem value_makes (ready : l.Ready) {c : r.isReserved = false} (unheld : v.children = [])
    (done : outcome (Engine.perform r) l.engine = outcome (Engine.insert v) l.engine) :
    Ends l (l.Roomy 0 1) (Made l v 0) (answered (value r c) l) := by
  rw [Engine.outcome_insert] at done
  rcases Heap.insert_plants l.engine.heap v with ⟨p, n, later, big, absent, inserted⟩ | ⟨full, refused⟩
  · rw [inserted] at done
    rw [answered_value ready.clear done (nonzero_of_big big)]
    exact .ok ⟨big, absent, ⟨_, n, l.memory, later, .refl ready.memory, rfl⟩, rfl, Nat.le_refl _⟩
  · rw [refused, unheld, Heap.releaseAll_nil] at done
    rw [answered_value_none ready done ready]
    refine .error (.refl ready) fun room => ?_
    have := room.cells
    change _ < l.cells.size + 17 at full
    omega

def unscratched (next : Nat) (r : Except Error α × Link) : Except Error α × Link :=
  (r.1, r.2.withMemory (r.2.memory.free (UInt32.ofNat next)))

theorem Changed.scratched (ok : l.memory.WellFormed) (fits : l.memory.Fits size) (content : ByteArray) :
    Changed [(l.memory.next, size)] l (l.withMemory (l.memory.topped size content)) :=
  .withMemory (Memory.topped_atop ok fits.2 content)

theorem Ready.scratched (ready : l.Ready) (fits : l.memory.Fits size) (content : ByteArray) :
    (l.withMemory (l.memory.topped size content)).Ready :=
  (Changed.scratched ready.memory fits content).ready ready ready.counted

theorem Made.unscratched (ok : l.memory.WellFormed) (fits : l.memory.Fits size)
    (made : Made (l.withMemory (l.memory.topped size content)) v 0 p l') :
    Made l v (Memory.span size) p (l'.withMemory (l'.memory.free (UInt32.ofNat l.memory.next))) where
  big := made.big
  absent := made.absent
  changed := ((Changed.scratched ok fits content).trans made.changed).free (Memory.toNat_next ok)
  cells := made.cells
  next := made.next

theorem Same.unscratched (ready : l.Ready) (fits : l.memory.Fits size)
    (same : Same (l.withMemory (l.memory.topped size content)) l') :
    Same l (l'.withMemory (l'.memory.free (UInt32.ofNat l.memory.next))) :=
  ⟨((Changed.scratched ready.memory fits content).trans same.1).free (Memory.toNat_next ready.memory), same.2⟩

theorem Ends.unscratched (ready : l.Ready) (fits : l.memory.Fits size) {r : Except Error Ptr × Link}
    (ends : Ends (l.withMemory (l.memory.topped size content)) ((l.withMemory (l.memory.topped size content)).Roomy 0 1)
      (Made (l.withMemory (l.memory.topped size content)) v 0) r) :
    Ends l (l.Roomy (Memory.span size) 1) (Made l v (Memory.span size)) (Link.unscratched l.memory.next r) := by
  cases ends with
  | ok made => exact .ok (made.unscratched ready.memory fits)
  | error same unfit =>
    exact .error (same.unscratched ready fits) fun room => unfit ⟨⟨room.unlimited, room.bytes⟩, room.cells⟩

theorem answered_withBlock_fits (clear : l.faults = Table.empty) (ok : l.memory.WellFormed)
    {act : Addr -> LinkM α} (fits : l.memory.Fits size) :
    answered (withBlock size act) l =
      unscratched l.memory.next (answered (act (UInt32.ofNat l.memory.next)) (l.placed size)) := by
  simp only [withBlock, answered_bind, answered_allocate_fits clear fits ok, answered_attempt,
    answered_free, answered_ofExcept]
  rfl

theorem answered_withCString_fits (clear : l.faults = Table.empty) (ok : l.memory.WellFormed)
    {s : String} {act : Addr -> LinkM α}
    (fits : l.memory.Fits (Memory.terminated s).size) :
    answered (withCString s act) l = unscratched l.memory.next (answered (act (UInt32.ofNat l.memory.next))
      (l.withMemory (l.memory.topped (Memory.terminated s).size (Memory.terminated s)))) := by
  simp only [withCString, writeCString, answered_bind, answered_writeBlock_fits clear ok (Nat.le_refl _) fits,
    answered_attempt, answered_free, answered_ofExcept]
  rfl

theorem answered_withCString_refused (clear : l.faults = Table.empty) {s : String} {act : Addr -> LinkM α}
    (unfit : ¬l.memory.Fits (Memory.terminated s).size) :
    answered (withCString s act) l = (.error (.allocation (Memory.terminated s).size), l) := by
  simp only [withCString, writeCString, answered_bind, answered_writeBlock_refused clear unfit]

theorem span_terminated (s : String) : Memory.span (Memory.terminated s).size ≤ s.utf8ByteSize + 8 := by
  have few := Memory.span_le (Memory.terminated s).size
  have size := Memory.size_terminated s
  omega

theorem newString_makes (ready : l.Ready) (s : String) :
    Ends l (l.Roomy (s.utf8ByteSize + 8) 1) (Made l (.string (Text.untilNul s)) (s.utf8ByteSize + 8))
      (answered (newString s) l) := by
  have few := span_terminated s
  by_cases fits : l.memory.Fits (Memory.terminated s).size
  next =>
    have read := Memory.topped_readCString (Memory.toNat_next ready.memory) s
    have ends := (value_makes (ready.scratched fits (Memory.terminated s)) (v := .string (Text.untilNul s))
      (r := .newString (UInt32.ofNat l.memory.next)) (c := rfl) rfl (by
        simp only [Engine.perform, outcome_bind, Engine.outcome_readMemory, withMemory, withEngine, read])).unscratched ready fits
    rw [newString, answered_withCString_fits ready.clear ready.memory fits]
    exact ends.imp (fun room => room.mono few (Nat.le_refl 1)) fun _ _ made => made.mono few
  next =>
    rw [newString, answered_withCString_refused ready.clear fits]
    exact .error (.refl ready) fun room => fits (room.fits few)

theorem newNumber_makes (ready : l.Ready) (x : Binary64) :
    Ends l (l.Roomy 0 1) (Made l (.number x) 0) (answered (newNumber x) l) :=
  value_makes ready rfl rfl

theorem newObject_makes (ready : l.Ready) :
    Ends l (l.Roomy 0 1) (Made l (.object .plain Table.empty) 0) (answered newObject l) :=
  value_makes ready rfl rfl

theorem newArray_makes (ready : l.Ready) : Ends l (l.Roomy 0 1) (Made l (.array #[]) 0) (answered newArray l) :=
  value_makes ready rfl rfl

theorem newBytes_makes (ready : l.Ready) (x : ByteArray) :
    Ends l (l.Roomy (x.size + 8) 1) (Made l (.bytes x) (x.size + 8)) (answered (newBytes x) l) := by
  have few : Memory.span (max x.size 1) ≤ x.size + 8 := by
    have := Memory.span_le (max x.size 1)
    omega
  by_cases fits : l.memory.Fits (max x.size 1)
  next =>
    have size : (UInt32.ofNat x.size).toNat = x.size := by
      refine Memory.toNat_address ?_
      have := Memory.le_span (max x.size 1)
      have := fits.2
      omega
    have place := Memory.toNat_next ready.memory
    have read : (l.memory.topped (max x.size 1) x).read (UInt32.ofNat l.memory.next) (UInt32.ofNat x.size).toNat = .ok x := by
      rw [size]
      exact Memory.topped_read place (Nat.le_max_left _ _)
    have put : answered (writeBytes (UInt32.ofNat l.memory.next) x) (l.placed (max x.size 1)) =
        (.ok (), l.withMemory (l.memory.topped (max x.size 1) x)) :=
      answered_writeBytes (l := l.placed (max x.size 1)) ready.clear
        (Memory.topped_write ready.memory place (Nat.le_max_left _ _))
    have ends := (value_makes (ready.scratched fits x) (v := .bytes x)
      (r := .newArrayBuffer (UInt32.ofNat l.memory.next) (UInt32.ofNat x.size)) (c := rfl) rfl (by
        simp only [Engine.perform, outcome_bind, Engine.outcome_readMemory, withMemory, withEngine, read])).unscratched
          ready fits
    rw [newBytes, answered_withBlock_fits ready.clear ready.memory fits]
    simp only [answered_bind, put]
    exact ends.imp (fun room => room.mono few (Nat.le_refl 1)) fun _ _ made => made.mono few
  next =>
    simp only [newBytes, withBlock, answered_bind, answered_allocate_refused ready.clear fits]
    exact .error (.refl ready) fun room => fits (room.fits few)

end Made

end Link

end ScriptHost
