import ScriptHost.Proofs.Engine.Scratch

set_option autoImplicit false

/-!
The engine's memory over any sequence of uses, told from what the uses were and what they answered.

A log of what was claimed, written and freed says which blocks are live and what each of their bytes is.
The memory agrees with its log after every use: `use_keeps` is one step, `uses_lawful` any number of them.
-/

namespace ScriptHost

namespace Memory

inductive Use
  | allocate (size : UInt32)
  | free (a : Addr)
  | read (a : Addr) (count : UInt32)
  | write (a : Addr) (bytes : ByteArray)
  | readCString (a : Addr)
  | writeTable (words : List UInt32)
  | writeCString (s : String)
  | clear
  | setLimit (limit : Option Nat)

inductive Reply
  | done
  | address (a : Addr)
  | bytes (bytes : ByteArray)
  | text (s : String)
  | failed (e : Error)

/-- A use that fails leaves the memory as it was. -/
def orFailed {α : Type} (m : Memory) (after : α -> Reply × Memory) : Except Error α -> Reply × Memory
  | .ok a => after a
  | .error e => (.failed e, m)

def use (m : Memory) : Use -> Reply × Memory
  | .allocate size => (.address (m.allocate size.toNat).1, (m.allocate size.toNat).2)
  | .free a => (.done, m.free a)
  | .read a count => m.orFailed (fun bytes => (.bytes bytes, m)) (m.read a count.toNat)
  | .write a bytes => m.orFailed (fun m => (.done, m)) (m.write a bytes)
  | .readCString a => m.orFailed (fun s => (.text s, m)) (m.readCString a)
  | .writeTable words => m.orFailed (fun (a, m) => (.address a, m)) (m.writeTable words)
  | .writeCString s => m.orFailed (fun (a, m) => (.address a, m)) (m.writeCString s)
  | .clear => (.done, m.clear)
  | .setLimit limit => (.done, m.setLimit limit)

inductive Entry
  | claimed (start size : Nat)
  | wrote (start : Nat) (bytes : ByteArray)
  | freed (start : Nat)
  | cleared
  | limited (limit : Option Nat)

/-- What a use comes to, given its answer. The newest entry is first, as in every log. -/
def Use.entries : Use -> Reply -> List Entry
  | .allocate size, .address a => if a = 0 then [] else [.claimed a.toNat size.toNat]
  | .free a, _ => [.freed a.toNat]
  | .write a bytes, .done => [.wrote a.toNat bytes]
  | .writeTable words, .address a =>
      if a = 0 then [] else [.wrote a.toNat (encodeWords words), .claimed a.toNat (max (words.length * 4) 4)]
  | .writeCString s, .address a =>
      if a = 0 then [] else [.wrote a.toNat (terminated s), .claimed a.toNat (terminated s).size]
  | .clear, _ => [.cleared]
  | .setLimit limit, _ => [.limited limit]
  | _, _ => []

/-- All blocks that were ever claimed, by their starts and sizes. -/
def claims : List Entry -> List (Nat × Nat)
  | [] => []
  | .claimed start size :: log => (start, size) :: claims log
  | _ :: log => claims log

/-- The blocks that are left. -/
def live : List Entry -> List (Nat × Nat)
  | [] => []
  | .claimed start size :: log => (start, size) :: live log
  | .freed start :: log => (live log).filter fun e => !decide (e.1 = start)
  | .cleared :: _ => []
  | _ :: log => live log

/-- What was last written to an address. A block that is claimed starts with zeros. -/
def lastByte : List Entry -> Nat -> UInt8
  | [], _ => 0
  | .claimed start size :: log, x => if start ≤ x ∧ x < start + size then 0 else lastByte log x
  | .wrote start bytes :: log, x =>
      if start ≤ x ∧ x < start + bytes.size then (bytes.data[x - start]?).getD 0 else lastByte log x
  | _ :: log, x => lastByte log x

def limitIn : List Entry -> Option Nat
  | [] => none
  | .limited limit :: _ => limit
  | _ :: log => limitIn log

def inUse (log : List Entry) : Nat :=
  ((live log).map Prod.snd).sum

/-- A range of addresses lies in one live block. -/
def Covered (log : List Entry) (a n : Nat) : Prop :=
  ∃ e ∈ live log, e.1 ≤ a ∧ a + n ≤ e.1 + e.2

/-- More bytes would be in use than may be, or the block would not end within the addresses. -/
def Exhausted (log : List Entry) (m : Memory) (size : Nat) : Prop :=
  (∃ limit, limitIn log = some limit ∧ limit < inUse log + size) ∨ lastAddress < m.next + span size

/-- A memory and the log of its uses. -/
def useOn (state : Memory × List Entry) (u : Use) : Memory × List Entry :=
  ((state.1.use u).2, u.entries (state.1.use u).1 ++ state.2)

/-- A new memory after some uses, and their log. -/
def after (uses : List Use) : Memory × List Entry :=
  uses.foldl useOn (empty, [])

structure Lawful (log : List Entry) (m : Memory) : Prop where
  blocks : m.extents = live log
  disjoint : (live log).Pairwise fun later earlier => earlier.1 + earlier.2 ≤ later.1
  placed : ∀ e ∈ live log, blockAlignment ∣ e.1 ∧ firstAddress ≤ e.1 ∧ e.1 + e.2 ≤ m.next
  used : m.used = inUse log
  -- Of any two blocks ever claimed the later one starts behind the other, be that freed or not.
  fresh : (claims log).Pairwise fun later earlier => earlier.1 + max earlier.2 1 ≤ later.1
  next : m.next = firstAddress + ((claims log).map fun e => span e.2).sum
  read_covered : ∀ (a : Addr) (count : UInt32), Covered log a.toNat count.toNat ->
    ∃ bytes, m.use (.read a count) = (.bytes bytes, m) ∧
      bytes.data.toList = (List.range' a.toNat count.toNat).map (lastByte log)
  read_uncovered : ∀ (a : Addr) (count : UInt32), ¬Covered log a.toNat count.toNat ->
    m.use (.read a count) = (.failed (outOfBounds "read_bytes" count.toNat a), m)
  write_covered : ∀ (a : Addr) (bytes : ByteArray), Covered log a.toNat bytes.size ->
    ∃ m', m.use (.write a bytes) = (.done, m') ∧ Written m m' a.toNat bytes.data.toList
  write_uncovered : ∀ (a : Addr) (bytes : ByteArray), ¬Covered log a.toNat bytes.size ->
    m.use (.write a bytes) = (.failed (outOfBounds "write_bytes" bytes.size a), m)
  refused : ∀ size : UInt32, (m.allocate size.toNat).1 = 0 ↔ Exhausted log m size.toNat
  unchanged : ∀ size : UInt32, (m.allocate size.toNat).2 = m ↔ Exhausted log m size.toNat

/-- What a memory has in common with its log, as every use keeps it. -/
structure Keeps (log : List Entry) (m : Memory) : Prop where
  wellFormed : m.WellFormed
  extents : m.extents = live log
  limit : m.limit = limitIn log
  next : m.next = firstAddress + ((claims log).map fun e => span e.2).sum
  below : ∀ e ∈ claims log, blockAlignment ∣ e.1 ∧ firstAddress ≤ e.1 ∧ e.1 + max e.2 1 ≤ m.next
  fresh : (claims log).Pairwise fun later earlier => earlier.1 + max earlier.2 1 ≤ later.1
  bytes : ∀ e ∈ live log, ∀ x, e.1 ≤ x -> x < e.1 + e.2 -> m.byteAt x = lastByte log x

variable {m m' : Memory} {log : List Entry} {a : Addr} {bytes : ByteArray} {size : Nat}

theorem live_claimed {e : Nat × Nat} (member : e ∈ live log) : e ∈ claims log := by
  induction log with
  | nil => exact member
  | cons entry log ih =>
    cases entry with
    | claimed start size =>
      rcases List.mem_cons.1 member with rfl | old
      · exact List.mem_cons_self
      · exact List.mem_cons_of_mem _ (ih old)
    | freed start => exact ih (List.mem_of_mem_filter member)
    | cleared => cases member
    | wrote start bytes => exact ih member
    | limited limit => exact ih member

theorem spans_aligned (extents : List (Nat × Nat)) : blockAlignment ∣ (extents.map fun e => span e.2).sum := by
  induction extents with
  | nil => exact Nat.dvd_zero _
  | cons e rest ih => exact Nat.dvd_add (Nat.dvd_mul_left _ _) ih

theorem Keeps.next_aligned (keeps : Keeps log m) : blockAlignment ∣ m.next :=
  keeps.next ▸ Nat.dvd_add (by decide) (spans_aligned _)

/-- What is in a block that two memories share. -/
theorem byteAt_shared (ok : m.WellFormed) (ok' : m'.WellFormed) {b : Block} (member : b ∈ m.blocks)
    (shared : b ∈ m'.blocks) {x : Nat} (low : b.base ≤ x) (high : x < b.base + b.size) :
    m'.byteAt x = m.byteAt x := by
  obtain ⟨i, rfl⟩ := Nat.exists_eq_add_of_le low
  have inside : i < max b.size 1 := by omega
  rw [byteAt_of_find ok member inside, byteAt_of_find ok' shared inside]

theorem keeps_empty : Keeps [] empty where
  wellFormed := wellFormed_empty
  extents := rfl
  limit := rfl
  next := rfl
  below := by simp [claims]
  fresh := List.Pairwise.nil
  bytes := by simp [live]

theorem Keeps.claim (keeps : Keeps log m) (fits : m.next + span size ≤ lastAddress) :
    Keeps (.claimed m.next size :: log) (m.topped size ByteArray.empty) where
  wellFormed := topped_wellFormed keeps.wellFormed fits _
  extents := congrArg (_ :: ·) keeps.extents
  limit := keeps.limit
  next := by
    simp only [topped, claims, List.map_cons, List.sum_cons]
    have := keeps.next
    omega
  below := by
    have room := le_span size
    intro e member
    rcases List.mem_cons.1 member with rfl | old
    · refine ⟨keeps.next_aligned, keeps.wellFormed.first, ?_⟩
      simp only [topped]
      omega
    · obtain ⟨aligned, first, last⟩ := keeps.below e old
      refine ⟨aligned, first, ?_⟩
      simp only [topped]
      omega
  fresh := List.pairwise_cons.2 ⟨fun e old => (keeps.below e old).2.2, keeps.fresh⟩
  bytes := by
    have ok := topped_wellFormed keeps.wellFormed fits ByteArray.empty
    intro e member x low high
    simp only [lastByte]
    rcases List.mem_cons.1 member with rfl | old
    · obtain ⟨i, rfl⟩ := Nat.exists_eq_add_of_le low
      dsimp only at low high
      have new := byteAt_of_find ok (b := ⟨m.next, size, ByteArray.empty⟩) List.mem_cons_self (i := i) (by dsimp only; omega)
      rw [if_pos ⟨low, high⟩, new]
      simp [Block.byte]
    · have under := (keeps.below e (live_claimed old)).2.2
      rw [if_neg (by omega), ← keeps.bytes e old x low high]
      rw [← keeps.extents] at old
      obtain ⟨b, block, rfl⟩ := List.mem_map.1 old
      exact byteAt_shared keeps.wellFormed ok block (List.mem_cons_of_mem _ block) low high

theorem Written.byteAt {content : List UInt8} {start : Nat} (written : Written m m' start content) (x : Nat) :
    m'.byteAt x = if start ≤ x ∧ x < start + content.length then (content[x - start]?).getD 0 else m.byteAt x := by
  split
  next inside =>
    obtain ⟨i, rfl⟩ := Nat.exists_eq_add_of_le inside.1
    have small : i < content.length := by omega
    have at_place := congrArg (fun bytes => (bytes[i]?).getD 0) written.there
    simpa [bytesAt, small] using at_place
  next outside =>
    have same := written.elsewhere x 1 (by omega)
    simpa [bytesAt] using same

theorem Keeps.write (keeps : Keeps log m) (written : Written m m' a.toNat bytes.data.toList) :
    Keeps (.wrote a.toNat bytes :: log) m' where
  wellFormed := written.wellFormed keeps.wellFormed
  extents := written.extents.trans keeps.extents
  limit := written.limit.trans keeps.limit
  next := written.next.trans keeps.next
  below := written.next ▸ keeps.below
  fresh := keeps.fresh
  bytes := by
    intro e member x low high
    rw [written.byteAt, lastByte, keeps.bytes e member x low high]
    simp

theorem Keeps.fill (keeps : Keeps log m) (fits : m.next + span size ≤ lastAddress) (few : bytes.size ≤ size) :
    Keeps (.wrote m.next bytes :: .claimed m.next size :: log) (m.topped size bytes) := by
  have ok := keeps.wellFormed
  have claimed := keeps.claim fits
  have place := toNat_next ok
  have room : (m.topped size ByteArray.empty).Inside (UInt32.ofNat m.next).toNat bytes.size := by
    rw [place]
    exact (topped_inside m size _).shorten few
  obtain ⟨m', done, written⟩ := write_inside claimed.wellFormed room
  obtain rfl : m.topped size bytes = m' := Except.ok.inj ((topped_write ok place few).symm.trans done)
  have kept := claimed.write written
  rwa [place] at kept

theorem Keeps.free (keeps : Keeps log m) (a : Addr) : Keeps (.freed a.toNat :: log) (m.free a) where
  wellFormed := keeps.wellFormed.free a
  extents := by rw [extents_free, keeps.extents, live]
  limit := keeps.limit
  next := keeps.next
  below := keeps.below
  fresh := keeps.fresh
  bytes := by
    intro e member x low high
    have left : e ∈ (m.free a).extents := by rwa [extents_free, keeps.extents]
    obtain ⟨b, block, rfl⟩ := List.mem_map.1 left
    refine Eq.trans ?_ (keeps.bytes _ (List.mem_of_mem_filter member) x low high)
    exact byteAt_shared keeps.wellFormed (keeps.wellFormed.free a) (List.mem_of_mem_filter block) block low high

theorem Keeps.clear (keeps : Keeps log m) : Keeps (.cleared :: log) m.clear :=
  { keeps with
    wellFormed := keeps.wellFormed.clear
    extents := rfl
    bytes := fun _ member => nomatch member }

theorem Keeps.setLimit (keeps : Keeps log m) (limit : Option Nat) :
    Keeps (.limited limit :: log) (m.setLimit limit) :=
  { keeps with
    wellFormed := keeps.wellFormed.of_layout rfl rfl rfl
    limit := rfl }

theorem use_keeps (keeps : Keeps log m) (u : Use) : Keeps (u.entries (m.use u).1 ++ log) (m.use u).2 := by
  have ok := keeps.wellFormed
  have some := next_nonzero ok
  have place := toNat_next ok
  cases u with
  | allocate size =>
    by_cases fits : m.Fits size.toNat
    · have claimed := keeps.claim fits.2
      simpa [use, Use.entries, allocate_fits fits, some, place] using claimed
    · simpa [use, Use.entries, allocate_refused fits] using keeps
  | free a => exact keeps.free a
  | read a count =>
    simp only [use, Use.entries]
    cases m.read a count.toNat <;> exact keeps
  | readCString a =>
    simp only [use, Use.entries]
    cases m.readCString a <;> exact keeps
  | write a bytes =>
    by_cases within : m.Within a.toNat bytes.size
    · obtain ⟨m', done, written⟩ := write_within ok within
      have kept := keeps.write written
      simpa [use, Use.entries, done, orFailed] using kept
    · simpa [use, Use.entries, write_outside within, orFailed] using keeps
  | writeTable words =>
    by_cases fits : m.Fits (max (words.length * 4) 4)
    · have few : (encodeWords words).size ≤ max (words.length * 4) 4 := by
        rw [size_encodeWords]
        omega
      have filled := keeps.fill fits.2 few
      simpa [use, Use.entries, writeTable_fits ok fits, orFailed, some, place] using filled
    · simpa [use, Use.entries, writeTable_refused fits, orFailed] using keeps
  | writeCString s =>
    by_cases fits : m.Fits (terminated s).size
    · have filled := keeps.fill fits.2 (Nat.le_refl _)
      simpa [use, Use.entries, writeCString_fits ok fits, orFailed, some, place] using filled
    · simpa [use, Use.entries, writeCString_refused fits, orFailed] using keeps
  | clear => exact keeps.clear
  | setLimit limit => exact keeps.setLimit limit

theorem uses_keep (uses : List Use) {state : Memory × List Entry} (keeps : Keeps state.2 state.1) :
    Keeps (uses.foldl useOn state).2 (uses.foldl useOn state).1 := by
  induction uses generalizing state with
  | nil => exact keeps
  | cons u rest ih => exact ih (use_keeps keeps u)

theorem Keeps.covered (keeps : Keeps log m) (x n : Nat) : m.Within x n ↔ Covered log x n := by
  rw [Within, Covered, keeps.extents]

theorem Keeps.used (keeps : Keeps log m) : m.used = inUse log := by
  rw [keeps.wellFormed.used, keeps.extents, inUse]

theorem Keeps.exhausted (keeps : Keeps log m) (size : Nat) : ¬m.Fits size ↔ Exhausted log m size := by
  have limited : m.withinLimit size = true ↔ ¬∃ limit, limitIn log = some limit ∧ limit < inUse log + size := by
    rw [withinLimit, keeps.limit, keeps.used]
    cases limitIn log <;> simp
  rw [Fits, limited, Exhausted, not_and_or, not_not, Nat.not_le]

theorem Keeps.reads (keeps : Keeps log m) {n : Nat} (covered : Covered log a.toNat n) :
    ∃ bytes, m.read a n = .ok bytes ∧ bytes.data.toList = (List.range' a.toNat n).map (lastByte log) := by
  obtain ⟨bytes, got, content⟩ := read_within keeps.wellFormed ((keeps.covered _ _).2 covered)
  obtain ⟨e, member, low, high⟩ := covered
  refine ⟨bytes, got, content.trans (List.map_congr_left fun x range => ?_)⟩
  have bounds := List.mem_range'_1.1 range
  exact keeps.bytes e member x (by omega) (by omega)

theorem Keeps.lawful (keeps : Keeps log m) : Lawful log m where
  blocks := keeps.extents
  disjoint := by
    have apart := keeps.wellFormed.apart
    rw [keeps.extents] at apart
    exact apart.imp fun earlier => by omega
  placed := by
    intro e member
    obtain ⟨aligned, first, last⟩ := keeps.below e (live_claimed member)
    exact ⟨aligned, first, by omega⟩
  used := keeps.used
  fresh := keeps.fresh
  next := keeps.next
  read_covered := by
    intro a count covered
    obtain ⟨bytes, got, content⟩ := keeps.reads covered
    exact ⟨bytes, by rw [use, got, orFailed], content⟩
  read_uncovered := by
    intro a count uncovered
    rw [use, read_outside fun within => uncovered ((keeps.covered _ _).1 within), orFailed]
  write_covered := by
    intro a bytes covered
    obtain ⟨m', done, written⟩ := write_within keeps.wellFormed ((keeps.covered _ _).2 covered)
    exact ⟨m', by rw [use, done, orFailed], written⟩
  write_uncovered := by
    intro a bytes uncovered
    rw [use, write_outside fun within => uncovered ((keeps.covered _ _).1 within), orFailed]
  refused := by
    intro size
    rw [← keeps.exhausted]
    by_cases fits : m.Fits size.toNat
    · simp [allocate_fits fits, fits, next_nonzero keeps.wellFormed]
    · simp [allocate_refused fits, fits]
  unchanged := by
    intro size
    rw [← keeps.exhausted]
    by_cases fits : m.Fits size.toNat
    · have grown : (m.topped size.toNat ByteArray.empty).next ≠ m.next := by
        have := le_span size.toNat
        simp only [topped]
        omega
      simp only [allocate_fits fits, fits, not_true, iff_false]
      exact fun same => grown (congrArg Memory.next same)
    · simp [allocate_refused fits, fits]

end Memory

end ScriptHost
