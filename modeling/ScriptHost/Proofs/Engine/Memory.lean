import Mathlib.Algebra.GroupWithZero.Nat
import Mathlib.Data.List.Basic
import ScriptHost.Engine.Memory

set_option autoImplicit false

/-!
What the engine's memory holds at every address, and what writing and allocating change of it.

Blocks lie apart, so an address lies in one block at most, and that is the block that a look-up finds.
-/

namespace ScriptHost

namespace Block

variable {b b' : Block} {bytes : ByteArray} {offset count : Nat}

theorem getD_pad (bytes : ByteArray) (n i : Nat) :
    ((pad bytes n).data[i]?).getD 0 = (bytes.data[i]?).getD 0 := by
  unfold pad zeros
  split
  next =>
    simp only [ByteArray.data_append, Array.getElem?_append]
    split
    next => rfl
    next outside =>
      have none : bytes.data[i]? = none := by simpa using outside
      rw [none, Array.getElem?_replicate]
      split <;> rfl
  next => rfl

theorem size_pad {n : Nat} (le : bytes.size ≤ n) : (pad bytes n).data.size = n := by
  unfold pad zeros
  split
  next less =>
    simp only [ByteArray.data_append, Array.size_append, Array.size_replicate, ByteArray.size] at *
    omega
  next enough => exact Nat.le_antisymm le (Nat.not_lt.1 enough)

theorem size_extract_le (bytes : ByteArray) (i n : Nat) : (bytes.extract i (i + n)).size ≤ n := by
  rw [ByteArray.size_extract]
  omega

theorem getD_extract (bytes : ByteArray) (i n j : Nat) (inside : j < n) :
    ((bytes.extract i (i + n)).data[j]?).getD 0 = (bytes.data[i + j]?).getD 0 := by
  rw [ByteArray.data_extract, Array.getElem?_extract]
  split
  next => rfl
  next outside =>
    have behind : bytes.data[i + j]? = none := by
      rw [Array.getElem?_eq_none_iff]
      omega
    rw [behind]

theorem read_eq (inside : offset + count ≤ b.size) :
    ∃ bytes, b.read offset count = some bytes ∧
      bytes.data.toList = (List.range' offset count).map b.byte := by
  refine ⟨_, if_pos inside, ?_⟩
  have size := size_pad (size_extract_le b.written offset count)
  apply List.ext_getElem
  next => simpa using size
  next =>
    intro i here there
    have small : i < count := by simpa using there
    have value := getD_pad (b.written.extract offset (offset + count)) count i
    rw [getD_extract _ _ _ _ small] at value
    have some := Array.getElem?_eq_getElem
      (size.symm ▸ small : i < (pad (b.written.extract offset (offset + count)) count).data.size)
    rw [some] at value
    simpa [byte] using value

theorem byte_write (written : b.write offset bytes = some b') (i : Nat) :
    b'.byte i =
      if offset ≤ i ∧ i < offset + bytes.size then (bytes.data[i - offset]?).getD 0 else b.byte i := by
  unfold write at written
  split at written
  next =>
    obtain rfl := Option.some.inj written
    have few : (b.written.extract 0 offset).size ≤ offset := by
      have bound := size_extract_le b.written 0 offset
      rwa [Nat.zero_add] at bound
    have front : (pad (b.written.extract 0 offset) offset).data.size = offset := size_pad few
    simp only [byte, ByteArray.data_append, Array.getElem?_append, Array.size_append, front,
      ByteArray.size_data]
    by_cases before : i < offset
    next =>
      have inside := getD_extract b.written 0 offset i before
      rw [if_pos (by omega), if_pos before, if_neg (by omega), getD_pad]
      simpa using inside
    next =>
      by_cases within : i < offset + bytes.size
      next => rw [if_pos within, if_neg before, if_pos (by omega)]
      next =>
        rw [if_neg within, if_neg (by omega), ByteArray.data_extract, Array.getElem?_extract]
        split
        next =>
          congr 2
          omega
        next outside =>
          have behind : b.written.data[i]? = none := by
            rw [Array.getElem?_eq_none_iff]
            simp only [ByteArray.size_data] at *
            omega
          rw [behind]
  next => simp at written

theorem write_extent (written : b.write offset bytes = some b') : b'.base = b.base ∧ b'.size = b.size := by
  unfold write at written
  split at written
  next =>
    obtain rfl := Option.some.inj written
    exact ⟨rfl, rfl⟩
  next => simp at written

end Block

namespace Memory

theorem wordOfBytes_wordBytes (w : UInt32) :
    wordOfBytes w.toUInt8 (w >>> 8).toUInt8 (w >>> 16).toUInt8 (w >>> 24).toUInt8 = w := by
  apply UInt32.toBitVec_inj.1
  apply BitVec.eq_of_getLsbD_eq
  intro i small
  simp only [wordOfBytes, UInt32.toBitVec_or, UInt32.toBitVec_shiftLeft, UInt8.toBitVec_toUInt32,
    UInt32.toBitVec_toUInt8, UInt32.toBitVec_shiftRight]
  simp [-UInt32.toBitVec_toUInt8, small]
  grind

theorem decode_encode (words : List UInt32) : decodeWords (words.flatMap wordBytes) = words := by
  induction words with
  | nil => rfl
  | cons w rest ih =>
    rw [List.flatMap_cons]
    simp only [wordBytes, List.cons_append, List.nil_append, decodeWords, wordOfBytes_wordBytes, ih]

theorem length_flatMap_wordBytes (words : List UInt32) :
    (words.flatMap wordBytes).length = 4 * words.length := by
  induction words with
  | nil => rfl
  | cons w rest ih =>
    simp only [List.flatMap_cons, List.length_append, ih, List.length_cons, wordBytes, List.length_nil]
    omega

def extents (m : Memory) : List (Nat × Nat) :=
  m.blocks.map fun b => (b.base, b.size)

structure WellFormed (m : Memory) : Prop where
  apart : m.extents.Pairwise fun later earlier => earlier.1 + max earlier.2 1 ≤ later.1
  below : ∀ e ∈ m.extents, e.1 + max e.2 1 ≤ m.next
  first : firstAddress ≤ m.next
  last : m.next ≤ lastAddress
  used : m.used = (m.extents.map Prod.snd).sum

/-- A range of addresses lies in one block. An empty one counts where a block starts. -/
def Inside (m : Memory) (a n : Nat) : Prop :=
  ∃ e ∈ m.extents, e.1 ≤ a ∧ a < e.1 + max e.2 1 ∧ a + n ≤ e.1 + e.2

/-- A range of addresses lies in one block. An empty one counts where a block ends as well. -/
def Within (m : Memory) (a n : Nat) : Prop :=
  ∃ e ∈ m.extents, e.1 ≤ a ∧ a + n ≤ e.1 + e.2

def find (m : Memory) (a : Nat) : Option Block :=
  m.blocks.find? fun b => decide (b.base ≤ a)

def byteAt (m : Memory) (a : Nat) : UInt8 :=
  (m.find a).elim 0 fun b => b.byte (a - b.base)

def bytesAt (m : Memory) (a n : Nat) : List UInt8 :=
  (List.range' a n).map m.byteAt

variable {m m' : Memory} {a n : Nat} {b : Block} {p : Addr} {bytes : ByteArray} {words : List UInt32}

theorem toNat_address {n : Nat} (few : n ≤ lastAddress) : (UInt32.ofNat n).toNat = n := by
  have small : n < 2 ^ 32 := by
    unfold lastAddress at few
    omega
  exact UInt32.toNat_ofNat_of_lt' small

theorem wellFormed_empty : WellFormed empty :=
  ⟨List.Pairwise.nil, by simp [extents, empty], Nat.le_refl _, by decide, rfl⟩

theorem find_block {blocks : List Block} {b : Block} {a : Nat}
    (apart : (blocks.map fun b => (b.base, b.size)).Pairwise fun later earlier =>
      earlier.1 + max earlier.2 1 ≤ later.1)
    (member : b ∈ blocks) (low : b.base ≤ a) (high : a < b.base + max b.size 1) :
    blocks.find? (fun b => decide (b.base ≤ a)) = some b := by
  induction blocks with
  | nil => simp at member
  | cons c rest ih =>
    obtain ⟨first, others⟩ := List.pairwise_cons.1 apart
    rcases List.mem_cons.1 member with rfl | later
    · simp [low]
    · have above := first _ (List.mem_map_of_mem later)
      have beyond : ¬c.base ≤ a := by
        dsimp only at above
        omega
      simp only [List.find?_cons, beyond, decide_false]
      exact ih others later

theorem find_last {blocks : List Block} {b c : Block} {a : Nat}
    (apart : (blocks.map fun b => (b.base, b.size)).Pairwise fun later earlier =>
      earlier.1 + max earlier.2 1 ≤ later.1)
    (found : blocks.find? (fun b => decide (b.base ≤ a)) = some b) (member : c ∈ blocks) (low : c.base ≤ a) :
    c = b ∨ c.base + max c.size 1 ≤ b.base := by
  induction blocks with
  | nil => cases member
  | cons d rest ih =>
    obtain ⟨first, others⟩ := List.pairwise_cons.1 apart
    by_cases here : d.base ≤ a
    · obtain rfl : d = b := by simpa [here] using found
      rcases List.mem_cons.1 member with rfl | later
      · exact .inl rfl
      · exact .inr (first _ (List.mem_map_of_mem later))
    · have later : rest.find? (fun b => decide (b.base ≤ a)) = some b := by simpa [here] using found
      rcases List.mem_cons.1 member with rfl | among
      · exact absurd low here
      · exact ih others later among

theorem Inside.within (inside : m.Inside a n) : m.Within a n := by
  obtain ⟨e, member, low, -, high⟩ := inside
  exact ⟨e, member, low, high⟩

/-- Where one block ends and another starts, the look-up goes to the one that starts. -/
theorem within_find (ok : m.WellFormed) (within : m.Within a n) :
    ∃ b, m.find a = some b ∧ b ∈ m.blocks ∧ b.base ≤ a ∧ a + n ≤ b.base + b.size := by
  obtain ⟨e, member, low, high⟩ := within
  obtain ⟨c, among, rfl⟩ := List.mem_map.1 member
  dsimp only at low high
  cases found : m.find a with
  | none =>
    have missing := List.find?_eq_none.1 found c among
    simp only [decide_eq_true_eq] at missing
    exact absurd low missing
  | some b =>
    have below : b.base ≤ a := by simpa using List.find?_some found
    refine ⟨b, rfl, List.mem_of_find?_eq_some found, below, ?_⟩
    rcases find_last ok.apart found among low with rfl | above
    · exact high
    · omega

theorem locate_within (ok : m.WellFormed) (within : m.Within p.toNat n) : m.locate p = m.find p.toNat := by
  obtain ⟨b, found, _, low, high⟩ := within_find ok within
  have known : m.blocks.find? (fun b => decide (b.base ≤ p.toNat)) = some b := found
  simp only [locate, known, found]
  exact if_pos (by omega)

theorem locate_outside (outside : ¬m.Within p.toNat n) {b : Block} (located : m.locate p = some b) :
    b.size < p.toNat - b.base + n := by
  unfold locate at located
  split at located
  next => cases located
  next c found =>
    split at located
    next =>
      obtain rfl := Option.some.inj located
      have low : c.base ≤ p.toNat := by simpa using List.find?_some found
      have missed : ¬p.toNat + n ≤ c.base + c.size := fun high =>
        outside ⟨_, List.mem_map_of_mem (List.mem_of_find?_eq_some found), low, high⟩
      omega
    next => cases located

theorem byteAt_of_find (ok : m.WellFormed) (member : b ∈ m.blocks) {i : Nat}
    (inside : i < max b.size 1) : m.byteAt (b.base + i) = b.byte i := by
  have found : m.find (b.base + i) = some b :=
    find_block ok.apart member (by omega) (by omega)
  simp [byteAt, found]

theorem read_within (ok : m.WellFormed) (within : m.Within p.toNat n) :
    ∃ bytes, m.read p n = .ok bytes ∧ bytes.data.toList = m.bytesAt p.toNat n := by
  obtain ⟨b, found, member, low, high⟩ := within_find ok within
  have fits : p.toNat - b.base + n ≤ b.size := by omega
  obtain ⟨bytes, got, content⟩ := Block.read_eq fits
  refine ⟨bytes, by simp [read, locate_within ok within, found, got], ?_⟩
  rw [content]
  apply List.ext_getElem
  next => simp [bytesAt]
  next =>
    intro i here _
    have small : i < n := by simpa using here
    have same := byteAt_of_find ok member (i := p.toNat - b.base + i) (by omega)
    have place : b.base + (p.toNat - b.base + i) = p.toNat + i := by omega
    simp only [bytesAt, List.getElem_map, List.getElem_range', Nat.one_mul]
    rw [← same, place]

theorem read_inside (ok : m.WellFormed) (inside : m.Inside p.toNat n) :
    ∃ bytes, m.read p n = .ok bytes ∧ bytes.data.toList = m.bytesAt p.toNat n :=
  read_within ok inside.within

theorem read_outside (outside : ¬m.Within p.toNat n) : m.read p n = .error (outOfBounds "read_bytes" n p) := by
  have missed : ((m.locate p).bind fun b => b.read (p.toNat - b.base) n) = none := by
    refine Option.bind_eq_none_iff.2 fun b located => if_neg ?_
    have := locate_outside outside located
    omega
  simp only [read, missed]

theorem write_outside (outside : ¬m.Within p.toNat bytes.size) :
    m.write p bytes = .error (outOfBounds "write_bytes" bytes.size p) := by
  have missed : ((m.locate p).bind fun b => b.write (p.toNat - b.base) bytes) = none := by
    refine Option.bind_eq_none_iff.2 fun b located => if_neg ?_
    have := locate_outside outside located
    omega
  simp only [write, missed]

theorem WellFormed.of_layout (ok : m.WellFormed) (extents : m'.extents = m.extents)
    (next : m'.next = m.next) (used : m'.used = m.used) : m'.WellFormed := by
  obtain ⟨apart, below, first, last, counted⟩ := ok
  exact ⟨extents ▸ apart, by rw [extents, next]; exact below, next ▸ first, next ▸ last, by rw [used, extents, counted]⟩

theorem Inside.of_layout (inside : m.Inside a n) (extents : m'.extents = m.extents) : m'.Inside a n := by
  unfold Inside
  rw [extents]
  exact inside

theorem Inside.le_next (inside : m.Inside a n) (ok : m.WellFormed) : a + n ≤ m.next := by
  obtain ⟨e, member, _, _, within⟩ := inside
  have := ok.below e member
  omega

structure Written (m m' : Memory) (a : Nat) (bytes : List UInt8) : Prop where
  extents : m'.extents = m.extents
  next : m'.next = m.next
  used : m'.used = m.used
  limit : m'.limit = m.limit
  there : m'.bytesAt a bytes.length = bytes
  elsewhere : ∀ x n, x + n ≤ a ∨ a + bytes.length ≤ x -> m'.bytesAt x n = m.bytesAt x n

theorem block_unique (ok : m.WellFormed) {b c : Block} (member : b ∈ m.blocks) (among : c ∈ m.blocks)
    (same : c.base = b.base) : c = b := by
  have here := find_block ok.apart member (Nat.le_refl _) (by omega)
  have there := find_block ok.apart among (Nat.le_refl _) (by omega)
  rw [same, here] at there
  exact (Option.some.inj there).symm

def replaced (m : Memory) (b : Block) : Memory :=
  { m with blocks := m.blocks.map fun c => if c.base = b.base then b else c }

theorem extents_replaced (ok : m.WellFormed) {b next : Block} (member : b ∈ m.blocks)
    (base : next.base = b.base) (size : next.size = b.size) : (m.replaced next).extents = m.extents := by
  simp only [extents, replaced, List.map_map]
  apply List.map_congr_left
  intro c among
  by_cases same : c.base = next.base
  next =>
    obtain rfl := block_unique ok member among (same.trans base)
    simp [base, size]
  next => simp [same]

theorem find_replaced (m : Memory) (b : Block) (x : Nat) :
    (m.replaced b).find x = (m.find x).map fun c => if c.base = b.base then b else c := by
  have same : ∀ c : Block, (if c.base = b.base then b else c).base = c.base := by
    intro c
    split
    next here => exact here.symm
    next => rfl
  simp only [find, replaced, List.find?_map, Function.comp_def, same]

theorem byteAt_replaced {b next : Block} {x : Nat} (base : next.base = b.base)
    (found : m.find x = some b) : (m.replaced next).byteAt x = next.byte (x - b.base) := by
  simp [byteAt, find_replaced, found, base]

theorem byteAt_replaced_other (ok : m.WellFormed) {b next : Block} {x : Nat} (member : b ∈ m.blocks)
    (base : next.base = b.base) (other : m.find x ≠ some b) :
    (m.replaced next).byteAt x = m.byteAt x := by
  unfold byteAt
  rw [find_replaced]
  cases found : m.find x with
  | none => rfl
  | some c =>
    have apart : c.base ≠ b.base := by
      intro same
      obtain rfl := block_unique ok member (List.mem_of_find?_eq_some found) same
      exact other found
    simp [base, apart]

theorem write_within (ok : m.WellFormed) (within : m.Within p.toNat bytes.size) :
    ∃ m', m.write p bytes = .ok m' ∧ Written m m' p.toNat bytes.data.toList := by
  obtain ⟨b, found, member, low, high⟩ := within_find ok within
  have fits : p.toNat - b.base + bytes.size ≤ b.size := by omega
  obtain ⟨next, put⟩ : ∃ next, b.write (p.toNat - b.base) bytes = some next := ⟨_, if_pos fits⟩
  obtain ⟨base, size⟩ := Block.write_extent put
  -- Only the block of the range is replaced, and in it only the bytes of the range.
  have content : ∀ x, (m.replaced next).byteAt x =
      if p.toNat ≤ x ∧ x < p.toNat + bytes.size then (bytes.data[x - p.toNat]?).getD 0
      else m.byteAt x := by
    intro x
    by_cases range : p.toNat ≤ x ∧ x < p.toNat + bytes.size
    next =>
      have here : m.find x = some b := find_block ok.apart member (by omega) (by omega)
      rw [byteAt_replaced base here, Block.byte_write put, if_pos (by omega), if_pos range]
      congr 2
      omega
    next =>
      rw [if_neg range]
      by_cases here : m.find x = some b
      next =>
        have start : b.base ≤ x := by simpa using List.find?_some here
        rw [byteAt_replaced base here, Block.byte_write put, if_neg (by omega)]
        simp [byteAt, here]
      next => exact byteAt_replaced_other ok member base here
  refine ⟨m.replaced next, ?_, extents_replaced ok member base size, rfl, rfl, rfl, ?_, ?_⟩
  next => simp [write, locate_within ok within, found, put, replaced]
  next =>
    apply List.ext_getElem
    next => simp [bytesAt]
    next =>
      intro i _ there
      have small : i < bytes.data.size := by simpa using there
      simp only [bytesAt, List.getElem_map, List.getElem_range', Nat.one_mul, content]
      rw [if_pos (by simp only [ByteArray.size_data] at small; omega), Nat.add_sub_cancel_left,
        Array.getElem?_eq_getElem small]
      rfl
  next =>
    intro x n apart
    apply List.map_congr_left
    intro y range
    have bounds := List.mem_range'_1.1 range
    rw [content, if_neg]
    simp only [Array.length_toList, ByteArray.size_data] at apart
    omega

theorem write_inside (ok : m.WellFormed) (inside : m.Inside p.toNat bytes.size) :
    ∃ m', m.write p bytes = .ok m' ∧ Written m m' p.toNat bytes.data.toList :=
  write_within ok inside.within

structure Allocated (m m' : Memory) (a : Addr) (size : Nat) : Prop where
  wellFormed : m'.WellFormed
  kept : ∀ x n, m.Inside x n -> m'.Inside x n
  fresh : a ≠ 0 -> a.toNat = m.next ∧ m'.Inside a.toNat size ∧ a.toNat + size ≤ lastAddress

theorem le_span (size : Nat) : max size 1 ≤ span size := by
  unfold span blockAlignment
  omega

theorem allocate_spec (ok : m.WellFormed) (size : Nat) :
    Allocated m (m.allocate size).2 (m.allocate size).1 size := by
  unfold allocate
  have room := le_span size
  split
  next granted =>
    simp only [Bool.and_eq_true, decide_eq_true_eq] at granted
    have address : (UInt32.ofNat m.next).toNat = m.next := toNat_address (by omega)
    refine ⟨⟨?_, ?_, ?_, granted.2, ?_⟩, ?_, ?_⟩
    · exact List.pairwise_cons.2 ⟨ok.below, ok.apart⟩
    · intro e member
      rcases List.mem_cons.1 member with rfl | old
      · dsimp only
        omega
      · have := ok.below e old
        dsimp only
        omega
    · have := ok.first
      dsimp only
      omega
    · simp only [ok.used, extents, List.map_cons, List.sum_cons]
      omega
    · rintro x n ⟨e, member, within⟩
      exact ⟨e, List.mem_cons_of_mem _ member, within⟩
    · intro _
      rw [address]
      refine ⟨rfl, ⟨(m.next, size), List.mem_cons_self, ?_⟩, by omega⟩
      dsimp only
      omega
  next => exact ⟨ok, fun _ _ inside => inside, fun none => absurd rfl none⟩

theorem WellFormed.write (ok : m.WellFormed) (done : m.write p bytes = .ok m') : m'.WellFormed := by
  unfold Memory.write at done
  split at done
  next next put =>
    obtain rfl := Except.ok.inj done
    obtain ⟨b, located, written⟩ := Option.bind_eq_some_iff.1 put
    obtain ⟨base, size⟩ := Block.write_extent written
    have member : b ∈ m.blocks := by
      unfold locate at located
      split at located
      next => simp at located
      next c found =>
        split at located
        next =>
          obtain rfl := Option.some.inj located
          exact List.mem_of_find?_eq_some found
        next => simp at located
    exact ok.of_layout (extents_replaced ok member base size) rfl rfl
  next => simp at done

/-- As no two blocks start at one address, leaving out all that start there leaves out the one that is found. -/
theorem sum_without {extents : List (Nat × Nat)} {e : Nat × Nat} {a : Nat}
    (apart : extents.Pairwise fun later earlier => earlier.1 + max earlier.2 1 ≤ later.1)
    (found : extents.find? (fun e => decide (e.1 = a)) = some e) :
    ((extents.filter fun e => !decide (e.1 = a)).map Prod.snd).sum + e.2 = (extents.map Prod.snd).sum := by
  induction extents with
  | nil => cases found
  | cons c rest ih =>
    obtain ⟨first, others⟩ := List.pairwise_cons.1 apart
    by_cases here : c.1 = a
    · obtain rfl : c = e := by simpa [here] using found
      have kept : ∀ e ∈ rest, (!decide (e.1 = a)) = true := by
        intro e member
        have below := first e member
        have other : e.1 ≠ a := by omega
        simp [other]
      rw [List.filter_cons_of_neg (by simp [here]), List.filter_eq_self.2 kept, List.map_cons, List.sum_cons]
      omega
    · have later : rest.find? (fun e => decide (e.1 = a)) = some e := by simpa [here] using found
      have sum := ih others later
      rw [List.filter_cons_of_pos (by simp [here]), List.map_cons, List.sum_cons, List.map_cons, List.sum_cons]
      omega

theorem extents_free (m : Memory) (p : Addr) :
    (m.free p).extents = m.extents.filter fun e => !decide (e.1 = p.toNat) := by
  simp only [extents, free, List.filter_map, Function.comp_def]

theorem used_free (ok : m.WellFormed) (p : Addr) :
    (m.free p).used = ((m.free p).extents.map Prod.snd).sum := by
  have listed : m.extents.find? (fun e => decide (e.1 = p.toNat)) =
      (m.blocks.find? fun b => decide (b.base = p.toNat)).map fun b => (b.base, b.size) := by
    rw [extents, List.find?_map]
    rfl
  rw [extents_free]
  simp only [free, lengthAt, ok.used]
  cases found : m.blocks.find? fun b => decide (b.base = p.toNat) with
  | some b =>
    have sum := sum_without ok.apart (listed.trans (congrArg _ found))
    dsimp only [Option.elim_some] at sum ⊢
    omega
  | none =>
    rw [List.filter_eq_self.2 (by simpa [found] using listed)]
    rfl

theorem WellFormed.free (ok : m.WellFormed) (p : Addr) : (m.free p).WellFormed := by
  have fewer : (m.free p).extents.Sublist m.extents := extents_free m p ▸ List.filter_sublist
  exact ⟨ok.apart.sublist fewer, fun e member => ok.below e (fewer.subset member), ok.first, ok.last, used_free ok p⟩

theorem WellFormed.clear (ok : m.WellFormed) : m.clear.WellFormed :=
  ⟨List.Pairwise.nil, by simp [extents, Memory.clear], ok.first, ok.last, rfl⟩

def Stores (m : Memory) (a : Nat) (words : List UInt32) : Prop :=
  m.bytesAt a (4 * words.length) = words.flatMap wordBytes

theorem readWords_stores (ok : m.WellFormed) (inside : m.Inside p.toNat (4 * words.length))
    (stored : m.Stores p.toNat words) : m.readWords p words.length = .ok words := by
  unfold readWords
  split
  next none => rw [List.length_eq_zero_iff.1 none]
  next =>
    rw [Nat.mul_comm]
    obtain ⟨bytes, got, content⟩ := read_inside ok inside
    rw [got, Except.map, content, stored, decode_encode]

theorem Stores.append {more : List UInt32} (first : m.Stores a words)
    (second : m.Stores (a + 4 * words.length) more) : m.Stores a (words ++ more) := by
  unfold Stores bytesAt at *
  rw [List.length_append, Nat.mul_add, ← List.range'_append_1, List.map_append, first, second,
    List.flatMap_append]

theorem Written.inside {content : List UInt8} (written : Written m m' p.toNat content)
    (inside : m.Inside a n) : m'.Inside a n :=
  inside.of_layout written.extents

theorem Written.wellFormed {content : List UInt8} (written : Written m m' p.toNat content)
    (ok : m.WellFormed) : m'.WellFormed :=
  ok.of_layout written.extents written.next written.used

structure Worded (m m' : Memory) (a : Addr) (w : UInt32) : Prop where
  wellFormed : m'.WellFormed
  inside : ∀ {x n : Nat}, m.Inside x n -> m'.Inside x n
  there : m'.Stores a.toNat [w]
  stores : ∀ {x : Nat} {words : List UInt32}, m.Stores x words ->
    x + 4 * words.length ≤ a.toNat ∨ a.toNat + 4 ≤ x -> m'.Stores x words

theorem writeWord_spec (ok : m.WellFormed) (inside : m.Inside p.toNat 4) (w : UInt32) :
    ∃ m', m.writeWord p w = .ok m' ∧ Worded m m' p w := by
  have room : m.Inside p.toNat (encodeWords [w]).size := inside
  obtain ⟨m', done, written⟩ := write_inside ok room
  have length : (encodeWords [w]).data.toList.length = 4 := rfl
  refine ⟨m', done, written.wellFormed ok, written.inside, ?_, ?_⟩
  next => simpa [Stores, encodeWords, wordBytes] using written.there
  next =>
    intro x words stored apart
    unfold Stores at *
    rw [written.elsewhere x _ (by rwa [length]), stored]

structure Tabled (m m' : Memory) (a : Addr) (words : List UInt32) : Prop where
  wellFormed : m'.WellFormed
  kept : ∀ x n, m.Inside x n -> m'.Inside x n
  stored : a ≠ 0 -> a.toNat = m.next ∧ m'.Inside a.toNat (4 * words.length) ∧
    m'.Stores a.toNat words ∧ 4 * words.length ≤ lastAddress

theorem Inside.shorten {k : Nat} (inside : m.Inside a n) (less : k ≤ n) : m.Inside a k := by
  obtain ⟨e, member, low, high, within⟩ := inside
  exact ⟨e, member, low, high, by omega⟩

theorem writeTable_spec (ok : m.WellFormed) (words : List UInt32) :
    ∃ a m', m.writeTable words = .ok (a, m') ∧ Tabled m m' a words := by
  have granted := allocate_spec ok (max (words.length * 4) 4)
  unfold writeTable
  generalize m.allocate (max (words.length * 4) 4) = made at *
  obtain ⟨a, s⟩ := made
  dsimp only at *
  split
  next refused =>
    exact ⟨0, s, rfl, granted.wellFormed, granted.kept, fun none => absurd rfl none⟩
  next some =>
    obtain ⟨address, inside, bounded⟩ := granted.fresh some
    have length : (encodeWords words).size = 4 * words.length := by
      simpa [encodeWords, ByteArray.size] using length_flatMap_wordBytes words
    have room : s.Inside a.toNat (encodeWords words).size := inside.shorten (by omega)
    obtain ⟨m', put, written⟩ := write_inside granted.wellFormed room
    refine ⟨a, m', by rw [put]; rfl, written.wellFormed granted.wellFormed,
      fun x n old => written.inside (granted.kept x n old), fun _ => ⟨address, ?_, ?_, by omega⟩⟩
    · exact written.inside (inside.shorten (by omega))
    · have there := written.there
      simp only [Array.length_toList, ByteArray.size_data, length] at there
      simpa [Stores, encodeWords] using there

theorem WellFormed.writeCString (ok : m.WellFormed) {text : String} {a : Addr}
    (done : m.writeCString text = .ok (a, m')) : m'.WellFormed := by
  have granted := (allocate_spec ok (terminated text).size).wellFormed
  unfold Memory.writeCString at done
  dsimp only at done
  generalize m.allocate (terminated text).size = made at *
  obtain ⟨b, s⟩ := made
  dsimp only at *
  split at done
  next =>
    obtain ⟨_, rfl⟩ := Prod.mk.inj (Except.ok.inj done)
    exact granted
  next =>
    cases put : s.write b (terminated text) with
    | error e => simp [put, Except.map] at done
    | ok t =>
      obtain ⟨_, rfl⟩ : b = a ∧ t = m' := by simpa [put, Except.map] using done
      exact granted.write put

end Memory

end ScriptHost
