import Mathlib.Algebra.GroupWithZero.Nat
import ScriptHost.Proofs.Engine.Remembering
import ScriptHost.Proofs.Text.Terminated

set_option autoImplicit false

/-!
Blocks that are used for a moment: new ones lie on top of those that are there, and go first.

While only new blocks are written to and freed, the old ones stay as they are.
-/

namespace ScriptHost

namespace Block

theorem extract_whole (bytes : ByteArray) : bytes.extract 0 bytes.size = bytes :=
  ByteArray.extract_zero_size

theorem pad_enough {bytes : ByteArray} {n : Nat} (enough : n ≤ bytes.size) : pad bytes n = bytes :=
  if_neg (Nat.not_lt.2 enough)

theorem write_empty {base size : Nat} {bytes : ByteArray} (few : bytes.size ≤ size) :
    (Block.mk base size ByteArray.empty).write 0 bytes = some ⟨base, size, bytes⟩ := by
  have fits : 0 + bytes.size ≤ size := by omega
  have front : pad (ByteArray.empty.extract 0 0) 0 = ByteArray.empty := by
    apply ByteArray.ext
    rfl
  have behind : ByteArray.empty.extract (0 + bytes.size) ByteArray.empty.size = ByteArray.empty := by
    apply ByteArray.ext
    simp
  simp only [write, fits, if_true, front, behind, ByteArray.empty_append, ByteArray.append_empty]

theorem read_whole {base size : Nat} {bytes : ByteArray} (few : bytes.size ≤ size) :
    (Block.mk base size bytes).read 0 bytes.size = some bytes := by
  have fits : 0 + bytes.size ≤ size := by omega
  simp only [read, fits, if_true]
  rw [Nat.zero_add, extract_whole, pad_enough (Nat.le_refl _)]

end Block

namespace Memory

variable {m m' m'' : Memory} {a : Addr} {size n : Nat} {bytes : ByteArray} {scratch more : List (Nat × Nat)}

def Fits (m : Memory) (size : Nat) : Prop :=
  m.withinLimit size = true ∧ m.next + span size ≤ lastAddress

def topped (m : Memory) (size : Nat) (bytes : ByteArray) : Memory :=
  { m with blocks := ⟨m.next, size, bytes⟩ :: m.blocks, next := m.next + span size, used := m.used + size }

/-- Nothing but new blocks on top of the old ones, given by their starts and sizes, the newest first. -/
structure Atop (m m' : Memory) (scratch : List (Nat × Nat)) : Prop where
  wellFormed : m'.WellFormed
  next : m.next ≤ m'.next
  limit : m'.limit = m.limit
  used : m'.used = m.used + (scratch.map Prod.snd).sum
  blocks : ∃ top, m'.blocks = top ++ m.blocks ∧ top.map (fun b => (b.base, b.size)) = scratch ∧
    ∀ b ∈ top, m.next ≤ b.base

theorem toNat_next (ok : m.WellFormed) : (UInt32.ofNat m.next).toNat = m.next :=
  toNat_address ok.last

theorem next_nonzero (ok : m.WellFormed) : UInt32.ofNat m.next ≠ 0 := by
  intro zero
  have first := ok.first
  rw [← toNat_next ok, zero] at first
  exact absurd first (by decide)

theorem below_next (ok : m.WellFormed) {b : Block} (member : b ∈ m.blocks) : b.base < m.next := by
  have below := ok.below _ (List.mem_map_of_mem member)
  dsimp only at below
  omega

theorem topped_wellFormed (ok : m.WellFormed) (fits : m.next + span size ≤ lastAddress) (bytes : ByteArray) :
    (m.topped size bytes).WellFormed := by
  have room := le_span size
  refine ⟨List.pairwise_cons.2 ⟨ok.below, ok.apart⟩, ?_, Nat.le_add_right_of_le ok.first, fits, ?_⟩
  · intro e member
    rcases List.mem_cons.1 member with rfl | old
    · simp only [topped]
      omega
    · have := ok.below e old
      simp only [topped]
      omega
  · simp only [topped, extents, ok.used, List.map_cons, List.sum_cons]
    omega

theorem topped_atop (ok : m.WellFormed) (fits : m.next + span size ≤ lastAddress) (bytes : ByteArray) :
    Atop m (m.topped size bytes) [(m.next, size)] :=
  ⟨topped_wellFormed ok fits bytes, Nat.le_add_right _ _, rfl, rfl, [⟨m.next, size, bytes⟩], rfl, rfl, by simp⟩

theorem allocate_fits (fits : m.Fits size) :
    m.allocate size = (UInt32.ofNat m.next, m.topped size ByteArray.empty) := by
  simp only [allocate, fits.1, fits.2, decide_true, Bool.and_self, if_true, topped]

theorem allocate_refused (unfit : ¬m.Fits size) : m.allocate size = (0, m) := by
  refine if_neg fun granted => unfit ?_
  simpa [Fits] using granted

theorem topped_find (a : Addr) (at_next : a.toNat = m.next) (bytes : ByteArray) :
    (m.topped size bytes).locate a = some ⟨m.next, size, bytes⟩ := by
  simp [locate, topped, at_next]

theorem topped_write (ok : m.WellFormed) (at_next : a.toNat = m.next) (few : bytes.size ≤ size) :
    (m.topped size ByteArray.empty).write a bytes = .ok (m.topped size bytes) := by
  have old : (m.blocks.map fun b => if b.base = m.next then ⟨m.next, size, bytes⟩ else b) = m.blocks := by
    refine (List.map_congr_left fun b member => ?_).trans (List.map_id m.blocks)
    exact if_neg (Nat.ne_of_lt (below_next ok member))
  simp only [write, topped_find a at_next, Option.bind_some, at_next, Nat.sub_self, Block.write_empty few]
  simp only [topped, List.map_cons, if_true, old]

theorem topped_read (at_next : a.toNat = m.next) (few : bytes.size ≤ size) :
    (m.topped size bytes).read a bytes.size = .ok bytes := by
  simp only [read, topped_find a at_next, Option.bind_some, at_next, Nat.sub_self, Block.read_whole few]

theorem size_terminated (s : String) : (terminated s).size = s.utf8ByteSize + 1 := by
  simp [terminated]

theorem topped_readCString (at_next : a.toNat = m.next) (s : String) :
    (m.topped (terminated s).size (terminated s)).readCString a = .ok (Text.untilNul s) := by
  -- A NUL of the text's own comes before the one behind it, so reading stays within the block either way.
  obtain ⟨more, content⟩ := Text.encoded_stops s.toList
  have kept : (Text.untilNul s).toUTF8.data.toList =
      (s.toList.takeWhile fun c => c != '\x00').flatMap String.utf8EncodeChar := by
    rw [Text.toList_toUTF8, Text.untilNul, String.toList_ofList]
  have bytes : (terminated s).data.toList = (Text.untilNul s).toUTF8.data.toList ++ 0 :: more := by
    have ended : (terminated s).data.toList = s.toUTF8.data.toList ++ [0] := by simp [terminated]
    rw [ended, Text.toList_toUTF8, content, kept]
  have stop := Text.findIdx?_zero bytes fun x member => Text.nonzero_of_taken (kept ▸ member)
  have text : (terminated s).extract 0 (Text.untilNul s).toUTF8.data.toList.length = (Text.untilNul s).toUTF8 := by
    apply ByteArray.ext
    apply Array.toList_inj.1
    rw [ByteArray.data_extract, Array.toList_extract, bytes]
    simp
  have size : (Text.untilNul s).toUTF8.data.toList.length - 0 ≤ (Text.untilNul s).toUTF8.size := by simp
  simp only [readCString, topped_find a at_next, at_next, Nat.sub_self, Block.zeroFrom, stop, text, Block.pad_enough size,
    Text.decode_toUTF8]

theorem writeCString_fits (ok : m.WellFormed) {s : String} (fits : m.Fits (terminated s).size) :
    m.writeCString s = .ok (UInt32.ofNat m.next, m.topped (terminated s).size (terminated s)) := by
  simp only [writeCString, allocate_fits fits, next_nonzero ok, if_false,
    topped_write ok (toNat_next ok) (Nat.le_refl _), Except.map]

theorem writeCString_refused {s : String} (unfit : ¬m.Fits (terminated s).size) : m.writeCString s = .ok (0, m) := by
  simp only [writeCString, allocate_refused unfit, if_true]

theorem topped_inside (m : Memory) (size : Nat) (bytes : ByteArray) : (m.topped size bytes).Inside m.next size :=
  ⟨(m.next, size), List.mem_cons_self, Nat.le_refl _, Nat.lt_add_of_pos_right (by omega), Nat.le_refl _⟩

theorem Inside.topped {x : Nat} (inside : m.Inside x n) (size : Nat) (bytes : ByteArray) : (m.topped size bytes).Inside x n := by
  obtain ⟨e, member, within⟩ := inside
  exact ⟨e, List.mem_cons_of_mem _ member, within⟩

theorem read_apart (ok : m.WellFormed) (place : m.Inside a.toNat bytes.size) (done : m.write a bytes = .ok m') {b : Addr}
    (there : m.Inside b.toNat n) (apart : b.toNat + n ≤ a.toNat ∨ a.toNat + bytes.size ≤ b.toNat) :
    m'.read b n = m.read b n := by
  obtain ⟨t, done', written⟩ := write_inside ok place
  obtain rfl : t = m' := Except.ok.inj (done'.symm.trans done)
  obtain ⟨x, read, content⟩ := read_inside ok there
  obtain ⟨y, read', content'⟩ := read_inside (written.wellFormed ok) (written.inside there)
  have elsewhere := written.elsewhere b.toNat n (by simpa using apart)
  have same : y = x := by
    apply ByteArray.ext
    apply Array.toList_inj.1
    rw [content, content', elsewhere]
  rw [read, read', same]

section Tables

variable {words : List UInt32}

theorem size_encodeWords (words : List UInt32) : (encodeWords words).size = 4 * words.length := by
  simpa [encodeWords, ByteArray.size] using length_flatMap_wordBytes words

theorem writeTable_fits (ok : m.WellFormed) (fits : m.Fits (max (words.length * 4) 4)) :
    m.writeTable words = .ok (UInt32.ofNat m.next, m.topped (max (words.length * 4) 4) (encodeWords words)) := by
  have few : (encodeWords words).size ≤ max (words.length * 4) 4 := by
    rw [size_encodeWords]
    omega
  simp only [writeTable, allocate_fits fits, next_nonzero ok, if_false, topped_write ok (toNat_next ok) few, Except.map]

theorem writeTable_refused (unfit : ¬m.Fits (max (words.length * 4) 4)) : m.writeTable words = .ok (0, m) := by
  simp only [writeTable, allocate_refused unfit, if_true]

theorem topped_stores (ok : m.WellFormed) (fits : m.next + span size ≤ lastAddress) (few : 4 * words.length ≤ size) :
    (m.topped size (encodeWords words)).Stores m.next words := by
  have place := toNat_next ok
  have inside : (m.topped size (encodeWords words)).Inside (UInt32.ofNat m.next).toNat (4 * words.length) := by
    rw [place]
    exact (topped_inside m size _).shorten few
  obtain ⟨bytes, read, content⟩ := read_inside (topped_wellFormed ok fits _) inside
  have known : (m.topped size (encodeWords words)).read (UInt32.ofNat m.next) (encodeWords words).size = .ok _ :=
    topped_read place (by rw [size_encodeWords]; exact few)
  rw [size_encodeWords, read] at known
  obtain rfl := Except.ok.inj known
  rw [Stores, ← place, ← content]
  simp [encodeWords]

end Tables

namespace Atop

theorem refl (ok : m.WellFormed) : Atop m m [] :=
  ⟨ok, Nat.le_refl _, rfl, rfl, [], rfl, rfl, by simp⟩

theorem trans (first : Atop m m' scratch) (second : Atop m' m'' more) : Atop m m'' (more ++ scratch) := by
  obtain ⟨top, blocks, extents, high⟩ := first.blocks
  obtain ⟨top', blocks', extents', high'⟩ := second.blocks
  refine ⟨second.wellFormed, Nat.le_trans first.next second.next, second.limit.trans first.limit, ?_, top' ++ top, ?_, ?_, ?_⟩
  · rw [second.used, first.used, List.map_append, List.sum_append, Nat.add_assoc, Nat.add_comm (scratch.map Prod.snd).sum]
  · rw [blocks', blocks, List.append_assoc]
  · rw [List.map_append, extents, extents']
  · intro b member
    rcases List.mem_append.1 member with new | old
    · exact Nat.le_trans first.next (high' b new)
    · exact high b old

theorem extents (atop : Atop m m' scratch) : m'.extents = scratch ++ m.extents := by
  obtain ⟨top, blocks, extents, -⟩ := atop.blocks
  rw [Memory.extents, blocks, List.map_append, extents]
  rfl

theorem settled (atop : Atop m m' []) : m' = { m with next := m'.next } := by
  obtain ⟨top, blocks, extents, -⟩ := atop.blocks
  obtain rfl : top = [] := List.map_eq_nil_iff.1 extents
  have limit := atop.limit
  have used := atop.used
  obtain ⟨_, _, _, _⟩ := m'
  simp only [List.nil_append, List.map_nil, List.sum_nil, Nat.add_zero] at blocks limit used
  rw [blocks, limit, used]

theorem free {start : Nat} (atop : Atop m m' ((start, n) :: scratch)) (here : a.toNat = start) : Atop m (m'.free a) scratch := by
  obtain ⟨top, blocks, extents, high⟩ := atop.blocks
  obtain ⟨b, rest, rfl, first, others⟩ := List.map_eq_cons_iff.1 extents
  obtain ⟨rfl, rfl⟩ := Prod.mk.inj first
  have apart := atop.wellFormed.apart
  rw [Memory.extents, blocks, List.cons_append, List.map_cons] at apart
  -- The block is the newest one, and no other starts as far up.
  have kept : ∀ c ∈ rest ++ m.blocks, (!decide (c.base = a.toNat)) = true := by
    intro c member
    have older := (List.pairwise_cons.1 apart).1 _ (List.mem_map_of_mem member)
    dsimp only at older
    have other : c.base ≠ a.toNat := by omega
    simp [other]
  have length : m'.lengthAt a = b.size := by simp [lengthAt, blocks, here]
  have used := atop.used
  rw [List.map_cons, List.sum_cons] at used
  refine ⟨atop.wellFormed.free a, atop.next, atop.limit, ?_, rest, ?_, others,
    fun c member => high c (List.mem_cons_of_mem _ member)⟩
  · simp only [Memory.free, length]
    omega
  · simp only [Memory.free, blocks, List.cons_append]
    rw [List.filter_cons_of_neg (by simp [here]), List.filter_eq_self.2 kept]

theorem write (atop : Atop m m' scratch) (ok : m.WellFormed)
    (inside : ∃ e ∈ scratch, e.1 ≤ a.toNat ∧ a.toNat < e.1 + max e.2 1)
    (done : m'.write a bytes = .ok m'') : Atop m m'' scratch := by
  obtain ⟨top, blocks, extents, high⟩ := atop.blocks
  obtain ⟨e, member, low, below⟩ := inside
  obtain ⟨b, new, rfl⟩ := List.mem_map.1 (extents ▸ member)
  have among : b ∈ m'.blocks := blocks ▸ List.mem_append_left _ new
  have found := find_block atop.wellFormed.apart among low below
  have later := later_write done
  have wellFormed := later.wellFormed atop.wellFormed
  unfold Memory.write at done
  split at done
  next next put =>
    obtain ⟨c, located, written⟩ := Option.bind_eq_some_iff.1 put
    obtain rfl : b = c := by
      simp only [locate, found] at located
      split at located
      next => exact Option.some.inj located
      next => cases located
    obtain ⟨base, size⟩ := Block.write_extent written
    obtain rfl := Except.ok.inj done
    -- Blocks do not overlap, so the one that was written to is the new one.
    have untouched : (m.blocks.map fun c => if c.base = next.base then next else c) = m.blocks := by
      refine (List.map_congr_left fun c old => if_neg ?_).trans (List.map_id m.blocks)
      have := below_next ok old
      have := high b new
      omega
    refine ⟨wellFormed, Nat.le_trans atop.next later.next, later.limit.trans atop.limit, atop.used,
      top.map fun c => if c.base = next.base then next else c, ?_, ?_, ?_⟩
    · simp only [blocks, List.map_append, untouched]
    · rw [← extents, List.map_map]
      refine List.map_congr_left fun c member => ?_
      by_cases same : c.base = next.base
      next =>
        have here := block_unique atop.wellFormed among (blocks ▸ List.mem_append_left _ member) (same.trans base)
        simp [here, base, size]
      next => simp [same]
    · intro c member
      obtain ⟨d, old, rfl⟩ := List.mem_map.1 member
      split
      next => exact base ▸ high b new
      next => exact high d old
  next => cases done

theorem fits {room : Nat} (atop : Atop m m' scratch) (spare : ∀ limit, m.limit = some limit -> m.used + room ≤ limit)
    (few : (scratch.map Prod.snd).sum + size ≤ room) (last : m'.next + span size ≤ lastAddress) : m'.Fits size := by
  refine ⟨?_, last⟩
  unfold withinLimit
  split
  next => rfl
  next limit set =>
    have := spare limit (atop.limit ▸ set)
    have := atop.used
    simp only [decide_eq_true_eq]
    omega

end Atop

/-- A word was written to one of the new blocks. -/
structure Noted (m m' m'' : Memory) (scratch : List (Nat × Nat)) (a : Addr) (w : UInt32) : Prop
    extends Worded m' m'' a w where
  atop : Atop m m'' scratch
  next : m''.next = m'.next
  read : ∀ (b : Addr) (n : Nat), m'.Inside b.toNat n -> b.toNat + n ≤ a.toNat ∨ a.toNat + 4 ≤ b.toNat ->
    m''.read b n = m'.read b n

theorem writeWord_notes (ok : m.WellFormed) (atop : Atop m m' scratch) (place : m'.Inside a.toNat 4)
    (new : ∃ e ∈ scratch, e.1 ≤ a.toNat ∧ a.toNat < e.1 + max e.2 1) (w : UInt32) :
    ∃ m'', m'.writeWord a w = .ok m'' ∧ Noted m m' m'' scratch a w := by
  obtain ⟨t, done, worded⟩ := writeWord_spec atop.wellFormed place w
  have room : m'.Inside a.toNat (encodeWords [w]).size := place
  obtain ⟨t', done', written⟩ := write_inside atop.wellFormed room
  obtain rfl : t' = t := Except.ok.inj (done'.symm.trans done)
  exact ⟨t', done, worded, atop.write ok new done, written.next, fun b n there apart =>
    read_apart atop.wellFormed room done there apart⟩

end Memory

end ScriptHost
