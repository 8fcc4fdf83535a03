import Mathlib
import ScriptHost.Engine.Heap
import ScriptHost.Proofs.Number.Exact
import ScriptHost.Snapshot

set_option autoImplicit false

/-!
Whole numbers of the engine, as integers of snapshots and as numerals.

Both go through the nearest 64-bit integer, so they are exact as far as the 64-bit integers reach. A snapshot
takes in one number more than that, and numerals go on up to `Heap.numeralBound`.
-/

namespace ScriptHost

namespace Snapshot

/-- The engine numbers that a 64-bit integer stands for. The negative zero is not one of them. -/
structure Countable (x : Binary64) : Prop where
  finite : x.isFinite = true
  integral : ∃ n : Int, x.exact = n
  signed : ¬ (x.isZero = true ∧ x.negative = true)
  low : -2 ^ 63 ≤ x.exact
  high : x.exact < 2 ^ 63

/-- The snapshot of a number is its very integer, or the number as it is where it has none. -/
structure Faithful (x : Binary64) : Prop where
  integer : Countable x -> ∃ i, ofNumber x = int i ∧ x.exact = i.toInt
  other : ¬ Countable x -> ofNumber x = float x

variable {x : Binary64} {n : Int}

theorem countable_iff (finite : x.isFinite = true) (whole : x.exact = n) :
    Countable x ↔ (-2 ^ 63 ≤ n ∧ n < 2 ^ 63) ∧ ¬ (x.isZero = true ∧ x.negative = true) := by
  have low : (-2 ^ 63 : ℚ) ≤ n ↔ -2 ^ 63 ≤ n := by exact_mod_cast Iff.rfl
  have high : (n : ℚ) < 2 ^ 63 ↔ n < 2 ^ 63 := by exact_mod_cast Iff.rfl
  constructor
  next =>
    rintro ⟨-, -, signed, above, below⟩
    rw [whole] at above below
    exact ⟨⟨low.1 above, high.1 below⟩, signed⟩
  next =>
    rintro ⟨⟨above, below⟩, signed⟩
    exact ⟨finite, ⟨n, whole⟩, signed, whole ▸ low.2 above, whole ▸ high.2 below⟩

/-- The upper end of the range is one too high. -/
theorem ofNumber_whole (finite : x.isFinite = true) (whole : x.exact = n) :
    ofNumber x = if (-2 ^ 63 ≤ n ∧ n ≤ 2 ^ 63) ∧ ¬ (x.isZero = true ∧ x.negative = true) then int x.toInt64 else float x := by
  have integral := Binary64.isIntegral_iff.2 ⟨finite, n, whole⟩
  have low : Binary64.int64Min = -2 ^ 63 := rfl
  have high : Binary64.int64Max + 1 = 2 ^ 63 := rfl
  unfold ofNumber
  simp only [integral, Binary64.truncate_of_exact finite whole, low, high, Bool.true_and, Bool.and_eq_true,
    decide_eq_true_eq, Bool.not_eq_true', ← Bool.not_eq_true]

theorem ofNumber_fractional (other : ¬ (x.isFinite = true ∧ ∃ n : Int, x.exact = n)) : ofNumber x = float x := by
  have fractional : x.isIntegral = false := by
    rw [← Bool.not_eq_true, Binary64.isIntegral_iff]
    exact other
  simp [ofNumber, fractional]

theorem faithful_fractional (other : ¬ (x.isFinite = true ∧ ∃ n : Int, x.exact = n)) : Faithful x :=
  ⟨fun countable => absurd ⟨countable.finite, countable.integral⟩ other, fun _ => ofNumber_fractional other⟩

theorem faithful_whole (finite : x.isFinite = true) (whole : x.exact = n) (other : n ≠ 2 ^ 63) : Faithful x := by
  constructor
  next =>
    intro countable
    obtain ⟨⟨low, high⟩, signed⟩ := (countable_iff finite whole).1 countable
    refine ⟨x.toInt64, ?_, ?_⟩
    · rw [ofNumber_whole finite whole, if_pos ⟨⟨low, high.le⟩, signed⟩]
    · have least : Binary64.int64Min = -2 ^ 63 := rfl
      have greatest : Binary64.int64Max = 2 ^ 63 - 1 := rfl
      rw [whole, Binary64.toInt_toInt64 finite whole]
      congr 1
      omega
  next =>
    intro beyond
    rw [ofNumber_whole finite whole, if_neg]
    rintro ⟨⟨low, high⟩, signed⟩
    exact beyond ((countable_iff finite whole).2 ⟨⟨low, lt_of_le_of_ne high other⟩, signed⟩)

theorem not_faithful_power (finite : x.isFinite = true) (power : x.exact = 2 ^ 63) : ¬ Faithful x := by
  intro faithful
  have whole : x.exact = ((2 ^ 63 : Int) : ℚ) := by rw [power]; norm_num
  have nonzero : ¬ (x.isZero = true ∧ x.negative = true) := by
    rintro ⟨zero, -⟩
    have none : x.significand = 0 := by simpa [Binary64.isZero, finite] using zero
    rw [Binary64.exact, none] at power
    norm_num at power
  have same := faithful.other fun countable => absurd countable.high (by rw [power]; exact lt_irrefl _)
  rw [ofNumber_whole finite whole, if_pos ⟨⟨by norm_num, le_rfl⟩, nonzero⟩] at same
  cases same

/-- What a number comes to in a snapshot is right, but for the one number next above the greatest integer. -/
theorem ofNumber_faithful_iff (x : Binary64) : Faithful x ↔ ¬ (x.isFinite = true ∧ x.exact = 2 ^ 63) := by
  constructor
  next => exact fun faithful power => not_faithful_power power.1 power.2 faithful
  next =>
    intro below
    by_cases whole : x.isFinite = true ∧ ∃ n : Int, x.exact = n
    next =>
      obtain ⟨finite, n, whole⟩ := whole
      refine faithful_whole finite whole fun power => below ⟨finite, ?_⟩
      rw [whole, power]
      norm_num
    next => exact faithful_fractional whole

/-- The number next above the greatest integer. -/
def nextAbove : Binary64 :=
  ⟨0x43e0000000000000⟩

theorem nextAbove_unfaithful : ¬ Faithful nextAbove := by
  refine not_faithful_power (by decide +kernel) ?_
  rw [Binary64.exact_of_parts false (2 ^ 52) 11 (by decide +kernel)]
  norm_num

end Snapshot

namespace Heap

/-- The value is this whole number, below the bound up to which such numbers are written as integers. -/
structure Counts (h : Heap) (p : Ptr) (n : Int) : Prop where
  there : ∃ x, h.get? p = some (.number x) ∧ x.isFinite = true ∧ x.exact = n
  counted : staticText p = none
  below : n.natAbs < 10 ^ 21

variable {h : Heap} {p q : Ptr} {x : Binary64} {m n : Int}

/-- The nearest 64-bit integer. -/
def nearestInt64 (n : Int) : Int :=
  max (-2 ^ 63) (min (2 ^ 63 - 1) n)

theorem numberText_whole (finite : x.isFinite = true) (whole : x.exact = n) (below : n.natAbs < 10 ^ 21) :
    numberText x = Int.repr (nearestInt64 n) := by
  have integral := Binary64.isIntegral_iff.2 ⟨finite, n, whole⟩
  have bound : (n.natAbs : Int) < numeralBound := by
    change (n.natAbs : Int) < (Nat.pow 10 21 : Int)
    exact_mod_cast below
  simp only [numberText, finite, integral, Binary64.truncate_of_exact finite whole, bound, decide_true, Bool.and_true,
    if_true, Binary64.toInt_toInt64 finite whole]
  rfl

theorem Counts.display (counts : h.Counts p n) : h.display p = Int.repr (nearestInt64 n) := by
  obtain ⟨⟨x, there, finite, whole⟩, counted, below⟩ := counts
  simp only [Heap.display, displayTo, counted, there, numberText_whole finite whole below]

/-- A whole number is written exactly as far as the 64-bit integers reach, and all that lie beyond the same end of
them are written alike. -/
theorem display_whole (first : h.Counts p m) (second : h.Counts q n) :
    (h.display p = Int.repr m ↔ -2 ^ 63 ≤ m ∧ m < 2 ^ 63) ∧
      (h.display p = h.display q ↔ m = n ∨ (2 ^ 63 - 1 ≤ m ∧ 2 ^ 63 - 1 ≤ n) ∨ (m ≤ -2 ^ 63 ∧ n ≤ -2 ^ 63)) := by
  rw [first.display, second.display, Int.repr_inj, Int.repr_inj]
  unfold nearestInt64
  constructor <;> omega

/-- Two numbers in an otherwise empty heap. -/
def pair (x y : Binary64) : Heap :=
  ((empty.insert (.number x)).2.insert (.number y)).2

/-- The whole numbers two to the power of 53 and its negative. -/
def modest : Heap :=
  pair ⟨0x4340000000000000⟩ ⟨0xc340000000000000⟩

theorem modest_counts : modest.Counts 16 (2 ^ 53) ∧ modest.Counts 17 (-2 ^ 53) := by
  refine ⟨⟨⟨_, rfl, by decide +kernel, ?_⟩, rfl, by decide⟩, ⟨⟨_, rfl, by decide +kernel, ?_⟩, rfl, by decide⟩⟩
  · rw [Binary64.exact_of_parts false (2 ^ 52) 1 (by decide +kernel)]
    norm_num
  · rw [Binary64.exact_of_parts true (2 ^ 52) 1 (by decide +kernel)]
    norm_num

theorem modest_display : modest.Counts 16 (2 ^ 53) ∧ modest.Counts 17 (-2 ^ 53) ∧
    (modest.display 16 = Int.repr (2 ^ 53) ↔ -2 ^ 63 ≤ (2 ^ 53 : Int) ∧ (2 ^ 53 : Int) < 2 ^ 63) ∧
      (modest.display 16 = modest.display 17 ↔ (2 ^ 53 : Int) = -2 ^ 53 ∨ (2 ^ 63 - 1 ≤ (2 ^ 53 : Int) ∧
        2 ^ 63 - 1 ≤ (-2 ^ 53 : Int)) ∨ ((2 ^ 53 : Int) ≤ -2 ^ 63 ∧ (-2 ^ 53 : Int) ≤ -2 ^ 63)) :=
  ⟨modest_counts.1, modest_counts.2, display_whole modest_counts.1 modest_counts.2⟩

/-- Two to the power of 63 and twice as much. -/
def immense : Heap :=
  pair ⟨0x43e0000000000000⟩ ⟨0x43f0000000000000⟩

theorem immense_counts : immense.Counts 16 (2 ^ 63) ∧ immense.Counts 17 (2 ^ 64) := by
  refine ⟨⟨⟨_, rfl, by decide +kernel, ?_⟩, rfl, by decide⟩, ⟨⟨_, rfl, by decide +kernel, ?_⟩, rfl, by decide⟩⟩
  · rw [Binary64.exact_of_parts false (2 ^ 52) 11 (by decide +kernel)]
    norm_num
  · rw [Binary64.exact_of_parts false (2 ^ 52) 12 (by decide +kernel)]
    norm_num

theorem immense_alike : immense.Counts 16 (2 ^ 63) ∧ immense.Counts 17 (2 ^ 64) ∧
    immense.display 16 ≠ Int.repr (2 ^ 63) ∧ immense.display 16 = immense.display 17 := by
  refine ⟨immense_counts.1, immense_counts.2, ?_, ?_⟩
  · rw [immense_counts.1.display, ne_eq, Int.repr_inj]
    decide
  · rw [immense_counts.1.display, immense_counts.2.display]
    rfl

end Heap

end ScriptHost
