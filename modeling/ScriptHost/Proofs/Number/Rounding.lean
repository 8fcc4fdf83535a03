import Mathlib.Algebra.Order.Field.Power
import Mathlib.Data.Rat.Cast.Order
import Mathlib.Tactic.FieldSimp
import Mathlib.Tactic.Linarith
import Mathlib.Tactic.Positivity
import Mathlib.Tactic.NormNum
import Mathlib.Tactic.Ring
import ScriptHost.Number.Shortest

set_option autoImplicit false

/-!
Rounding to doubles: a ratio within the interval of a double rounds to that double.

The interval is met at one scale only, the double's own, but for the part of it below a power of two. There
the ratio has a smaller scale and rounds up to the power, which the carry into the exponent accounts for.
-/

namespace ScriptHost

namespace Binary64

theorem roundQuotient_eq {num den s : Nat} (positive : 0 < den) (low : 2 * (s * den) ≤ 2 * num + den)
    (high : 2 * num ≤ 2 * (s * den) + den)
    (odd : s % 2 = 1 -> 2 * (s * den) < 2 * num + den ∧ 2 * num < 2 * (s * den) + den) :
    roundQuotient num den = s := by
  have whole := Nat.div_add_mod num den
  have small := Nat.mod_lt num positive
  unfold roundQuotient
  generalize num / den = q at *
  generalize num % den = t at *
  rw [Nat.mul_comm den q] at whole
  dsimp only
  have above : q ≤ s := by
    by_contra more
    have := Nat.mul_le_mul_right den (show s + 1 ≤ q by omega)
    rw [Nat.add_mul] at this
    omega
  have below : s ≤ q + 1 := by
    by_contra more
    have := Nat.mul_le_mul_right den (show q + 2 ≤ s by omega)
    rw [Nat.add_mul] at this
    omega
  rcases Nat.lt_or_eq_of_le above with less | rfl
  · obtain rfl : s = q + 1 := by omega
    rw [Nat.add_mul] at low high odd
    split
    next => omega
    next =>
      split
      next => rfl
      next => omega
  · split
    next => rfl
    next =>
      split
      next => omega
      next => omega

section Parts

variable {x : Binary64}

theorem significand_lt (x : Binary64) : x.significand < 2 ^ 53 := by
  have fraction : x.fractionField < 2 ^ 52 := Nat.mod_lt _ (by decide)
  unfold significand
  have whole : Nat.pow 2 52 = 2 ^ 52 := rfl
  split <;> omega

theorem scale_ge (x : Binary64) : -1074 ≤ x.scale := by
  unfold scale
  split <;> omega

theorem scale_le (finite : x.isFinite = true) : x.scale ≤ 971 := by
  have field : x.exponentField < 2 ^ 11 := Nat.mod_lt _ (by decide)
  have other : x.exponentField ≠ 2047 := by simpa [isFinite] using finite
  unfold scale
  split <;> omega

theorem normal_of_scale (x : Binary64) : x.scale = -1074 ∨ 2 ^ 52 ≤ x.significand := by
  have whole : Nat.pow 2 52 = 2 ^ 52 := rfl
  unfold scale significand
  split
  next => exact .inl rfl
  next => exact .inr (by omega)

/-- A finite double is put together from its parts. -/
theorem assemble_self (finite : x.isFinite = true) : assemble x.negative x.significand x.scale = x := by
  have word : x.bits.toNat < 2 ^ 64 := x.bits.toNat_lt
  have other : x.exponentField ≠ 2047 := by simpa [isFinite] using finite
  have p52 : Nat.pow 2 52 = 4503599627370496 := rfl
  have p11 : Nat.pow 2 11 = 2048 := rfl
  have p63 : Nat.pow 2 63 = 9223372036854775808 := rfl
  obtain ⟨bits⟩ := x
  have magnitude : min ((scale ⟨bits⟩ + 1074).toNat * Nat.pow 2 52 + significand ⟨bits⟩) (2047 * Nat.pow 2 52) =
      bits.toNat % 9223372036854775808 := by
    simp only [scale, significand, exponentField, fractionField, p52, p11] at other ⊢
    dsimp only at other word ⊢
    split <;> omega
  have sign : (if negative ⟨bits⟩ then Nat.pow 2 63 else 0) = bits.toNat / 9223372036854775808 * 9223372036854775808 := by
    simp only [negative, p63, decide_eq_true_eq]
    dsimp only at word ⊢
    split <;> omega
  have sum : bits.toNat / 9223372036854775808 * 9223372036854775808 + bits.toNat % 9223372036854775808 = bits.toNat := by
    omega
  rw [assemble, magnitude, sign, sum, UInt64.ofNat_toNat]

end Parts

section Places

variable {num den : Nat}

/-- Powers of two between which a ratio lies. -/
theorem ratio_bounds (some : num ≠ 0) (positive : den ≠ 0) :
    (2 : ℚ) ^ ((num.log2 : Int) - den.log2 - 1) < num / den ∧ (num / den : ℚ) < 2 ^ ((num.log2 : Int) - den.log2 + 1) := by
  have numLow : (2 : ℚ) ^ (num.log2 : Int) ≤ num := by exact_mod_cast Nat.log2_self_le some
  have numHigh : (num : ℚ) < 2 ^ ((num.log2 : Int) + 1) := by exact_mod_cast Nat.lt_log2_self (n := num)
  have denLow : (2 : ℚ) ^ (den.log2 : Int) ≤ den := by exact_mod_cast Nat.log2_self_le positive
  have denHigh : (den : ℚ) < 2 ^ ((den.log2 : Int) + 1) := by exact_mod_cast Nat.lt_log2_self (n := den)
  have above : (0 : ℚ) < den := by exact_mod_cast Nat.pos_of_ne_zero positive
  constructor
  · rw [lt_div_iff₀ above]
    calc (2 : ℚ) ^ ((num.log2 : Int) - den.log2 - 1) * den
        < 2 ^ ((num.log2 : Int) - den.log2 - 1) * 2 ^ ((den.log2 : Int) + 1) := by gcongr
      _ = 2 ^ (num.log2 : Int) := by
        rw [← zpow_add₀ (by norm_num)]
        congr 1
        omega
      _ ≤ num := numLow
  · rw [div_lt_iff₀ above]
    calc (num : ℚ) < 2 ^ ((num.log2 : Int) + 1) := numHigh
      _ = 2 ^ ((num.log2 : Int) - den.log2 + 1) * 2 ^ (den.log2 : Int) := by
        rw [← zpow_add₀ (by norm_num)]
        congr 1
        omega
      _ ≤ 2 ^ ((num.log2 : Int) - den.log2 + 1) * den := by gcongr

theorem ratioAt_positive (positive : den ≠ 0) (e : Int) : 0 < (ratioAt num den e).2 := by
  have above := Nat.pos_of_ne_zero positive
  unfold ratioAt
  split
  next => exact Nat.mul_pos above (Nat.pow_pos (by decide))
  next => exact above

theorem ratioAt_value (num den : Nat) (e : Int) :
    ((ratioAt num den e).1 / (ratioAt num den e).2 : ℚ) = num / den / 2 ^ e := by
  unfold ratioAt
  split
  next up =>
    obtain ⟨n, rfl⟩ := Int.eq_ofNat_of_zero_le up
    simp only [Int.toNat_natCast, Nat.pow_eq, Nat.cast_mul, Nat.cast_pow, Nat.cast_ofNat, zpow_natCast]
    rw [div_div]
  next down =>
    obtain ⟨n, same⟩ := Int.eq_ofNat_of_zero_le (show 0 ≤ -e by omega)
    obtain rfl : e = -(n : Int) := by omega
    simp only [neg_neg, Int.toNat_natCast, Nat.pow_eq, Nat.cast_mul, Nat.cast_pow, Nat.cast_ofNat, zpow_neg, zpow_natCast]
    field_simp

/-- What `lastPlace` gives: the least scale, or the one that leaves a significand of 53 bits. -/
structure Placed (r : ℚ) (e : Int) : Prop where
  least : -1074 ≤ e
  fits : r < 2 ^ 53 * 2 ^ e
  filled : e = -1074 ∨ 2 ^ 52 * 2 ^ e ≤ r

theorem floor_lt_iff (num : Nat) {den n : Nat} (positive : 0 < den) : num / den < n ↔ (num / den : ℚ) < n := by
  have above : (0 : ℚ) < den := by exact_mod_cast positive
  rw [div_lt_iff₀ above, Nat.div_lt_iff_lt_mul positive]
  exact_mod_cast Iff.rfl

theorem lastPlace_placed (some : num ≠ 0) (positive : den ≠ 0) : Placed (num / den) (lastPlace num den) := by
  obtain ⟨low, high⟩ := ratio_bounds some positive
  have small (e : Int) : (ratioAt num den e).1 / (ratioAt num den e).2 < Nat.pow 2 53 ↔ (num / den : ℚ) < 2 ^ 53 * 2 ^ e := by
    rw [floor_lt_iff _ (ratioAt_positive positive e), ratioAt_value, div_lt_iff₀ (by positivity)]
    norm_num
  have split53 (e : Int) : (2 : ℚ) ^ 53 * 2 ^ e = 2 ^ (e + 53) := by
    rw [add_comm, zpow_add₀ (by norm_num)]
    norm_num
  have split52 (e : Int) : (2 : ℚ) ^ 52 * 2 ^ e = 2 ^ (e + 52) := by
    rw [add_comm, zpow_add₀ (by norm_num)]
    norm_num
  unfold lastPlace
  generalize start : max (-1074) ((num.log2 : Int) - den.log2 - 53) = e
  dsimp only
  split
  next below =>
    refine ⟨by omega, (small e).1 below, ?_⟩
    by_cases least : e = -1074
    · exact .inl least
    · obtain rfl : e = (num.log2 : Int) - den.log2 - 53 := by omega
      refine .inr ?_
      rw [split52]
      exact le_of_lt (lt_of_eq_of_lt (by congr 1; omega) low)
  next above =>
    have beyond := not_lt.1 (mt (small e).2 above)
    refine ⟨by omega, ?_, .inr ?_⟩
    · rw [split53]
      exact high.trans_le (zpow_le_zpow_right₀ (by norm_num) (by omega))
    · rw [split53] at beyond
      rw [split52]
      exact le_of_eq_of_le (by congr 1; omega) beyond

end Places

section Intervals

/-- A rational lies in an interval, at an end only if that belongs to it. -/
structure Interval.Holds (i : Interval) (r : ℚ) : Prop where
  low : i.low * 2 ^ i.scale ≤ r
  high : r ≤ i.high * 2 ^ i.scale
  inside : i.closed = false -> i.low * 2 ^ i.scale < r ∧ r < i.high * 2 ^ i.scale

variable {x : Binary64} {r : ℚ}

theorem quarter (e : Int) : (2 : ℚ) ^ (e - 2) = 2 ^ e / 4 := by
  rw [zpow_sub₀ (by norm_num)]
  norm_num

/-- Half a unit to either side at most, and less than that from an odd significand. -/
structure Near (x : Binary64) (r : ℚ) : Prop where
  low : (x.significand - 1 / 2) * 2 ^ x.scale ≤ r
  high : r ≤ (x.significand + 1 / 2) * 2 ^ x.scale
  odd : x.significand % 2 = 1 -> (x.significand - 1 / 2) * 2 ^ x.scale < r ∧ r < (x.significand + 1 / 2) * 2 ^ x.scale

theorem Interval.Holds.near (holds : x.interval.Holds r) : Near x r := by
  have unit : (0 : ℚ) < 2 ^ x.scale := by positivity
  have start : (4 * x.significand - 2 : ℚ) ≤ x.interval.low := by
    have enough : 4 * x.significand ≤ x.interval.low + 2 := by
      simp only [interval]
      split <;> omega
    have cast : (4 * x.significand : ℚ) ≤ x.interval.low + 2 := by exact_mod_cast enough
    linarith
  have stop : (x.interval.high : ℚ) = 4 * x.significand + 2 := by simp [interval]
  have place : (2 : ℚ) ^ x.interval.scale = 2 ^ x.scale / 4 := quarter x.scale
  obtain ⟨low, high, inside⟩ := holds
  rw [place] at low high inside
  rw [stop] at high inside
  have least : (x.significand - 1 / 2) * (2 : ℚ) ^ x.scale ≤ x.interval.low * (2 ^ x.scale / 4) := by
    have scaled := mul_le_mul_of_nonneg_right start unit.le
    linarith
  refine ⟨least.trans low, by linarith, fun odd => ?_⟩
  have opened : x.interval.closed = false := by simp [interval, odd]
  obtain ⟨above, below⟩ := inside opened
  exact ⟨lt_of_le_of_lt least above, by linarith⟩

/-- Below a power of two the interval reaches half as far. -/
theorem Interval.Holds.near_power (holds : x.interval.Holds r) (power : x.significand = 2 ^ 52) (higher : -1074 < x.scale) :
    (x.significand - 1 / 4) * 2 ^ x.scale ≤ r := by
  have whole : Nat.pow 2 52 = 2 ^ 52 := rfl
  have dense : x.fractionField = 0 ∧ 1 < x.exponentField := by
    unfold Binary64.scale at higher
    unfold significand at power
    split at power
    next none =>
      rw [if_pos none] at higher
      exact absurd higher (by omega)
    next normal =>
      rw [if_neg normal] at higher
      omega
  have start : (x.interval.low : ℚ) = 4 * x.significand - 1 := by
    simp only [interval, dense, and_self, if_true]
    rw [Nat.cast_sub (by omega)]
    norm_num
  have place : (2 : ℚ) ^ x.interval.scale = 2 ^ x.scale / 4 := quarter x.scale
  have low := holds.low
  rw [start, place] at low
  linarith

theorem assemble_carry (negative : Bool) {e : Int} (higher : -1074 < e) :
    assemble negative (2 ^ 53) (e - 1) = assemble negative (2 ^ 52) e := by
  have carry : (e - 1 + 1074).toNat * Nat.pow 2 52 + 2 ^ 53 = (e + 1074).toNat * Nat.pow 2 52 + 2 ^ 52 := by
    have next : (e + 1074).toNat = (e - 1 + 1074).toNat + 1 := by omega
    have whole : Nat.pow 2 52 = 2 ^ 52 := rfl
    rw [next, Nat.add_mul, whole]
    omega
  rw [assemble, assemble, carry]

variable {num den : Nat}

/-- A ratio half a unit or less from a significand, at the scale of it. -/
theorem roundQuotient_near {s : Nat} {e : Int} (positive : den ≠ 0) (low : (s - 1 / 2) * 2 ^ e ≤ (num / den : ℚ))
    (high : (num / den : ℚ) ≤ (s + 1 / 2) * 2 ^ e)
    (odd : s % 2 = 1 -> (s - 1 / 2) * 2 ^ e < (num / den : ℚ) ∧ (num / den : ℚ) < (s + 1 / 2) * 2 ^ e) :
    roundQuotient (ratioAt num den e).1 (ratioAt num den e).2 = s := by
  have unit : (0 : ℚ) < 2 ^ e := by positivity
  have value := ratioAt_value num den e
  have above : 0 < (ratioAt num den e).2 := ratioAt_positive positive e
  rw [← le_div_iff₀ unit, ← value] at low
  rw [← div_le_iff₀ unit, ← value] at high
  rw [← lt_div_iff₀ unit, ← value, ← div_lt_iff₀ unit, ← value] at odd
  generalize (ratioAt num den e).1 = n at *
  generalize (ratioAt num den e).2 = d at *
  have cast : (0 : ℚ) < d := by exact_mod_cast above
  rw [le_div_iff₀ cast] at low
  rw [div_le_iff₀ cast] at high
  rw [lt_div_iff₀ cast, div_lt_iff₀ cast] at odd
  refine roundQuotient_eq above ?_ ?_ fun parity => ?_
  · have bound : (2 * (s * d) : ℚ) ≤ 2 * n + d := by linarith
    exact_mod_cast bound
  · have bound : (2 * n : ℚ) ≤ 2 * (s * d) + d := by linarith
    exact_mod_cast bound
  · obtain ⟨more, less⟩ := odd parity
    have below : (2 * (s * d) : ℚ) < 2 * n + d := by linarith
    have beyond : (2 * n : ℚ) < 2 * (s * d) + d := by linarith
    exact ⟨by exact_mod_cast below, by exact_mod_cast beyond⟩

theorem ofRatio_held (negative : Bool) (some : num ≠ 0) (positive : den ≠ 0)
    (holds : x.interval.Holds (num / den)) :
    ofRatio negative num den = assemble negative x.significand x.scale := by
  have placed := lastPlace_placed some positive
  have near := holds.near
  have unit : (0 : ℚ) < 2 ^ x.scale := by positivity
  have few : (x.significand : ℚ) + 1 ≤ 2 ^ 53 := by exact_mod_cast significand_lt x
  rw [ofRatio, if_neg some]
  generalize lastPlace num den = e at *
  dsimp only
  rcases lt_trichotomy e x.scale with under | rfl | beyond
  · -- The ratio has a smaller scale than the double, which must be a power of two that it rounds up to.
    have higher : -1074 < x.scale := lt_of_le_of_lt placed.least under
    have step : (2 : ℚ) ^ e ≤ 2 ^ x.scale / 2 := by
      rw [le_div_iff₀ (by norm_num), ← zpow_add_one₀ (by norm_num)]
      exact zpow_le_zpow_right₀ (by norm_num) (by omega)
    have power : x.significand = 2 ^ 52 := by
      have full := (normal_of_scale x).resolve_left (by omega)
      have less : ((x.significand : ℚ) - 1 / 2) * 2 ^ x.scale < 2 ^ 52 * 2 ^ x.scale := by
        have fits := placed.fits
        have low := near.low
        linarith
      have bound := lt_of_mul_lt_mul_right less unit.le
      have next : (x.significand : ℚ) < (2 ^ 52 + 1 : Nat) := by
        push_cast
        linarith
      have natural : x.significand < 2 ^ 52 + 1 := by exact_mod_cast next
      omega
    have low := holds.near_power power higher
    have value : (x.significand : ℚ) = 2 ^ 52 := by exact_mod_cast power
    rw [value] at low
    have last : e = x.scale - 1 := by
      by_contra other
      have smaller : (2 : ℚ) ^ e ≤ 2 ^ x.scale / 4 := by
        rw [← quarter]
        exact zpow_le_zpow_right₀ (by norm_num) (by omega)
      have fits := placed.fits
      linarith
    have half : (2 : ℚ) ^ e = 2 ^ x.scale / 2 := by
      rw [last, zpow_sub_one₀ (by norm_num)]
      ring
    have rounded : roundQuotient (ratioAt num den e).1 (ratioAt num den e).2 = 2 ^ 53 := by
      have fits := placed.fits
      refine roundQuotient_near positive ?_ ?_ fun odd => absurd odd (by decide)
      · rw [half]
        push_cast
        linarith
      · rw [half] at fits ⊢
        push_cast
        linarith
    rw [rounded, last, assemble_carry negative higher, power]
  · rw [roundQuotient_near positive near.low near.high near.odd]
  · -- A larger scale would mean a significand past the last one.
    have filled := placed.filled.resolve_left (by have := scale_ge x; omega)
    have step : 2 * (2 : ℚ) ^ x.scale ≤ 2 ^ e := by
      rw [mul_comm, ← zpow_add_one₀ (by norm_num)]
      exact zpow_le_zpow_right₀ (by norm_num) (by omega)
    have high := near.high
    have bound := mul_le_mul_of_nonneg_right few unit.le
    exfalso
    linarith

end Intervals

end Binary64

end ScriptHost
