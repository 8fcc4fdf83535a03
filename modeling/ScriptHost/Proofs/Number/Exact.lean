import Mathlib.Algebra.Order.Field.Power
import Mathlib.Data.Rat.Cast.Order
import Mathlib.Tactic.FieldSimp
import Mathlib.Tactic.NormNum
import Mathlib.Tactic.Positivity
import Mathlib.Tactic.Ring
import ScriptHost.Number.Binary64

set_option autoImplicit false

/-!
The exact numbers that doubles stand for, and the integers among them.
-/

namespace ScriptHost

namespace Binary64

/-- The number that a finite double stands for. -/
def exact (x : Binary64) : ℚ :=
  (if x.negative then -1 else 1) * (x.significand * 2 ^ x.scale)

variable {x : Binary64} {n : Int}

theorem exact_of_parts (sign : Bool) (m : Nat) (e : Int) (parts : x.negative = sign ∧ x.significand = m ∧ x.scale = e) :
    x.exact = (if sign then -1 else 1) * (m * 2 ^ e) := by
  rw [exact, parts.1, parts.2.1, parts.2.2]

/-- Cutting an integral double off at the point changes nothing. -/
theorem truncate_exact (integral : x.isIntegral = true) : (x.truncate : ℚ) = x.exact := by
  have signed (m : Nat) : (((if x.negative then -(m : Int) else m) : Int) : ℚ) = (if x.negative then -1 else 1) * m := by
    split <;> simp
  unfold truncate exact
  rw [signed]
  congr 1
  obtain ⟨-, whole⟩ := Bool.and_eq_true_iff.1 integral
  split
  next up =>
    obtain ⟨k, same⟩ := Int.eq_ofNat_of_zero_le up
    simp [same]
  next down =>
    obtain ⟨k, same⟩ := Int.eq_ofNat_of_zero_le (show 0 ≤ -x.scale by omega)
    have scale : x.scale = -(k : Int) := by omega
    obtain ⟨q, parts⟩ : 2 ^ k ∣ x.significand := by simpa [down, same, Nat.dvd_iff_mod_eq_zero] using whole
    have positive : 0 < 2 ^ k := by positivity
    rw [same, scale, parts]
    simp only [Int.toNat_natCast, Nat.pow_eq, Nat.mul_div_cancel_left q positive]
    push_cast
    rw [zpow_neg, zpow_natCast]
    field_simp

theorem isIntegral_iff : x.isIntegral = true ↔ x.isFinite = true ∧ ∃ n : Int, x.exact = n := by
  constructor
  next =>
    intro integral
    exact ⟨(Bool.and_eq_true_iff.1 integral).1, x.truncate, (truncate_exact integral).symm⟩
  next =>
    rintro ⟨finite, n, whole⟩
    rw [isIntegral, finite, Bool.true_and, Bool.or_eq_true, decide_eq_true_eq]
    by_cases up : 0 ≤ x.scale
    next => exact .inl up
    next =>
      obtain ⟨k, same⟩ := Int.eq_ofNat_of_zero_le (show 0 ≤ -x.scale by omega)
      have scale : x.scale = -(k : Int) := by omega
      have positive : (2 : ℚ) ^ k ≠ 0 := by positivity
      -- The significand is the magnitude of that integer times a power of two.
      have parts : (x.significand : ℚ) = |(n : ℚ)| * 2 ^ k := by
        have sign : |(if x.negative then (-1 : ℚ) else 1)| = 1 := by split <;> norm_num
        have size := congrArg abs whole
        rw [exact, scale, abs_mul, sign, one_mul, zpow_neg, zpow_natCast, abs_of_nonneg (by positivity)] at size
        rw [← size]
        field_simp
      have divides : x.significand = n.natAbs * 2 ^ k := by
        rw [← Int.cast_abs, Int.abs_eq_natAbs] at parts
        exact_mod_cast parts
      refine .inr ?_
      simp [same, divides]

theorem truncate_of_exact (finite : x.isFinite = true) (whole : x.exact = n) : x.truncate = n := by
  have cut := truncate_exact (isIntegral_iff.2 ⟨finite, n, whole⟩)
  rw [whole] at cut
  exact_mod_cast cut

/-- Nothing but the range of 64 bits stands between an integral double and its integer. -/
theorem toInt_toInt64 (finite : x.isFinite = true) (whole : x.exact = n) :
    x.toInt64.toInt = max int64Min (min int64Max n) := by
  have field : x.exponentField ≠ 2047 := by simpa [isFinite] using finite
  have number : x.isNaN = false := by simp [isNaN, field]
  have bounded : x.isInfinite = false := by simp [isInfinite, field]
  have low : int64Min = -2 ^ 63 := rfl
  have high : int64Max = 2 ^ 63 - 1 := rfl
  rw [toInt64, number, bounded, truncate_of_exact finite whole]
  simp only [Bool.false_eq_true, if_false]
  refine Int64.toInt_ofInt_of_le ?_ ?_ <;> omega

end Binary64

end ScriptHost
