import ScriptHost.Proofs.Number.Rounding

set_option autoImplicit false

/-!
Shortest decimals: the digits that are found lie in the interval of the double, so they read back as it.

The search ends because its last grid is finer than a quarter of the double's last place, and then the
point of the grid at or below the double lies inside the interval.
-/

namespace ScriptHost

namespace Decimal

def value (d : Decimal) : ℚ :=
  d.digits * 10 ^ d.exponent

theorem pow10_positive (e : Int) : 0 < (pow10 e).1 ∧ 0 < (pow10 e).2 := by
  unfold pow10
  split
  next => exact ⟨Nat.pow_pos (by decide), Nat.one_pos⟩
  next => exact ⟨Nat.one_pos, Nat.pow_pos (by decide)⟩

theorem pow10_value (e : Int) : ((pow10 e).1 : ℚ) = 10 ^ e * (pow10 e).2 := by
  unfold pow10
  split
  next up =>
    obtain ⟨n, rfl⟩ := Int.eq_ofNat_of_zero_le up
    simp
  next down =>
    obtain ⟨n, same⟩ := Int.eq_ofNat_of_zero_le (show 0 ≤ -e by omega)
    obtain rfl : e = -(n : Int) := by omega
    simp

theorem trim_value (fuel : Nat) (d : Decimal) : (trim fuel d).value = d.value := by
  induction fuel generalizing d with
  | zero => rfl
  | succ fuel ih =>
    rw [trim]
    split
    next trailing =>
      have tens : d.digits % 10 = 0 := by simpa using (Bool.and_eq_true_iff.1 trailing).2
      have whole : (d.digits : ℚ) = (d.digits / 10 : Nat) * 10 := by
        exact_mod_cast (Nat.div_mul_cancel (Nat.dvd_of_mod_eq_zero tens)).symm
      rw [ih, value, value, whole, zpow_add_one₀ (by norm_num)]
      ring
    next => rfl

end Decimal

namespace Binary64

namespace Interval

variable {i : Interval} {tie : Tie} {e : Int} {n : Nat}

theorem onGrid_positive (i : Interval) (e : Int) : 0 < (i.onGrid e).1 ∧ 0 < (i.onGrid e).2 := by
  obtain ⟨first, second⟩ := Decimal.pow10_positive e
  unfold onGrid
  split
  next => exact ⟨Nat.mul_pos (Nat.pow_pos (by decide)) second, first⟩
  next => exact ⟨second, Nat.mul_pos first (Nat.pow_pos (by decide))⟩

/-- The units of the interval and the steps of the grid are to each other as the powers they stand for. -/
theorem onGrid_ratio (i : Interval) (e : Int) : ((i.onGrid e).1 : ℚ) * 10 ^ e = 2 ^ i.scale * (i.onGrid e).2 := by
  have ten := Decimal.pow10_value e
  unfold onGrid
  split
  next up =>
    obtain ⟨n, same⟩ := Int.eq_ofNat_of_zero_le up
    simp only [same, Int.toNat_natCast, Nat.pow_eq, Nat.cast_mul, Nat.cast_pow, Nat.cast_ofNat, zpow_natCast, ten]
    ring
  next down =>
    obtain ⟨n, same⟩ := Int.eq_ofNat_of_zero_le (show 0 ≤ -i.scale by omega)
    have scale : i.scale = -(n : Int) := by omega
    simp only [scale, neg_neg, Int.toNat_natCast, Nat.pow_eq, Nat.cast_mul, Nat.cast_pow, Nat.cast_ofNat, zpow_neg,
      zpow_natCast, ten]
    field_simp

theorem onGrid_le_iff (i : Interval) (e : Int) (m n : Nat) :
    m * (i.onGrid e).1 ≤ n * (i.onGrid e).2 ↔ (m * 2 ^ i.scale : ℚ) ≤ n * 10 ^ e := by
  have ratio := onGrid_ratio i e
  have step : (0 : ℚ) < (i.onGrid e).2 := by exact_mod_cast (onGrid_positive i e).2
  have ten : (0 : ℚ) < 10 ^ e := by positivity
  rw [← Nat.cast_le (α := ℚ), ← mul_le_mul_iff_left₀ ten, ← mul_le_mul_iff_left₀ step (b := (m * 2 ^ i.scale : ℚ))]
  push_cast
  rw [mul_assoc, ratio]
  constructor <;> intro le <;> linarith

theorem onGrid_ge_iff (i : Interval) (e : Int) (m n : Nat) :
    n * (i.onGrid e).2 ≤ m * (i.onGrid e).1 ↔ (n * 10 ^ e : ℚ) ≤ m * 2 ^ i.scale := by
  have ratio := onGrid_ratio i e
  have step : (0 : ℚ) < (i.onGrid e).2 := by exact_mod_cast (onGrid_positive i e).2
  have ten : (0 : ℚ) < 10 ^ e := by positivity
  rw [← Nat.cast_le (α := ℚ), ← mul_le_mul_iff_left₀ ten, ← mul_le_mul_iff_left₀ step (b := (n * 10 ^ e : ℚ))]
  push_cast
  rw [mul_assoc (m : ℚ), ratio]
  constructor <;> intro le <;> linarith

theorem admits_holds (admitted : i.admits (i.onGrid e).1 (i.onGrid e).2 n = true) : i.Holds (n * 10 ^ e) := by
  have above := onGrid_le_iff i e i.low n
  have below := onGrid_ge_iff i e i.high n
  unfold admits at admitted
  split at admitted
  next closed =>
    simp only [Bool.and_eq_true, decide_eq_true_eq] at admitted
    exact ⟨above.1 admitted.1, below.1 admitted.2, fun opened => by simp [closed] at opened⟩
  next =>
    simp only [Bool.and_eq_true, decide_eq_true_eq] at admitted
    refine ⟨above.1 admitted.1.le, below.1 admitted.2.le, fun _ => ⟨?_, ?_⟩⟩
    · exact not_le.1 fun le => absurd ((onGrid_ge_iff i e i.low n).2 le) (not_le.2 admitted.1)
    · exact not_le.1 fun le => absurd ((onGrid_le_iff i e i.high n).2 le) (not_le.2 admitted.2)

theorem nearest?_holds (found : i.nearest? tie e = some n) : i.Holds (n * 10 ^ e) := by
  unfold nearest? at found
  dsimp only at found
  generalize below : i.mid * (i.onGrid e).1 / (i.onGrid e).2 = m at found
  split at found
  next => cases found
  next admitted _ => exact Option.some.inj found ▸ admits_holds admitted
  next _ admitted => exact Option.some.inj found ▸ admits_holds admitted
  next first second =>
    have either : n = m ∨ n = m + 1 := by
      split at found
      next => exact .inl (Option.some.inj found).symm
      next =>
        split at found
        next => exact .inr (Option.some.inj found).symm
        next =>
          cases tie with
          | up => exact .inr (Option.some.inj found).symm
          | even =>
            have same := Option.some.inj found
            omega
    rcases either with rfl | rfl
    · exact admits_holds first
    · exact admits_holds second

/-- On a grid that is fine enough the point at or below the middle is admitted. -/
theorem nearest?_fine (low : i.low < i.mid) (high : i.mid < i.high) (fine : (10 : ℚ) ^ e ≤ 2 ^ i.scale) :
    i.nearest? tie e ≠ none := by
  have unit := (onGrid_positive i e).1
  have positive := (onGrid_positive i e).2
  have steps : (i.onGrid e).2 ≤ (i.onGrid e).1 := by
    have narrow := (onGrid_ge_iff i e 1 1).2 (by simpa using fine)
    simpa using narrow
  have whole := Nat.div_add_mod (i.mid * (i.onGrid e).1) (i.onGrid e).2
  have rest := Nat.mod_lt (i.mid * (i.onGrid e).1) positive
  have admitted : i.admits (i.onGrid e).1 (i.onGrid e).2 (i.mid * (i.onGrid e).1 / (i.onGrid e).2) = true := by
    have above := Nat.mul_le_mul_right (i.onGrid e).1 (show i.low + 1 ≤ i.mid from low)
    have below := Nat.mul_lt_mul_of_pos_right high unit
    rw [Nat.add_mul, Nat.one_mul] at above
    rw [Nat.mul_comm (i.onGrid e).2] at whole
    have inside : i.low * (i.onGrid e).1 < i.mid * (i.onGrid e).1 / (i.onGrid e).2 * (i.onGrid e).2 ∧
        i.mid * (i.onGrid e).1 / (i.onGrid e).2 * (i.onGrid e).2 < i.high * (i.onGrid e).1 := by
      omega
    unfold admits
    split
    next => simp [inside.1.le, inside.2.le]
    next => simp [inside.1, inside.2]
  unfold nearest?
  dsimp only
  rw [admitted]
  split
  next => contradiction
  next => simp
  next => contradiction
  next =>
    split
    next => simp
    next =>
      split
      next => simp
      next => cases tie <;> simp

theorem search_holds (fuel : Nat) (last : i.nearest? tie (e - fuel) ≠ none) : i.Holds (i.search tie fuel e).value := by
  induction fuel generalizing e with
  | zero =>
    obtain ⟨n, found⟩ := Option.ne_none_iff_exists'.1 last
    rw [Nat.cast_zero, sub_zero] at found
    simp only [search, found, Option.getD_some]
    exact nearest?_holds found
  | succ fuel ih =>
    rw [search]
    split
    next n found => exact nearest?_holds found
    next =>
      refine ih ?_
      rwa [Nat.cast_succ, add_comm, ← sub_sub] at last

end Interval

/-- A power of ten is below a power of two when their exponents are as `3` to `10`, or for negative ones
as `28` to `93`. -/
theorem ten_le_two {e t : Int} (bound : 0 ≤ e ∧ 10 * e ≤ 3 * t ∨ e ≤ 0 ∧ 93 * e ≤ 28 * t) : (10 : ℚ) ^ e ≤ 2 ^ t := by
  have ten : (0 : ℚ) ≤ 10 ^ e := by positivity
  have two : (0 : ℚ) ≤ 2 ^ t := by positivity
  rcases bound with ⟨up, less⟩ | ⟨down, less⟩
  · refine (pow_le_pow_iff_left₀ ten two (n := 3) (by decide)).1 ?_
    calc ((10 : ℚ) ^ e) ^ 3 = (10 ^ 3) ^ e := by rw [← zpow_natCast, ← zpow_mul, mul_comm, zpow_mul]; norm_num
      _ ≤ (2 ^ 10) ^ e := zpow_le_zpow_left₀ up (by norm_num) (by norm_num)
      _ = 2 ^ (10 * e) := by rw [← zpow_natCast, ← zpow_mul]; norm_num
      _ ≤ 2 ^ (3 * t) := zpow_le_zpow_right₀ (by norm_num) less
      _ = (2 ^ t) ^ 3 := by rw [mul_comm, zpow_mul]; norm_cast
  · obtain ⟨n, same⟩ := Int.eq_ofNat_of_zero_le (show 0 ≤ -e by omega)
    obtain rfl : e = -(n : Int) := by omega
    refine (pow_le_pow_iff_left₀ ten two (n := 28) (by decide)).1 ?_
    calc ((10 : ℚ) ^ (-(n : Int))) ^ 28 = ((10 ^ 28) ^ n)⁻¹ := by
          rw [zpow_neg, zpow_natCast, inv_pow, ← pow_mul, ← pow_mul, mul_comm]
      _ ≤ ((2 ^ 93) ^ n)⁻¹ := by gcongr; norm_num
      _ = 2 ^ (93 * -(n : Int)) := by rw [mul_neg, zpow_neg, ← pow_mul]; norm_cast
      _ ≤ 2 ^ (28 * t) := zpow_le_zpow_right₀ (by norm_num) less
      _ = (2 ^ t) ^ 28 := by rw [mul_comm, zpow_mul]; norm_cast

section Finite

variable {x : Binary64}

theorem log2_significand_le (some : x.significand ≠ 0) : x.significand.log2 ≤ 52 :=
  Nat.le_of_lt_succ ((Nat.log2_lt some).2 (significand_lt x))

/-- The last grid of the search. -/
theorem last_grid_fine (finite : x.isFinite = true) (some : x.significand ≠ 0) :
    (10 : ℚ) ^ (x.decimalBound - (20 : Nat)) ≤ 2 ^ x.interval.scale := by
  have log := log2_significand_le some
  have least := scale_ge x
  have most := scale_le finite
  have place : x.interval.scale = x.scale - 2 := rfl
  refine ten_le_two ?_
  rw [place]
  unfold decimalBound
  omega

theorem interval_around (some : x.significand ≠ 0) : x.interval.low < x.interval.mid ∧ x.interval.mid < x.interval.high := by
  simp only [interval]
  split <;> omega

theorem shortest_holds (finite : x.isFinite = true) (some : x.significand ≠ 0) (tie : Tie) :
    x.interval.Holds (x.shortest tie).value := by
  obtain ⟨low, high⟩ := interval_around some
  rw [shortest, if_neg some, Decimal.trim_value]
  exact Interval.search_holds 20 (Interval.nearest?_fine low high (last_grid_fine finite some))

theorem Interval.Holds.least {r : ℚ} (holds : x.interval.Holds r) (some : x.significand ≠ 0) : 2 ^ (-1076 : Int) ≤ r := by
  have start : 1 ≤ x.interval.low := by
    simp only [interval]
    split <;> omega
  have cast : (1 : ℚ) ≤ x.interval.low := by exact_mod_cast start
  have scale : -1076 ≤ x.interval.scale := by
    have := scale_ge x
    simp only [interval]
    omega
  calc (2 : ℚ) ^ (-1076 : Int) ≤ 2 ^ x.interval.scale := zpow_le_zpow_right₀ (by norm_num) scale
    _ = 1 * 2 ^ x.interval.scale := (one_mul _).symm
    _ ≤ x.interval.low * 2 ^ x.interval.scale := by gcongr
    _ ≤ r := holds.low

theorem Interval.Holds.greatest {r : ℚ} (holds : x.interval.Holds r) (finite : x.isFinite = true) : r ≤ 2 ^ (1025 : Int) := by
  have stop : x.interval.high ≤ 2 ^ 56 := by
    have := significand_lt x
    simp only [interval]
    omega
  have cast : (x.interval.high : ℚ) ≤ 2 ^ (56 : Int) := by exact_mod_cast stop
  have scale : x.interval.scale ≤ 969 := by
    have := scale_le finite
    simp only [interval]
    omega
  calc r ≤ x.interval.high * 2 ^ x.interval.scale := holds.high
    _ ≤ 2 ^ (56 : Int) * 2 ^ (969 : Int) := by
      gcongr
      norm_num
    _ = 2 ^ (1025 : Int) := by
      rw [← zpow_add₀ (by norm_num)]
      norm_num

theorem decimal_bounds {digits : Nat} (some : digits ≠ 0) (e : Int) :
    (10 : ℚ) ^ ((Nat.repr digits).length + e - 1) ≤ digits * 10 ^ e ∧
      (digits * 10 ^ e : ℚ) < 10 ^ ((Nat.repr digits).length + e) := by
  have positive := Nat.length_repr_pos (n := digits)
  obtain ⟨k, length⟩ := Nat.exists_eq_add_of_le' positive
  have under : digits < 10 ^ (k + 1) := (Nat.length_repr_le_iff (by omega)).1 (by omega)
  have least : 10 ^ k ≤ digits := by
    rcases Nat.eq_zero_or_pos k with rfl | more
    · exact Nat.one_le_iff_ne_zero.2 some
    · exact Nat.le_of_not_lt fun less => absurd ((Nat.length_repr_le_iff more).2 less) (by omega)
  have ten : (0 : ℚ) < 10 ^ e := by positivity
  constructor
  · calc (10 : ℚ) ^ ((Nat.repr digits).length + e - 1) = 10 ^ (k : Int) * 10 ^ e := by
          rw [← zpow_add₀ (by norm_num)]
          congr 1
          omega
      _ ≤ digits * 10 ^ e := by
        gcongr
        exact_mod_cast least
  · calc (digits * 10 ^ e : ℚ) < 10 ^ ((k : Int) + 1) * 10 ^ e := by
          gcongr
          exact_mod_cast under
      _ = 10 ^ ((Nat.repr digits).length + e) := by
        rw [← zpow_add₀ (by norm_num)]
        congr 1
        omega

/-- A decimal within the interval of a double reads back as the double. -/
theorem ofDecimal_held (negative : Bool) {digits : Nat} {e : Int} (finite : x.isFinite = true) (nonzero : x.significand ≠ 0)
    (some : digits ≠ 0) (holds : x.interval.Holds (digits * 10 ^ e)) :
    ofDecimal negative digits e = assemble negative x.significand x.scale := by
  obtain ⟨low, high⟩ := decimal_bounds some e
  have least := holds.least nonzero
  have greatest := holds.greatest finite
  have notTiny : ¬((Nat.repr digits).length + e < -400) := by
    intro tiny
    have small : (10 : ℚ) ^ ((Nat.repr digits).length + e) ≤ 10 ^ (-401 : Int) := zpow_le_zpow_right₀ (by norm_num) (by omega)
    have apart : (10 : ℚ) ^ (-401 : Int) < 2 ^ (-1076 : Int) :=
      (ten_le_two (.inr (by decide))).trans_lt (zpow_lt_zpow_right₀ (by norm_num) (show (-1331 : Int) < -1076 by decide))
    exact absurd (high.trans_le (small.trans apart.le)) (not_lt.2 least)
  have notHuge : ¬(400 < (Nat.repr digits).length + e) := by
    intro huge
    have big : (10 : ℚ) ^ (400 : Int) ≤ 10 ^ ((Nat.repr digits).length + e - 1) := zpow_le_zpow_right₀ (by norm_num) (by omega)
    have apart : (2 : ℚ) ^ (1025 : Int) < 10 ^ (400 : Int) := by
      calc (2 : ℚ) ^ (1025 : Int) < 2 ^ (3 * 400 : Int) := zpow_lt_zpow_right₀ (by norm_num) (by decide)
        _ = (2 ^ (3 : Int)) ^ (400 : Int) := zpow_mul _ _ _
        _ ≤ 10 ^ (400 : Int) := zpow_le_zpow_left₀ (by decide) (by norm_num) (by norm_num)
    exact absurd ((apart.trans_le big).trans_le low) (not_lt.2 greatest)
  unfold ofDecimal
  dsimp only
  rw [if_neg (by simp [some, notTiny]), if_neg notHuge]
  split
  next up =>
    obtain ⟨n, rfl⟩ := Int.eq_ofNat_of_zero_le up
    refine ofRatio_held negative (Nat.mul_ne_zero some (by simp)) one_ne_zero ?_
    simpa using holds
  next down =>
    obtain ⟨n, same⟩ := Int.eq_ofNat_of_zero_le (show 0 ≤ -e by omega)
    obtain rfl : e = -(n : Int) := by omega
    refine ofRatio_held negative some (by simp) ?_
    simpa [div_eq_mul_inv] using holds

end Finite

end Binary64

end ScriptHost
