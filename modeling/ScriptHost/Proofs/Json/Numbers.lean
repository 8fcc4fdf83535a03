import ScriptHost.Number.Layout
import ScriptHost.Proofs.Json.Values
import ScriptHost.Proofs.Number.Shortest

set_option autoImplicit false

/-!
Doubles in structured text: every layout of a decimal reads back with the value of the decimal, and with a
point or an exponent, so a double is never taken for an integer.
-/

namespace ScriptHost

namespace Json

open NumberLayout

variable {rest : List Char} {digits : Nat}

/-- A text is read as a numeral that is not integral, behind a minus sign or not. -/
structure Denotes (text : List Char) (digits : Nat) (e : Int) : Prop where
  starts : ∃ c cs, text = c :: cs ∧ c.isDigit = true
  reads : ∀ (negative : Bool) {rest : List Char}, Stops rest ->
    readNumeral negative (text ++ rest) = some (⟨negative, digits, e, false⟩, rest)

theorem head?_toDigits (some : digits ≠ 0) : (Nat.toDigits 10 digits).head? ≠ .some '0' := by
  rcases (leads_toDigits digits).2 with single | nonzero
  · have small : digits < 10 := (Nat.length_toDigits_le_iff (by decide) (by decide)).1 (Nat.le_of_eq single)
    rw [Nat.toDigits_of_lt_base small]
    simpa using some
  · exact nonzero

theorem ofDigits_toDigits (n : Nat) : ofDigits (Nat.toDigits 10 n) = n :=
  Nat.ofDigitChars_ten_toDigits

theorem noDigit_point (rest : List Char) : NoDigitNext ('.' :: rest) := by
  simp [NoDigitNext]

theorem noDigit_exponent (rest : List Char) : NoDigitNext ('e' :: rest) := by
  simp [NoDigitNext]

theorem denotes_of_leads {whole more : List Char} {digits : Nat} {e : Int} (allDigits : AllDigits whole) (leads : Leads whole)
    (reads : ∀ (negative : Bool) {rest : List Char}, Stops rest ->
      readNumeral negative (whole ++ (more ++ rest)) = some (⟨negative, digits, e, false⟩, rest)) :
    Denotes (whole ++ more) digits e where
  starts := by
    obtain ⟨c, cs, rfl⟩ := List.exists_cons_of_ne_nil leads.1
    exact ⟨c, _, rfl, allDigits c List.mem_cons_self⟩
  reads := fun negative _ stops => by rw [List.append_assoc, reads negative stops]

/-- Digits, a point and more digits. -/
theorem denotes_fraction {whole part : List Char} (leads : Leads whole) (front : AllDigits whole) (behind : AllDigits part)
    (some : part ≠ []) : Denotes (whole ++ '.' :: part) (ofDigits (whole ++ part)) (-part.length) := by
  refine denotes_of_leads front leads fun negative rest stops => ?_
  rw [List.cons_append, readNumeral_leads negative front leads (noDigit_point _) (fraction_some behind some stops.noDigit)
    (exponent_none stops)]
  simp [some]

/-- One digit, more of them behind a point if there are any, and an exponent. -/
theorem denotes_scientific {whole part : List Char} (leads : Leads whole) (front : AllDigits whole) (behind : AllDigits part)
    (lead : Int) :
    Denotes (whole ++ ((if part.isEmpty then [] else '.' :: part) ++
        'e' :: (if lead < 0 then '-' else '+') :: Nat.toDigits 10 lead.natAbs))
      (ofDigits (whole ++ part)) (lead - part.length) := by
  refine denotes_of_leads front leads fun negative rest stops => ?_
  have power := exponent_some (decide (lead < 0)) (allDigits_toDigits lead.natAbs) Nat.toDigits_ne_nil stops.noDigit
  have value : (if lead < 0 then -(ofDigits (Nat.toDigits 10 lead.natAbs) : Int)
      else ofDigits (Nat.toDigits 10 lead.natAbs)) = lead := by
    rw [ofDigits_toDigits]
    omega
  simp only [decide_eq_true_eq, value] at power
  cases part with
  | nil =>
    have fractional : fraction ('e' :: (if lead < 0 then '-' else '+') :: (Nat.toDigits 10 lead.natAbs ++ rest)) = some ([], _) :=
      fraction_none (by simp)
    have read := readNumeral_leads negative front leads (noDigit_exponent _) fractional power
    simpa using read
  | cons c part =>
    have fractional : fraction ('.' :: (c :: part ++ 'e' :: (if lead < 0 then '-' else '+') :: (Nat.toDigits 10 lead.natAbs ++ rest))) =
        some (c :: part, _) :=
      fraction_some behind (by simp) (noDigit_exponent _)
    have read := readNumeral_leads negative front leads (noDigit_point _) fractional power
    simpa using read

/-- A text has the value of a decimal. -/
def Spells (text : List Char) (d : Decimal) : Prop :=
  ∃ digits e, Denotes text digits e ∧ (digits * 10 ^ e : ℚ) = d.value ∧ (digits = 0 ↔ d.digits = 0)

theorem Denotes.spells {text : List Char} {d : Decimal} (denotes : Denotes text d.digits d.exponent) : Spells text d :=
  ⟨d.digits, d.exponent, denotes, rfl, Iff.rfl⟩

theorem ofDigits_append (front behind : List Char) :
    ofDigits (front ++ behind) = Nat.ofDigitChars 10 behind (ofDigits front) :=
  Nat.ofDigitChars_append 0

theorem allDigits_zeros (n : Nat) : AllDigits (List.replicate n '0') := by
  intro c member
  rw [List.eq_of_mem_replicate member]
  rfl

theorem AllDigits.append {front behind : List Char} (first : AllDigits front) (second : AllDigits behind) :
    AllDigits (front ++ behind) :=
  fun c member => (List.mem_append.1 member).elim (first c) (second c)

/-- A decimal is written with zeros behind it, and with a point and one more zero. -/
theorem denotes_whole {n : Nat} (proper : digits ≠ 0 ∨ n = 0) :
    Denotes (Nat.toDigits 10 digits ++ List.replicate n '0' ++ ['.', '0']) (digits * 10 ^ (n + 1)) (-1) := by
  have front := (allDigits_toDigits digits).append (allDigits_zeros n)
  have leads : Leads (Nat.toDigits 10 digits ++ List.replicate n '0') := by
    refine ⟨by simp, ?_⟩
    rcases proper with some | rfl
    · rw [List.head?_append_of_ne_nil _ Nat.toDigits_ne_nil]
      exact .inr (head?_toDigits some)
    · rw [List.replicate_zero, List.append_nil]
      exact (leads_toDigits digits).2
  have value : ofDigits (Nat.toDigits 10 digits ++ List.replicate n '0' ++ ['0']) = digits * 10 ^ (n + 1) := by
    rw [ofDigits_append, ofDigits_append, ofDigits_toDigits, Nat.ofDigitChars_replicate_zero]
    simp [Nat.ofDigitChars_cons]
    ring
  have denotes := denotes_fraction leads front (allDigits_zeros 1) (by simp)
  rw [List.replicate_one, value] at denotes
  exact denotes

theorem whole_spells {d : Decimal} (proper : d.digits ≠ 0 ∨ d.exponent = 0) (up : 0 ≤ d.exponent) :
    Spells (positionalText true d).toList d := by
  have text : (positionalText true d).toList =
      Nat.toDigits 10 d.digits ++ List.replicate d.exponent.toNat '0' ++ ['.', '0'] := by
    simp [positionalText, up, zeros]
  obtain ⟨n, same⟩ := Int.eq_ofNat_of_zero_le up
  refine ⟨_, _, text ▸ denotes_whole (by omega), ?_, by simp⟩
  simp only [Decimal.value, same, Int.toNat_natCast, Nat.cast_mul, Nat.cast_pow, Nat.cast_ofNat, zpow_natCast, pow_succ,
    zpow_neg_one]
  ring

/-- The point stands between the digits. -/
theorem mixed_spells {d : Decimal} {places : Nat} (some : d.digits ≠ 0) (positive : 0 < places) (down : d.exponent = -places)
    (inside : places < (Nat.toDigits 10 d.digits).length) : Spells (positionalText true d).toList d := by
  have digits := allDigits_toDigits d.digits
  have text : (positionalText true d).toList =
      (Nat.toDigits 10 d.digits).take ((Nat.toDigits 10 d.digits).length - places) ++
        '.' :: (Nat.toDigits 10 d.digits).drop ((Nat.toDigits 10 d.digits).length - places) := by
    simp [positionalText, down, inside, Nat.ne_of_gt positive]
  have length : ((Nat.toDigits 10 d.digits).drop ((Nat.toDigits 10 d.digits).length - places)).length = places := by
    rw [List.length_drop]
    omega
  have leads : Leads ((Nat.toDigits 10 d.digits).take ((Nat.toDigits 10 d.digits).length - places)) := by
    refine ⟨List.ne_nil_of_length_pos (by rw [List.length_take]; omega), .inr ?_⟩
    rw [List.head?_take, if_neg (by omega)]
    exact head?_toDigits some
  have denotes := denotes_fraction leads (fun c member => digits c (List.mem_of_mem_take member))
    (fun c member => digits c (List.mem_of_mem_drop member)) (List.ne_nil_of_length_pos (length.symm ▸ positive))
  rw [List.take_append_drop, ofDigits_toDigits, length, ← down] at denotes
  exact (text ▸ denotes).spells

/-- All digits stand behind the point, and zeros between. -/
theorem small_spells {d : Decimal} {places : Nat} (positive : 0 < places) (down : d.exponent = -places)
    (outside : (Nat.toDigits 10 d.digits).length ≤ places) : Spells (positionalText true d).toList d := by
  have text : (positionalText true d).toList =
      ['0'] ++ '.' :: (List.replicate (places - (Nat.toDigits 10 d.digits).length) '0' ++ Nat.toDigits 10 d.digits) := by
    simp [positionalText, down, Nat.not_lt.2 outside, zeros, Nat.ne_of_gt positive]
  have zero : Leads ['0'] := ⟨by simp, .inl rfl⟩
  have denotes := denotes_fraction zero (allDigits_zeros 1)
    ((allDigits_zeros (places - (Nat.toDigits 10 d.digits).length)).append (allDigits_toDigits d.digits)) (by simp)
  have value : ofDigits (['0'] ++ (List.replicate (places - (Nat.toDigits 10 d.digits).length) '0' ++ Nat.toDigits 10 d.digits)) =
      d.digits := by
    rw [ofDigits_append, Nat.ofDigitChars_append, show ofDigits ['0'] = 0 from rfl, Nat.ofDigitChars_replicate_zero, Nat.mul_zero]
    exact Nat.ofDigitChars_ten_toDigits
  have length : (List.replicate (places - (Nat.toDigits 10 d.digits).length) '0' ++ Nat.toDigits 10 d.digits).length = places := by
    rw [List.length_append, List.length_replicate]
    omega
  rw [value, length, ← down] at denotes
  exact (text ▸ denotes).spells

theorem positional_spells {d : Decimal} (proper : d.digits ≠ 0 ∨ d.exponent = 0) : Spells (positionalText true d).toList d := by
  by_cases up : 0 ≤ d.exponent
  · exact whole_spells proper up
  · obtain ⟨places, down⟩ := Int.eq_ofNat_of_zero_le (show 0 ≤ -d.exponent by omega)
    by_cases inside : places < (Nat.toDigits 10 d.digits).length
    · exact mixed_spells (proper.resolve_right (by omega)) (by omega) (by omega) inside
    · exact small_spells (by omega) (by omega) (Nat.le_of_not_lt inside)

theorem exponent_spells {d : Decimal} {lead : Int}
    (place : lead = d.exponent + (Nat.repr d.digits).length - 1) : Spells (exponentText d lead).toList d := by
  have digits := allDigits_toDigits d.digits
  have length : (Nat.repr d.digits).length = (Nat.toDigits 10 d.digits).length := by
    rw [← String.length_toList, Nat.toList_repr]
  have positive := Nat.length_toDigits_pos (b := 10) (n := d.digits)
  have text : (exponentText d lead).toList = (Nat.toDigits 10 d.digits).take 1 ++
      ((if ((Nat.toDigits 10 d.digits).drop 1).isEmpty then [] else '.' :: (Nat.toDigits 10 d.digits).drop 1) ++
        'e' :: (if lead < 0 then '-' else '+') :: Nat.toDigits 10 lead.natAbs) := by
    have empty (cs : List Char) : (String.ofList cs).isEmpty = cs.isEmpty := by
      rw [Bool.eq_iff_iff]
      simp
    have sign : (if lead < 0 then "-" else "+").toList = [if lead < 0 then '-' else '+'] := by
      split <;> rfl
    unfold exponentText
    dsimp only
    rw [Nat.toList_repr, empty]
    generalize (Nat.toDigits 10 d.digits).drop 1 = part
    cases part <;> simp [sign]
  have leads : Leads ((Nat.toDigits 10 d.digits).take 1) := by
    refine ⟨List.ne_nil_of_length_pos (by rw [List.length_take]; omega), .inl ?_⟩
    rw [List.length_take]
    omega
  have behind : AllDigits ((Nat.toDigits 10 d.digits).drop 1) := fun c member => digits c (List.mem_of_mem_drop member)
  have denotes := denotes_scientific leads (fun c member => digits c (List.mem_of_mem_take member)) behind lead
  have exponent : lead - ((Nat.toDigits 10 d.digits).drop 1).length = d.exponent := by
    rw [List.length_drop]
    omega
  rw [List.take_append_drop, ofDigits_toDigits, exponent] at denotes
  exact (text ▸ denotes).spells

theorem magnitude_spells {d : Decimal} (proper : d.digits ≠ 0 ∨ d = ⟨0, 0⟩) : Spells (structured.magnitude d).toList d := by
  have positional : d.digits ≠ 0 ∨ d.exponent = 0 := proper.imp_right (congrArg Decimal.exponent)
  rcases proper with _ | rfl
  · simp only [NumberLayout.magnitude, structured]
    split
    next => exact positional_spells positional
    next => exact exponent_spells rfl
  · exact positional_spells positional

variable {x : Binary64}

theorem shortest_nonzero (finite : x.isFinite = true) (some : x.significand ≠ 0) (tie : Tie) : (x.shortest tie).digits ≠ 0 := by
  intro zero
  have least := (Binary64.shortest_holds finite some tie).least some
  rw [Decimal.value, zero, Nat.cast_zero, zero_mul] at least
  exact absurd least (not_le.2 (by positivity))

/-- What is read of a finite double's text is a numeral that denotes it. -/
theorem spelled_value {d : Decimal} {digits : Nat} {e : Int} (finite : x.isFinite = true) (tie : Tie) (shortest : x.shortest tie = d)
    (value : (digits * 10 ^ e : ℚ) = d.value) (zero : digits = 0 ↔ d.digits = 0) :
    (⟨x.negative, digits, e, false⟩ : Numeral).toBinary64 = x := by
  have self := Binary64.assemble_self finite
  by_cases none : x.significand = 0
  · have scale : x.scale = -1074 := (Binary64.normal_of_scale x).resolve_right (by omega)
    obtain rfl : digits = 0 := zero.2 (by rw [← shortest, Binary64.shortest, if_pos none])
    rw [none, scale] at self
    rw [Numeral.toBinary64, Binary64.ofDecimal]
    simpa [Binary64.ofRatio] using self
  · have holds := Binary64.shortest_holds finite none tie
    have some : digits ≠ 0 := fun same => shortest_nonzero finite none tie (shortest ▸ zero.1 same)
    rw [shortest, ← value] at holds
    rw [Numeral.toBinary64, Binary64.ofDecimal_held x.negative finite none some holds, self]

theorem reads_finite (finite : x.isFinite = true) :
    ∃ n, Reads (structured.render x).toList (number n) ∧ n.integral = false ∧ n.toBinary64 = x := by
  have other : x.exponentField ≠ 2047 := by simpa [Binary64.isFinite] using finite
  have proper : (x.shortest .even).digits ≠ 0 ∨ x.shortest .even = ⟨0, 0⟩ := by
    by_cases none : x.significand = 0
    · exact .inr (if_pos none)
    · exact .inl (shortest_nonzero finite none _)
  obtain ⟨digits, e, denotes, value, zero⟩ := magnitude_spells proper
  refine ⟨⟨x.negative, digits, e, false⟩, ?_, rfl, spelled_value finite .even rfl value zero⟩
  have text : (structured.render x).toList =
      (if x.negative then ['-'] else []) ++ (structured.magnitude (x.shortest .even)).toList := by
    simp only [render, Binary64.isNaN, Binary64.isInfinite, beq_eq_false_iff_ne.2 other, Bool.false_and, Bool.false_eq_true,
      if_false, String.toList_append]
    congr 1
    split <;> rfl
  rw [text]
  cases x.negative with
  | false => exact reads_digits denotes.starts (denotes.reads false)
  | true => exact reads_minus (denotes.reads true)

end Json

end ScriptHost
