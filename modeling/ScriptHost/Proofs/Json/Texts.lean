import Mathlib.Data.List.Basic
import Mathlib.Tactic.SplitIfs
import ScriptHost.Json.Reader
import ScriptHost.Json.Writer

set_option autoImplicit false

/-!
Structured text that was written reads back: quoted texts and numerals.

Every lemma leaves what stands behind the text alone. Behind a value that is a comma or a closing bracket,
so a numeral ends where it was written to end.
-/

namespace ScriptHost

namespace Json

variable {rest : List Char}

theorem hexDigit_digitChar {n : Nat} (small : n < 16) : hexDigit (Nat.digitChar n) = some n := by
  have all : ∀ n < 16, hexDigit (Nat.digitChar n) = some n := by decide
  exact all n small

theorem units_plain {c : Char} (quoted : c ≠ '"') (escape : c ≠ '\\') (big : ¬c.toNat < 0x20) (rest : List Char) :
    units (c :: rest) = (units rest).map fun (us, rest) => (c.toNat :: us, rest) := by
  rw [units.eq_def]
  split
  next same => exact absurd (List.cons.inj same).1 escape
  next same => exact absurd (List.cons.inj same).1 escape
  next same =>
    obtain ⟨rfl, rfl⟩ := List.cons.inj same
    have kept : (decide (c.toNat < 0x20) || c == '\\') = false := by simp [big, escape]
    rw [if_neg quoted, kept]
    cases units rest <;> rfl
  next same => cases same

theorem units_escape {e : Char} {unit : Nat} (known : escaped e = some unit) (rest : List Char) :
    units ('\\' :: e :: rest) = (units rest).map fun (us, rest) => (unit :: us, rest) := by
  have short : e ≠ 'u' := by
    rintro rfl
    cases known
  rw [units.eq_def]
  split
  next same => exact absurd (List.cons.inj (List.cons.inj same).2).1 short
  next same =>
    obtain ⟨rfl, rfl⟩ := List.cons.inj (List.cons.inj same).2
    rw [known]
    cases units rest <;> rfl
  next c cs _ other same =>
    obtain ⟨rfl, rfl⟩ := List.cons.inj same
    exact absurd rfl (other e rest rfl)
  next same => cases same

/-- One character, as it is written, is read as one unit. -/
theorem units_quoteChar (c : Char) (rest : List Char) :
    units (quoteChar c ++ rest) = (units rest).map fun (us, rest) => (c.toNat :: us, rest) := by
  unfold quoteChar
  split_ifs with quoted escape backspace tab line page carriage small
  · subst quoted
    exact units_escape rfl rest
  · subst escape
    exact units_escape rfl rest
  · exact backspace ▸ units_escape rfl rest
  · exact tab ▸ units_escape rfl rest
  · exact line ▸ units_escape rfl rest
  · exact page ▸ units_escape rfl rest
  · exact carriage ▸ units_escape rfl rest
  · have high := hexDigit_digitChar (n := c.toNat / 16) (by omega)
    have low := hexDigit_digitChar (n := c.toNat % 16) (by omega)
    have zero : hexDigit '0' = some 0 := by decide
    have value : c.toNat / 16 * 16 + c.toNat % 16 = c.toNat := by omega
    cases read : units rest <;> simp [units, high, low, zero, read, value]
  · exact units_plain quoted escape small rest

theorem units_quoted (cs rest : List Char) :
    units (cs.flatMap quoteChar ++ '"' :: rest) = some (cs.map Char.toNat, rest) := by
  induction cs with
  | nil => simp [units]
  | cons c cs ih => rw [List.flatMap_cons, List.append_assoc, units_quoteChar, ih]; rfl

theorem ofUnits_chars (cs : List Char) : ofUnits (cs.map Char.toNat) = some cs := by
  induction cs with
  | nil => rfl
  | cons c cs ih =>
    have proper : ¬(0xD800 ≤ c.toNat ∧ c.toNat < 0xE000) := by
      have valid := c.valid
      simp only [UInt32.isValidChar, Nat.isValidChar] at valid
      have value : c.toNat = c.val.toNat := rfl
      omega
    have low : isLowSurrogate c.toNat = false := by
      simp only [isLowSurrogate, Bool.and_eq_false_iff, decide_eq_false_iff_not]
      omega
    have high : isHighSurrogate c.toNat = false := by
      simp only [isHighSurrogate, Bool.and_eq_false_iff, decide_eq_false_iff_not]
      omega
    rw [List.map_cons, ofUnits.eq_def]
    simp [high, low, ih]

theorem toList_quote (s : String) : (quote s).toList = '"' :: (s.toList.flatMap quoteChar ++ ['"']) := by
  simp [quote]

theorem readText_quoted (s : String) (rest : List Char) :
    readText (s.toList.flatMap quoteChar ++ '"' :: rest) = some (some s, rest) := by
  simp [readText, units_quoted, ofUnits_chars]

section Numerals

/-- What may stand behind a value. -/
def Stops (rest : List Char) : Prop :=
  ∀ c ∈ rest.head?, c = ',' ∨ c = ']' ∨ c = '\x7d'

def AllDigits (ds : List Char) : Prop :=
  ∀ c ∈ ds, c.isDigit = true

def NoDigitNext (rest : List Char) : Prop :=
  ∀ c ∈ rest.head?, c.isDigit = false

theorem Stops.noDigit (stops : Stops rest) : NoDigitNext rest := by
  intro c first
  rcases stops c first with rfl | rfl | rfl <;> rfl

theorem stops_nil : Stops [] :=
  fun _ first => nomatch first

theorem allDigits_toDigits (n : Nat) : AllDigits (Nat.toDigits 10 n) :=
  fun _ member => Nat.isDigit_of_mem_toDigits (by decide) (by decide) member

theorem takeDigits_append {ds : List Char} (digits : AllDigits ds) (next : NoDigitNext rest) :
    takeDigits (ds ++ rest) = (ds, rest) := by
  rw [takeDigits, List.takeWhile_append_of_pos digits, List.dropWhile_append_of_pos digits]
  cases rest with
  | nil => simp
  | cons c rest =>
    have other := next c rfl
    simp [other]

theorem fraction_none (next : rest.head? ≠ some '.') : fraction rest = some ([], rest) := by
  unfold fraction
  split
  next => exact absurd rfl next
  next => rfl

theorem fraction_some {ds : List Char} (digits : AllDigits ds) (some : ds ≠ []) (next : NoDigitNext rest) :
    fraction ('.' :: (ds ++ rest)) = .some (ds, rest) := by
  rw [fraction, takeDigits_append digits next]
  split
  next same => exact absurd (Prod.mk.inj same).1 some
  next => rfl

theorem exponent_none (stops : Stops rest) : exponent rest = some (none, rest) := by
  cases rest with
  | nil => rfl
  | cons c rest => rcases stops c rfl with rfl | rfl | rfl <;> rfl

theorem exponent_some {ds : List Char} (negative : Bool) (digits : AllDigits ds) (some : ds ≠ []) (next : NoDigitNext rest) :
    exponent ('e' :: (if negative then '-' else '+') :: (ds ++ rest)) =
      .some (.some (if negative then -(ofDigits ds : Int) else ofDigits ds), rest) := by
  cases negative
  all_goals
    simp only [exponent, Bool.false_eq_true, if_false, if_true, true_or]
    rw [takeDigits_append digits next]
    split
    next same => exact absurd (Prod.mk.inj same).1 some
    next same =>
      obtain ⟨rfl, rfl⟩ := Prod.mk.inj same
      rfl

/-- Digits before the point have no superfluous zero in front. -/
def Leads (whole : List Char) : Prop :=
  whole ≠ [] ∧ (whole.length = 1 ∨ whole.head? ≠ some '0')

theorem leads_toDigits (n : Nat) : Leads (Nat.toDigits 10 n) := by
  refine ⟨Nat.toDigits_ne_nil, ?_⟩
  induction n using Nat.strongRecOn with
  | ind n ih =>
    rw [Nat.toDigits_eq_if (by decide)]
    split
    next => exact .inl rfl
    next big =>
      have front := Nat.toDigits_ne_nil (n := n / 10) (b := 10)
      rw [List.head?_append_of_ne_nil _ front]
      rcases ih (n / 10) (by omega) with single | nonzero
      · have small : n / 10 < 10 := (Nat.length_toDigits_le_iff (by decide) (by decide)).1 (Nat.le_of_eq single)
        rw [Nat.toDigits_of_lt_base small]
        simp only [List.head?_cons, ne_eq, Option.some.injEq, Nat.digitChar_eq_zero]
        exact .inr (by omega)
      · exact .inr nonzero

theorem readNumeral_leads {whole part : List Char} {power : Option Int} {more more' : List Char} (negative : Bool)
    (digits : AllDigits whole) (leads : Leads whole) (next : NoDigitNext more)
    (fractional : fraction more = some (part, more')) (scaled : exponent more' = some (power, rest)) :
    readNumeral negative (whole ++ more) =
      some (⟨negative, ofDigits (whole ++ part), power.getD 0 - part.length, part.isEmpty && power.isNone⟩, rest) := by
  have accepted : (whole.isEmpty || (whole.length != 1 && whole.head? == some '0')) = false := by
    obtain ⟨some, single | nonzero⟩ := leads
    · simp [some, single]
    · simp [some, nonzero]
  simp [readNumeral, takeDigits_append digits next, accepted, fractional, scaled]

theorem readNumeral_toDigits (negative : Bool) (n : Nat) (stops : Stops rest) :
    readNumeral negative (Nat.toDigits 10 n ++ rest) = some (⟨negative, n, 0, true⟩, rest) := by
  have point : rest.head? ≠ some '.' := by
    intro first
    exact absurd (stops '.' first) (by decide)
  rw [readNumeral_leads negative (allDigits_toDigits n) (leads_toDigits n) stops.noDigit (fraction_none point)
    (exponent_none stops)]
  have value : ofDigits (Nat.toDigits 10 n) = n := Nat.ofDigitChars_ten_toDigits
  simp [value]

end Numerals

end Json

end ScriptHost
