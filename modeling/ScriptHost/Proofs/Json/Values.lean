import Mathlib.Data.List.Forall2
import ScriptHost.Proofs.Json.Texts

set_option autoImplicit false

/-!
Written values read back: from their parts to arrays and objects, and to whole texts.

Reading is given fuel by the length of the text, twice for every character. A value needs no more than that,
and the items of an array one step more, which its brackets pay for.
-/

namespace ScriptHost

namespace Json

/-- A text denotes a value, whatever stands behind it. It starts neither with a blank nor like the end of an array. -/
structure Reads (text : List Char) (v : Json) : Prop where
  starts : ∃ c cs, text = c :: cs ∧ isBlank c = false ∧ c ≠ ']'
  reads : ∀ {fuel : Nat} {rest : List Char}, 2 * text.length ≤ fuel -> Stops rest ->
    readValue fuel (text ++ rest) = some (v, rest)

variable {text rest : List Char} {v : Json} {fuel : Nat}

theorem skipBlanks_cons {c : Char} (visible : isBlank c = false) (cs : List Char) : skipBlanks (c :: cs) = c :: cs := by
  simp [skipBlanks, visible]

theorem Reads.of_cons {c : Char} {cs : List Char} (visible : isBlank c = false) (other : c ≠ ']')
    (reads : ∀ {fuel : Nat} {rest : List Char}, 2 * cs.length + 1 ≤ fuel -> Stops rest ->
      readValue (fuel + 1) (c :: (cs ++ rest)) = some (v, rest)) : Reads (c :: cs) v where
  starts := ⟨c, cs, rfl, visible, other⟩
  reads := by
    intro fuel rest enough stops
    rw [List.length_cons] at enough
    obtain ⟨fuel, rfl⟩ := Nat.exists_eq_add_of_le' (show 1 ≤ fuel by omega)
    exact reads (by omega) stops

theorem reads_null : Reads "null".toList null := by
  have letters : "null".toList = ['n', 'u', 'l', 'l'] := rfl
  rw [letters]
  exact .of_cons rfl (by decide) fun _ _ => by simp [readValue, skipBlanks_cons (c := 'n') rfl, expect]

theorem reads_bool (b : Bool) : Reads (writeBool b).toList (bool b) := by
  cases b with
  | false =>
    have letters : (writeBool false).toList = ['f', 'a', 'l', 's', 'e'] := rfl
    rw [letters]
    exact .of_cons rfl (by decide) fun _ _ => by simp [readValue, skipBlanks_cons (c := 'f') rfl, expect]
  | true =>
    have letters : (writeBool true).toList = ['t', 'r', 'u', 'e'] := rfl
    rw [letters]
    exact .of_cons rfl (by decide) fun _ _ => by simp [readValue, skipBlanks_cons (c := 't') rfl, expect]

theorem reads_text (s : String) : Reads (quote s).toList (.text (some s)) := by
  rw [toList_quote]
  refine .of_cons rfl (by decide) fun _ _ => ?_
  rw [readValue, skipBlanks_cons rfl, List.append_assoc, List.singleton_append]
  simp [readText_quoted]

theorem readValue_digit {c : Char} (digit : c.isDigit = true) (fuel : Nat) (cs : List Char) :
    readValue (fuel + 1) (c :: cs) = (readNumeral false (c :: cs)).map fun (n, rest) => (number n, rest) := by
  have visible : isBlank c = false := by
    simp only [isBlank, Bool.or_eq_false_iff, beq_eq_false_iff_ne]
    refine ⟨⟨⟨?_, ?_⟩, ?_⟩, ?_⟩ <;> rintro rfl <;> cases digit
  rw [readValue, skipBlanks_cons visible]
  split
  case h_8 => rfl
  all_goals
    next same =>
      obtain ⟨rfl, _⟩ := List.cons.inj same
      cases digit

theorem reads_digits {text : List Char} {n : Numeral} (digit : ∃ c cs, text = c :: cs ∧ c.isDigit = true)
    (reads : ∀ {rest : List Char}, Stops rest -> readNumeral false (text ++ rest) = some (n, rest)) :
    Reads text (number n) := by
  obtain ⟨c, cs, rfl, digit⟩ := digit
  have visible : isBlank c = false := by
    simp only [isBlank, Bool.or_eq_false_iff, beq_eq_false_iff_ne]
    refine ⟨⟨⟨?_, ?_⟩, ?_⟩, ?_⟩ <;> rintro rfl <;> cases digit
  refine .of_cons visible (by rintro rfl; cases digit) fun _ stops => ?_
  rw [readValue_digit digit, ← List.cons_append, reads stops]
  rfl

theorem reads_minus {text : List Char} {n : Numeral}
    (reads : ∀ {rest : List Char}, Stops rest -> readNumeral true (text ++ rest) = some (n, rest)) :
    Reads ('-' :: text) (number n) := by
  refine .of_cons rfl (by decide) fun _ stops => ?_
  rw [readValue, skipBlanks_cons rfl]
  simp [reads stops]

theorem reads_natural (n : Nat) : Reads (Nat.repr n).toList (number ⟨false, n, 0, true⟩) := by
  rw [Nat.toList_repr]
  refine reads_digits ?_ (readNumeral_toDigits false n)
  obtain ⟨c, cs, same⟩ := List.exists_cons_of_ne_nil (Nat.toDigits_ne_nil (n := n) (b := 10))
  exact ⟨c, cs, same, allDigits_toDigits n c (by simp [same])⟩

theorem reads_integer (i : Int) : Reads (Int.repr i).toList (number ⟨decide (i < 0), i.natAbs, 0, true⟩) := by
  cases i with
  | ofNat n => exact reads_natural n
  | negSucc n =>
    have text : (Int.repr (Int.negSucc n)).toList = '-' :: Nat.toDigits 10 (n + 1) := by
      simp [Int.repr]
    have below : decide (Int.negSucc n < 0) = true := by simp
    rw [text, below]
    exact reads_minus (readNumeral_toDigits true (n + 1))

section Containers

/-- The items of an array, or the members of an object, as they are written. -/
def separated (texts : List (List Char)) : List Char :=
  [','].intercalate texts

@[simp] theorem separated_single (text : List Char) : separated [text] = text := by
  simp [separated]

@[simp] theorem separated_cons (text next : List Char) (texts : List (List Char)) :
    separated (text :: next :: texts) = text ++ ',' :: separated (next :: texts) := by
  simp [separated, List.intercalate_cons_cons]

theorem stops_comma (rest : List Char) : Stops (',' :: rest) := by
  simp [Stops]

theorem stops_bracket (rest : List Char) : Stops (']' :: rest) := by
  simp [Stops]

theorem stops_brace (rest : List Char) : Stops ('\x7d' :: rest) := by
  simp [Stops]

variable {texts : List (List Char)} {vs : List Json}

theorem readItems_reads (all : List.Forall₂ Reads texts vs) (some : texts ≠ [])
    (enough : 2 * (separated texts).length + 1 ≤ fuel) (rest : List Char) :
    readItems fuel (separated texts ++ ']' :: rest) = .some (vs, rest) := by
  induction all generalizing fuel with
  | nil => exact absurd rfl some
  | @cons text v texts vs first others ih =>
    obtain ⟨fuel, rfl⟩ := Nat.exists_eq_add_of_le' (show 1 ≤ fuel by omega)
    cases others with
    | nil =>
      rw [separated_single] at enough ⊢
      rw [readItems, first.reads (by omega) (stops_bracket rest)]
      simp [skipBlanks_cons (c := ']') rfl]
    | cons next later =>
      simp only [separated_cons, List.length_append, List.length_cons] at enough
      have read := ih (by simp) (show _ ≤ fuel by omega)
      rw [separated_cons, List.append_assoc, List.cons_append, readItems, first.reads (by omega) (stops_comma _)]
      simp [skipBlanks_cons (c := ',') rfl, read]

theorem separated_starts {p : Char -> Prop} {text : List Char} (starts : ∃ c cs, text = c :: cs ∧ p c)
    (texts : List (List Char)) : ∃ c cs, separated (text :: texts) = c :: cs ∧ p c := by
  obtain ⟨c, cs, rfl, kept⟩ := starts
  cases texts with
  | nil => exact ⟨c, cs, separated_single _, kept⟩
  | cons next texts => exact ⟨c, _, separated_cons _ _ _, kept⟩

theorem toList_writeArray (items : List String) :
    (writeArray items).toList = '[' :: (separated (items.map String.toList) ++ [']']) := by
  simp [writeArray, separated, String.toList_intercalate]

theorem reads_array {items : List String} (all : List.Forall₂ (fun s v => Reads s.toList v) items vs) :
    Reads (writeArray items).toList (array vs) := by
  have all := List.forall₂_map_left_iff.2 all
  rw [toList_writeArray]
  generalize items.map String.toList = texts at all
  refine .of_cons rfl (by decide) fun enough stops => ?_
  rw [readValue, skipBlanks_cons rfl, List.append_assoc, List.singleton_append]
  rw [List.length_append, List.length_singleton] at enough
  cases all with
  | nil => simp [separated, skipBlanks_cons (c := ']') rfl]
  | @cons text v texts vs first others =>
    have items := readItems_reads (.cons first others) (by simp) (Nat.le_of_succ_le (Nat.le_of_succ_le enough))
    obtain ⟨c, cs, same, visible, other⟩ := separated_starts first.starts texts
    simp only [same, List.cons_append, skipBlanks_cons visible] at items ⊢
    simp [items, other]

/-- A member of an object, its key quoted. -/
def memberText (member : String × String) : List Char :=
  (quote member.1).toList ++ ':' :: member.2.toList

structure ReadsMember (member : String × String) (v : Option String × Json) : Prop where
  key : v.1 = some member.1
  value : Reads member.2.toList v.2

variable {members : List (String × String)} {pairs : List (Option String × Json)}

theorem readMember_reads {member : String × String} {v : Option String × Json} (reads : ReadsMember member v)
    (enough : 2 * (memberText member).length ≤ fuel) (stops : Stops rest) :
    readMembers (fuel + 1) (memberText member ++ rest) =
      match skipBlanks rest with
      | '\x7d' :: rest => some ([v], rest)
      | ',' :: rest => do
          let (ms, rest) <- readMembers fuel rest
          pure (v :: ms, rest)
      | _ => none := by
  obtain ⟨key, v⟩ := v
  obtain ⟨rfl, value⟩ := reads
  have few : 2 * member.2.toList.length ≤ fuel := by
    simp only [memberText, List.length_append, List.length_cons] at enough
    omega
  rw [memberText, toList_quote, readMembers]
  simp only [List.cons_append, List.append_assoc, List.nil_append, skipBlanks_cons (c := '"') rfl,
    skipBlanks_cons (c := ':') rfl, expect, if_true, Option.bind_eq_bind, Option.bind_some, readText_quoted,
    value.reads few stops]
  rfl

theorem readMembers_reads (all : List.Forall₂ ReadsMember members pairs) (some : members ≠ [])
    (enough : 2 * (separated (members.map memberText)).length + 1 ≤ fuel) (rest : List Char) :
    readMembers fuel (separated (members.map memberText) ++ '\x7d' :: rest) = .some (pairs, rest) := by
  induction all generalizing fuel with
  | nil => exact absurd rfl some
  | @cons member v members pairs first others ih =>
    obtain ⟨fuel, rfl⟩ := Nat.exists_eq_add_of_le' (show 1 ≤ fuel by omega)
    cases others with
    | nil =>
      rw [List.map_singleton, separated_single] at enough ⊢
      rw [readMember_reads first (by omega) (stops_brace rest)]
      simp [skipBlanks_cons (c := '\x7d') rfl]
    | cons next later =>
      simp only [List.map_cons, separated_cons, List.length_append, List.length_cons] at enough ih
      have read := ih (by simp) (show _ ≤ fuel by omega)
      rw [List.map_cons, List.map_cons, separated_cons, List.append_assoc, List.cons_append,
        readMember_reads first (by omega) (stops_comma _)]
      simp [skipBlanks_cons (c := ',') rfl, read]

theorem toList_writeObject (members : List (String × String)) :
    (writeObject members).toList = '\x7b' :: (separated (members.map memberText) ++ ['\x7d']) := by
  simp [writeObject, separated, String.toList_intercalate, Function.comp_def]
  rfl

theorem reads_object (all : List.Forall₂ ReadsMember members pairs) :
    Reads (writeObject members).toList (object pairs) := by
  rw [toList_writeObject]
  refine .of_cons rfl (by decide) fun enough stops => ?_
  rw [readValue, skipBlanks_cons rfl, List.append_assoc, List.singleton_append]
  rw [List.length_append, List.length_singleton] at enough
  cases all with
  | nil => simp [separated, skipBlanks_cons (c := '\x7d') rfl]
  | @cons member v members pairs first others =>
    have read := readMembers_reads (.cons first others) (by simp) (Nat.le_of_succ_le (Nat.le_of_succ_le enough))
    have quoted : ∃ c cs, memberText member = c :: cs ∧ c = '"' := by
      rw [memberText, toList_quote]
      exact ⟨_, _, rfl, rfl⟩
    obtain ⟨c, cs, same, rfl⟩ := separated_starts quoted (members.map memberText)
    rw [List.map_cons] at read ⊢
    simp only [same, List.cons_append, skipBlanks_cons (c := '"') rfl] at read ⊢
    simp [read]

end Containers

theorem read_of_reads {s : String} (reads : Reads s.toList v) : read s = some v := by
  have enough : 2 * s.toList.length ≤ 2 * s.length + 2 := by
    rw [String.length_toList]
    omega
  have whole := reads.reads enough stops_nil
  rw [List.append_nil] at whole
  simp [read, whole, skipBlanks]

end Json

end ScriptHost
