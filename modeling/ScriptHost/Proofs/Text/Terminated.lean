import Mathlib.Data.List.TakeWhile
import ScriptHost.Text.Utf8

set_option autoImplicit false

/-!
Texts that end at their first NUL.

Written with a NUL behind it, a text is read back only as far as it has none of its own.
-/

namespace ScriptHost

namespace Text

def untilNul (s : String) : String :=
  String.ofList (s.toList.takeWhile fun c => c != '\x00')

def NulFree (s : String) : Prop :=
  '\x00' ∉ s.toList

instance (s : String) : Decidable (NulFree s) :=
  inferInstanceAs (Decidable ('\x00' ∉ s.toList))

theorem untilNul_of_nulFree {s : String} (free : NulFree s) : untilNul s = s := by
  have whole : s.toList.takeWhile (fun c => c != '\x00') = s.toList := by
    rw [List.takeWhile_eq_self_iff]
    intro c member
    have other : c ≠ '\x00' := fun same => free (same ▸ member)
    simpa using other
  rw [untilNul, whole, String.ofList_toList]

theorem zero_mem_encoded {c : Char} (zero : (0 : UInt8) ∈ String.utf8EncodeChar c) : c = '\x00' := by
  have byte {n : Nat} (same : (0 : UInt8) = UInt8.ofNat n) : n % 256 = 0 := by
    have := congrArg UInt8.toNat same
    simpa using this.symm
  unfold String.utf8EncodeChar at zero
  dsimp only at zero
  apply Char.ext
  apply UInt32.toNat_inj.1
  change c.val.toNat = 0
  -- By the number of bytes: the first of several is never zero, nor are the others.
  split at zero
  next small =>
    have := byte (List.mem_singleton.1 zero)
    omega
  next =>
    split at zero
    next =>
      simp only [List.mem_cons, List.not_mem_nil, or_false] at zero
      rcases zero with zero | zero <;> have := byte zero <;> omega
    next =>
      split at zero
      next =>
        simp only [List.mem_cons, List.not_mem_nil, or_false] at zero
        rcases zero with zero | zero | zero <;> have := byte zero <;> omega
      next =>
        simp only [List.mem_cons, List.not_mem_nil, or_false] at zero
        rcases zero with zero | zero | zero | zero <;> have := byte zero <;> omega

theorem encoded_stops (cs : List Char) :
    ∃ more, cs.flatMap String.utf8EncodeChar ++ [0] =
      (cs.takeWhile fun c => c != '\x00').flatMap String.utf8EncodeChar ++ 0 :: more := by
  induction cs with
  | nil => exact ⟨[], rfl⟩
  | cons c rest ih =>
    by_cases nul : c = '\x00'
    next =>
      refine ⟨rest.flatMap String.utf8EncodeChar ++ [0], ?_⟩
      have byte : String.utf8EncodeChar '\x00' = [0] := by decide
      simp [nul, byte]
    next =>
      obtain ⟨more, same⟩ := ih
      refine ⟨more, ?_⟩
      have kept : (c :: rest).takeWhile (fun c => c != '\x00') = c :: rest.takeWhile fun c => c != '\x00' := by
        simp [nul]
      rw [kept, List.flatMap_cons, List.flatMap_cons, List.append_assoc, same, List.append_assoc]

theorem nonzero_of_taken {cs : List Char} {x : UInt8}
    (member : x ∈ (cs.takeWhile fun c => c != '\x00').flatMap String.utf8EncodeChar) : x ≠ 0 := by
  rintro rfl
  obtain ⟨c, taken, zero⟩ := List.mem_flatMap.1 member
  have other := List.mem_takeWhile_imp taken
  simp [zero_mem_encoded zero] at other

theorem toList_toUTF8 (s : String) : s.toUTF8.data.toList = s.toList.flatMap String.utf8EncodeChar := by
  rw [String.toUTF8_eq_toByteArray, ← String.utf8Encode_toList, List.utf8Encode]
  exact List.toList_data_toByteArray

theorem decode_toUTF8 (s : String) : Utf8.decode s.toUTF8 = .ok s := by
  have valid : ByteArray.IsValidUTF8 s.toUTF8 := s.isValidUTF8
  have back : String.fromUTF8? s.toUTF8 = some s := by
    unfold String.fromUTF8?
    rw [dif_pos (by simpa using valid)]
    rfl
  simp only [Utf8.decode, back]

theorem findIdx?_loop_eq {bytes : ByteArray} {place start : Nat} (before : start ≤ place) (inside : place < bytes.size)
    (clean : ∀ i (small : i < place), bytes[i] ≠ 0) (zero : bytes[place] = 0) :
    ByteArray.findIdx?.loop bytes (fun x => x == 0) start = some place := by
  -- On how far the place is ahead of where the search has come to.
  induction distance : place - start generalizing start with
  | zero =>
    obtain rfl : start = place := by omega
    unfold ByteArray.findIdx?.loop
    simp [inside, zero]
  | succ distance ih =>
    have here := clean start (by omega)
    have later := ih (Nat.lt_of_le_of_ne before (by omega)) (by omega) (by omega)
    unfold ByteArray.findIdx?.loop
    rw [dif_pos (by omega), if_neg (by simpa using here)]
    exact later

theorem findIdx?_zero {bytes : ByteArray} {clean more : List UInt8}
    (content : bytes.data.toList = clean ++ 0 :: more) (nonzero : ∀ x ∈ clean, x ≠ 0) :
    bytes.findIdx? (fun x => x == 0) 0 = some clean.length := by
  have length := congrArg List.length content
  simp only [Array.length_toList, ByteArray.size_data, List.length_append, List.length_cons] at length
  have size : bytes.data.toList.length = bytes.size := by simp
  have same (i : Nat) (small : i < bytes.size) (small' : i < bytes.data.toList.length) : bytes[i] = bytes.data.toList[i] := rfl
  refine findIdx?_loop_eq (Nat.zero_le _) (by omega) (fun i small => ?_) ?_
  next =>
    rw [same i (by omega) (by omega)]
    simp only [content, List.getElem_append_left small]
    exact nonzero _ (List.getElem_mem small)
  next =>
    rw [same _ (by omega) (by omega)]
    simp only [content, List.getElem_append_right (Nat.le_refl _), Nat.sub_self, List.getElem_cons_zero]

end Text

end ScriptHost
