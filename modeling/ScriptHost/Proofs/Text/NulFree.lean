import ScriptHost.Proofs.Engine.Scratch
import ScriptHost.Proofs.Text.Numerals

set_option autoImplicit false

/-!
Texts without a NUL.

What is read as far as the first NUL has none, and neither has anything that is written of numbers.
-/

namespace ScriptHost

namespace Text

variable {s t : String} {bytes : ByteArray}

@[simp] theorem nulFree_append : NulFree (s ++ t) ↔ NulFree s ∧ NulFree t := by
  simp [NulFree]

theorem nulFree_ofList {cs : List Char} : NulFree (String.ofList cs) ↔ '\x00' ∉ cs := by
  rw [NulFree, String.toList_ofList]

theorem nulFree_repr (n : Nat) : NulFree (Nat.repr n) :=
  fun member => absurd (isDigit_of_mem_repr member) (by decide)

theorem nulFree_toString (n : Int) : NulFree (toString n) := by
  cases n with
  | ofNat n => exact nulFree_repr n
  | negSucc n => exact nulFree_append.2 ⟨by decide, nulFree_repr _⟩

theorem nulFree_intercalate {ts : List String} (separator : NulFree s) (parts : ∀ t ∈ ts, NulFree t) :
    NulFree (s.intercalate ts) := by
  induction ts with
  | nil => exact List.not_mem_nil
  | cons t rest ih =>
    have first := parts t List.mem_cons_self
    have others := ih fun u member => parts u (List.mem_cons_of_mem t member)
    cases rest with
    | nil => exact String.intercalate_singleton ▸ first
    | cons u rest =>
      rw [String.intercalate_cons_cons]
      exact nulFree_append.2 ⟨nulFree_append.2 ⟨first, separator⟩, others⟩

theorem nulFree_decode (done : Utf8.decode bytes = .ok s) (clean : (0 : UInt8) ∉ bytes.data.toList) : NulFree s := by
  have encoded : s.toUTF8 = bytes := by
    unfold Utf8.decode String.fromUTF8? at done
    split at done
    next t read =>
      obtain rfl := Except.ok.inj done
      split at read
      next valid =>
        obtain rfl := Option.some.inj read
        rfl
      next => cases read
    next => cases done
  intro nul
  rw [← encoded, toList_toUTF8] at clean
  exact clean (List.mem_flatMap.2 ⟨'\x00', nul, by decide⟩)

/-- A search for a zero passes over none. -/
theorem zero_findIdx? (bytes : ByteArray) (start : Nat) :
    match bytes.findIdx? (fun x => x == 0) start with
    | some stop => stop < bytes.size ∧ ∀ i (_ : start ≤ i) (_ : i < stop) (inside : i < bytes.size), bytes[i] ≠ 0
    | none => ∀ i (_ : start ≤ i) (inside : i < bytes.size), bytes[i] ≠ 0 := by
  unfold ByteArray.findIdx?
  fun_induction ByteArray.findIdx?.loop bytes (fun x => x == 0) start with
  | case1 start inside zero => exact ⟨inside, fun i first last _ => by omega⟩
  | case2 start inside other ih =>
    have here : bytes[start] ≠ 0 := by simpa using other
    split at ih
    next stop found =>
      refine ⟨ih.1, fun i first last small => ?_⟩
      rcases Nat.eq_or_lt_of_le first with rfl | later
      next => exact here
      next => exact ih.2 i later last small
    next =>
      intro i first small
      rcases Nat.eq_or_lt_of_le first with rfl | later
      next => exact here
      next => exact ih i later small
  | case3 start outside => exact fun i first small => absurd (Nat.lt_of_le_of_lt first small) outside

end Text

namespace Block

variable {b : Block} {start stop : Nat}

theorem zeroFrom_clean (found : b.zeroFrom start = some stop) :
    stop - start ≤ (b.written.extract start stop).size ∧ (0 : UInt8) ∉ (b.written.extract start stop).data.toList := by
  have passed := Text.zero_findIdx? b.written start
  have clean (nonzero : ∀ i (_ : start ≤ i) (_ : i < stop) (inside : i < b.written.size), b.written[i] ≠ 0) :
      (0 : UInt8) ∉ (b.written.extract start stop).data.toList := by
    intro member
    obtain ⟨i, small, zero⟩ := List.getElem_of_mem member
    have inside : i < (b.written.extract start stop).size := small
    have place : (b.written.extract start stop)[i] = 0 := zero
    rw [ByteArray.size_extract] at inside
    rw [ByteArray.getElem_extract] at place
    exact nonzero (start + i) (Nat.le_add_right start i) (by omega) (by omega) place
  unfold zeroFrom at found
  rw [ByteArray.size_extract]
  cases searched : b.written.findIdx? (fun x => x == 0) start with
  | some i =>
    rw [searched] at found passed
    obtain rfl := Option.some.inj found
    exact ⟨by omega, clean passed.2⟩
  | none =>
    rw [searched] at found passed
    dsimp only at found
    split at found
    next =>
      obtain rfl := Option.some.inj found
      exact ⟨by omega, clean fun i first _ inside => passed i first inside⟩
    next => cases found

end Block

namespace Memory

/-- What is read as a text stops at the first zero. -/
theorem nulFree_readCString {m : Memory} {a : Addr} {s : String} (done : m.readCString a = .ok s) : Text.NulFree s := by
  unfold readCString at done
  split at done
  next => cases done
  next b located =>
    dsimp only at done
    generalize a.toNat - b.base = start at done
    split at done
    next => cases done
    next stop zero =>
      split at done
      next t decoded =>
        obtain rfl := Except.ok.inj done
        obtain ⟨enough, clean⟩ := Block.zeroFrom_clean zero
        rw [Block.pad_enough enough] at decoded
        exact Text.nulFree_decode decoded clean
      next => cases done

end Memory

namespace NumberLayout

theorem nulFree_zeros (n : Nat) : Text.NulFree (zeros n) := by
  rw [zeros, Text.nulFree_ofList]
  exact fun member => absurd (List.eq_of_mem_replicate member) (by decide)

theorem nulFree_positionalText (keepPoint : Bool) (d : Decimal) : Text.NulFree (positionalText keepPoint d) := by
  have digits := Text.nulFree_repr d.digits
  have point : Text.NulFree (if keepPoint = true then ".0" else "") := by cases keepPoint <;> decide
  have front (n : Nat) : Text.NulFree (String.ofList ((Nat.repr d.digits).toList.take n)) :=
    Text.nulFree_ofList.2 fun member => digits (List.mem_of_mem_take member)
  have back (n : Nat) : Text.NulFree (String.ofList ((Nat.repr d.digits).toList.drop n)) :=
    Text.nulFree_ofList.2 fun member => digits (List.mem_of_mem_drop member)
  have dot : Text.NulFree "." := by decide
  have zero : Text.NulFree "0." := by decide
  unfold positionalText
  dsimp only
  split
  next => simp only [Text.nulFree_append, digits, nulFree_zeros, point, and_self]
  next =>
    split
    next => simp only [Text.nulFree_append, front, back, dot, and_self]
    next => simp only [Text.nulFree_append, digits, nulFree_zeros, zero, and_self]

theorem nulFree_plain (x : Binary64) : Text.NulFree (plain.render x) := by
  have sign : Text.NulFree (if x.negative = true then "-" else "") := by cases x.negative <;> decide
  unfold render
  split
  next => decide
  next =>
    split
    next => split <;> decide
    next => exact Text.nulFree_append.2 ⟨sign, nulFree_positionalText false _⟩

end NumberLayout

theorem Heap.nulFree_numberText (x : Binary64) : Text.NulFree (numberText x) := by
  unfold numberText
  split
  next => exact Text.nulFree_toString _
  next => exact NumberLayout.nulFree_plain x

end ScriptHost
