import Mathlib
import ScriptHost.Engine.Heap
import ScriptHost.Proofs.Text.Terminated

set_option autoImplicit false

/-!
The decimal texts of indices, as keys of arrays.
-/

namespace ScriptHost

namespace Text

theorem isDigit_of_mem_repr {n : Nat} {c : Char} (member : c ∈ (Nat.repr n).toList) : c.isDigit = true := by
  rw [Nat.toList_repr] at member
  exact Nat.isDigit_of_mem_toDigits (by decide) (by decide) member

theorem untilNul_repr (n : Nat) : untilNul (Nat.repr n) = Nat.repr n :=
  untilNul_of_nulFree fun member => absurd (isDigit_of_mem_repr member) (by decide)

end Text

namespace Heap

theorem repr_ne_lengthKey (n : Nat) : Nat.repr n ≠ lengthKey := by
  intro same
  have first : 'l' ∈ (Nat.repr n).toList := by
    rw [same]
    decide
  exact absurd (Text.isDigit_of_mem_repr first) (by decide)

theorem arrayIndex?_repr {n : Nat} (small : n < UInt64.size) : arrayIndex? (Nat.repr n) = some n := by
  have limit : Nat.pow 2 64 = UInt64.size := rfl
  simp only [arrayIndex?, Nat.toNat?_repr, limit, small, decide_true, Bool.and_self, if_true]

end Heap

end ScriptHost
