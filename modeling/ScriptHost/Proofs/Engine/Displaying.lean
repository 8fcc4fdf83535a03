import Mathlib.Data.List.Perm.Subperm
import ScriptHost.Engine.Heap

set_option autoImplicit false

/-!
How deep the text of a value goes.

The text of an array or an error is put together from those of other values. An array that contains itself has no finite
text. If a text is finite, no value lies inside itself, so there are at most as many levels as cells and one for what is
in none.
-/

namespace ScriptHost

namespace Heap

/-- The values whose texts are parts of the text of a value. -/
def textParts (h : Heap) (p : Ptr) : List Ptr :=
  match staticText p, h.get? p with
  | none, some (.object .error props) => (props.get? messageKey).toList
  | none, some (.array items) => items.toList.filter fun item => !item.isNullish
  | _, _ => []

def FiniteText (h : Heap) (p : Ptr) : Prop :=
  Acc (fun inner outer => inner ∈ h.textParts outer) p

/-- Whether the text of a value takes so many levels at most. -/
def Within (h : Heap) : Nat -> Ptr -> Prop
  | 0, _ => False
  | depth + 1, p => ∀ q ∈ h.textParts p, Within h depth q

variable {h : Heap} {p q : Ptr} {m n : Nat}

theorem Within.succ (within : h.Within n p) : h.Within (n + 1) p := by
  induction n generalizing p with
  | zero => exact within.elim
  | succ n ih => exact fun q member => ih (within q member)

theorem Within.mono (within : h.Within m p) (more : m ≤ n) : h.Within n p := by
  induction more with
  | refl => exact within
  | step _ ih => exact ih.succ

theorem exists_within {ps : List Ptr} (each : ∀ p ∈ ps, ∃ n, h.Within n p) : ∃ n, ∀ p ∈ ps, h.Within n p := by
  induction ps with
  | nil => exact ⟨0, by simp⟩
  | cons p rest ih =>
    obtain ⟨m, first⟩ := each p List.mem_cons_self
    obtain ⟨n, others⟩ := ih fun q member => each q (List.mem_cons_of_mem p member)
    refine ⟨max m n, fun q member => ?_⟩
    rcases List.mem_cons.1 member with rfl | later
    next => exact first.mono (Nat.le_max_left m n)
    next => exact (others q later).mono (Nat.le_max_right m n)

theorem FiniteText.within (finite : h.FiniteText p) : ∃ n, h.Within n p := by
  induction finite with
  | intro p _ ih =>
    obtain ⟨n, parts⟩ := exists_within ih
    exact ⟨n + 1, parts⟩

theorem not_finiteText_of_part (self : p ∈ h.textParts p) : ¬h.FiniteText p := by
  intro finite
  induction finite with
  | intro p _ ih => exact ih p self self

theorem mem_keys_of_part (part : q ∈ h.textParts p) : p ∈ h.cells.keys := by
  by_contra absent
  have none : h.get? p = none := by
    rw [Heap.get?, (Table.get?_eq_none_iff h.cells p).2 absent]
    rfl
  simp [textParts, none] at part

/-- A text that takes one level more than `n` has at least `n` values with parts, one inside the other. -/
theorem exists_chain (within : h.Within (n + 1) p) (deep : ¬h.Within n p) :
    ∃ ps : List Ptr, ps.length = n ∧ ps.Nodup ∧ ∀ q ∈ ps, q ∈ h.cells.keys ∧ h.Within (n + 1) q := by
  induction n generalizing p with
  | zero => exact ⟨[], rfl, List.nodup_nil, by simp⟩
  | succ n ih =>
    obtain ⟨q, part, deeper⟩ : ∃ q ∈ h.textParts p, ¬h.Within n q := by simpa [Within] using deep
    obtain ⟨ps, length, distinct, inside⟩ := ih (within q part) deeper
    have apart : p ∉ ps := fun member => deep (inside p member).2
    refine ⟨p :: ps, congrArg (· + 1) length, List.nodup_cons.2 ⟨apart, distinct⟩, fun r member => ?_⟩
    rcases List.mem_cons.1 member with rfl | later
    next => exact ⟨mem_keys_of_part part, within⟩
    next => exact ⟨(inside r later).1, (inside r later).2.succ⟩

theorem Within.cells (within : h.Within n p) : h.Within (h.cells.size + 1) p := by
  induction n with
  | zero => exact within.elim
  | succ n ih =>
    by_cases less : h.Within n p
    next => exact ih less
    next =>
      obtain ⟨ps, length, distinct, inside⟩ := exists_chain within less
      have few : ps.length ≤ h.cells.keys.length := (distinct.subperm fun q member => (inside q member).1).length_le
      have size : h.cells.keys.length = h.cells.size := List.length_map ..
      exact within.mono (by omega)

/-- Values whose parts have the same text have the same text. -/
theorem displayTo_congr_parts (same : ∀ q ∈ h.textParts p, h.displayTo m q = h.displayTo n q) :
    h.displayTo (m + 1) p = h.displayTo (n + 1) p := by
  unfold displayTo
  cases constant : staticText p with
  | some s => rfl
  | none =>
    cases found : h.get? p with
    | none => rfl
    | some v =>
      rw [textParts, constant, found] at same
      cases v with
      | object cls props =>
        cases cls with
        | plain => rfl
        | error =>
          cases message : props.get? messageKey with
          | none => simp only [message]
          | some q => simp only [message, same q (by simp [message])]
      | array items =>
        have shown : (items.toList.map fun item => if item.isNullish then "" else h.displayTo m item) =
            items.toList.map fun item => if item.isNullish then "" else h.displayTo n item := by
          refine List.map_congr_left fun item member => ?_
          split
          next => rfl
          next plain => exact same item (List.mem_filter.2 ⟨member, by simpa using plain⟩)
        simp only [shown]
      | _ => rfl

theorem Within.displayTo (within : h.Within n p) (enough : n ≤ m) : h.displayTo m p = h.displayTo n p := by
  induction n generalizing m p with
  | zero => exact within.elim
  | succ n ih =>
    obtain ⟨m, rfl⟩ := Nat.exists_eq_add_of_lt enough
    exact displayTo_congr_parts fun q part => ih (within q part) (Nat.le_add_right n m)

/-- A finite text is the same however much deeper one looks. -/
theorem FiniteText.displayTo (finite : h.FiniteText p) (deep : h.cells.size < n) : h.displayTo n p = h.display p := by
  obtain ⟨m, within⟩ := finite.within
  exact within.cells.displayTo deep

end Heap

end ScriptHost
