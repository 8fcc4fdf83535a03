import ScriptHost.Proofs.Conversion.Copying

set_option autoImplicit false

/-!
Reading a value of the engine is unfolding it.

Containers may share their parts. A value is read exactly if nothing is part of itself in it, all of it is data,
and what it unfolds to keeps to the limits; what is read is then what it unfolds to.
-/

namespace ScriptHost

namespace Conversion

open Link Snapshot

variable {l : Link} {p : Ptr} {maxDepth maxBytes : Nat}

/-- Copying is reading the value at `p`, as far as the limits go. -/
structure Unfolded (l : Link) (p : Ptr) (maxDepth maxBytes : Nat) : Prop where
  exact : ∀ v, (∃ l', answered (fromEngine maxDepth maxBytes p) l = (.ok v, l')) ↔
    v.Unfolds l.engine.heap.graph p ∧ (reading v).depth ≤ maxDepth ∧ (reading v).bytes ≤ maxBytes
  -- Values that are shared are no obstacle.
  readable : (∃ v : Snapshot, v.Unfolds l.engine.heap.graph p) ↔ ∀ q, l.engine.heap.graph.Reaches p q ->
    (∃ k, l.engine.heap.kind q = some k ∧ k ≠ .function ∧ k ≠ .promise) ∧ ¬l.engine.heap.graph.Above q q

theorem fromEngine_ok_iff (ready : l.Ready) (readable : ∀ q, l.engine.heap.graph.Reaches p q -> l.engine.heap.Readable q)
    (room : ∀ v : Snapshot, v.Unfolds l.engine.heap.graph p -> l.Roomy (reading v).space (reading v).space) (v : Snapshot) :
    (∃ l', answered (fromEngine maxDepth maxBytes p) l = (.ok v, l')) ↔
      v.Unfolds l.engine.heap.graph p ∧ (reading v).depth ≤ maxDepth ∧ (reading v).bytes ≤ maxBytes := by
  have copies := @copies_value (maxDepth + 1) [] (.ofLimits maxDepth maxBytes) p l ready readable (by simp)
    ⟨Nat.zero_le _, Nat.zero_le _⟩ (Nat.lt_succ_self maxDepth)
  simp only [fromEngine, answered_bind]
  generalize answered (Conversion.read (maxDepth + 1) [] (.ofLimits maxDepth maxBytes) p) l = r at *
  cases copies with
  | @ok w l' right affords same next =>
    have depth : 0 + (reading w).depth ≤ maxDepth := affords.depth
    have bytes : 0 + (reading w).bytes ≤ maxBytes := affords.bytes
    rw [Nat.zero_add] at depth bytes
    constructor
    next =>
      rintro ⟨_, done⟩
      obtain rfl : w = v := Except.ok.inj (Prod.mk.inj done).1
      exact ⟨right, depth, bytes⟩
    next =>
      rintro ⟨unfolds, -⟩
      obtain rfl := right.unique (Heap.graph_flat _) unfolds
      exact ⟨l', rfl⟩
  | @error e l' unfit =>
    constructor
    next =>
      rintro ⟨_, done⟩
      cases (Prod.mk.inj done).1
    next =>
      rintro ⟨unfolds, depth, bytes⟩
      refine absurd ⟨?_, ?_, room v unfolds⟩ (unfit v unfolds)
      · exact (Nat.zero_add _).trans_le depth
      · exact (Nat.zero_add _).trans_le bytes

theorem tree_iff (ready : l.Ready) : l.engine.heap.graph.Tree p ↔ ∀ q, l.engine.heap.graph.Reaches p q ->
    (∃ k, l.engine.heap.kind q = some k ∧ k ≠ .function ∧ k ≠ .promise) ∧ ¬l.engine.heap.graph.Above q q := by
  refine forall₂_congr fun q _ => and_congr_left fun _ => ?_
  rw [ne_eq, Heap.graph_eq_none_iff ready.counted]
  cases l.engine.heap.kind q <;> simp

/-- The array at 18 has the same object twice; the one at 19 has that array and itself. -/
def shared : Link :=
  Link.empty.withEngine { Engine.empty with heap := { Heap.empty with
    cells := Table.ofList [
      (16, ⟨1, .string "x"⟩),
      (17, ⟨2, .object .plain (Table.ofList [("a", 16)])⟩),
      (18, ⟨2, .array #[17, 17]⟩),
      (19, ⟨2, .array #[18, 19]⟩)]
    next := 20 } }

def pair : Snapshot :=
  .list [.record [("a", .text "x")], .record [("a", .text "x")]]

theorem shared_cells {q : Ptr} {c : Cell} (found : shared.engine.heap.cells.get? q = some c) :
    q = 16 ∧ c = ⟨1, .string "x"⟩ ∨ q = 17 ∧ c = ⟨2, .object .plain (Table.ofList [("a", 16)])⟩ ∨
      q = 18 ∧ c = ⟨2, .array #[17, 17]⟩ ∨ q = 19 ∧ c = ⟨2, .array #[18, 19]⟩ := by
  have member : (q, c) ∈ shared.engine.heap.cells.entries := Table.mem_of_find found
  have entries : shared.engine.heap.cells.entries = [(16, ⟨1, .string "x"⟩),
      (17, ⟨2, .object .plain (Table.ofList [("a", 16)])⟩), (18, ⟨2, .array #[17, 17]⟩), (19, ⟨2, .array #[18, 19]⟩)] := rfl
  simpa [entries] using member

theorem shared_readable (q : Ptr) : shared.engine.heap.Readable q := by
  have known (r : Ptr) (there : shared.engine.heap.contains r = true) : shared.engine.heap.Known r :=
    Heap.known_of_contains there
  unfold Heap.Readable
  cases found : shared.engine.heap.get? q with
  | none => trivial
  | some v =>
    obtain ⟨c, there, rfl⟩ := Heap.get?_eq_some.1 found
    obtain ⟨-, rfl⟩ | ⟨-, rfl⟩ | ⟨-, rfl⟩ | ⟨-, rfl⟩ := shared_cells there
    next => decide
    next =>
      refine ⟨fun e member => ?_, by decide⟩
      obtain rfl : e = ("a", 16) := List.mem_singleton.1 member
      exact ⟨by decide, known 16 rfl⟩
    next => exact ⟨by simp [known 17 rfl], by decide⟩
    next => exact ⟨by simp [known 18 rfl, known 19 rfl], by decide⟩

theorem shared_unfolds : pair.Unfolds shared.engine.heap.graph 18 := by
  have text : shared.engine.heap.graph 16 = some (.leaf (.text "x")) := rfl
  have object : shared.engine.heap.graph 17 = some (.record [("a", 16)]) := rfl
  have item : UnfoldsFields shared.engine.heap.graph [("a", .text "x")] [("a", 16)] := ⟨16, [], rfl, text, rfl⟩
  exact ⟨[17, 17], rfl, 17, [17], rfl, ⟨_, object, item⟩, 17, [], rfl, ⟨_, object, item⟩, rfl⟩

end Conversion

end ScriptHost
