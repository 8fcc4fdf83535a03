import ScriptHost.Proofs.Conversion.Graphs
import ScriptHost.Proofs.Link.Looking

set_option autoImplicit false

/-!
The graph of the values that the engine keeps.

It stays the same while references are only counted, so a copy may borrow the parts of a value.
-/

namespace ScriptHost

namespace Heap

open Text

variable {h h' : Heap} {p q : Ptr} {v : Value} {s : Shape} {k : ValueKind}

/-- The message that an error has been given. -/
def messageOf (props : Table String Ptr) : Ptr :=
  (props.get? messageKey).getD Ptr.undefined

def shapeOf (h : Heap) : Value -> Option Shape
  | .number x => some (.leaf (.ofNumber x))
  | .string s => some (.leaf (.text s))
  | .bytes b => some (.leaf (.bytes b))
  | .object .error props => some (.leaf (.error (h.display (messageOf props))))
  | .object .plain props => some (.record props.entries)
  | .array items => some (.list items.toList)
  | .function _ _ => none
  | .promise _ => none

def constantShape (p : Ptr) : Option Shape :=
  if p = Ptr.undefined then some (.leaf .undefined)
  else if p = Ptr.null then some (.leaf .null)
  else if p = Ptr.no then some (.leaf (.bool false))
  else if p = Ptr.yes then some (.leaf (.bool true))
  else none

def graph (h : Heap) : Graph :=
  fun p => (constantShape p).or ((h.get? p).bind h.shapeOf)

theorem constantShape_of_big (big : Ptr.firstCounted ≤ p) : constantShape p = none := by
  have other (q : Ptr) (small : q < Ptr.firstCounted) : p ≠ q := by
    rintro rfl
    exact absurd big (UInt32.not_le.2 small)
  simp only [constantShape, other Ptr.undefined (by decide), other Ptr.null (by decide), other Ptr.no (by decide),
    other Ptr.yes (by decide), if_false]

theorem graph_of_found (counted : Counted h.cells) (found : h.get? p = some v) : h.graph p = h.shapeOf v := by
  obtain ⟨c, there, -⟩ := get?_eq_some.1 found
  rw [graph, constantShape_of_big (counted p c there).1, found]
  rfl

theorem graph_of_kind (counted : Counted h.cells) (known : h.kind p = some k) (kept : k ∉ [ValueKind.undefined, .null, .boolean]) :
    ∃ v, h.get? p = some v ∧ v.kind = k ∧ h.graph p = h.shapeOf v := by
  obtain ⟨v, found, kind⟩ := held_of_kind known kept
  exact ⟨v, found, kind, graph_of_found counted found⟩

/-- The kinds of constants are the kinds of nothing else. -/
theorem constant_of_kind (known : h.kind p = some k) (constant : k ∈ [ValueKind.undefined, .null, .boolean]) :
    k = .undefined ∧ p = Ptr.undefined ∨ k = .null ∧ p = Ptr.null ∨ k = .boolean ∧ ∃ x, p = Ptr.ofBool x := by
  have kept (v : Value) : v.kind ∉ [ValueKind.undefined, .null, .boolean] := by
    cases v with
    | object cls => cases cls <;> simp [Value.kind]
    | _ => simp [Value.kind]
  unfold kind at known
  split at known
  next here => exact .inl ⟨(Option.some.inj known).symm, here⟩
  next =>
    split at known
    next here => exact .inr (.inl ⟨(Option.some.inj known).symm, here⟩)
    next =>
      split at known
      next here =>
        refine .inr (.inr ⟨(Option.some.inj known).symm, ?_⟩)
        simp only [Bool.or_eq_true, decide_eq_true_eq] at here
        rcases here with here | here
        next => exact ⟨false, here⟩
        next => exact ⟨true, here⟩
      next =>
        obtain ⟨v, -, rfl⟩ := Option.map_eq_some_iff.1 known
        exact absurd constant (kept v)

/-- What cannot be copied: functions, promises and what is not there. -/
theorem graph_eq_none_iff (counted : Counted h.cells) :
    h.graph p = none ↔ h.kind p = none ∨ h.kind p = some .function ∨ h.kind p = some .promise := by
  cases found : h.get? p with
  | some v =>
    obtain ⟨c, there, -⟩ := get?_eq_some.1 found
    rw [graph_of_found counted found, kind_of_big (counted p c there).1, found]
    cases v with
    | object cls props => cases cls <;> simp [shapeOf, Value.kind]
    | _ => simp [shapeOf, Value.kind]
  | none =>
    simp only [graph, found, Option.bind_none, Option.or_none, constantShape, kind, Option.map_none]
    grind

theorem shapeOf_flat {w : Snapshot} (leaf : h.shapeOf v = some (.leaf w)) : w.IsLeaf := by
  unfold shapeOf at leaf
  split at leaf <;> cases leaf
  case h_1 x =>
    unfold Snapshot.ofNumber
    split <;> trivial
  all_goals trivial

theorem graph_flat (h : Heap) : h.graph.Flat := by
  intro p w leaf
  rcases Option.or_eq_some_iff.1 leaf with constant | ⟨-, kept⟩
  next =>
    unfold constantShape at constant
    grind [Snapshot.IsLeaf]
  next =>
    obtain ⟨v, -, shape⟩ := Option.bind_eq_some_iff.1 kept
    exact shapeOf_flat shape

theorem graph_finite (h : Heap) : h.graph.Finite := by
  refine ⟨h.cells.keys, fun p q part => ?_⟩
  obtain ⟨s, shape, member⟩ := part
  by_contra unlisted
  have absent : h.get? p = none := by simp [get?, (Table.get?_eq_none_iff h.cells p).2 unlisted]
  simp only [graph, absent, Option.bind_none, Option.or_none, constantShape] at shape
  grind [Shape.parts]

/-- What a copy needs of a value: its texts are written without NULs, its parts do not dangle, and there is one
more pointer for each of its keys. -/
def Readable (h : Heap) (p : Ptr) : Prop :=
  match h.get? p with
  | some (.string s) => NulFree s
  | some (.object .error props) => h.contains (messageOf props) = true ∧ NulFree (h.display (messageOf props))
  | some (.object .plain props) =>
      (∀ e ∈ props.entries, NulFree e.1 ∧ h.Known e.2) ∧
        h.cells.size + props.entries.length + 16 ≤ UInt32.size
  | some (.array items) => (∀ q ∈ items, h.Known q) ∧ items.size < UInt32.size
  | _ => True

/-- The same values, however often they are referred to. -/
structure Alike (h h' : Heap) : Prop where
  get? : h'.get? = h.get?
  size : h'.cells.size = h.cells.size

namespace Alike

theorem refl (h : Heap) : Alike h h :=
  ⟨rfl, rfl⟩

theorem trans {h'' : Heap} (first : Alike h h') (second : Alike h' h'') : Alike h h'' :=
  ⟨second.get?.trans first.get?, second.size.trans first.size⟩

theorem display (alike : Alike h h') : h'.display = h.display := by
  funext p
  rw [Heap.display, Heap.display, alike.size]
  exact displayTo_congr h h' (fun p => congrFun alike.get? p) _ p

theorem graph (alike : Alike h h') : h'.graph = h.graph := by
  have shapes : h'.shapeOf = h.shapeOf := by
    funext v
    unfold shapeOf
    rw [alike.display]
  funext p
  rw [Heap.graph, Heap.graph, alike.get?, shapes]

theorem contains (alike : Alike h h') : h'.contains = h.contains := by
  have known (h : Heap) (p : Ptr) : h.contains p = (p.isStatic || (h.get? p).isSome) := by
    simp [Heap.contains, Table.contains, Heap.get?]
  funext p
  rw [known, known, alike.get?]

theorem known (alike : Alike h h') : h'.Known p ↔ h.Known p := by
  have found (h : Heap) : (∃ c, h.cells.get? p = some c) ↔ (h.get? p).isSome := by
    simp [Heap.get?, Option.isSome_iff_exists]
  simp only [Known, found, alike.get?]

theorem readable (alike : Alike h h') : h'.Readable p ↔ h.Readable p := by
  simp only [Readable, alike.get?, alike.contains, alike.known, alike.display, alike.size]

end Alike

end Heap

namespace Link

variable {l l' : Link} {v : Ptr}

theorem Same.alike (same : Same l l') : Heap.Alike l.engine.heap l'.engine.heap :=
  ⟨funext same.get?, congrArg Table.size same.2⟩

/-- A part that is borrowed is counted once more. -/
theorem Lent.alike (lent : Lent l v l') (known : l.engine.heap.Known v) :
    Heap.Alike l.engine.heap l'.engine.heap := by
  have cells := lent.counts known
  refine ⟨funext fun q => ?_, (congrArg Table.size cells).trans (Table.size_modify ..)⟩
  have found : l'.engine.heap.cells.get? q = _ := congrArg (Table.get? · q) cells
  simp only [Heap.get?, found, Table.get?_modify]
  split
  next => rw [Option.map_map]; rfl
  next => rfl

end Link

end ScriptHost
