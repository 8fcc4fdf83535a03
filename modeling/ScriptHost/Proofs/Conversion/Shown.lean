import ScriptHost.Proofs.Engine.Planting
import ScriptHost.Proofs.Text.Terminated
import ScriptHost.Snapshot

set_option autoImplicit false

/-!
Snapshots as values of the engine.

`Shows` says that the cells under a pointer are those of a snapshot, and lists them in the order in which
they are freed.
-/

namespace ScriptHost

namespace Snapshot

open Text Heap

def Holds (cells : Cells) (p : Ptr) (v : Value) : Prop :=
  ∃ c, cells.get? p = some c ∧ c.value = v

mutual

/-- What the engine makes of a snapshot: its texts and keys end at the first NUL. -/
def engraved : Snapshot -> Snapshot
  | .text s => .text (untilNul s)
  | .error message => .error (untilNul message)
  | .list items => .list (engravedItems items)
  | .record fields => .ofFields (engravedFields fields)
  | v => v

def engravedItems : List Snapshot -> List Snapshot
  | [] => []
  | item :: rest => engraved item :: engravedItems rest

def engravedFields : List (String × Snapshot) -> List (String × Snapshot)
  | [] => []
  | (key, item) :: rest => (untilNul key, engraved item) :: engravedFields rest

end

mutual

def Shows (cells : Cells) : Snapshot -> Ptr -> List Ptr -> Prop
  | .undefined, p, ks => p = Ptr.undefined ∧ ks = []
  | .null, p, ks => p = Ptr.null ∧ ks = []
  | .bool x, p, ks => p = Ptr.ofBool x ∧ ks = []
  | .int n, p, ks => ks = [p] ∧ Holds cells p (.number (.ofInt n.toInt))
  | .float x, p, ks => ks = [p] ∧ Holds cells p (.number x)
  | .text s, p, ks => ks = [p] ∧ Holds cells p (.string s)
  | .bytes x, p, ks => ks = [p] ∧ Holds cells p (.bytes x)
  | .error message, p, ks =>
      ∃ text, ks = [p, text] ∧ Holds cells p (errorValue text) ∧ Holds cells text (.string message)
  | .list items, p, ks =>
      ∃ (ps : Array Ptr) (js : List Ptr), ks = p :: js ∧ Holds cells p (.array ps) ∧ ShowsItems cells items ps.toList js
  | .record fields, p, ks =>
      ∃ (props : Table String Ptr) (js : List Ptr), ks = p :: js ∧ Holds cells p (.object .plain props) ∧
        ShowsFields cells fields props.entries js

def ShowsItems (cells : Cells) : List Snapshot -> List Ptr -> List Ptr -> Prop
  | [], ps, ks => ps = [] ∧ ks = []
  | item :: rest, ps, ks =>
      ∃ p qs js ls, ps = p :: qs ∧ ks = js ++ ls ∧ Shows cells item p js ∧ ShowsItems cells rest qs ls

def ShowsFields (cells : Cells) : List (String × Snapshot) -> List (String × Ptr) -> List Ptr -> Prop
  | [], es, ks => es = [] ∧ ks = []
  | (key, item) :: rest, es, ks =>
      ∃ p qs js ls, es = (key, p) :: qs ∧ ks = js ++ ls ∧ Shows cells item p js ∧ ShowsFields cells rest qs ls

end

variable {cells cells' : Cells} {k p q : Ptr} {ps ks js ls : List Ptr} {v w : Value} {item : Snapshot} {items : List Snapshot}
variable {fields : List (String × Snapshot)} {es : List (String × Ptr)} {key : String}

theorem Holds.same (first : Holds cells p v) (second : Holds cells p w) : v = w := by
  obtain ⟨c, found, rfl⟩ := first
  obtain ⟨d, found', rfl⟩ := second
  rw [Option.some.inj (found.symm.trans found')]

theorem Holds.planted (holds : Holds cells p v) (planted : Planted cells cells' ks) : Holds cells' p v := by
  obtain ⟨c, found, value⟩ := holds
  exact ⟨c, by rw [planted.get?_old (planted.apart found), found], value⟩

mutual

theorem Shows.congr {v : Snapshot} {p : Ptr} {ks : List Ptr} (shown : Shows cells v p ks)
    (same : ∀ k ∈ ks, ∀ v, Holds cells k v -> Holds cells' k v) : Shows cells' v p ks := by
  cases v
  case undefined | null | bool => exact shown
  case int | float | text | bytes =>
    simp only [Shows] at shown ⊢
    exact ⟨shown.1, same p (shown.1 ▸ List.mem_cons_self) _ shown.2⟩
  case error message =>
    simp only [Shows] at shown ⊢
    obtain ⟨text, rfl, here, there⟩ := shown
    exact ⟨text, rfl, same p (by simp) _ here, same text (by simp) _ there⟩
  case list items =>
    simp only [Shows] at shown ⊢
    obtain ⟨ps, js, rfl, here, rest⟩ := shown
    refine ⟨ps, js, rfl, same p List.mem_cons_self _ here, rest.congr fun k member => ?_⟩
    exact same k (List.mem_cons_of_mem p member)
  case record fields =>
    simp only [Shows] at shown ⊢
    obtain ⟨props, js, rfl, here, rest⟩ := shown
    refine ⟨props, js, rfl, same p List.mem_cons_self _ here, rest.congr fun k member => ?_⟩
    exact same k (List.mem_cons_of_mem p member)

theorem ShowsItems.congr {items : List Snapshot} {ps ks : List Ptr} (shown : ShowsItems cells items ps ks)
    (same : ∀ k ∈ ks, ∀ v, Holds cells k v -> Holds cells' k v) : ShowsItems cells' items ps ks := by
  cases items with
  | nil => exact shown
  | cons item rest =>
    simp only [ShowsItems] at shown ⊢
    obtain ⟨p, qs, js, ls, rfl, rfl, first, others⟩ := shown
    exact ⟨p, qs, js, ls, rfl, rfl, first.congr fun k member => same k (List.mem_append_left _ member),
      others.congr fun k member => same k (List.mem_append_right _ member)⟩

theorem ShowsFields.congr {fields : List (String × Snapshot)} {es : List (String × Ptr)} {ks : List Ptr}
    (shown : ShowsFields cells fields es ks) (same : ∀ k ∈ ks, ∀ v, Holds cells k v -> Holds cells' k v) :
    ShowsFields cells' fields es ks := by
  cases fields with
  | nil => exact shown
  | cons field rest =>
    obtain ⟨key, item⟩ := field
    simp only [ShowsFields] at shown ⊢
    obtain ⟨p, qs, js, ls, rfl, rfl, first, others⟩ := shown
    exact ⟨p, qs, js, ls, rfl, rfl, first.congr fun k member => same k (List.mem_append_left _ member),
      others.congr fun k member => same k (List.mem_append_right _ member)⟩

end

theorem Shows.root {v : Snapshot} (shown : Shows cells v p ks) :
    p.isStatic = true ∨ p ∈ ks ∧ ∃ w, Holds cells p w := by
  cases v
  case undefined | null =>
    obtain ⟨rfl, -⟩ := shown
    exact .inl rfl
  case bool x =>
    obtain ⟨rfl, -⟩ := shown
    exact .inl (by cases x <;> rfl)
  case int | float | text | bytes =>
    obtain ⟨rfl, here⟩ := shown
    exact .inr ⟨List.mem_cons_self, _, here⟩
  case error message =>
    obtain ⟨text, rfl, here, -⟩ := shown
    exact .inr ⟨List.mem_cons_self, _, here⟩
  case list items =>
    simp only [Shows] at shown
    obtain ⟨ps, js, rfl, here, -⟩ := shown
    exact .inr ⟨List.mem_cons_self, _, here⟩
  case record fields =>
    simp only [Shows] at shown
    obtain ⟨props, js, rfl, here, -⟩ := shown
    exact .inr ⟨List.mem_cons_self, _, here⟩

/-- What shows a snapshot is no promise. -/
theorem Shows.plain {h : Heap} (shown : Shows h.cells item p ks) (counted : Counted h.cells) : h.isPromise p = false := by
  have other {w : Value} (holds : Holds h.cells p w) (plain : ∀ r, w ≠ .promise r) : h.promise? p = none := by
    obtain ⟨c, found, rfl⟩ := holds
    simp only [promise?, Heap.get?, found, Option.map_some]
    split
    next r same => exact absurd (Option.some.inj same) (plain r)
    next => rfl
  have small (small : p < Ptr.firstCounted) : h.promise? p = none := by
    simp [promise?, Heap.get?, counted.absent small]
  rw [isPromise, Option.isSome_eq_false_iff, Option.isNone_iff_eq_none]
  cases item
  case undefined | null =>
    obtain ⟨rfl, -⟩ := shown
    exact small (by decide)
  case bool x =>
    obtain ⟨rfl, -⟩ := shown
    exact small (by cases x <;> decide)
  case int | float | text | bytes => exact other shown.2 (by simp)
  case error message =>
    obtain ⟨text, -, here, -⟩ := shown
    exact other here (by simp [errorValue])
  case list items =>
    simp only [Shows] at shown
    obtain ⟨ps, js, -, here, -⟩ := shown
    exact other here (by simp)
  case record fields =>
    simp only [Shows] at shown
    obtain ⟨props, js, -, here, -⟩ := shown
    exact other here (by simp)

/-- Each of these cells is referred to once. -/
def Sole (cells : Cells) (ks : List Ptr) : Prop :=
  ∀ k ∈ ks, ∃ c, cells.get? k = some c ∧ c.refs = 1

theorem Sole.cell (sole : Sole cells ks) (member : p ∈ ks) (holds : Holds cells p v) :
    ∃ c, cells.get? p = some c ∧ c.refs = 1 ∧ c.value = v := by
  obtain ⟨c, found, once⟩ := sole p member
  exact ⟨c, found, once, Holds.same ⟨c, found, rfl⟩ holds⟩

theorem Sole.leaf (sole : Sole cells ks) (member : p ∈ ks) (holds : Holds cells p v) (unheld : v.children = []) :
    Forest cells [p] [p] := by
  obtain ⟨c, found, once, rfl⟩ := sole.cell member holds
  exact .cell found once (by rw [unheld]; exact .nothing)

mutual

theorem Shows.forest {v : Snapshot} {p : Ptr} {ks : List Ptr} (shown : Shows cells v p ks) (sole : Sole cells ks) :
    Forest cells [p] ks := by
  cases v
  case undefined | null =>
    obtain ⟨rfl, rfl⟩ := shown
    exact .constant (by decide) .nothing
  case bool x =>
    obtain ⟨rfl, rfl⟩ := shown
    exact .constant (by cases x <;> decide) .nothing
  case int | float | text | bytes =>
    obtain ⟨rfl, here⟩ := shown
    exact sole.leaf List.mem_cons_self here rfl
  case error message =>
    obtain ⟨text, rfl, here, there⟩ := shown
    obtain ⟨c, found, once, value⟩ := sole.cell (by simp) here
    exact .cell found once (by rw [value]; exact sole.leaf (by simp) there rfl)
  case list items =>
    simp only [Shows] at shown
    obtain ⟨ps, js, rfl, here, rest⟩ := shown
    obtain ⟨c, found, once, value⟩ := sole.cell List.mem_cons_self here
    have below := rest.forest fun k member => sole k (List.mem_cons_of_mem p member)
    exact .cell found once (by rw [value, Value.children, List.append_nil]; exact below)
  case record fields =>
    simp only [Shows] at shown
    obtain ⟨props, js, rfl, here, rest⟩ := shown
    obtain ⟨c, found, once, value⟩ := sole.cell List.mem_cons_self here
    have below := rest.forest fun k member => sole k (List.mem_cons_of_mem p member)
    exact .cell found once (by rw [value, Value.children, List.append_nil]; exact below)

theorem ShowsItems.forest {items : List Snapshot} {ps ks : List Ptr} (shown : ShowsItems cells items ps ks)
    (sole : Sole cells ks) : Forest cells ps ks := by
  cases items with
  | nil =>
    obtain ⟨rfl, rfl⟩ := shown
    exact .nothing
  | cons item rest =>
    simp only [ShowsItems] at shown
    obtain ⟨p, qs, js, ls, rfl, rfl, first, others⟩ := shown
    have here := first.forest fun k member => sole k (List.mem_append_left _ member)
    exact here.append (others.forest fun k member => sole k (List.mem_append_right _ member))

theorem ShowsFields.forest {fields : List (String × Snapshot)} {es : List (String × Ptr)} {ks : List Ptr}
    (shown : ShowsFields cells fields es ks) (sole : Sole cells ks) : Forest cells (es.map Prod.snd) ks := by
  cases fields with
  | nil =>
    obtain ⟨rfl, rfl⟩ := shown
    exact .nothing
  | cons field rest =>
    obtain ⟨key, item⟩ := field
    simp only [ShowsFields] at shown
    obtain ⟨p, qs, js, ls, rfl, rfl, first, others⟩ := shown
    have here := first.forest fun k member => sole k (List.mem_append_left _ member)
    exact here.append (others.forest fun k member => sole k (List.mem_append_right _ member))

end

theorem ShowsItems.length (shown : ShowsItems cells items ps ks) : ps.length = items.length := by
  induction items generalizing ps ks with
  | nil =>
    obtain ⟨rfl, -⟩ := shown
    rfl
  | cons item rest ih =>
    obtain ⟨p, qs, js, ls, rfl, -, -, others⟩ := shown
    exact congrArg (· + 1) (ih others)

theorem ShowsFields.keys (shown : ShowsFields cells fields es ks) : es.map Prod.fst = fields.map Prod.fst := by
  induction fields generalizing es ks with
  | nil =>
    obtain ⟨rfl, -⟩ := shown
    rfl
  | cons field rest ih =>
    obtain ⟨key, item⟩ := field
    obtain ⟨p, qs, js, ls, rfl, -, -, others⟩ := shown
    exact congrArg (key :: ·) (ih others)

theorem ShowsItems.concat (shown : ShowsItems cells items ps ks) (last : Shows cells item p js) :
    ShowsItems cells (items ++ [item]) (ps ++ [p]) (ks ++ js) := by
  induction items generalizing ps ks with
  | nil =>
    obtain ⟨rfl, rfl⟩ := shown
    exact ⟨p, [], js, [], rfl, (List.append_nil js).symm, last, rfl, rfl⟩
  | cons other rest ih =>
    obtain ⟨q, qs, ls, ms, rfl, rfl, first, others⟩ := shown
    exact ⟨q, qs ++ [p], ls, ms ++ js, rfl, List.append_assoc _ _ _, first, ih others⟩

/-- A field that is set again takes the place of the one before, and so do its cells. -/
theorem ShowsFields.put (shown : ShowsFields cells fields es ks) (new : Shows cells item p js) (key : String) :
    ∃ before old after olds, ks = before ++ old ++ after ∧ ShowsItems cells olds (Table.find key es).toList old ∧
      ShowsFields cells (Table.put key item fields) (Table.put key p es) (before ++ js ++ after) := by
  induction fields generalizing es ks with
  | nil =>
    obtain ⟨rfl, rfl⟩ := shown
    exact ⟨[], [], [], [], rfl, ⟨rfl, rfl⟩, p, [], js, [], rfl, rfl, new, rfl, rfl⟩
  | cons field rest ih =>
    obtain ⟨key', other⟩ := field
    obtain ⟨q, qs, ls, ms, rfl, rfl, first, others⟩ := shown
    by_cases same : key' = key
    next =>
      subst same
      have found : Table.find key' ((key', q) :: qs) = some q := by simp [Table.find]
      refine ⟨[], ls, ms, [other], rfl, ?_, ?_⟩
      · rw [found]
        exact ⟨q, [], ls, [], rfl, (List.append_nil ls).symm, first, rfl, rfl⟩
      · simp only [Table.put, if_true]
        exact ⟨p, qs, js, ms, rfl, rfl, new, others⟩
    next =>
      obtain ⟨before, old, after, olds, rfl, gone, put⟩ := ih others
      have found : Table.find key ((key', q) :: qs) = Table.find key qs := by simp [Table.find, same]
      refine ⟨ls ++ before, old, after, olds, by simp only [List.append_assoc], found ▸ gone, ?_⟩
      simp only [Table.put, same, if_false]
      exact ⟨q, _, ls, before ++ js ++ after, rfl, by simp only [List.append_assoc], first, put⟩

end Snapshot

end ScriptHost
