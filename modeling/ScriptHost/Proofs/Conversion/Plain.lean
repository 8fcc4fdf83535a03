import ScriptHost.Proofs.Conversion.Shown

set_option autoImplicit false

/-!
Snapshots that the engine can keep as they are, numbers apart.
-/

namespace ScriptHost

namespace Table

variable {α : Type}

theorem put_new {key : String} {a : α} {es : List (String × α)} (absent : key ∉ es.map Prod.fst) :
    put key a es = es ++ [(key, a)] := by
  induction es with
  | nil => rfl
  | cons e rest ih =>
    simp only [List.map_cons, List.mem_cons, not_or] at absent
    simp only [put, Ne.symm absent.1, if_false, ih absent.2, List.cons_append]

theorem entries_ofList {es : List (String × α)} (nodup : (es.map Prod.fst).Nodup) : (Table.ofList es).entries = es := by
  have onto (t : Table String α) (apart : (t.entries ++ es).map Prod.fst |>.Nodup) :
      (es.foldl (fun t e => t.set e.1 e.2) t).entries = t.entries ++ es := by
    clear nodup
    induction es generalizing t with
    | nil => simp
    | cons e rest ih =>
      have absent : e.1 ∉ t.entries.map Prod.fst := by
        simp only [List.map_append, List.map_cons] at apart
        exact fun member => (List.nodup_append.1 apart).2.2 _ member _ List.mem_cons_self rfl
      have set : (t.set e.1 e.2).entries = t.entries ++ [e] := put_new absent
      rw [List.foldl_cons, ih _ (by rwa [set, List.append_assoc]), set, List.append_assoc]
      rfl
  simpa [ofList, empty] using onto empty (by simpa [empty] using nodup)

end Table

namespace Snapshot

open Text

mutual

/-- No text, key or message has a NUL, and every field is there once. -/
def Plain : Snapshot -> Prop
  | .text s => NulFree s
  | .error message => NulFree message
  | .list items => PlainItems items
  | .record fields => (fields.map Prod.fst).Nodup ∧ PlainFields fields
  | _ => True

def PlainItems : List Snapshot -> Prop
  | [] => True
  | item :: rest => Plain item ∧ PlainItems rest

def PlainFields : List (String × Snapshot) -> Prop
  | [] => True
  | (key, item) :: rest => NulFree key ∧ Plain item ∧ PlainFields rest

end

mutual

/-- With its numbers told apart again, as an engine that has one kind of them does. -/
def norm : Snapshot -> Snapshot
  | .int n => .ofNumber (.ofInt n.toInt)
  | .float x => .ofNumber x
  | .list items => .list (normItems items)
  | .record fields => .record (normFields fields)
  | v => v

def normItems : List Snapshot -> List Snapshot
  | [] => []
  | item :: rest => norm item :: normItems rest

def normFields : List (String × Snapshot) -> List (String × Snapshot)
  | [] => []
  | (key, item) :: rest => (key, norm item) :: normFields rest

end

theorem keys_normFields (fields : List (String × Snapshot)) :
    (normFields fields).map Prod.fst = fields.map Prod.fst := by
  induction fields with
  | nil => rfl
  | cons field rest ih =>
    obtain ⟨key, item⟩ := field
    simp only [normFields, List.map_cons, ih]

theorem ofFields_norm {fields : List (String × Snapshot)} (nodup : (fields.map Prod.fst).Nodup) :
    ofFields (normFields fields) = .record (normFields fields) := by
  rw [ofFields, Table.entries_ofList (by rwa [keys_normFields])]

theorem untilNul_keys {fields : List (String × Snapshot)} (plain : PlainFields fields) :
    (fields.map Prod.fst).map untilNul = fields.map Prod.fst := by
  induction fields with
  | nil => rfl
  | cons field rest ih =>
    obtain ⟨key, item⟩ := field
    simp only [PlainFields] at plain
    simp only [List.map_cons, untilNul_of_nulFree plain.1, ih plain.2.2]

mutual

theorem engraved_plain {v : Snapshot} (plain : v.Plain) : v.engraved = v := by
  cases v
  case text s =>
    simp only [Plain] at plain
    simp only [engraved, untilNul_of_nulFree plain]
  case error message =>
    simp only [Plain] at plain
    simp only [engraved, untilNul_of_nulFree plain]
  case list items =>
    simp only [Plain] at plain
    simp only [engraved, engravedItems_plain plain]
  case record fields =>
    simp only [Plain] at plain
    simp only [engraved, engravedFields_plain plain.2, ofFields, Table.entries_ofList plain.1]
  case undefined | null | bool | int | float | bytes => rfl

theorem engravedItems_plain {items : List Snapshot} (plain : PlainItems items) : engravedItems items = items := by
  cases items with
  | nil => rfl
  | cons item rest =>
    simp only [PlainItems] at plain
    simp only [engravedItems, engraved_plain plain.1, engravedItems_plain plain.2]

theorem engravedFields_plain {fields : List (String × Snapshot)} (plain : PlainFields fields) :
    engravedFields fields = fields := by
  cases fields with
  | nil => rfl
  | cons field rest =>
    obtain ⟨key, item⟩ := field
    simp only [PlainFields] at plain
    simp only [engravedFields, untilNul_of_nulFree plain.1, engraved_plain plain.2.1, engravedFields_plain plain.2.2]

end

end Snapshot

end ScriptHost
