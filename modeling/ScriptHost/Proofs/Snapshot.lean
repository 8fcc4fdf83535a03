import ScriptHost.Proofs.Conversion.Plain
import ScriptHost.Proofs.Json.Numbers
import ScriptHost.Snapshot

set_option autoImplicit false

/-!
What becomes of a snapshot that is written as structured text and read back.

Kinds that the text does not tell apart come back as what they are written as; all else comes back as it was,
integers and doubles apart, and fields in their order.
-/

namespace ScriptHost

namespace Snapshot

def byteValue (b : UInt8) : Snapshot :=
  int (Int64.ofInt b.toNat)

mutual

/-- What the structured text of a snapshot says. -/
def written : Snapshot -> Snapshot
  | undefined | null => null
  | bool b => bool b
  | int i => int i
  | float x => if x.isFinite then float x else null
  | text s => text s
  | bytes b => list (b.data.toList.map byteValue)
  | list items => list (writtenItems items)
  | record fields => record (writtenFields fields)
  | error message => record [("error", text message)]

def writtenItems : List Snapshot -> List Snapshot
  | [] => []
  | item :: rest => written item :: writtenItems rest

def writtenFields : List (String × Snapshot) -> List (String × Snapshot)
  | [] => []
  | (key, item) :: rest => (key, written item) :: writtenFields rest

end

mutual

/-- How deep the brackets of a snapshot's text are nested. -/
def nesting : Snapshot -> Nat
  | bytes _ | error _ => 1
  | list items => nestingItems items + 1
  | record fields => nestingFields fields + 1
  | _ => 0

def nestingItems : List Snapshot -> Nat
  | [] => 0
  | item :: rest => max (nesting item) (nestingItems rest)

def nestingFields : List (String × Snapshot) -> Nat
  | [] => 0
  | (_, item) :: rest => max (nesting item) (nestingFields rest)

end

mutual

/-- Every field is there once, at every depth. -/
def Keyed : Snapshot -> Prop
  | list items => KeyedItems items
  | record fields => (fields.map Prod.fst).Nodup ∧ KeyedFields fields
  | _ => True

def KeyedItems : List Snapshot -> Prop
  | [] => True
  | item :: rest => Keyed item ∧ KeyedItems rest

def KeyedFields : List (String × Snapshot) -> Prop
  | [] => True
  | (_, item) :: rest => Keyed item ∧ KeyedFields rest

end

/-- A text denotes a tree that stands for a snapshot. -/
structure Told (text : List Char) (json : Json) (v : Snapshot) : Prop where
  reads : Json.Reads text json
  depth : json.depth = v.nesting
  value : ofJson json = some v.written

variable {v : Snapshot}

theorem ofNumeral_integer (i : Int64) : ofNumeral ⟨decide (i.toInt < 0), i.toInt.natAbs, 0, true⟩ = some (int i) := by
  have low := i.le_toInt
  have high := i.toInt_lt
  have least : Binary64.int64Min = -2 ^ 63 := rfl
  have greatest : Binary64.int64Max = 2 ^ 63 - 1 := rfl
  unfold ofNumeral
  by_cases below : i.toInt < 0
  · have value : -(i.toInt.natAbs : Int) = i.toInt := by omega
    have some : i.toInt.natAbs ≠ 0 := by omega
    simp only [below, decide_true, if_true, value]
    have fits : (i.toInt.natAbs != 0 && decide (Binary64.int64Min ≤ i.toInt)) = true := by
      rw [Bool.and_eq_true, decide_eq_true_eq, least]
      exact ⟨by simpa using some, low⟩
    rw [if_pos fits, Int64.ofInt_toInt]
  · have value : (i.toInt.natAbs : Int) = i.toInt := by omega
    simp only [below, decide_false, Bool.false_eq_true, if_true, if_false, value]
    rw [if_pos (by omega), Int64.ofInt_toInt]

theorem ofNumeral_natural {n : Nat} (small : n < 2 ^ 63) : ofNumeral ⟨false, n, 0, true⟩ = some (int (Int64.ofInt n)) := by
  have fits : (n : Int) ≤ Binary64.int64Max := by
    have greatest : Binary64.int64Max = 2 ^ 63 - 1 := rfl
    omega
  exact if_pos fits

theorem ofNumeral_float {n : Numeral} {x : Binary64} (finite : x.isFinite = true) (fractional : n.integral = false)
    (value : n.toBinary64 = x) : ofNumeral n = some (float x) := by
  simp [ofNumeral, fractional, value, finite]

theorem told_float (x : Binary64) : ∃ json, Told (NumberLayout.structured.render x).toList json (float x) := by
  by_cases finite : x.isFinite = true
  · obtain ⟨n, reads, fractional, value⟩ := Json.reads_finite finite
    exact ⟨_, reads, rfl, by rw [written, if_pos finite, ofJson, ofNumeral_float finite fractional value]⟩
  · have text : NumberLayout.structured.render x = "null" := by
      have last : x.exponentField = 2047 := by simpa [Binary64.isFinite] using finite
      by_cases fraction : x.fractionField = 0
      · simp [NumberLayout.render, NumberLayout.structured, Binary64.isNaN, Binary64.isInfinite, last, fraction]
      · simp [NumberLayout.render, NumberLayout.structured, Binary64.isNaN, last, fraction]
    exact ⟨_, text ▸ Json.reads_null, rfl, by rw [written, if_neg finite, ofJson]⟩

/-- A byte buffer is told as a list of integers. -/
theorem told_bytes (b : ByteArray) :
    Told (toJson (bytes b)).toList (.array (b.data.toList.map fun x => .number ⟨false, x.toNat, 0, true⟩)) (bytes b) where
  reads := by
    refine Json.reads_array ?_
    rw [List.forall₂_map_left_iff, List.forall₂_map_right_iff, List.forall₂_same]
    exact fun x _ => Json.reads_natural x.toNat
  depth := by
    have flat (xs : List UInt8) : Json.depthOfItems (xs.map fun x => .number ⟨false, x.toNat, 0, true⟩) = 0 := by
      induction xs with
      | nil => rfl
      | cons x rest ih => simp [Json.depthOfItems, Json.depth, ih]
    rw [Json.depth, flat, nesting]
  value := by
    have items (xs : List UInt8) :
        ofJsonItems (xs.map fun x => .number ⟨false, x.toNat, 0, true⟩) = some (xs.map byteValue) := by
      induction xs with
      | nil => rfl
      | cons x rest ih =>
        have small : x.toNat < 2 ^ 63 := Nat.lt_trans x.toNat_lt (by decide)
        simp [ofJsonItems, ofJson, ofNumeral_natural small, ih, byteValue]
    rw [ofJson, items, written, Option.map_some]

theorem told_error (message : String) :
    Told (toJson (error message)).toList (.object [(some "error", .text (some message))]) (error message) where
  reads := Json.reads_object (.cons ⟨rfl, Json.reads_text message⟩ .nil)
  depth := rfl
  value := by simp [ofJson, ofJsonMembers, ofFields, Table.entries_ofList, written]

structure ToldItems (texts : List String) (jsons : List Json) (items : List Snapshot) : Prop where
  reads : List.Forall₂ (fun s v => Json.Reads s.toList v) texts jsons
  depth : Json.depthOfItems jsons = nestingItems items
  value : ofJsonItems jsons = some (writtenItems items)

structure ToldFields (members : List (String × String)) (pairs : List (Option String × Json))
    (fields : List (String × Snapshot)) : Prop where
  reads : List.Forall₂ Json.ReadsMember members pairs
  depth : Json.depthOfMembers pairs = nestingFields fields
  value : ofJsonMembers pairs = some (writtenFields fields)

theorem keys_writtenFields (fields : List (String × Snapshot)) : (writtenFields fields).map Prod.fst = fields.map Prod.fst := by
  induction fields with
  | nil => rfl
  | cons field rest ih => simp [writtenFields, ih]

mutual

/-- Whatever a snapshot is written as is read as a tree of the same depth, and that as what was written. -/
theorem told : (v : Snapshot) -> v.Keyed -> ∃ json, Told v.toJson.toList json v
  | undefined, _ | null, _ => ⟨_, Json.reads_null, rfl, rfl⟩
  | bool b, _ => ⟨_, Json.reads_bool b, rfl, rfl⟩
  | int i, _ => ⟨_, Json.reads_integer i.toInt, rfl, ofNumeral_integer i⟩
  | float x, _ => told_float x
  | text s, _ => ⟨_, Json.reads_text s, rfl, rfl⟩
  | bytes b, _ => ⟨_, told_bytes b⟩
  | list items, keyed => by
    obtain ⟨jsons, items⟩ := toldItems items keyed
    exact ⟨.array jsons, Json.reads_array items.reads, by rw [Json.depth, items.depth, nesting],
      by rw [ofJson, items.value, written, Option.map_some]⟩
  | record fields, keyed => by
    obtain ⟨pairs, members⟩ := toldFields fields keyed.2
    have nodup : ((writtenFields fields).map Prod.fst).Nodup := keys_writtenFields fields ▸ keyed.1
    exact ⟨.object pairs, Json.reads_object members.reads, by rw [Json.depth, members.depth, nesting],
      by rw [ofJson, members.value, written, Option.map_some, ofFields, Table.entries_ofList nodup]⟩
  | error message, _ => ⟨_, told_error message⟩

theorem toldItems : (items : List Snapshot) -> KeyedItems items -> ∃ jsons, ToldItems (itemsToJson items) jsons items
  | [], _ => ⟨[], .nil, rfl, rfl⟩
  | item :: rest, keyed => by
    obtain ⟨json, first⟩ := told item keyed.1
    obtain ⟨jsons, others⟩ := toldItems rest keyed.2
    exact ⟨json :: jsons, .cons first.reads others.reads, by rw [Json.depthOfItems, first.depth, others.depth, nestingItems],
      by simp [ofJsonItems, first.value, others.value, writtenItems]⟩

theorem toldFields : (fields : List (String × Snapshot)) -> KeyedFields fields ->
    ∃ pairs, ToldFields (fieldsToJson fields) pairs fields
  | [], _ => ⟨[], .nil, rfl, rfl⟩
  | (key, item) :: rest, keyed => by
    obtain ⟨json, first⟩ := told item keyed.1
    obtain ⟨pairs, others⟩ := toldFields rest keyed.2
    exact ⟨(some key, json) :: pairs, .cons ⟨rfl, first.reads⟩ others.reads,
      by rw [Json.depthOfMembers, first.depth, others.depth, nestingFields],
      by simp [ofJsonMembers, first.value, others.value, writtenFields]⟩

end

theorem readJson_toJson (keyed : v.Keyed) : readJson v.toJson = if v.nesting ≤ maxTextDepth then some v.written else none := by
  obtain ⟨json, told⟩ := told v keyed
  simp only [readJson, Json.read_of_reads told.reads, Option.bind_eq_bind, Option.bind_some, told.depth, told.value]

theorem written_byteValues (xs : List UInt8) : writtenItems (xs.map byteValue) = xs.map byteValue := by
  induction xs with
  | nil => rfl
  | cons x rest ih => rw [List.map_cons, writtenItems, ih, byteValue, written]

theorem nesting_byteValues (xs : List UInt8) : nestingItems (xs.map byteValue) = 0 := by
  induction xs with
  | nil => rfl
  | cons x rest ih => simp [nestingItems, ih, byteValue, nesting]

theorem keyed_byteValues (xs : List UInt8) : KeyedItems (xs.map byteValue) := by
  induction xs with
  | nil => trivial
  | cons x rest ih => exact ⟨trivial, ih⟩

mutual

theorem written_written : (v : Snapshot) -> v.written.written = v.written
  | undefined | null | bool _ | int _ | text _ | error _ => rfl
  | float x => by
    by_cases finite : x.isFinite = true
    · simp [written, finite]
    · simp [written, finite]
  | bytes b => by rw [written, written, written_byteValues]
  | list items => by rw [written, written, written_writtenItems items]
  | record fields => by rw [written, written, written_writtenFields fields]

theorem written_writtenItems : (items : List Snapshot) -> writtenItems (writtenItems items) = writtenItems items
  | [] => rfl
  | item :: rest => by rw [writtenItems, writtenItems, written_written item, written_writtenItems rest]

theorem written_writtenFields : (fields : List (String × Snapshot)) -> writtenFields (writtenFields fields) = writtenFields fields
  | [] => rfl
  | (key, item) :: rest => by rw [writtenFields, writtenFields, written_written item, written_writtenFields rest]

end

mutual

theorem nesting_written : (v : Snapshot) -> v.written.nesting = v.nesting
  | undefined | null | bool _ | int _ | text _ | error _ => rfl
  | float x => by
    by_cases finite : x.isFinite = true
    · simp [written, finite]
    · simp [written, finite, nesting]
  | bytes b => by simp [written, nesting, nesting_byteValues]
  | list items => by rw [written, nesting, nesting_writtenItems items, nesting]
  | record fields => by rw [written, nesting, nesting_writtenFields fields, nesting]

theorem nesting_writtenItems : (items : List Snapshot) -> nestingItems (writtenItems items) = nestingItems items
  | [] => rfl
  | item :: rest => by rw [writtenItems, nestingItems, nesting_written item, nesting_writtenItems rest, nestingItems]

theorem nesting_writtenFields : (fields : List (String × Snapshot)) -> nestingFields (writtenFields fields) = nestingFields fields
  | [] => rfl
  | (key, item) :: rest => by rw [writtenFields, nestingFields, nesting_written item, nesting_writtenFields rest, nestingFields]

end

mutual

theorem Keyed.written : (v : Snapshot) -> v.Keyed -> v.written.Keyed
  | undefined, _ | null, _ | bool _, _ | int _, _ | text _, _ => trivial
  | error _, _ => ⟨List.nodup_singleton _, trivial, trivial⟩
  | float x, _ => by
    rw [Snapshot.written]
    split <;> trivial
  | bytes b, _ => keyed_byteValues b.data.toList
  | list items, keyed => KeyedItems.written items keyed
  | record fields, keyed => ⟨keys_writtenFields fields ▸ keyed.1, KeyedFields.written fields keyed.2⟩

theorem KeyedItems.written : (items : List Snapshot) -> KeyedItems items -> KeyedItems (writtenItems items)
  | [], _ => trivial
  | item :: rest, keyed => ⟨Keyed.written item keyed.1, KeyedItems.written rest keyed.2⟩

theorem KeyedFields.written : (fields : List (String × Snapshot)) -> KeyedFields fields -> KeyedFields (writtenFields fields)
  | [], _ => trivial
  | (_, item) :: rest, keyed => ⟨Keyed.written item keyed.1, KeyedFields.written rest keyed.2⟩

end

def minusZero : Binary64 :=
  ⟨0x8000000000000000⟩

def mixed : Snapshot :=
  record [("b", bytes ⟨#[1, 255]⟩), ("a", list [undefined, float minusZero, float .one, float .nan, int 1, error "bad"])]

end Snapshot

end ScriptHost
