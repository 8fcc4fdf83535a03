import ScriptHost.Json.Reader
import ScriptHost.Json.Writer
import ScriptHost.Number.Layout
import ScriptHost.Table

set_option autoImplicit false

/-!
Snapshots: plain copies of engine values that can be kept and handed around outside the engine.

An engine has one kind of number; a snapshot tells the integers that fit in 64 bits from the rest.
The structured text of a snapshot cannot tell all kinds apart: absent values become null, byte buffers
lists of integers, and errors records with the one field `error`.
-/

namespace ScriptHost

inductive Snapshot where
  | undefined
  | null
  | bool (b : Bool)
  | int (i : Int64)
  | float (x : Binary64)
  | text (s : String)
  | bytes (b : ByteArray)
  | list (items : List Snapshot)
  -- Fields in the order in which they were first set, each key once.
  | record (fields : List (String × Snapshot))
  | error (message : String)

namespace Snapshot

instance : Inhabited Snapshot :=
  ⟨undefined⟩

def ofFields (fields : List (String × Snapshot)) : Snapshot :=
  record (Table.ofList fields).entries

/-- An engine number: an integer if it is integral and in the range of one, and not the negative zero.
The upper end of the range is taken as the double next above the greatest integer. -/
def ofNumber (x : Binary64) : Snapshot :=
  if x.isIntegral && decide (Binary64.int64Min <= x.truncate)
      && decide (x.truncate <= Binary64.int64Max + 1) && !(x.isZero && x.negative) then
    int x.toInt64
  else float x

def number? : Snapshot -> Option Binary64
  | int i => some (Binary64.ofInt i.toInt)
  | float x => some x
  | _ => none

def text? : Snapshot -> Option String
  | text s => some s
  | _ => none

def isNullish : Snapshot -> Bool
  | undefined | null => true
  | _ => false

mutual

def same : Snapshot -> Snapshot -> Bool
  | undefined, undefined => true
  | null, null => true
  | bool a, bool b => a == b
  | int a, int b => a == b
  | float a, float b => a.equals b
  | text a, text b => a == b
  | bytes a, bytes b => a == b
  | list as, list bs => sameItems as bs
  | record as, record bs => as.length == bs.length && sameFields as bs
  | error a, error b => a == b
  | _, _ => false

def sameItems : List Snapshot -> List Snapshot -> Bool
  | [], [] => true
  | a :: as, b :: bs => same a b && sameItems as bs
  | _, _ => false

def sameFields : List (String × Snapshot) -> List (String × Snapshot) -> Bool
  | [], _ => true
  | (key, a) :: as, bs =>
      (match Table.find key bs with
        | some b => same a b
        | none => false) && sameFields as bs

end

mutual

def display : Snapshot -> String
  | undefined => "undefined"
  | null => "null"
  | bool b => Json.writeBool b
  | int i => Int.repr i.toInt
  | float x => NumberLayout.plain.render x
  | text s => s
  | bytes b => "[ArrayBuffer " ++ Nat.repr b.size ++ " bytes]"
  | list items => "[" ++ ",".intercalate (displayItems items) ++ "]"
  | record _ => "[object Object]"
  | error message => "Error: " ++ message

def displayItems : List Snapshot -> List String
  | [] => []
  | item :: rest => display item :: displayItems rest

end

mutual

def toJson : Snapshot -> String
  | undefined | null => "null"
  | bool b => Json.writeBool b
  | int i => Int.repr i.toInt
  | float x => NumberLayout.structured.render x
  | text s => Json.quote s
  | bytes b => Json.writeArray (b.data.toList.map fun x => Nat.repr x.toNat)
  | list items => Json.writeArray (itemsToJson items)
  | record fields => Json.writeObject (fieldsToJson fields)
  | error message => Json.writeObject [("error", Json.quote message)]

def itemsToJson : List Snapshot -> List String
  | [] => []
  | item :: rest => toJson item :: itemsToJson rest

def fieldsToJson : List (String × Snapshot) -> List (String × String)
  | [] => []
  | (key, item) :: rest => (key, toJson item) :: fieldsToJson rest

end

/-- A written number: an integer if it is written as one and in range. A minus sign keeps zero a
double, since there is no negative integer zero; a number too large for a double denotes nothing. -/
def ofNumeral (n : Numeral) : Option Snapshot :=
  let asDouble := if n.toBinary64.isFinite then some (float n.toBinary64) else none
  if n.integral then
    if n.negative then
      if n.digits != 0 && decide (Binary64.int64Min <= -(n.digits : Int)) then
        some (int (Int64.ofInt (-(n.digits : Int))))
      else asDouble
    else if (n.digits : Int) <= Binary64.int64Max then some (int (Int64.ofInt n.digits))
    else asDouble
  else asDouble

mutual

def ofJson : Json -> Option Snapshot
  | .null => some null
  | .bool b => some (bool b)
  | .number n => ofNumeral n
  | .text s => s.map text
  | .array items => (ofJsonItems items).map list
  | .object members => (ofJsonMembers members).map ofFields

def ofJsonItems : List Json -> Option (List Snapshot)
  | [] => some []
  | item :: rest => do
      let v <- ofJson item
      let vs <- ofJsonItems rest
      pure (v :: vs)

def ofJsonMembers : List (Option String × Json) -> Option (List (String × Snapshot))
  | [] => some []
  | (key, item) :: rest => do
      let key <- key
      let v <- ofJson item
      let vs <- ofJsonMembers rest
      pure ((key, v) :: vs)

end

def maxTextDepth : Nat :=
  127

def readJson (s : String) : Option Snapshot := do
  let json <- Json.read s
  if json.depth <= maxTextDepth then ofJson json else none

end Snapshot

end ScriptHost
