import ScriptHost.FunctionTable
import ScriptHost.Number.Binary64

set_option autoImplicit false

/-!
What the engine keeps: values that refer to each other by pointers, promise jobs and rejection events.

Four values are static and need no storage. Every other value is counted: `Value.children` lists the
references that one value holds, with multiplicity.
-/

namespace ScriptHost

/-- Names a value of the engine. Zero names none. -/
abbrev Ptr := UInt32

namespace Ptr

def undefined : Ptr := 1
def null : Ptr := 2
def no : Ptr := 3
def yes : Ptr := 4

def firstCounted : Ptr := 16

def ofBool (b : Bool) : Ptr :=
  if b then yes else no

def isStatic (p : Ptr) : Bool :=
  decide (undefined ≤ p) && decide (p ≤ yes)

def isNullish (p : Ptr) : Bool :=
  p == undefined || p == null

def nonzero? (p : Ptr) : Option Ptr :=
  if p = 0 then none else some p

end Ptr

inductive ValueKind where
  | undefined
  | null
  | boolean
  | number
  | string
  | bytes
  | object
  | array
  | function
  | promise
  | error
  deriving DecidableEq

namespace ValueKind

def tag : ValueKind -> Int32
  | undefined => 0
  | null => 1
  | boolean => 2
  | number => 3
  | string => 4
  | bytes => 5
  | object => 6
  | array => 7
  | function => 8
  | promise => 9
  | error => 10

def all : List ValueKind :=
  [undefined, null, boolean, number, string, bytes, object, array, function, promise, error]

def ofTag? (t : Int32) : Option ValueKind :=
  all.find? fun k => k.tag == t

def name : ValueKind -> String
  | undefined => "Undefined"
  | null => "Null"
  | boolean => "Boolean"
  | number => "Number"
  | string => "String"
  | bytes => "Bytes"
  | object => "Object"
  | array => "Array"
  | function => "Function"
  | promise => "Promise"
  | error => "Error"

end ValueKind

inductive PromiseState where
  | pending
  | fulfilled
  | rejected
  deriving DecidableEq

namespace PromiseState

def tag : PromiseState -> Int32
  | pending => 0
  | fulfilled => 1
  | rejected => 2

def all : List PromiseState :=
  [pending, fulfilled, rejected]

def ofTag? (t : Int32) : Option PromiseState :=
  all.find? fun s => s.tag == t

def name : PromiseState -> String
  | pending => "Pending"
  | fulfilled => "Fulfilled"
  | rejected => "Rejected"

end PromiseState

/-- Strict equality tells no zeros apart and no NaN equal; same-value equality does both. -/
inductive Equality where
  | strict
  | sameValue
  deriving DecidableEq

namespace Equality

def tag : Equality -> Int32
  | strict => 0
  | sameValue => 1

def ofTag (t : Int32) : Equality :=
  if t = sameValue.tag then sameValue else strict

end Equality

inductive ObjectClass where
  | plain
  | error
  deriving DecidableEq

inductive FunctionKind where
  | host (id : FunctionId)
  | resolve (promise : Ptr)
  | reject (promise : Ptr)
  deriving DecidableEq

inductive Settlement where
  | pending
  | fulfilled (value : Ptr)
  | rejected (reason : Ptr)
  deriving DecidableEq

namespace Settlement

def state : Settlement -> PromiseState
  | pending => .pending
  | fulfilled _ => .fulfilled
  | rejected _ => .rejected

def payload? : Settlement -> Option Ptr
  | pending => none
  | fulfilled v => some v
  | rejected v => some v

def ofPayload (rejected : Bool) (v : Ptr) : Settlement :=
  if rejected then .rejected v else .fulfilled v

end Settlement

structure Reaction where
  derived : Ptr
  onFulfilled : Option Ptr
  onRejected : Option Ptr
  deriving DecidableEq

namespace Reaction

def handler (r : Reaction) (rejected : Bool) : Option Ptr :=
  if rejected then r.onRejected else r.onFulfilled

def children (r : Reaction) : List Ptr :=
  r.derived :: (r.onFulfilled.toList ++ r.onRejected.toList)

end Reaction

structure PromiseRecord where
  settlement : Settlement
  -- In the order of attachment.
  reactions : List Reaction
  -- Whether a reaction was ever attached.
  handled : Bool
  -- Set by the first call of a resolving function, even while the value is still being adopted.
  resolved : Bool
  deriving DecidableEq

namespace PromiseRecord

def fresh : PromiseRecord :=
  ⟨.pending, [], false, false⟩

def children (r : PromiseRecord) : List Ptr :=
  r.settlement.payload?.toList ++ r.reactions.flatMap Reaction.children

end PromiseRecord

inductive Value where
  | number (x : Binary64)
  | string (s : String)
  | bytes (b : ByteArray)
  | object (cls : ObjectClass) (props : Table String Ptr)
  | array (items : Array Ptr)
  | function (name : String) (kind : FunctionKind)
  | promise (record : PromiseRecord)

namespace Value

def kind : Value -> ValueKind
  | number _ => .number
  | string _ => .string
  | bytes _ => .bytes
  | object .plain _ => .object
  | object .error _ => .error
  | array _ => .array
  | function _ _ => .function
  | promise _ => .promise

def children : Value -> List Ptr
  | object _ props => props.values
  | array items => items.toList
  | function _ (.resolve p) => [p]
  | function _ (.reject p) => [p]
  | promise record => record.children
  | _ => []

end Value

/-- A reaction whose promise has settled. It holds one reference to each of its pointers. -/
structure Job where
  handler : Option Ptr
  derived : Ptr
  argument : Ptr
  -- How the promise settled.
  rejected : Bool
  deriving DecidableEq

namespace Job

def children (j : Job) : List Ptr :=
  j.handler.toList ++ [j.derived, j.argument]

end Job

/-- Says that a promise was rejected while no reaction was attached, or that a reaction was attached
to such a promise afterwards. It holds one reference to each of its pointers. -/
structure Rejection where
  promise : Ptr
  reason : Ptr
  handled : Bool
  deriving DecidableEq

namespace Rejection

def children (r : Rejection) : List Ptr :=
  [r.promise, r.reason]

end Rejection

/-- What happens to a promise. -/
inductive Happening where
  | settled (promise value : Ptr) (rejected : Bool)
  | reacted (promise : Ptr)
  deriving DecidableEq

end ScriptHost
