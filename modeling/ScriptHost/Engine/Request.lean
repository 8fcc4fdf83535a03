import ScriptHost.Engine.Memory
import ScriptHost.Engine.Scalar
import ScriptHost.Engine.Value

set_option autoImplicit false

/-!
What the engine can be asked for: requests, and the exports by which their names and scalars are read.

The first scalar of every export names the engine's runtime or context. There is only one of each, so it
is not looked at.
-/

namespace ScriptHost

inductive Request where
  | newRuntime
  | freeRuntime
  | setMemoryLimit (limit : Int64)
  | newContext
  | freeContext
  | liveValueCount
  | getUndefined
  | getNull
  | getTrue
  | getFalse
  | dupValue (p : Ptr)
  | freeValue (p : Ptr)
  | newFloat64 (x : Binary64)
  | getFloat64 (p : Ptr)
  | newString (text : Addr)
  | toCString (p : Ptr)
  | freeCString (text : Addr)
  | newArrayBuffer (data : Addr) (count : UInt32)
  | copyArrayBuffer (p : Ptr) (outCount : Addr)
  | newObject
  | newArray
  | getProp (object key : Ptr)
  | setProp (object key value : Ptr)
  | getOwnPropertyNames (outTable outCount : Addr) (object : Ptr)
  | getLength (outLength : Addr) (p : Ptr)
  | typeOf (p : Ptr)
  | isEqual (a b : Ptr) (op : Equality)
  | newError (text : Addr)
  | raise (p : Ptr)
  | getLastError
  | newFunction (id : FunctionId) (name : Addr)
  | newPromiseCapability (out : Addr)
  | promiseState (p : Ptr)
  | promiseResult (p : Ptr)
  | promiseThen (p : Ptr) (onFulfilled onRejected : Option Ptr)
  | isJobPending
  | takeRejectionEvents (outCount : Addr)

inductive Calling where
  | call (function this : Ptr) (count : UInt32) (arguments : Addr)
  | job

inductive Export where
  | plain (r : Request)
  | calling (c : Calling)

namespace Request

def name : Request -> String
  | newRuntime => "new_runtime"
  | freeRuntime => "free_runtime"
  | setMemoryLimit _ => "runtime_set_memory_limit"
  | newContext => "new_context"
  | freeContext => "free_context"
  | liveValueCount => "live_value_count"
  | getUndefined => "get_undefined"
  | getNull => "get_null"
  | getTrue => "get_true"
  | getFalse => "get_false"
  | dupValue _ => "dup_value_pointer"
  | freeValue _ => "free_value_pointer"
  | newFloat64 _ => "new_float64"
  | getFloat64 _ => "get_float64"
  | newString _ => "new_string"
  | toCString _ => "to_cstring"
  | freeCString _ => "free_cstring"
  | newArrayBuffer _ _ => "new_array_buffer"
  | copyArrayBuffer _ _ => "copy_array_buffer"
  | newObject => "new_object"
  | newArray => "new_array"
  | getProp _ _ => "get_prop"
  | setProp _ _ _ => "set_prop"
  | getOwnPropertyNames _ _ _ => "get_own_property_names"
  | getLength _ _ => "get_length"
  | typeOf _ => "type_of"
  | isEqual _ _ _ => "is_equal"
  | newError _ => "new_error"
  | raise _ => "throw"
  | getLastError => "get_last_error"
  | newFunction _ _ => "new_function"
  | newPromiseCapability _ => "new_promise_capability"
  | promiseState _ => "promise_state"
  | promiseResult _ => "promise_result"
  | promiseThen _ _ _ => "promise_then"
  | isJobPending => "is_job_pending"
  | takeRejectionEvents _ => "take_rejection_events"

/-- Whether only the owner of an engine may ask for this: to limit it, to end it, or to take what it has
recorded. -/
def isReserved : Request -> Bool
  | freeRuntime | freeContext | setMemoryLimit _ | takeRejectionEvents _ => true
  | _ => false

end Request

namespace Calling

def name : Calling -> String
  | call _ _ _ _ => "call"
  | job => "execute_pending_job"

end Calling

namespace Export

def name : Export -> String
  | plain r => r.name
  | calling c => c.name

def badArgument (name : String) (i : Nat) : Error :=
  .foreign "call_export" (name ++ ": bad argument " ++ Nat.repr i)

def argument {α : Type} (name : String) (args : List Scalar) (take : Scalar -> Option α) (i : Nat) :
    Except Error α :=
  match args[i]?.bind take with
  | some a => .ok a
  | none => .error (badArgument name i)

/-- The export with this name, applied to scalars. What is wrong with the first unfit scalar is reported;
scalars that are not needed are passed over. -/
def read (name : String) (args : List Scalar) : Except Error Export :=
  let word := argument name args Scalar.word?
  let int := argument name args Scalar.i32?
  let long := argument name args Scalar.i64?
  let number := argument name args Scalar.f64?
  match name with
  | "new_runtime" => .ok (.plain .newRuntime)
  | "free_runtime" => .ok (.plain .freeRuntime)
  | "runtime_set_memory_limit" => do return .plain (.setMemoryLimit (<- long 1))
  | "new_context" => .ok (.plain .newContext)
  | "free_context" => .ok (.plain .freeContext)
  | "live_value_count" => .ok (.plain .liveValueCount)
  | "get_undefined" => .ok (.plain .getUndefined)
  | "get_null" => .ok (.plain .getNull)
  | "get_true" => .ok (.plain .getTrue)
  | "get_false" => .ok (.plain .getFalse)
  | "dup_value_pointer" => do return .plain (.dupValue (<- word 1))
  | "free_value_pointer" => do return .plain (.freeValue (<- word 1))
  | "new_float64" => do return .plain (.newFloat64 (<- number 1))
  | "get_float64" => do return .plain (.getFloat64 (<- word 1))
  | "new_string" => do return .plain (.newString (<- word 1))
  | "to_cstring" => do return .plain (.toCString (<- word 1))
  | "free_cstring" => do return .plain (.freeCString (<- word 1))
  | "new_array_buffer" => do return .plain (.newArrayBuffer (<- word 1) (<- word 2))
  | "copy_array_buffer" => do return .plain (.copyArrayBuffer (<- word 1) (<- word 2))
  | "new_object" => .ok (.plain .newObject)
  | "new_array" => .ok (.plain .newArray)
  | "get_prop" => do return .plain (.getProp (<- word 1) (<- word 2))
  | "set_prop" => do return .plain (.setProp (<- word 1) (<- word 2) (<- word 3))
  | "get_own_property_names" => do
      return .plain (.getOwnPropertyNames (<- word 1) (<- word 2) (<- word 3))
  | "get_length" => do return .plain (.getLength (<- word 1) (<- word 2))
  | "type_of" => do return .plain (.typeOf (<- word 1))
  | "is_equal" => do return .plain (.isEqual (<- word 1) (<- word 2) (.ofTag (<- int 3)))
  | "new_error" => do return .plain (.newError (<- word 1))
  | "throw" => do return .plain (.raise (<- word 1))
  | "get_last_error" => .ok (.plain .getLastError)
  | "new_function" => do return .plain (.newFunction (<- word 1) (<- word 2))
  | "call" => do return .calling (.call (<- word 1) (<- word 2) (<- word 3) (<- word 4))
  | "new_promise_capability" => do return .plain (.newPromiseCapability (<- word 1))
  | "promise_state" => do return .plain (.promiseState (<- word 1))
  | "promise_result" => do return .plain (.promiseResult (<- word 1))
  | "promise_then" => do
      let p <- word 1
      let onFulfilled <- word 2
      let onRejected <- word 3
      return .plain (.promiseThen p (Ptr.nonzero? onFulfilled) (Ptr.nonzero? onRejected))
  | "is_job_pending" => .ok (.plain .isJobPending)
  | "execute_pending_job" => .ok (.calling .job)
  | "take_rejection_events" => do return .plain (.takeRejectionEvents (<- word 1))
  | other => .error (.foreign "call_export" ("unknown export " ++ other))

end Export

end ScriptHost
