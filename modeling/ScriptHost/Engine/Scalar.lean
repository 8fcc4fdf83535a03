import ScriptHost.Number.Binary64

set_option autoImplicit false

/-!
The scalars that cross the boundary of the engine.
-/

namespace ScriptHost

inductive Scalar where
  | void
  | i32 (n : Int32)
  | i64 (n : Int64)
  | f64 (x : Binary64)
  deriving DecidableEq

namespace Scalar

def ofWord (w : UInt32) : Scalar :=
  i32 w.toInt32

def ofBool (b : Bool) : Scalar :=
  i32 (if b then 1 else 0)

def word? : Scalar -> Option UInt32
  | i32 n => some n.toUInt32
  | _ => none

def i32? : Scalar -> Option Int32
  | i32 n => some n
  | _ => none

def i64? : Scalar -> Option Int64
  | i64 n => some n
  | i32 n => some n.toInt64
  | _ => none

def f64? : Scalar -> Option Binary64
  | f64 x => some x
  | _ => none

end Scalar

end ScriptHost
