import ScriptHost.Error

set_option autoImplicit false

/-!
Resources: things that have to be released once, by an action that may fail or panic.
-/

namespace ScriptHost

inductive Ending where
  | done
  | failed (e : Error)
  | panicked (p : Panic)

namespace Ending

def toExcept : Ending -> Except Error Unit
  | done => .ok ()
  | failed e => .error e
  | panicked p => .error (.ofPanic p)

def ofExcept : Except Error Unit -> Ending
  | .ok () => done
  | .error e => failed e

end Ending

class Resource (m : Type -> Type) (α : Type) where
  release : α -> m (Ending × α)
  -- What becomes of a resource that goes out of use.
  discard : α -> m Unit

end ScriptHost
