import ScriptHost.Engine.Scalar
import ScriptHost.Error

set_option autoImplicit false

/-!
Answers: what one step of a program shows.
-/

namespace ScriptHost

inductive Answer where
  | ok
  -- There is nothing to show.
  | absent
  | bool (b : Bool)
  | nat (n : Nat)
  | text (s : String)
  | number (x : Binary64)
  | scalar (s : Scalar)
  | bytes (b : ByteArray)
  | snapshot (v : Snapshot)
  | list (items : List Answer)
  | failure (e : Error)
  -- A variable that was never bound.
  | unbound (name : String)
  -- An operation of the worker that was asked for elsewhere.
  | noContext

namespace Answer

instance : Inhabited Answer :=
  ⟨absent⟩

def ofResult : Except Error Unit -> Answer
  | .ok () => ok
  | .error e => failure e

def ofOption {α : Type} (f : α -> Answer) : Option α -> Answer
  | some a => f a
  | none => absent

def ofExcept {α : Type} (f : α -> Answer) : Except Error α -> Answer
  | .ok a => f a
  | .error e => failure e

def isFailure : Answer -> Bool
  | failure _ => true
  | _ => false

end Answer

end ScriptHost
