import ScriptHost.Error
import ScriptHost.Table

set_option autoImplicit false

/-!
Host functions that the engine can call, by name and by the id that the engine keeps.

Ids are never handed out twice, not even across `clear`, so an id that the engine still holds from
before cannot reach a function registered later.
-/

namespace ScriptHost

abbrev FunctionId := UInt32

inductive FunctionMode where
  | sync
  | async
  deriving DecidableEq

structure HostFunction (η : Type) where
  id : FunctionId
  name : String
  mode : FunctionMode
  handler : η

structure FunctionTable (η : Type) where
  ids : Table String FunctionId
  functions : Table FunctionId (HostFunction η)
  nextId : FunctionId

namespace FunctionTable

variable {η : Type}

def empty : FunctionTable η :=
  ⟨Table.empty, Table.empty, 0⟩

instance : Inhabited (FunctionTable η) :=
  ⟨empty⟩

def register (t : FunctionTable η) (name : String) (mode : FunctionMode) (handler : η) :
    Except Error (FunctionId × FunctionTable η) :=
  if t.ids.contains name then .error (.host ("op '" ++ name ++ "' is already registered"))
  else
    .ok (t.nextId,
      { ids := t.ids.set name t.nextId
        functions := t.functions.set t.nextId ⟨t.nextId, name, mode, handler⟩
        nextId := t.nextId + 1 })

/-- The table after an attempt to register, whether that succeeds or not. -/
def registering (t : FunctionTable η) (name : String) (mode : FunctionMode) (handler : η) : FunctionTable η :=
  match t.register name mode handler with
  | .ok (_, t) => t
  | .error _ => t

def byId? (t : FunctionTable η) (id : FunctionId) : Option (HostFunction η) :=
  t.functions.get? id

def byName? (t : FunctionTable η) (name : String) : Option (HostFunction η) :=
  (t.ids.get? name).bind t.byId?

def size (t : FunctionTable η) : Nat :=
  t.functions.size

def clear (t : FunctionTable η) : FunctionTable η :=
  { t with ids := Table.empty, functions := Table.empty }

def modify (t : FunctionTable η) (id : FunctionId) (f : η -> η) : FunctionTable η :=
  { t with functions := t.functions.modify id fun g => { g with handler := f g.handler } }

end FunctionTable

end ScriptHost
