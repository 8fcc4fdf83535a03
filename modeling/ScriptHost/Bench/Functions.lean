import ScriptHost.Answer
import ScriptHost.FunctionTable

set_option autoImplicit false

/-!
Steps on a table of host functions that do nothing.
-/

namespace ScriptHost

inductive FunctionStep where
  | register (name : String) (mode : FunctionMode)
  | byName (name : String)
  | byId (id : Nat)
  | clear
  | size

namespace FunctionStep

def modeName : FunctionMode -> String
  | .sync => "Sync"
  | .async => "Async"

def describe (f : HostFunction FunctionMode) : Answer :=
  .list [.nat f.id.toNat, .text f.name, .text (modeName f.mode), .text (modeName f.handler)]

def run (t : FunctionTable FunctionMode) : FunctionStep -> Answer × FunctionTable FunctionMode
  | register name mode =>
      match t.register name mode mode with
      | .error e => (.failure e, t)
      | .ok (id, t) => (.nat id.toNat, t)
  | byName name => (.ofOption describe (t.byName? name), t)
  | byId id =>
      (if id < Nat.pow 2 32 then .ofOption describe (t.byId? (UInt32.ofNat id)) else .absent, t)
  | clear => (.ok, t.clear)
  | size => (.list [.nat t.size, .bool (t.size == 0)], t)

def runAll : FunctionTable FunctionMode -> List FunctionStep -> List Answer
  | _, [] => []
  | t, first :: rest =>
      let (answer, t) := run t first
      answer :: runAll t rest

end FunctionStep

end ScriptHost
