import ScriptHost.Bench.Engine

set_option autoImplicit false

/-!
Steps that use the engine's memory and its exports as they are, past all faults.
-/

namespace ScriptHost

inductive RawStep where
  | setup (step : SetupStep)
  | allocate (size : Nat)
  | free (a : Addr)
  | read (a : Addr) (count : Nat)
  | write (a : Addr) (bytes : ByteArray)
  | readWord (a : Addr)
  | writeWord (a : Addr) (w : UInt32)
  | readCString (a : Addr)
  | call (name : String) (args : List Scalar)

namespace RawStep

def callExport (name : String) (args : List Scalar) : BenchM (Except Error Scalar) := do
  match Export.read name args with
  | .error e => pure (.error e)
  | .ok (.plain r) => Bench.onEngine (Engine.perform r)
  | .ok (.calling c) => do
      let stage <- Bench.ask (.start c)
      Bench.host.runStages Host.mostStages stage

def run : RawStep -> BenchM Answer
  | setup step => step.run
  | allocate size => do
      pure (.ofExcept (fun a => .nat a.toNat) (<- Bench.onEngine (Engine.onMemory fun m => .ok (m.allocate size))))
  | free a => do
      let _ <- Bench.onEngine (Engine.onMemory fun m => .ok ((), m.free a))
      pure .ok
  | read a count => do
      pure (.ofExcept .bytes (<- Bench.onEngine (Engine.readMemory fun m => m.read a count)))
  | write a bytes => do
      pure (.ofResult (<- Bench.onEngine (Engine.onMemory fun m => (m.write a bytes).map fun m => ((), m))))
  | readWord a => do
      pure (.ofExcept (fun words => .nat (words.head?.getD 0).toNat)
        (<- Bench.onEngine (Engine.readMemory fun m => m.readWords a 1)))
  | writeWord a w => do pure (.ofResult (<- Bench.onEngine (Engine.writeWord a w)))
  | readCString a => do
      pure (.ofExcept .text (<- Bench.onEngine (Engine.readMemory fun m => m.readCString a)))
  | call name args => do pure (.ofExcept .scalar (<- callExport name args))

def runAll (steps : List RawStep) : List BenchReply :=
  (BenchReply.all run steps Bench.empty).1

end RawStep

end ScriptHost
