import ScriptHost.Dialogue
import ScriptHost.Engine.Call

set_option autoImplicit false

/-!
The link through which a host reaches its engine.

Faults can be put in the way of what crosses the link: calls of one name are then answered by the fault
and do not get to the engine. What the engine does inside is not affected.
-/

namespace ScriptHost

inductive Replacement where
  | scalar (s : Scalar)
  | error (message : String)

structure Fault where
  -- Calls that still pass before the fault sets in.
  skip : Nat
  -- Calls that are still replaced; without end if absent.
  count : Option Nat
  replacement : Replacement

namespace Fault

def next (f : Fault) : Option Replacement × Fault :=
  match f.skip, f.count with
  | skip + 1, _ => (none, { f with skip })
  | 0, none => (some f.replacement, f)
  | 0, some 0 => (none, f)
  | 0, some (n + 1) => (some f.replacement, { f with count := some n })

end Fault

structure Link where
  engine : Engine
  faults : Table String Fault
  -- How many more polls leave the run alone before every poll interrupts it.
  patience : Option Nat

inductive Ask where
  | request (r : Request) (common : r.isReserved = false)
  | allocate (size : Nat)
  | free (a : Addr)
  | readBytes (a : Addr) (count : Nat)
  | writeBytes (a : Addr) (bytes : ByteArray)
  | readCString (a : Addr)
  -- Whether a fault answers in place of an export that may call functions of the host.
  | intercept (name : String)
  | start (c : Calling)
  | check (interrupted : Bool) (c : Check)
  | resume (answer : Ptr) (f : Frame)
  -- Whether the run is to be interrupted.
  | poll

namespace Ask

abbrev Answer : Ask -> Type
  | request _ _ => Except Error Scalar
  | allocate _ => Except Error Addr
  | free _ => Unit
  | readBytes _ _ => Except Error ByteArray
  | writeBytes _ _ => Except Error Unit
  | readCString _ => Except Error String
  | intercept _ => Option Replacement
  | start _ | check _ _ => Stage
  | resume _ _ => Scalar
  | poll => Bool

end Ask

abbrev Asking := Dialogue Ask.Answer

abbrev LinkM := ExceptT Error Asking

namespace Link

def empty : Link :=
  ⟨.empty, Table.empty, none⟩

instance : Inhabited Link :=
  ⟨empty⟩

def setFault (l : Link) (name : String) (fault : Option Fault) : Link :=
  match fault with
  | some f => { l with faults := l.faults.set name f }
  | none => { l with faults := l.faults.erase name }

def installHost (l : Link) : Link :=
  { l with engine := { l.engine with hosted := true } }

def poll (l : Link) : Bool × Link :=
  match l.patience with
  | none => (false, l)
  | some 0 => (true, l)
  | some (n + 1) => (false, { l with patience := some n })

def intercept (l : Link) (name : String) : Option Replacement × Link :=
  match l.faults.get? name with
  | none => (none, l)
  | some f => (f.next.1, { l with faults := l.faults.set name f.next.2 })

def onEngine {α : Type} (act : EngineM α) : StateM Link (Except Error α) :=
  modifyGet fun l =>
    let (result, engine) := act.run.run l.engine
    (result, { l with engine })

def advance {α : Type} (f : Engine -> α × Engine) : StateM Link α :=
  modifyGet fun l => ((f l.engine).1, { l with engine := (f l.engine).2 })

def replaced : Replacement -> Except Error Scalar
  | .scalar s => .ok s
  | .error message => .error (.host message)

def refusal : Replacement -> Error
  | .scalar _ => .host ""
  | .error message => .host message

def unlessFaulty {α : Type} (name : String) (answer : Replacement -> Except Error α) (act : EngineM α) :
    StateM Link (Except Error α) := do
  match <- modifyGet fun l => l.intercept name with
  | some replacement => pure (answer replacement)
  | none => onEngine act

def meet (r : Request) : StateM Link (Except Error Scalar) :=
  unlessFaulty r.name replaced (Engine.perform r)

end Link

namespace Ask

def newBlock (size : Nat) : EngineM Addr := do
  let a <- Engine.onMemory fun m => .ok (m.allocate size)
  if a = 0 then throw (.allocation size) else pure a

def perform : (q : Ask) -> StateM Link q.Answer
  | request r _ => Link.meet r
  | allocate size =>
      Link.unlessFaulty "allocate" (fun _ => .error (.allocation size)) (newBlock size)
  | free a => modify fun l => { l with engine := { l.engine with memory := l.engine.memory.free a } }
  | readBytes a count =>
      Link.unlessFaulty "read_bytes" (fun r => .error (Link.refusal r))
        (Engine.readMemory fun m => m.read a count)
  | writeBytes a bytes =>
      Link.unlessFaulty "write_bytes" (fun r => .error (Link.refusal r))
        (Engine.onMemory fun m => (m.write a bytes).map fun m => ((), m))
  | readCString a =>
      Link.unlessFaulty "read_cstring" (fun r => .error (Link.refusal r))
        (Engine.readMemory fun m => m.readCString a)
  | intercept name => modifyGet fun l => l.intercept name
  | start c => Link.advance c.first
  | check interrupted c => Link.advance fun s => s.afterCheck interrupted c
  | resume answer f => Link.advance fun s => s.afterHost answer f
  | poll => modifyGet Link.poll

end Ask

namespace Asking

def perform {α : Type} (act : Asking α) : StateM Link α :=
  act.through Ask.perform

end Asking

namespace Link

def attempt {α : Type} (act : LinkM α) : LinkM (Except Error α) :=
  ExceptT.lift act.run

def ofExcept {α : Type} : Except Error α -> LinkM α
  | .ok a => pure a
  | .error e => throw e

def request (r : Request) (common : r.isReserved = false := by rfl) : LinkM Scalar :=
  ExceptT.mk (.question (Ask.request r common))

def largestBlock : Nat := 4294967295

def allocate (size : Nat) : LinkM Addr := do
  if largestBlock < size then throw (.allocation size)
  ExceptT.mk (.question (Ask.allocate size))

def free (a : Addr) : LinkM Unit :=
  ExceptT.lift (.question (Ask.free a))

def readBytes (a : Addr) (count : Nat) : LinkM ByteArray :=
  ExceptT.mk (.question (Ask.readBytes a count))

def writeBytes (a : Addr) (bytes : ByteArray) : LinkM Unit :=
  ExceptT.mk (.question (Ask.writeBytes a bytes))

def readCString (a : Addr) : LinkM String :=
  ExceptT.mk (.question (Ask.readCString a))

def readWord (a : Addr) : LinkM UInt32 := do
  match Memory.decodeWords (<- readBytes a 4).data.toList with
  | w :: _ => pure w
  | [] => throw (.foreign "read_u32" "short read")

def readTable (a : Addr) (count : Nat) : LinkM (List UInt32) := do
  if count = 0 then pure []
  else pure (Memory.decodeWords (<- readBytes a (count * 4)).data.toList)

def withBlock {α : Type} (size : Nat) (act : Addr -> LinkM α) : LinkM α := do
  let a <- allocate size
  let result <- attempt (act a)
  free a
  ofExcept result

/-- A new block with these contents. A block that cannot be filled is freed again. -/
def writeBlock (size : Nat) (bytes : ByteArray) : LinkM Addr := do
  let a <- allocate size
  match <- attempt (writeBytes a bytes) with
  | .ok () => pure a
  | .error e =>
      free a
      throw e

end Link

/-- What the owner of an engine does with it, reserved requests included. -/
abbrev OwnerM := ExceptT Error (StateM Link)

namespace OwnerM

def request (r : Request) : OwnerM Scalar :=
  ExceptT.mk (Link.meet r)

def common {α : Type} (act : LinkM α) : OwnerM α :=
  ExceptT.mk act.run.perform

end OwnerM

/-- What the engine needs of the program around it, in whose monad `m` its calls run: the way to the
link, an answer to whether the run is to be interrupted, and the host functions. -/
structure Host (m : Type -> Type) where
  ask : (q : Ask) -> m q.Answer
  interrupted : m Bool
  answer : Invocation -> m Ptr

namespace Host

variable {m : Type -> Type} [Monad m]

/-- A stage waits for the host at most as often as this: for a check before a job, for one before its
handler, and for the handler. -/
def mostStages : Nat := 3

def runStages (host : Host m) : Nat -> Stage -> m (Except Error Scalar)
  | _, .done result => pure result
  | 0, _ => pure (.error (.foreign "call_export" "unfinished call"))
  | left + 1, .checking check => do
      let interrupted <- host.interrupted
      let stage <- host.ask (.check interrupted check)
      runStages host left stage
  | _ + 1, .calling invocation frame => do
      let answer <- host.answer invocation
      let result <- host.ask (.resume answer frame)
      pure (.ok result)

def runExport (host : Host m) (c : Calling) : m (Except Error Scalar) := do
  match <- host.ask (.intercept c.name) with
  | some replacement => pure (Link.replaced replacement)
  | none =>
      let stage <- host.ask (.start c)
      host.runStages mostStages stage

end Host

end ScriptHost
