import ScriptHost.Answer
import ScriptHost.Link.Typed

set_option autoImplicit false

/-!
A bench on which an engine is tried out: its host functions do one canned thing each, and a record is
kept of their calls.
-/

namespace ScriptHost

inductive CannedAction where
  | answer (p : Ptr)
  -- Answers with a new reference to an argument, or to undefined if there are too few.
  | argument (i : Nat)
  -- Answers with a new reference to what it was called on.
  | this
  -- Raises an exception.
  | raise (p : Ptr)
  -- Calls another function without arguments and answers what that returns.
  | forward (function : Ptr)
  | other

structure HostCall where
  function : FunctionId
  this : Ptr
  args : List Ptr

structure Bench where
  link : Link
  actions : Table FunctionId CannedAction
  -- Newest first.
  calls : List HostCall
  bindings : Table String Ptr

abbrev BenchM := StateM Bench

namespace Bench

def empty : Bench :=
  ⟨.empty, Table.empty, [], Table.empty⟩

def onLink {α : Type} (act : StateM Link α) : BenchM α :=
  modifyGet fun b => ((act.run b.link).1, { b with link := (act.run b.link).2 })

def onEngine {α : Type} (act : EngineM α) : BenchM (Except Error α) :=
  onLink (Link.onEngine act)

def asking {α : Type} (act : Asking α) : BenchM α :=
  onLink act.perform

def ask (q : Ask) : BenchM q.Answer :=
  onLink q.perform

def argumentsOf (inv : Invocation) : BenchM (List Ptr) := do
  match <- asking (Link.readTable inv.arguments inv.count).run with
  | .ok args => pure args
  | .error _ => pure []

def pointerOf : Except Error Scalar -> Ptr
  | .ok s => s.word?.getD 0
  | .error _ => 0

def answer : Nat -> Invocation -> BenchM Ptr
  | 0, _ => pure 0
  | depth + 1, inv => do
      let args <- argumentsOf inv
      modify fun b => { b with calls := ⟨inv.function, inv.this, args⟩ :: b.calls }
      match ((<- get).actions.get? inv.function).getD .other with
      | .answer p => pure p
      | .argument i => do
          pure (pointerOf (<- onEngine (Engine.dupValue (args[i]?.getD Ptr.undefined))))
      | .this => do pure (pointerOf (<- onEngine (Engine.dupValue inv.this)))
      | .raise p => do
          let _ <- onEngine (Engine.raise p)
          pure 0
      | .forward function => do
          let host : Host BenchM := ⟨ask, ask .poll, answer depth⟩
          let stage <- ask (.start (.call function inv.this 0 0))
          pure (pointerOf (<- host.runStages Host.mostStages stage))
      | .other => pure Ptr.undefined

def deepest : Nat := 1000

def host : Host BenchM :=
  ⟨ask, ask .poll, answer deepest⟩

def bind (name : String) (p : Ptr) : BenchM Unit :=
  modify fun b => { b with bindings := b.bindings.set name p }

def install (actions : List (FunctionId × CannedAction)) : BenchM Unit :=
  modify fun b => { b with link := b.link.installHost, actions := Table.ofList actions }

def takeCalls : BenchM (List HostCall) :=
  modifyGet fun b => (b.calls.reverse, { b with calls := [] })

end Bench

structure BenchReply where
  answer : Answer
  calls : List HostCall

namespace BenchReply

def all {σ : Type} (step : σ -> BenchM Answer) : List σ -> BenchM (List BenchReply)
  | [] => pure []
  | first :: rest => do
      let answer <- step first
      let calls <- Bench.takeCalls
      pure (⟨answer, calls⟩ :: (<- all step rest))

end BenchReply

inductive SetupStep where
  | install (actions : List (FunctionId × CannedAction))
  -- Polls leave the run alone so many times; always if absent.
  | patience (polls : Option Nat)
  | fault (name : String) (fault : Option Fault)
  | memoryInUse

namespace SetupStep

def run : SetupStep -> BenchM Answer
  | install actions => do
      Bench.install actions
      pure .ok
  | patience polls => do
      modify fun b => { b with link := { b.link with patience := polls } }
      pure .ok
  | fault name f => do
      modify fun b => { b with link := b.link.setFault name f }
      pure .ok
  | memoryInUse => do pure (.nat (<- get).link.engine.memory.used)

end SetupStep

end ScriptHost
