import ScriptHost.Engine

set_option autoImplicit false

/-!
Calls and jobs, in stages.

A call or a job stops where it needs its host: to ask whether the run is to be interrupted, and to run a
host function. Each stage is a pure step of the engine, so whatever the host does between two stages,
calls into the engine included, happens on the engine as the first stage left it.
-/

namespace ScriptHost

structure Invocation where
  function : FunctionId
  this : Ptr
  count : Nat
  arguments : Addr
  deriving DecidableEq

inductive Check where
  -- A job before it starts.
  | job (job : Job)
  -- A function called through the export.
  | call (function this : Ptr) (args : List Ptr) (table : Addr)
  -- The handler of a job.
  | handler (job : Job) (function : Ptr)

inductive Frame where
  | call
  | handler (job : Job) (table : Addr)

inductive Stage where
  | done (result : Except Error Scalar)
  | checking (check : Check)
  | calling (invocation : Invocation) (frame : Frame)

/-- How a called function ended. Either way the pointer comes with a reference. -/
inductive Completion where
  | returned (v : Ptr)
  | threw (exception : Ptr)

namespace Engine

def interruptedText : String :=
  "interrupted"

def throwing (s : Engine) (message : String) : Completion × Engine :=
  let (error, heap) := s.heap.newError message
  (.threw error, { s with heap })

def endCall (s : Engine) : Completion -> Scalar × Engine
  | .returned v => (.ofWord v, s)
  | .threw exception => (nullResult, { s with heap := s.heap.setException exception })

/-- The end of a job: its derived promise takes up the outcome, and the references of the job go. -/
def endJob (s : Engine) (job : Job) : Completion -> Scalar × Engine
  | .returned v =>
      (.i32 1, { s with heap := ((s.heap.resolveWith job.derived v).release v).finishJob job })
  | .threw exception =>
      (.i32 1, { s with heap := ((s.heap.settle job.derived exception true).release exception).finishJob job })

def passThrough (s : Engine) (job : Job) : Scalar × Engine :=
  let heap :=
    if job.rejected then s.heap.settle job.derived job.argument true
    else s.heap.resolveWith job.derived job.argument
  (.i32 1, { s with heap := heap.finishJob job })

def interruptJob (s : Engine) (job : Job) : Scalar × Engine :=
  (.i32 (-1), { s with heap := (s.heap.finishJob job).raiseMessage interruptedText })

inductive Start where
  | ended (c : Completion)
  | host (id : FunctionId)

def start (s : Engine) (interrupted : Bool) (function : Ptr) (args : List Ptr) : Start × Engine :=
  if interrupted then
    let (c, s) := s.throwing interruptedText
    (.ended c, s)
  else
    match s.heap.get? function with
    | some (.function _ (.host id)) =>
        if s.hosted then (.host id, s)
        else
          let (c, s) := s.throwing "no host trampoline installed"
          (.ended c, s)
    | some (.function _ (.resolve p)) =>
        let v := args.head?.getD Ptr.undefined
        (.ended (.returned Ptr.undefined), { s with heap := s.heap.callResolving p v false })
    | some (.function _ (.reject p)) =>
        let v := args.head?.getD Ptr.undefined
        (.ended (.returned Ptr.undefined), { s with heap := s.heap.callResolving p v true })
    | _ =>
        let (c, s) := s.throwing (s.heap.display function ++ " is not a function")
        (.ended c, s)

/-- What a host function has answered: a reference to a value, or zero after raising an exception. -/
def completion (s : Engine) (answer : Ptr) : Completion × Engine :=
  if answer = 0 then
    match s.heap.exception with
    | some exception => (.threw exception, { s with heap := s.heap.takeException.2 })
    | none => s.throwing "host function failed"
  else (.returned answer, s)

def finished (r : Scalar × Engine) : Stage × Engine :=
  (.done (.ok r.1), r.2)

def beginCall (s : Engine) (function this : Ptr) (count : UInt32) (arguments : Addr) : Stage × Engine :=
  match s.memory.readWords arguments count.toNat with
  | .error e => (.done (.error e), s)
  | .ok args => (.checking (.call function this args arguments), s)

def beginJob (s : Engine) : Stage × Engine :=
  let (job, heap) := s.heap.takeJob
  match job with
  | none => finished (.i32 0, s)
  | some job => (.checking (.job job), { s with heap })

def runCall (s : Engine) (interrupted : Bool) (function this : Ptr) (args : List Ptr) (table : Addr) :
    Stage × Engine :=
  match s.start interrupted function args with
  | (.ended c, s) => finished (s.endCall c)
  | (.host id, s) =>
      (.calling ⟨id, this, args.length, if args.isEmpty then 0 else table⟩ .call, s)

def runHandler (s : Engine) (interrupted : Bool) (job : Job) (function : Ptr) : Stage × Engine :=
  match s.start interrupted function [job.argument] with
  | (.ended c, s) => finished (s.endJob job c)
  | (.host id, s) =>
      match s.memory.writeTable [job.argument] with
      | .ok (table, memory) =>
          let s := { s with memory }
          if table = 0 then
            let (c, s) := s.throwing outOfMemory
            finished (s.endJob job c)
          else (.calling ⟨id, Ptr.undefined, 1, table⟩ (.handler job table), s)
      | .error _ =>
          let (c, s) := s.throwing outOfMemory
          finished (s.endJob job c)

def afterCheck (s : Engine) (interrupted : Bool) : Check -> Stage × Engine
  | .job job =>
      if interrupted then finished (s.interruptJob job)
      else
        match job.handler with
        | none => finished (s.passThrough job)
        | some function => (.checking (.handler job function), s)
  | .call function this args table => s.runCall interrupted function this args table
  | .handler job function => s.runHandler interrupted job function

def afterHost (s : Engine) (answer : Ptr) : Frame -> Scalar × Engine
  | .call =>
      let (c, s) := s.completion answer
      s.endCall c
  | .handler job table =>
      let (c, s) := { s with memory := s.memory.free table }.completion answer
      s.endJob job c

end Engine

namespace Calling

def first : Calling -> Engine -> Stage × Engine
  | call function this count arguments, s => s.beginCall function this count arguments
  | job, s => s.beginJob

end Calling

end ScriptHost
