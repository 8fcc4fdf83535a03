import ScriptHost.Answer
import ScriptHost.Config
import ScriptHost.Dispatcher.Program
import ScriptHost.FunctionTable
import ScriptHost.Handle
import ScriptHost.Outcome
import ScriptHost.Scope

set_option autoImplicit false

/-!
The state of a dispatcher: its worker, the caller on the other side, and what the programs of both refer
to. Time is virtual and measured in microseconds.
-/

namespace ScriptHost

inductive Phase where
  | idle
  | drainingWork
  | drainingImmediate
  | runningDelayed
  | shuttingDown
  | stopped
  deriving DecidableEq

namespace Phase

def name : Phase -> String
  | idle => "Idle"
  | drainingWork => "DrainingWorkQueue"
  | drainingImmediate => "DrainingImmediate"
  | runningDelayed => "RunningDelayed"
  | shuttingDown => "ShuttingDown"
  | stopped => "Stopped"

/-- Phases that are never left for another one of a running worker. -/
def isOver : Phase -> Bool
  | shuttingDown | stopped => true
  | _ => false

end Phase

inductive Event where
  | enter (label : String) (args : Nat)
  | exit (label : String) (answers : List Answer)
  | panicking
  | deferred (name : String)
  | unhandled (reason : Snapshot)
  | unhandledPanic (reason : Snapshot)
  | unhandledGlobal (reason : Snapshot)
  | taskFailed (e : Error)

abbrev DeferredId := Nat

abbrev TokenId := Nat

abbrev ReplyId := Nat

abbrev Settled := Outcome Handle Handle

inductive Held where
  | handle (h : Handle)
  | outcome (o : Settled)
  | action (name : String) (ending : Ending)

structure Deferred where
  promise : Option Handle
  resolve : Option Handle
  reject : Option Handle
  settled : Bool
  -- How many hold it. Its references go when the last one lets go.
  holders : Nat

namespace Deferred

def handles (d : Deferred) : List Handle :=
  d.promise.toList ++ d.resolve.toList ++ d.reject.toList

end Deferred

structure Callback where
  label : String
  body : List Op
  calls : Nat

def Callback.called (c : Callback) : Callback :=
  { c with calls := c.calls + 1 }

structure Handler where
  callback : Callback
  plan : Option (TaskPlan (List Op))

def Handler.called (h : Handler) : Handler :=
  { h with callback := h.callback.called }

def Handler.mode (h : Handler) : FunctionMode :=
  if h.plan.isSome then .async else .sync

inductive Delayed where
  | function (h : Handle)
  | host (callback : Callback)

structure Alarm where
  delayed : Delayed
  -- Whether it is so far off that nobody waits for it.
  distant : Bool

structure HostTask where
  label : String
  plan : TaskPlan (List Op)
  deferred : DeferredId

structure TaskPool where
  -- Tasks that can go on, in the order in which they are polled.
  ready : List HostTask
  -- Tasks that sleep, with the instant at which they wake.
  asleep : List (Nat × HostTask)

structure Watcher where
  promise : Handle
  token : Option TokenId
  reply : ReplyId
  deriving DecidableEq

inductive Work where
  -- A program with a reply to a caller.
  | script (ops : List Op) (reply : ReplyId)
  -- A program that nobody waits for.
  | post (label : String) (ops : List Op)
  -- Holds the worker until other items are queued.
  | gate (items : List Work)
  | noop
  | createDeferred (reply : ReplyId)
  | settle (d : DeferredId) (result : Except Snapshot Snapshot) (reply : Option ReplyId)
  | settleHandle (d : DeferredId) (fulfil : Bool) (h : Handle) (reply : ReplyId)
  | schedule (callback : Callback) (delay : Nat) (repeating : Bool) (reply : ReplyId)
  | cancelTimer (id : TimerId) (reply : ReplyId)
  -- Starts to watch the promise behind a pointer; the second reply is for when it settles.
  | watch (promise : Ptr) (token : Option TokenId) (reply settled : ReplyId)
  | settledValue (o : Settled) (reply : ReplyId)
  -- Releases handles that were let go on another thread.
  | release (handles : List Handle)

inductive Command where
  | work (w : Work)
  | shutdown

inductive Reply where
  | answer (a : Answer)
  | deferred (result : Except Error DeferredId)
  | timer (id : TimerId)
  | settled (result : Except Error Settled)

structure Worker where
  vault : Vault
  config : Config
  phase : Phase
  -- Whether work is still taken in at the front.
  accepting : Bool
  -- Whether another thread keeps the back open, shut down or not.
  held : Bool
  -- Commands sent and not yet seen.
  inbox : List Command
  -- Commands seen and not yet run.
  backlog : List Command
  -- Set by the shutdown command; the worker stops at the end of its cycle.
  stopping : Bool
  microtasks : List Callback
  timers : Timers Alarm
  functions : FunctionTable Handler
  tasks : TaskPool
  -- Whether a task is being polled.
  inTask : Bool
  -- Promises that the worker itself waits for, the innermost wait first.
  awaited : List Handle
  watchers : List Watcher
  -- When what runs now is to be interrupted.
  deadline : Option Nat
  hook : Option RejectionHook

namespace Worker

def awaitedPromises (k : Worker) : List Ptr :=
  k.awaited.reverse.map Handle.ptr

def watchedPromises (k : Worker) : List Ptr :=
  k.watchers.map fun watcher => watcher.promise.ptr

end Worker

structure Bindings where
  handles : Table String Handle
  outcomes : Table String Settled
  deferreds : Table String DeferredId
  scopes : Table String (Scope Held)
  tokens : Table String TokenId
  timers : Table String TimerId

structure SettlementWait where
  -- Whether the promise is watched, unless the wait failed before it was asked for.
  registered : Except Error ReplyId
  settled : ReplyId
  token : Option TokenId
  target : Target
  -- A program run meanwhile.
  during : Option (Except Error ReplyId)
  -- A token that is cancelled when nothing else goes on.
  cancel : Option TokenId
  -- Whether a snapshot is wanted.
  snapshot : Bool

inductive Wait where
  -- The step is over.
  | over (answer : Answer)
  | answer (reply : ReplyId)
  -- Replies to the items of a batch; a refused item has its error instead.
  | batch (replies : List (Except Error ReplyId))
  | deferred (reply : ReplyId) (target : Target)
  | timer (reply : ReplyId) (target : Target)
  -- A promise: first that the worker confirms to watch it, then that it settles.
  | settlement (s : SettlementWait)
  -- The snapshot of what a promise settled with.
  | snapshot (reply : ReplyId) (during : Option (Except Error ReplyId))
  -- The reply to a program run meanwhile; the wait itself is over.
  | meanwhile (answer : Answer) (during : Except Error ReplyId)
  -- That the worker stops.
  | stopped

structure StepReport where
  answer : Answer
  -- What was seen since the step before.
  events : List Event

structure Caller where
  steps : List CallerStep
  wait : Option Wait
  -- Newest first.
  reports : List StepReport
  replies : Table ReplyId Reply
  nextReply : ReplyId

/-- The two ways in for work. The front is closed by a shutdown; the back stays open as long as anyone can
still send. -/
inductive Port where
  | front
  | back
  deriving DecidableEq

/-- What a thread asks of the dispatcher by itself, without waiting for the worker. -/
inductive Demand where
  | send (port : Port) (w : Work)
  -- Says that the dispatcher is shutting down.
  | announce
  -- Sends the shutdown command and closes the front.
  | close
  -- Gets hold of a sender of its own, or lets it go.
  | hold
  | letGo
  -- Whoever waits for this answer stops waiting.
  | desert (reply : ReplyId)

/-- The queues that a cycle empties, and what has been going on. -/
structure Moment where
  microtasks : List Callback
  jobs : List Job
  -- The jobs that ever entered and left their queue, newest first.
  queued : List Job
  taken : List Job
  -- All that has happened to promises, newest first.
  history : List Happening
  -- The promises that the worker waits for, and those that callers wait for.
  awaited : List Ptr
  watched : List Ptr

/-- What host code finds of the engine. -/
structure Ground where
  exception : Option Ptr
  -- Of the engine's memory.
  used : Nat
  limit : Option Nat
  next : Nat
  deriving DecidableEq

/-- What happens in a dispatcher, for the record. -/
inductive Mark where
  | phase (p : Phase)
  | accepted (port : Port) (c : Command)
  | refused (port : Port) (w : Work)
  -- The worker takes a command, and starts it if it is work.
  | taken (c : Command)
  | microtaskQueued (c : Callback)
  | microtaskStarted (c : Callback)
  | cycle (n : Nat)
  -- A delayed callback starts in the cycle with this number.
  | delayed (cycle : Nat) (m : Moment)
  | flush (m : Moment)
  -- The hook is told of a rejection of this promise.
  | reported (p : Ptr)
  -- A program, a callback or a call of a host function starts, or an operation returns to its program.
  | standing (g : Ground)
  -- A fault is put in the way of the engine.
  | fault
  -- A task of a host function runs a program of its own.
  | scripted
  -- A watcher comes in.
  | watching (x : Watcher)
  -- It is answered, while this could be told of its promise.
  | answered (x : Watcher) (result : Except Error Settled) (told : Option Settlement)
  -- It is dropped without an answer. There was nobody left to answer, or there was.
  | dropped (x : Watcher) (gone : Bool)
  -- The worker is about to block. These watchers are still to be answered, and their promises have settled.
  | blocking (overdue : List Watcher)
  -- The worker leaves its loop.
  | left

structure World where
  worker : Worker
  bindings : Bindings
  caller : Caller
  deferreds : Table DeferredId Deferred
  nextDeferred : DeferredId
  -- The tokens that were cancelled.
  tokens : Table TokenId Bool
  nextToken : TokenId
  -- The answers that nobody waits for any more.
  deserted : List ReplyId
  -- Newest first.
  events : List Event
  now : Nat
  -- Cycles begun so far.
  cycles : Nat
  -- Newest first.
  journal : List Mark
  -- What other threads ask for before each of the next steps.
  arrivals : List (List Demand)

structure Operands where
  views : Table String Handle
  call : Nat

namespace Operands

def none : Operands :=
  ⟨Table.empty, 0⟩

end Operands

inductive ProgramEnd where
  | completed
  | returned (h : Handle)
  | failed (e : Answer)
  | panicked (p : Panic)

structure Ran where
  answers : List Answer
  ending : ProgramEnd

/-- What can be told of the promise that a handle holds. -/
def Vault.told (v : Vault) (p : Handle) : Option Settlement :=
  if p.isAlive v then
    ((v.link.engine.heap.promise? p.ptr).map PromiseRecord.settlement).filter fun s => s.payload? ≠ some 0
  else none

namespace World

def empty : World where
  worker :=
    { vault := default, config := default, phase := .idle, accepting := true, held := false, inbox := []
      backlog := [], stopping := false, microtasks := [], timers := .empty, functions := .empty
      tasks := ⟨[], []⟩, inTask := false, awaited := [], watchers := [], deadline := none, hook := none }
  bindings := ⟨Table.empty, Table.empty, Table.empty, Table.empty, Table.empty, Table.empty⟩
  caller := ⟨[], none, [], Table.empty, 0⟩
  deferreds := Table.empty
  nextDeferred := 0
  tokens := Table.empty
  nextToken := 0
  deserted := []
  events := []
  now := 0
  cycles := 0
  journal := []
  arrivals := []

instance : Inhabited World :=
  ⟨empty⟩

def onWorker (w : World) (f : Worker -> Worker) : World :=
  { w with worker := f w.worker }

def onVault (w : World) (f : Vault -> Vault) : World :=
  w.onWorker fun k => { k with vault := f k.vault }

def onLink (w : World) (f : Link -> Link) : World :=
  w.onVault fun v => { v with link := f v.link }

def heap (w : World) : Heap :=
  w.worker.vault.link.engine.heap

def note (w : World) (m : Mark) : World :=
  { w with journal := m :: w.journal }

/-- A wait without a token is never cancelled. -/
def isCancelled (w : World) (token : Option TokenId) : Bool :=
  token.any fun id => (w.tokens.get? id).getD false

/-- Whether nobody is left to answer: the wait was cancelled, or whoever waited has left. -/
def isGone (w : World) (x : Watcher) : Bool :=
  w.isCancelled x.token || w.deserted.contains x.reply

/-- Whether it is time to answer a watcher. -/
def isOverdue (w : World) (x : Watcher) : Bool :=
  !w.isGone x && (w.heap.promise? x.promise.ptr).any fun r => r.settlement ≠ .pending

def overdue (w : World) : List Watcher :=
  w.worker.watchers.filter w.isOverdue

def ground (w : World) : Ground :=
  let memory := w.worker.vault.link.engine.memory
  ⟨w.heap.exception, memory.used, memory.limit, memory.next⟩

def moment (w : World) : Moment :=
  ⟨w.worker.microtasks, w.heap.jobs, w.heap.queued, w.heap.taken, w.heap.history,
    w.worker.awaitedPromises, w.worker.watchedPromises⟩

/-- Records a change of phase. A shutdown under way is never overridden. -/
def setPhase (w : World) (p : Phase) : World :=
  if w.worker.phase.isOver then w else (w.onWorker fun k => { k with phase := p }).note (.phase p)

def accept (w : World) (port : Port) (c : Command) : World :=
  (w.onWorker fun k => { k with inbox := k.inbox ++ [c] }).note (.accepted port c)

def isOpen (w : World) : Port -> Bool
  | .front => w.worker.accepting
  | .back => w.worker.accepting || w.worker.held

def meet (w : World) : Demand -> World
  | .send port item =>
      if w.isOpen port then w.accept port (.work item) else w.note (.refused port item)
  | .announce => w.setPhase .shuttingDown
  | .close =>
      if w.worker.accepting then
        (w.accept .front .shutdown).onWorker fun k => { k with accepting := false }
      else w
  | .hold => w.onWorker fun k => { k with held := k.accepting || k.held }
  | .letGo => w.onWorker fun k => { k with held := false }
  | .desert reply => { w with deserted := reply :: w.deserted }

def arrive (w : World) : World :=
  match w.arrivals with
  | [] => w
  | demands :: rest => demands.foldl meet { w with arrivals := rest }

end World

inductive Change where
  | demand (d : Demand)
  | emit (e : Event)
  | bindings (f : Bindings -> Bindings)
  | caller (f : Caller -> Caller)
  -- Notes down the answer of a step of the caller, with what was seen since the step before.
  | report (a : Answer)
  | deferreds (f : Table DeferredId Deferred -> Table DeferredId Deferred)
  | newDeferred (d : Deferred)
  | newToken
  | cancelToken (id : TokenId)
  | pass (duration : Nat)
  -- Makes a host function known, unless there is one of that name.
  | register (name : String) (handler : Handler)
  -- Counts a call of a host function.
  | countCall (id : FunctionId)
  | startTask (t : HostTask)
  -- A task runs a program of its own.
  | script
  | timers (f : Timers Alarm -> Timers Alarm)
  | queueMicrotask (c : Callback)
  | hook (h : Option RejectionHook)
  | patience (polls : Option Nat)
  | fault (name : String) (f : Option Fault)
  -- Notes down what a program finds of the engine.
  | stand

namespace Change

def apply (w : World) : Change -> World
  | demand d => w.meet d
  | emit e => { w with events := e :: w.events }
  | bindings f => { w with bindings := f w.bindings }
  | caller f => { w with caller := f w.caller }
  | report a =>
      { w with
        events := []
        caller := { w.caller with wait := none, reports := ⟨a, w.events.reverse⟩ :: w.caller.reports } }
  | deferreds f => { w with deferreds := f w.deferreds }
  | newDeferred d =>
      { w with deferreds := w.deferreds.set w.nextDeferred d, nextDeferred := w.nextDeferred + 1 }
  | newToken => { w with nextToken := w.nextToken + 1 }
  | cancelToken id => { w with tokens := w.tokens.set id true }
  | pass duration => { w with now := w.now + duration }
  | register name handler =>
      w.onWorker fun k => { k with functions := k.functions.registering name handler.mode handler }
  | countCall id => w.onWorker fun k => { k with functions := k.functions.modify id Handler.called }
  | startTask t => w.onWorker fun k => { k with tasks := { k.tasks with ready := k.tasks.ready ++ [t] } }
  | script => w.note .scripted
  | timers f => w.onWorker fun k => { k with timers := f k.timers }
  | queueMicrotask c =>
      (w.onWorker fun k => { k with microtasks := k.microtasks ++ [c] }).note (.microtaskQueued c)
  | hook h => w.onWorker fun k => { k with hook := h }
  | patience polls => w.onLink fun l => { l with patience := polls }
  | fault name f => (w.onLink fun l => l.setFault name f).note .fault
  | stand => w.note (.standing w.ground)

end Change

inductive Act where
  | look
  -- Which thread acts.
  | thread
  | alter (c : Change)
  | ask (q : Ask)
  | handle (c : HandleCall)
  | program (operands : Operands) (ops : List Op)
  | await (promise : Handle) (token : Option TokenId)

namespace Act

abbrev Answer : Act -> Type
  | look => World
  | thread => Thread
  | alter _ => Unit
  | ask q => q.Answer
  | handle c => c.Answer
  | program _ _ => Ran
  | await _ _ => Except Error Settled

end Act

abbrev WorldM := Dialogue Act.Answer

namespace WorldM

def look : WorldM World :=
  .question Act.look

def thread : WorldM Thread :=
  .question Act.thread

def alter (c : Change) : WorldM Unit :=
  .question (Act.alter c)

def asking {α : Type} (act : Asking α) : WorldM α :=
  act.through fun q => .question (Act.ask q)

def handle (c : HandleCall) : WorldM c.Answer :=
  .question (Act.handle c)

def program (operands : Operands) (ops : List Op) : WorldM Ran :=
  .question (Act.program operands ops)

def await (promise : Handle) (token : Option TokenId) : WorldM (Except Error Settled) :=
  .question (Act.await promise token)

def getWorker : WorldM Worker := do
  pure (<- look).worker

def emit (e : Event) : WorldM Unit :=
  alter (.emit e)

def send (port : Port) (w : Work) : WorldM Bool := do
  let world <- look
  alter (.demand (.send port w))
  pure (world.isOpen port)

/-- Asks the worker to stop, once. Nothing is taken in at the front from then on. -/
def requestShutdown : WorldM Unit := do
  alter (.demand .announce)
  let _ <- look
  alter (.demand .close)

end WorldM

end ScriptHost
