import ScriptHost.Dispatcher.World

set_option autoImplicit false

/-!
The loop of the worker: what only it can do, and how it runs host code.
-/

namespace ScriptHost

inductive Duty where
  | phase (p : Phase)
  -- Takes up all commands that have been sent.
  | pull
  -- Takes up one of them.
  | receive
  -- Takes the next command. A shutdown is the last one.
  | take
  | takeMicrotask
  | tasks (f : TaskPool -> TaskPool)
  | polling (b : Bool)
  | deadline (d : Option Nat)
  | timers (f : Timers Alarm -> Timers Alarm)
  | advance (instant : Nat)
  | beginCycle
  | delayed (cycle : Nat)
  | flush
  -- Calls the hook for a rejection of this promise.
  | report (p : Ptr) (reason : Snapshot)
  | beginWait (h : Handle)
  | endWait
  | watch (x : Watcher)
  -- Replies to a watcher and is done with it.
  | answer (x : Watcher) (result : Except Error Settled)
  -- Is done with a watcher that nobody waits for any more.
  | forsake (x : Watcher)
  -- Is about to block.
  | block
  -- Leaves the loop; from then on nothing is taken in.
  | leave
  | dropCommands
  | dropWork
  | dropFunctions
  | closeVault
  | stop

/-- What is seen of a rejection that nobody has handled. Without a hook of its own, the worker has the
global one. -/
def Worker.complaint (k : Worker) (reason : Snapshot) : Event :=
  match k.hook with
  | some .record => .unhandled reason
  | some .panic => .unhandledPanic reason
  | none => .unhandledGlobal reason

namespace Duty

def apply (w : World) : Duty -> World
  | phase p => w.setPhase p
  | pull => w.onWorker fun k => { k with inbox := [], backlog := k.backlog ++ k.inbox }
  | receive =>
      match w.worker.inbox with
      | [] => w
      | c :: rest => w.onWorker fun k => { k with inbox := rest, backlog := k.backlog ++ [c] }
  | take =>
      match w.worker.backlog with
      | [] => w
      | .shutdown :: rest =>
          (w.onWorker fun k => { k with backlog := rest, stopping := true }).note (.taken .shutdown)
      | .work item :: rest => (w.onWorker fun k => { k with backlog := rest }).note (.taken (.work item))
  | takeMicrotask =>
      match w.worker.microtasks with
      | [] => w
      | c :: rest => (w.onWorker fun k => { k with microtasks := rest }).note (.microtaskStarted c)
  | tasks f => w.onWorker fun k => { k with tasks := f k.tasks }
  | polling b => w.onWorker fun k => { k with inTask := b }
  | deadline d => w.onWorker fun k => { k with deadline := d }
  | timers f => w.onWorker fun k => { k with timers := f k.timers }
  | advance instant => { w with now := max w.now instant }
  | beginCycle => { w with cycles := w.cycles + 1 }.note (.cycle w.cycles)
  | delayed n => w.note (.delayed n w.moment)
  | flush => w.note (.flush w.moment)
  | report p reason => { w with events := w.worker.complaint reason :: w.events }.note (.reported p)
  | beginWait h => w.onWorker fun k => { k with awaited := h :: k.awaited }
  | endWait => w.onWorker fun k => { k with awaited := k.awaited.drop 1 }
  | watch x => (w.onWorker fun k => { k with watchers := k.watchers ++ [x] }).note (.watching x)
  | answer x result =>
      { w.onWorker fun k => { k with watchers := k.watchers.erase x } with
        caller := { w.caller with replies := w.caller.replies.set x.reply (.settled result) } }.note
          (.answered x result (w.worker.vault.told x.promise))
  | forsake x =>
      (w.onWorker fun k => { k with watchers := k.watchers.erase x }).note (.dropped x (w.isGone x))
  | block => w.note (.blocking w.overdue)
  | leave =>
      ((w.setPhase .shuttingDown).onWorker fun k => { k with accepting := false, held := false }).note .left
  | dropCommands => w.onWorker fun k => { k with inbox := [], backlog := [] }
  | dropWork =>
      w.onWorker fun k =>
        { k with watchers := [], timers := k.timers.drain.2, microtasks := [], tasks := ⟨[], []⟩ }
  | dropFunctions => w.onWorker fun k => { k with functions := k.functions.clear, awaited := [] }
  | closeVault => w.onVault fun v => { v with closed := true }
  | stop => (w.onWorker fun k => { k with phase := .stopped }).note (.phase .stopped)

end Duty

/-- What the loop does. It has no result if it did not come to its end within the steps that it was given,
but even then there is a world that it has come to. -/
abbrev LoopM := OptionT (StateM World)

namespace LoopM

def exhausted {α : Type} : LoopM α :=
  OptionT.mk (pure none)

/-- Other threads may have acted since the worker looked last. -/
def look : LoopM World := do
  modify World.arrive
  get

def getWorker : LoopM Worker := do
  pure (<- look).worker

def step (m : Duty) : LoopM Unit := do
  modify World.arrive
  modify fun w => m.apply w

end LoopM

/-- Runs programs and waits of host code, nested ones with less and less fuel. Loops go around at most
`fuel` times. -/
structure Runner where
  fuel : Nat
  program : Thread -> Operands -> List Op -> LoopM Ran
  await : Thread -> Handle -> Option TokenId -> LoopM (Except Error Settled)

namespace Act

def onVault {α : Type} (act : StateM Vault α) : LoopM α :=
  modifyGet fun w =>
    let (a, vault) := act.run w.worker.vault
    (a, w.onVault fun _ => vault)

/-- The engine can be asked on the thread of the worker only. Elsewhere nobody gets an answer. -/
def answerFor (t : Thread) (q : Ask) : LoopM q.Answer :=
  match t with
  | .worker => onVault (Vault.onLink q.perform)
  | .other => LoopM.exhausted

def perform (r : Runner) (t : Thread) : (a : Act) -> LoopM a.Answer
  | look => LoopM.look
  | thread => pure t
  | alter c => modify fun w => c.apply w
  | ask q => answerFor t q
  | handle c => onVault (c.perform t)
  | program operands ops => r.program t operands ops
  | await h token => r.await t h token

end Act

namespace Runner

def on {α : Type} (r : Runner) (t : Thread) (act : WorldM α) : LoopM α :=
  act.through (Act.perform r t)

def act {α : Type} (r : Runner) (act : WorldM α) : LoopM α :=
  r.on .worker act

def flat : Runner :=
  ⟨0, fun _ _ _ => LoopM.exhausted, fun _ _ _ => LoopM.exhausted⟩

end Runner

end ScriptHost
