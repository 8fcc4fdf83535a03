import ScriptHost.Dispatcher.Exec
import ScriptHost.Dispatcher.Rejections

set_option autoImplicit false

/-!
The drain cycle of the worker.

A cycle runs the work items that were queued at its start, polls the tasks of host functions once, runs
microtasks and jobs until neither is left, then at most one delayed callback, and reports the rejections
that nobody has handled. Waiting for a promise on the worker runs such cycles in place.
-/

namespace ScriptHost

namespace LoopM

-- Watchers

def conclude (r : Runner) (x : Watcher) (result : Except Error Settled) : LoopM Unit := do
  step (.answer x result)
  r.act (WorldM.discardHandle x.promise)

/-- Answers a watcher whose promise has settled, and drops one that nobody is left to answer. -/
def checkWatcher (r : Runner) (x : Watcher) : LoopM Unit := do
  if (<- look).isGone x then
    step (.forsake x)
    r.act (WorldM.discardHandle x.promise)
  else
    match <- r.act (Attempt.settlement x.promise).run with
    | .ok none => pure ()
    | .ok (some o) => conclude r x (.ok o)
    | .error e => conclude r x (.error e)

def checkAll (r : Runner) : List Watcher -> LoopM Unit
  | [] => pure ()
  | x :: rest => do
      checkWatcher r x
      checkAll r rest

def checkWatchers (r : Runner) : LoopM Unit := do
  checkAll r (<- getWorker).watchers

-- Work items

def withDeadline {α : Type} (act : LoopM α) : LoopM α := do
  let w <- look
  let outer := w.worker.deadline
  step (.deadline (outer.or (w.worker.config.timeout.map fun t => w.now + Config.ticks t)))
  let a <- act
  step (.deadline outer)
  pure a

def nextCommand : LoopM (Option Command) := do
  let k <- getWorker
  step .take
  pure k.backlog.head?

/-- Takes in a watcher. If its promise has settled it is answered at once. -/
def watch (r : Runner) (p : Ptr) (token : Option TokenId) (reply : ReplyId) : LoopM (Except Error Unit) := do
  match <- r.act (Attempt.duplicate (.ofBorrowed p)).run with
  | .error e => pure (.error e)
  | .ok promise =>
      match <- r.act (Attempt.settlement promise).run with
      | .error e =>
          r.act (WorldM.discardHandle promise)
          pure (.error e)
      | .ok found =>
          step (.watch ⟨promise, token, reply⟩)
          match found with
          | none => pure ()
          | some o => conclude r ⟨promise, token, reply⟩ (.ok o)
          pure (.ok ())

def runWork (r : Runner) : Work -> LoopM Unit
  | .watch p token reply settled => do
      r.act (WorldM.alter .stand)
      let watched <- watch r p token settled
      r.act (WorldM.putReply reply (.answer (.ofResult watched)))
  | w => r.act (WorldM.runWork w)

def runCommands (r : Runner) : Nat -> LoopM Unit
  | 0 => pure ()
  | left + 1 => do
      match <- nextCommand with
      | none => pure ()
      | some .shutdown => pure ()
      | some (.work w) =>
          withDeadline (runWork r w)
          runCommands r left

def drainWork (r : Runner) : LoopM Unit := do
  step .pull
  let queued := (<- getWorker).backlog.length
  if queued = 0 then pure ()
  else
    step (.phase .drainingWork)
    runCommands r queued

-- Tasks of host functions

/-- Polls every task that is ready, and those that start meanwhile. Tasks that yield are ready again in the
next round. -/
def pollReady (r : Runner) : Nat -> List HostTask -> LoopM Unit
  | 0, _ => exhausted
  | left + 1, yielded => do
      match (<- getWorker).tasks.ready with
      | [] => step (.tasks fun p => { p with ready := yielded })
      | t :: rest =>
          step (.tasks fun p => { p with ready := rest })
          match <- r.act (WorldM.pollTask t) with
          | .yielded t => pollReady r left (yielded ++ [t])
          | .sleeping wake t =>
              step (.tasks fun p => { p with asleep := p.asleep ++ [(wake, t)] })
              pollReady r left yielded
          | .over => pollReady r left yielded

def pollRound (r : Runner) : LoopM Unit := do
  step (.polling true)
  pollReady r r.fuel []
  step (.polling false)

def wakeTasks : LoopM Unit := do
  let now := (<- look).now
  step (.tasks fun p =>
    let (awake, asleep) := p.asleep.partition fun e => decide (e.1 ≤ now)
    ⟨p.ready ++ awake.map Prod.snd, asleep⟩)

def pollTasks (r : Runner) : LoopM Unit := do
  pollRound r
  wakeTasks

-- Microtasks and jobs

def nextMicrotask : LoopM (Option Callback) := do
  let k <- getWorker
  step .takeMicrotask
  pure k.microtasks.head?

def runMicrotask (c : Callback) : WorldM Unit := do
  let ran <- WorldM.runCallback c Operands.none 0
  let _ <- WorldM.verdict ran

def runMicrotasks (r : Runner) : Nat -> LoopM Bool
  | 0 => exhausted
  | left + 1 => do
      match <- nextMicrotask with
      | none => pure false
      | some c =>
          r.act (runMicrotask c)
          let _ <- runMicrotasks r left
          pure true

/-- Runs jobs until none is left or the engine cannot be asked. The answer is whether any ran. -/
def runJobs (r : Runner) : Nat -> LoopM Bool
  | 0 => exhausted
  | left + 1 => do
      match <- r.act WorldM.executeJob.run with
      | .error _ => pure false
      | .ok .idle => pure false
      | .ok .ran => do
          let _ <- runJobs r left
          pure true
      | .ok .failed => do
          r.act WorldM.dropJobError
          let _ <- runJobs r left
          pure true

def settleImmediate (r : Runner) : Nat -> LoopM Unit
  | 0 => exhausted
  | left + 1 => do
      let someTasks <- runMicrotasks r r.fuel
      let someJobs <- runJobs r r.fuel
      if someTasks || someJobs then settleImmediate r left else pure ()

def drainImmediate (r : Runner) : LoopM Unit := do
  step (.phase .drainingImmediate)
  withDeadline do
    settleImmediate r r.fuel
    checkWatchers r

-- Delayed callbacks

def runOneDelayed (r : Runner) (cycle : Nat) : LoopM Bool := do
  let w <- look
  let (due, timers) := w.worker.timers.takeDue w.now
  step (.timers fun _ => timers)
  match due with
  | none => pure false
  | some (id, alarm) =>
      step (.phase .runningDelayed)
      step (.delayed cycle)
      let alarm <- withDeadline (r.act (WorldM.runAlarm alarm))
      let (back, timers) := (<- getWorker).timers.restore id alarm
      step (.timers fun _ => timers)
      r.act (WorldM.discardAlarms back.toList)
      pure true

-- Cycles

def runCycle (r : Runner) : LoopM Unit := do
  let cycle := (<- look).cycles
  step .beginCycle
  drainWork r
  pollTasks r
  drainImmediate r
  if <- runOneDelayed r cycle then drainImmediate r
  flushRejections
  step (.phase .idle)

def nextDeadline : LoopM (Option Nat) := do
  let (deadline, timers) := (<- getWorker).timers.nextDeadline
  step (.timers fun _ => timers)
  pure deadline

def isDelayedDue : LoopM Bool := do
  match <- nextDeadline with
  | some instant => do pure (decide (instant ≤ (<- look).now))
  | none => pure false

def hasPending (r : Runner) : LoopM Bool := do
  step .pull
  let k <- getWorker
  if !k.backlog.isEmpty || !k.microtasks.isEmpty then pure true
  else
    match <- r.act (Attempt.withLink "job pending" Link.isJobPending).run with
    | .ok true => pure true
    | _ => isDelayedDue

def nextInstant (w : World) : Option Nat :=
  let near (t : Timer Alarm) : Bool := !(t.callback.any Alarm.distant)
  let wakes := w.worker.tasks.asleep.map Prod.fst
  (w.worker.timers.nextWhere near).toList.foldl (fun a b => some (a.elim b (min b)))
    (wakes.foldl (fun a b => some (a.elim b (min b))) none)

/-- Waits until a command comes, a delayed callback is due or the token is cancelled. Tasks go on
meanwhile. When nothing is left that goes on by itself, time passes; and when nothing is left that only
needs time, it is the caller's turn. -/
def idle (r : Runner) (token : Option TokenId) : Nat -> LoopM Unit
  | 0 => exhausted
  | left + 1 => do
      step .block
      match (<- getWorker).inbox with
      | _ :: _ => step .receive
      | [] =>
          if <- r.act (WorldM.isCancelled token) then pure ()
          else if <- isDelayedDue then pure ()
          else if !(<- getWorker).tasks.ready.isEmpty then
            pollRound r
            idle r token left
          else
            wakeTasks
            if !(<- getWorker).tasks.ready.isEmpty then idle r token left
            else if <- r.on .other (WorldM.callerTurn false false) then idle r token left
            else
              match nextInstant (<- look) with
              | some instant =>
                  step (.advance instant)
                  idle r token left
              | none =>
                  if <- r.on .other (WorldM.callerTurn false true) then idle r token left
                  else if (<- look).arrivals.isEmpty then exhausted
                  else idle r token left

def idleWait (r : Runner) (token : Option TokenId) : LoopM Unit := do
  step (.phase .idle)
  idle r token r.fuel

-- Waiting on the worker

def pump (r : Runner) (p : Handle) (token : Option TokenId) : Nat -> LoopM (Except Error Settled)
  | 0 => exhausted
  | left + 1 => do
      match <- r.act (Attempt.settlement p).run with
      | .error e => pure (.error e)
      | .ok (some o) => pure (.ok o)
      | .ok none =>
          if <- r.act (WorldM.isCancelled token) then pure (.error .cancelled)
          else if (<- getWorker).stopping then pure (.error .shuttingDown)
          else
            runCycle r
            match <- r.act (WorldM.hasSettled p).run with
            | .error e => pure (.error e)
            | .ok settled =>
                if !settled && !(<- getWorker).stopping then
                  if !(<- hasPending r) then idleWait r token
                pump r p token left

/-- Waits for a promise on the worker. Its rejection counts as handled as long as the wait goes on. -/
def awaitSettlement (r : Runner) (t : Thread) (p : Handle) (token : Option TokenId) :
    LoopM (Except Error Settled) := do
  if (<- getWorker).inTask then pure (.error (.state .pumpInsideTask))
  else
    match <- r.on t (Attempt.duplicate p).run with
    | .error e => pure (.error e)
    | .ok h =>
        step (.beginWait h)
        let result <- pump r p token r.fuel
        let finished := (<- getWorker).awaited.head?
        step .endWait
        r.act (WorldM.discardHandles finished.toList)
        pure result

end LoopM

namespace Runner

def ofFuel : Nat -> Runner
  | 0 => flat
  | fuel + 1 =>
      { fuel := fuel
        program := fun t operands ops => (ofFuel fuel).on t (Op.runAll operands ops)
        await := fun t p token => LoopM.awaitSettlement (ofFuel fuel) t p token }

end Runner

end ScriptHost
