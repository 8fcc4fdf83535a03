import ScriptHost.Dispatcher.Caller

set_option autoImplicit false

/-!
What the worker runs: work items, tasks of host functions, jobs and delayed callbacks.
-/

namespace ScriptHost

namespace WorldM

-- Timers

/-- Nobody waits for timers that are off by this many milliseconds or more. -/
def distantDelay : Nat := 60000

def microseconds (milliseconds : Nat) : Nat :=
  milliseconds * 1000

def scheduleAlarm (delayed : Delayed) (delay : Nat) (repeating : Bool) : WorldM TimerId := do
  let w <- look
  let alarm : Alarm := ⟨delayed, decide (distantDelay ≤ delay)⟩
  let (id, timers) := w.worker.timers.schedule w.now alarm (microseconds delay) repeating
  alter (.timers fun _ => timers)
  pure id

def discardAlarm (a : Alarm) : WorldM Unit :=
  match a.delayed with
  | .function h => discardHandle h
  | .host _ => pure ()

def discardAlarms : List Alarm -> WorldM Unit
  | [] => pure ()
  | a :: rest => do
      discardAlarm a
      discardAlarms rest

def cancelAlarm (id : TimerId) : WorldM Bool := do
  let (found, timers) := (<- getWorker).timers.cancel id
  alter (.timers fun _ => timers)
  match found with
  | none => pure false
  | some callback =>
      discardAlarms callback.toList
      pure true

-- Work items

def answerOf : Except Answer (List Answer) -> Answer
  | .ok answers => .list answers
  | .error a => a

def sendAll : List Work -> WorldM Unit
  | [] => pure ()
  | w :: rest => do
      let _ <- submit w
      sendAll rest

def carryOut : Work -> WorldM Unit
  | .script ops reply => do
      let ran <- program Operands.none ops
      putReply reply (.answer (answerOf (<- verdict ran)))
  | .post label ops => do
      let ran <- runCallback ⟨label, ops, 1⟩ Operands.none 0
      let _ <- verdict ran
  | .gate items => sendAll items
  | .noop => pure ()
  | .createDeferred reply => do putReply reply (.deferred (<- Attempt.createDeferred.run))
  | .settle d result reply => do
      let settled <- (Attempt.settleResult d result).run
      letGoDeferred d
      match reply with
      | some id => putReply id (.answer (.ofResult settled))
      | none => pure ()
  | .settleHandle d fulfil h reply => do
      let settled <- (Attempt.holding h fun h => Attempt.settle d fulfil h).run
      letGoDeferred d
      putReply reply (.answer (.ofResult settled))
  | .schedule callback delay repeating reply => do
      putReply reply (.timer (<- scheduleAlarm (.host callback) delay repeating))
  | .cancelTimer id reply => do putReply reply (.answer (.bool (<- cancelAlarm id)))
  -- Watchers are for the loop to take in.
  | .watch _ _ _ _ => pure ()
  | .settledValue o reply => do
      putReply reply (.answer (.ofExcept .snapshot (<- (Attempt.settledValue o).run)))
  | .release handles => discardHandles handles

def runWork (w : Work) : WorldM Unit := do
  alter .stand
  carryOut w

-- Tasks of host functions

inductive TaskStep where
  | yielded (t : HostTask)
  | sleeping (wake : Nat) (t : HostTask)
  | over

def runTaskScript (label : String) : Option (List Op) -> WorldM Unit
  | none => pure ()
  | some ops => do
      alter .script
      let ran <- runCallback ⟨"task:" ++ label, ops, 1⟩ Operands.none 0
      match <- verdict ran with
      | .ok _ => pure ()
      | .error a => emit (.taskFailed (errorOf a))

/-- Polls a task: it goes on to its next pause or to its end. The result of one that completes settles its
promise in a work item; one that panics lets its promise go. -/
def pollTask (t : HostTask) : WorldM TaskStep := do
  match t.plan.yields, t.plan.sleep with
  | yields + 1, _ => pure (.yielded { t with plan := { t.plan with yields } })
  | 0, some duration =>
      pure (.sleeping ((<- look).now + microseconds duration) { t with plan := { t.plan with sleep := none } })
  | 0, none =>
      runTaskScript t.label t.plan.script
      match t.plan.panic with
      | some _ => letGoDeferred t.deferred
      | none =>
          let _ <- submitBy .back (.settle t.deferred t.plan.result none)
      pure .over

-- Jobs

def dropJobError : WorldM Unit := do
  let taken <- (do
    let exception <- Attempt.withLink "last error" Link.takeLastError
    match exception with
    | none => pure ()
    | some p => do
        let h <- Attempt.own p
        let _ <- Attempt.holding h Attempt.toText : Attempt Unit).run
  match taken with
  | .ok () => pure ()
  | .error _ => pure ()

def executeJob : Attempt JobStep := do
  Attempt.checkAccess "execute pending job"
  host.executePendingJob

-- Delayed callbacks

def runAlarm (a : Alarm) : WorldM Alarm := do
  alter .stand
  match a.delayed with
  | .function f =>
      match <- (Attempt.callChecked f none []).run with
      | .ok h => discardHandle h
      | .error _ => pure ()
      pure a
  | .host c =>
      let c := { c with calls := c.calls + 1 }
      let ran <- runCallback c ⟨Table.empty, c.calls⟩ 0
      let _ <- verdict ran
      pure { a with delayed := .host c }

-- Settlements

def hasSettled (p : Handle) : Attempt Bool := do
  match <- Attempt.settlement p with
  | none => pure false
  | some o =>
      discardOutcome o
      pure true

end WorldM

end ScriptHost
