import ScriptHost.Dispatcher.Cycle

set_option autoImplicit false

/-!
Sessions: a dispatcher from its start to its end, together with a caller that goes through its steps.
-/

namespace ScriptHost

structure SessionStart where
  config : Config
  -- Faults that are in the way from the beginning.
  faults : List (String × Option Fault)
  -- The error with which making the engine fails, if it does.
  failure : Option String

structure SessionReport where
  steps : List StepReport
  phase : Phase
  -- What was seen after the last step.
  events : List Event

namespace SessionStart

def link (s : SessionStart) : Link :=
  s.faults.foldl (fun l f => l.setFault f.1 f.2) Link.empty

def start (s : SessionStart) : Except Error World := do
  match s.config.validate with
  | .error cause => .error (.config cause)
  | .ok () =>
      match s.failure with
      | some message => .error (.host message)
      | none =>
          let (opened, link) := (OwnerM.openEngine s.config.memoryLimit).run.run s.link
          opened
          let w := World.empty
          .ok
            { w with
              worker := { w.worker with config := s.config, vault := Vault.ofLink link.installHost }
              journal := s.faults.map fun _ => .fault }

end SessionStart

namespace WorldM

def discardCommands : List Command -> WorldM Unit
  | [] => pure ()
  | .work w :: rest => do
      discardWork w
      discardCommands rest
  | .shutdown :: rest => discardCommands rest

def letGoDeferreds : List DeferredId -> WorldM Unit
  | [] => pure ()
  | id :: rest => do
      letGoDeferred id
      letGoDeferreds rest

def discardAll {α : Type} (discard : α -> WorldM Unit) : List α -> WorldM Unit
  | [] => pure ()
  | a :: rest => do
      discard a
      discardAll discard rest

def scopesByName (v : Bindings) : List (Scope Held) :=
  (v.scopes.entries.mergeSort fun a b => decide (a.1 ≤ b.1)).map Prod.snd

def dropBindings : WorldM Unit := do
  let bindings := (<- look).bindings
  alter (.bindings fun _ => World.empty.bindings)
  discardAll discardHandle bindings.handles.values
  discardAll discardOutcome bindings.outcomes.values
  discardAll letGoDeferred bindings.deferreds.values
  discardAll Scope.discard (scopesByName bindings)

end WorldM

namespace LoopM

def work (r : Runner) : Nat -> LoopM Unit
  | 0 => exhausted
  | left + 1 => do
      if (<- getWorker).stopping then pure ()
      else
        runCycle r
        if (<- getWorker).stopping then pure ()
        else
          if !(<- hasPending r) then idleWait r none
          work r left

/-- Leaves the loop and lets go of everything that the worker still holds. Nobody is told if that fails. -/
def letGoAll : LoopM Unit := do
  let r := Runner.flat
  step .leave
  let k <- getWorker
  step .dropCommands
  r.act (WorldM.discardCommands (k.backlog ++ k.inbox))
  step .dropWork
  r.act (WorldM.discardHandles (k.watchers.map Watcher.promise))
  r.act (WorldM.discardAlarms k.timers.drain.1)
  r.act (WorldM.letGoDeferreds ((k.tasks.ready ++ k.tasks.asleep.map Prod.snd).map HostTask.deferred))
  step .dropFunctions
  r.act (WorldM.discardHandles k.awaited)

def shutEngine : LoopM Unit := do
  step .closeVault
  let _ <- Act.onVault (Vault.onLink OwnerM.closeEngine.run)
  step .stop

def tearDown : LoopM Unit := do
  letGoAll
  shutEngine

def finishCaller (r : Runner) : Nat -> LoopM Unit
  | 0 => exhausted
  | left + 1 => do
      if <- r.on .other (WorldM.callerTurn true true) then finishCaller r left else pure ()

def session (r : Runner) : LoopM SessionReport := do
  work r r.fuel
  tearDown
  finishCaller r r.fuel
  let phase := (<- getWorker).phase
  r.on .other WorldM.dropBindings
  let w <- look
  pure ⟨w.caller.reports.reverse, phase, w.events.reverse⟩

end LoopM

namespace SessionReport

def fuel : Nat :=
  1000000

/-- A session as far as it comes, with the world at that point. -/
def run (s : SessionStart) (steps : List CallerStep) (arrivals : List (List Demand)) (fuel : Nat) :
    Except Error (Option SessionReport × World) :=
  s.start.map fun w =>
    (LoopM.session (Runner.ofFuel fuel)).run { w with caller := { w.caller with steps }, arrivals }

/-- The report of a session that no other threads interfere with: an error if the worker did not start, and
nothing if the session does not come to its end. -/
def ofSteps (s : SessionStart) (steps : List CallerStep) : Option (Except Error SessionReport) :=
  match run s steps [] fuel with
  | .error e => some (.error e)
  | .ok (report, _) => report.map .ok

end SessionReport

end ScriptHost
