import ScriptHost.Answer
import ScriptHost.Bench.Probe
import ScriptHost.Outcome

set_option autoImplicit false

/-!
Steps on an outcome that holds a probe.
-/

namespace ScriptHost

inductive OutcomeStep where
  | flags
  | success
  | failure
  | peek
  | takeSuccess
  | takeFailure
  | matchWith
  | dispose
  | release
  | render
  -- Uses the outcome up.
  | toResult
  -- Releases the payload that was taken out last.
  | releaseTaken

structure OutcomeBench where
  outcome : Option (Outcome Probe Probe)
  taken : Option Probe

namespace OutcomeStep

abbrev ProbeOutcome := Outcome Probe Probe

def ofPayload : Option Probe -> Answer :=
  .ofOption fun p => .text p.name

def taking : Except Error Probe -> Answer × Option Probe
  | .ok p => (.text p.name, some p)
  | .error e => (.failure e, none)

def runOn (b : OutcomeBench) (o : ProbeOutcome) : OutcomeStep -> ReleaseLog (Answer × OutcomeBench)
  | flags => pure (.list [.bool o.isSuccess, .bool (!o.isSuccess), .bool o.isTransferred], b)
  | success => pure (ofPayload o.success?, b)
  | failure => pure (ofPayload o.failure?, b)
  | peek => pure (.ofExcept (fun p => .text p.name) o.peek, b)
  | takeSuccess =>
      let (answer, taken) := taking o.takeSuccess.1
      pure (answer, ⟨some o.takeSuccess.2, taken.or b.taken⟩)
  | takeFailure =>
      let (answer, taken) := taking o.takeFailure.1
      pure (answer, ⟨some o.takeFailure.2, taken.or b.taken⟩)
  | matchWith =>
      let named (side : String) (p : Probe) : Answer := .list [.text side, .text p.name]
      pure (.ofExcept (fun a => a) (o.matchWith (named "success") (named "failure")), b)
  | dispose | release => do
      let (ending, o) <- o.dispose
      pure (.ofResult ending.toExcept, { b with outcome := some o })
  | render => pure (.text (o.render Probe.name Probe.name), b)
  | toResult =>
      match o.toResult with
      | .error e => pure (.failure e, { b with outcome := none })
      | .ok (.ok p) => pure (.list [.text "ok", .text p.name], ⟨none, some p⟩)
      | .ok (.error p) => pure (.list [.text "err", .text p.name], ⟨none, some p⟩)
  | releaseTaken => pure (.absent, b)

def run (b : OutcomeBench) : OutcomeStep -> ReleaseLog (Answer × OutcomeBench)
  | releaseTaken =>
      match b.taken with
      | none => pure (.absent, b)
      | some p => do
          let (ending, p) <- Resource.release p
          pure (.ofResult ending.toExcept, { b with taken := some p })
  | step =>
      match b.outcome with
      | none => pure (.text "consumed", b)
      | some o => runOn b o step

def runAll : OutcomeBench -> List OutcomeStep -> List (Answer × List ReleaseEvent)
  | _, [] => []
  | b, first :: rest =>
      let ((answer, next), events) := (run b first).run []
      (answer, events.reverse) :: runAll next rest

end OutcomeStep

end ScriptHost
