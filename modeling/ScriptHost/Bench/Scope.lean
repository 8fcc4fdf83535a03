import ScriptHost.Answer
import ScriptHost.Bench.Probe
import ScriptHost.Outcome
import ScriptHost.Scope

set_option autoImplicit false

/-!
Steps that defer probes in a scope and dispose it.
-/

namespace ScriptHost

inductive Probed where
  | probe (p : Probe)
  | outcome (o : Outcome Probe Probe)
  -- An action that can be run once.
  | action (name : String) (ending : Ending)

instance : Resource ReleaseLog Probed where
  release
    | .probe p => do
        let (ending, p) <- Resource.release p
        pure (ending, .probe p)
    | .outcome o => do
        let (ending, o) <- o.dispose
        pure (ending, .outcome o)
    | .action name ending => do
        ReleaseLog.write (.ran name)
        pure (ending, .action name (.failed (.usedAfterRelease "deferred action")))
  discard
    | .probe p => Resource.discard p
    | .outcome o => Resource.discard o
    | .action _ _ => pure ()

inductive ScopeStep where
  | action (name : String) (ending : Ending)
  -- Defers a probe; if `early`, the view that deferring returns is released at once.
  | probe (p : Probe) (early : Bool)
  | outcome (success : Bool) (p : Probe)
  -- A nested scope, filled before it is deferred and through the returned view afterwards.
  | child (before after : List ScopeStep)
  -- A scope that is filled and goes out of use.
  | dropped (steps : List ScopeStep)
  | run (steps : List ScopeStep) (ending : Ending)
  | dispose
  | release
  | info

namespace ScopeStep

abbrev ProbeScope := Scope Probed

def answerOf (result : Except Error Unit × ProbeScope) : Answer × ProbeScope :=
  (.ofResult result.1, result.2)

def deferProbe (s : ProbeScope) (p : Probe) (early : Bool) : ReleaseLog (Answer × ProbeScope) := do
  match <- s.defer (.leaf (.probe p)) with
  | (.error e, s) => pure (.failure e, s)
  | (.ok (), s) =>
      if early then
        let (ending, p) <- Resource.release p
        pure (.ofResult ending.toExcept, s.replaceNewest (.leaf (.probe p)))
      else pure (.ok, s)

def deferOutcome (s : ProbeScope) (success : Bool) (p : Probe) : ReleaseLog (Answer × ProbeScope) := do
  let o : Outcome Probe Probe := if success then .success (.live p) else .failure (.live p)
  match <- s.defer (.leaf (.outcome o)) with
  | (.error e, s) => pure (.failure e, s)
  | (.ok (), s) => pure (.text (o.render Probe.name Probe.name), s)

mutual

def step (s : ProbeScope) : ScopeStep -> ReleaseLog (Answer × ProbeScope)
  | action name ending => do pure (answerOf (<- s.defer (.leaf (.action name ending))))
  | probe p early => deferProbe s p early
  | outcome success p => deferOutcome s success p
  | child before after => do
      let (first, inner) <- steps Scope.empty before
      match <- s.defer inner.toEntry with
      | (.error e, s) => pure (.list [.list first, .failure e], s)
      | (.ok (), s) =>
          let (second, inner) <- steps inner after
          pure (.list [.list first, .list second], s.replaceNewest inner.toEntry)
  | dropped inside => do
      let (answers, inner) <- steps Scope.empty inside
      inner.discard
      pure (.list answers, s)
  | run inside ending => do
      let (answers, inner) <- steps Scope.empty inside
      let (disposal, _) <- inner.dispose
      let shown := match Scope.settle ending.toExcept disposal with
        | .ok () => .text "value"
        | .error e => .failure e
      pure (.list [.list answers, shown], s)
  | dispose => do pure (answerOf (<- s.dispose))
  | release => do pure (answerOf (<- s.release))
  | info => pure (.list [.nat s.size, .bool s.stack.isEmpty, .bool s.disposed], s)

def steps (s : ProbeScope) : List ScopeStep -> ReleaseLog (List Answer × ProbeScope)
  | [] => pure ([], s)
  | first :: rest => do
      let (answer, s) <- step s first
      let (answers, s) <- steps s rest
      pure (answer :: answers, s)

end

def runAll (s : ProbeScope) : List ScopeStep -> List (Answer × List ReleaseEvent) × List ReleaseEvent
  | [] =>
      let leaving : ReleaseLog Unit := s.discard
      let (_, events) := leaving.run []
      ([], events.reverse)
  | first :: rest =>
      let ((answer, s), events) := (step s first).run []
      let (answers, last) := runAll s rest
      ((answer, events.reverse) :: answers, last)

end ScopeStep

end ScriptHost
