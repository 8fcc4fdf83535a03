import ScriptHost.Dispatcher.AnyThread
import ScriptHost.Dispatcher.OnWorker

set_option autoImplicit false

/-!
Programs: operations run one after the other, each with an answer, up to one that ends the program.

An operation that fails answers with its failure and the program goes on.
-/

namespace ScriptHost

inductive Effect where
  | answer (a : Answer)
  | failure (a : Answer)
  -- There is no answer to this operation.
  | silent
  -- The program ends here, without an answer to this operation.
  | stop (ending : ProgramEnd)

namespace Op

def ofOpM (act : OpM Answer) : WorldM Effect := do
  match <- act.run with
  | .ok a => pure (.answer a)
  | .error a => pure (.failure a)

def onWorker (act : WorldM Effect) : WorldM Effect := do
  match <- WorldM.thread with
  | .worker => act
  | .other => pure (.failure .noContext)

def defineFunction (name : String) (body : List Op) (plan : Option (TaskPlan (List Op))) (target : Target) :
    OpM Answer :=
  WorkerOp.bindMade target (Attempt.registerFunction name ⟨⟨"fn:" ++ name, body, 0⟩, plan⟩)

def queueMicrotask (name : String) (body : List Op) : WorldM Unit :=
  WorldM.alter (.queueMicrotask ⟨"micro:" ++ name, body, 0⟩)

def scheduleTimer (name : String) (body : List Op) (delay : Nat) (repeating : Bool) (target : Target) :
    WorldM Answer := do
  let id <- WorldM.scheduleAlarm (.host ⟨"timer:" ++ name, body, 0⟩) delay repeating
  WorldM.bindTimer target id
  pure (.nat id.toNat)

def runInline (body : List Op) : WorldM Effect := do
  match <- WorldM.verdict (<- WorldM.program Operands.none body) with
  | .ok answers => pure (.answer (.list answers))
  | .error a => pure (.failure a)

def postWork (name : String) (body : List Op) : WorldM Answer := do
  let _ <- WorldM.submit (.post ("work:" ++ name) body)
  pure .ok

def finishedScope (target : Target) : WorldM (Scope Held) := do
  match target with
  | none => pure Scope.empty
  | some name =>
      let found := (<- WorldM.look).bindings.scopes.get? name
      WorldM.modifyBindings fun v => { v with scopes := v.scopes.erase name }
      pure (found.getD Scope.empty)

def scopeAnswer (answers : List Answer) (shown : Answer) : Effect :=
  .answer (.list [.list answers, shown])

/-- Runs a program with a scope and disposes that afterwards. An error of the program goes before one of
the disposal. -/
def runWithScope (operands : Operands) (target : Target) (body : List Op) : WorldM Effect := do
  WorldM.bindScope target Scope.empty
  let ran <- WorldM.program operands body
  let (disposal, _) <- WorldM.disposeScope (<- finishedScope target)
  match ran.ending, disposal with
  | .panicked p, _ => pure (.stop (.panicked p))
  | .failed a, _ => pure (scopeAnswer ran.answers a)
  | .returned h, disposal => do
      WorldM.discardHandle h
      pure (scopeAnswer ran.answers (.ofExcept (fun _ => .text "value") disposal))
  | .completed, disposal =>
      pure (scopeAnswer ran.answers (.ofExcept (fun _ => .text "value") disposal))

def runOnCall (operands : Operands) (n : Nat) (body : List Op) : WorldM Effect := do
  if operands.call ≠ n then pure .silent
  else
    let ran <- WorldM.program operands body
    match ran.ending with
    | .panicked p => pure (.stop (.panicked p))
    | .returned h => do
        WorldM.discardHandle h
        pure (.answer (.list ran.answers))
    | _ => pure (.answer (.list ran.answers))

def returnHandle (operands : Operands) (h : String) : ReturnMode -> OpM Handle
  | .borrow => OpM.view operands h
  | .duplicate => do
      let h <- OpM.view operands h
      OpM.ofAttempt (Attempt.duplicate h)
  | .take => OpM.takeHandle h

def run (operands : Operands) : Op -> WorldM Effect
  | handle op => ofOpM (op.run operands)
  | deferred op => ofOpM op.run
  | token op => ofOpM op.run
  | outcome op => ofOpM op.run
  | scope op => ofOpM op.run
  | worker op => onWorker (ofOpM (op.run operands))
  | function name body target => onWorker (ofOpM (defineFunction name body none target))
  | asyncFunction name body plan target => onWorker (ofOpM (defineFunction name body (some plan) target))
  | microtask name body =>
      onWorker do
        queueMicrotask name body
        pure (.answer .ok)
  | timer name body delay repeating target =>
      onWorker do pure (.answer (<- scheduleTimer name body delay repeating target))
  | inline body => onWorker (runInline body)
  | post name body => onWorker do pure (.answer (<- postWork name body))
  | scopeRun target body => onWorker (runWithScope operands target body)
  | onCall n body => runOnCall operands n body
  | fail message => pure (.stop (.failed (.failure (.host message))))
  | panic p => do
      WorldM.emit .panicking
      pure (.stop (.panicked p))
  | ret h mode => do
      match <- (returnHandle operands h mode).run with
      | .ok h => pure (.stop (.returned h))
      | .error a => pure (.failure a)
  | attempt op => do
      match <- run operands op with
      | .failure a => pure (.stop (.failed a))
      | effect => pure effect

def runAll (operands : Operands) : List Op -> WorldM Ran
  | [] => do
      WorldM.alter .stand
      pure ⟨[], .completed⟩
  | op :: rest => do
      WorldM.alter .stand
      match <- op.run operands with
      | .answer a | .failure a =>
          let ran <- runAll operands rest
          pure { ran with answers := a :: ran.answers }
      | .silent => runAll operands rest
      | .stop ending =>
          WorldM.alter .stand
          pure ⟨[], ending⟩

end Op

end ScriptHost
