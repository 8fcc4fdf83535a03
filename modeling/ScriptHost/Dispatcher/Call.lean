import ScriptHost.Dispatcher.Access

set_option autoImplicit false

/-!
Calls from the host into the engine and back.

A host function is a program. What it fails or panics with becomes an exception in the engine; an async
one gives back a promise, which its task settles later through a work item.
-/

namespace ScriptHost

namespace WorldM

/-- Whether what runs now is to be interrupted: the link is asked first, then the deadline. -/
def interrupted : WorldM Bool := do
  if <- asking (.question Ask.poll) then pure true
  else
    let w <- look
    match w.worker.deadline with
    | none => pure false
    | some instant => pure (decide (instant ≤ w.now))

/-- Runs a callback, seen from outside by its start and its end. No end is seen if it panics. -/
def runCallback (c : Callback) (operands : Operands) (args : Nat) : WorldM Ran := do
  emit (.enter c.label args)
  let ran <- program operands c.body
  match ran.ending with
  | .panicked _ => pure ()
  | _ => emit (.exit c.label ran.answers)
  pure ran

def errorOf : Answer -> Error
  | .failure e => e
  | .unbound name => .host ("unbound name " ++ name)
  | _ => .host "failed"

def verdict (ran : Ran) : WorldM (Except Answer (List Answer)) := do
  match ran.ending with
  | .completed => pure (.ok ran.answers)
  | .returned h =>
      discardHandle h
      pure (.ok ran.answers)
  | .failed e => pure (.error e)
  | .panicked p => pure (.error (.failure (.ofPanic p)))

def raiseError (message : String) : WorldM Unit := do
  let _ <- (Attempt.withLink "throw" (Link.raiseError message)).run

end WorldM

namespace Attempt

def undefined : Attempt Handle := do
  pure (.ofBorrowed (<- withLink "undefined" Link.undefined))

def createDeferred : Attempt DeferredId := do
  let (promise, resolve, reject) <- withLink "create deferred" Link.newPromiseCapability
  let promise <- own promise
  let resolve <- own resolve
  let reject <- own reject
  let id := (<- WorldM.look).nextDeferred
  WorldM.alter (.newDeferred
    { promise := some promise, resolve := some resolve, reject := some reject, settled := false, holders := 1 })
  pure id

def promiseOf (id : DeferredId) : Attempt Handle := do
  match ((<- WorldM.look).deferreds.get? id).bind Deferred.promise with
  | some h => duplicate h
  | none => throw (.usedAfterRelease "deferred promise")

def startTask (label : String) (plan : TaskPlan (List Op)) : Attempt Handle := do
  let d <- createDeferred
  match <- ExceptT.lift (promiseOf d).run with
  | .error e =>
      WorldM.letGoDeferred d
      throw e
  | .ok promise =>
      WorldM.alter (.startTask ⟨label, plan, d⟩)
      pure promise

def resultOf (plan : Option (TaskPlan (List Op))) (label : String) (ran : Ran) : Attempt Handle := do
  match ran.ending, plan with
  | .failed e, _ => throw (WorldM.errorOf e)
  | .panicked p, _ => throw (.ofPanic p)
  | .returned h, none => pure h
  | .completed, none => undefined
  | .returned h, some plan => do
      WorldM.discardHandle h
      startTask label plan
  | .completed, some plan => startTask label plan

def operandsOf (this : Ptr) (args : List Ptr) (call : Nat) : Operands where
  views := .ofList (("this", .ofBorrowed this) ::
    args.mapIdx fun i p => ("arg" ++ Nat.repr i, .ofBorrowed p))
  call := call

def runFunction (inv : Invocation) (f : HostFunction Handler) : Attempt Ptr := do
  let args <- withLink "read host arguments" (Link.readTable inv.arguments inv.count)
  let callback := f.handler.callback.called
  WorldM.alter (.countCall f.id)
  let ran <- ExceptT.lift (WorldM.runCallback callback (operandsOf inv.this args callback.calls) args.length)
  let h <- resultOf f.handler.plan f.name ran
  match <- ExceptT.lift (handOver h).run with
  | .ok p => pure p
  | .error e =>
      WorldM.discardHandle h
      throw e

end Attempt

namespace WorldM

/-- Serves a call with a host function: with a reference to its result, or with zero after raising an exception. -/
def serve (inv : Invocation) (f : HostFunction Handler) : WorldM Ptr := do
  match <- (Attempt.runFunction inv f).run with
  | .ok p => pure p
  | .error e =>
      raiseError e.message
      pure 0

def answerCall (inv : Invocation) : WorldM Ptr := do
  alter .stand
  match (<- getWorker).functions.byId? inv.function with
  | none =>
      raiseError ("unknown host function " ++ Nat.repr inv.function.toNat)
      pure 0
  | some f => serve inv f

def host : Host WorldM :=
  ⟨fun q => .question (Act.ask q), interrupted, answerCall⟩

end WorldM

namespace Attempt

/-- A function of the engine that calls the host function with this number. -/
def engineFunction (id : FunctionId) (name : String) : Attempt Handle := do
  own (<- withLink "new function" (Link.newFunction id name))

/-- Makes a host function known, and answers with the function that the engine sees. The name stays taken even if the
engine refuses. -/
def registerFunction (name : String) (handler : Handler) : Attempt Handle := do
  let (id, _) <- ofExcept ((<- WorldM.look).worker.functions.register name handler.mode handler)
  WorldM.alter (.register name handler)
  engineFunction id name

def toText (h : Handle) : Attempt String := do
  let p <- raw h
  withLink "to string" (Link.toText p)

def fromSnapshot (v : Snapshot) : Attempt Handle := do
  let c := (<- WorldM.look).worker.config
  own (<- withLink "convert to engine value" (Conversion.toEngine c.maxDepth c.maxBytes v))

def toSnapshot (h : Handle) : Attempt Snapshot := do
  let p <- raw h
  let c := (<- WorldM.look).worker.config
  withLink "convert from engine value" (Conversion.fromEngine c.maxDepth c.maxBytes p)

def reasonOf (h : Handle) : Attempt Snapshot := do
  match <- ExceptT.lift (toSnapshot h).run with
  | .ok v => pure v
  | .error _ => do pure (.text (<- toText h))

def rawAll : List Handle -> Attempt (List Ptr)
  | [] => pure []
  | h :: rest => do
      let p <- raw h
      pure (p :: (<- rawAll rest))

def call (function : Handle) (this : Option Handle) (args : List Handle) : Attempt Settled := do
  let f <- raw function
  let this <- match this with
    | some h => raw h
    | none => withLink "undefined" Link.undefined
  let args <- rawAll args
  checkAccess "call"
  match <- WorldM.host.call f this args with
  | .returned p => do pure (.success (.live (<- own p)))
  | .threw p => do pure (.failure (.live (<- own p)))

def dispose (o : Settled) : Attempt Unit := do
  let (ending, o) <- ExceptT.lift o.dispose
  WorldM.discardOutcome o
  match ending.toExcept with
  | .ok () => pure ()
  | .error e => throw e

def orDiscard {α : Type} (o : Settled) (act : Attempt α) : Attempt α := do
  match <- ExceptT.lift act.run with
  | .ok a => pure a
  | .error e =>
      WorldM.discardOutcome o
      throw e

def returned (operation : String) (o : Settled) : Attempt Handle := do
  match o with
  | .success (.live h) => pure h
  | .failure (.live exception) =>
      let message <- orDiscard o (toText exception)
      dispose o
      throw (.foreign operation message)
  | .success .transferred | .failure .transferred => throw (.usedAfterRelease "outcome payload")

def callChecked (function : Handle) (this : Option Handle) (args : List Handle) :
    Attempt Handle := do
  returned "call" (<- call function this args)

def holding {α : Type} (h : Handle) (act : Handle -> Attempt α) : Attempt α := do
  let result <- ExceptT.lift (act h).run
  WorldM.discardHandle h
  ofExcept result

/-- Settles a deferred with a value. Only the first call that succeeds has an effect; one that fails leaves
everything in place, so that it can be tried again. -/
def settle (id : DeferredId) (fulfil : Bool) (v : Handle) : Attempt Unit := do
  checkAccess "settle deferred"
  match (<- WorldM.look).deferreds.get? id with
  | none => throw (.usedAfterRelease "deferred capability")
  | some d =>
      if d.settled then pure ()
      else
        match if fulfil then d.resolve else d.reject with
        | none => throw (.usedAfterRelease "deferred capability")
        | some capability =>
            let o <- holding (<- duplicate capability) fun f => call f none [v]
            let h <- returned "settle deferred" o
            match (<- WorldM.look).deferreds.get? id with
            | none => pure ()
            | some d =>
                WorldM.alter (.deferreds fun t =>
                  t.set id { d with settled := true, resolve := none, reject := none })
                WorldM.discardHandles (d.resolve.toList ++ d.reject.toList)
            dispose (.success (.live h))

def settleValue (id : DeferredId) (fulfil : Bool) (v : Snapshot) : Attempt Unit := do
  holding (<- fromSnapshot v) fun h => settle id fulfil h

def settleResult (id : DeferredId) : Except Snapshot Snapshot -> Attempt Unit
  | .ok v => settleValue id true v
  | .error reason => settleValue id false reason

def promiseState (p : Handle) : Attempt PromiseState := do
  let ptr <- raw p
  withLink "promise state" (Link.promiseState ptr)

def settlement (p : Handle) : Attempt (Option Settled) := do
  let ptr <- raw p
  let found <- withLink "promise settlement" do
    match <- Link.promiseState ptr with
    | .pending => pure none
    | .fulfilled => do pure (some (true, <- Link.promiseResult ptr))
    | .rejected => do pure (some (false, <- Link.promiseResult ptr))
  match found with
  | none => pure none
  | some (true, v) => do pure (some (.success (.live (<- own v))))
  | some (false, v) => do pure (some (.failure (.live (<- own v))))

def releasing {α : Type} (h : Handle) (result : Except Error α) : Attempt α := do
  let (ending, h) <- ExceptT.lift (Resource.release h)
  WorldM.discardHandle h
  match ending.toExcept with
  | .ok () => ofExcept result
  | .error e => throw e

def settledValue (o : Settled) : Attempt Snapshot := do
  match o.toResult with
  | .error e => throw e
  | .ok (.ok v) => releasing v (<- ExceptT.lift (toSnapshot v).run)
  | .ok (.error reason) => do
      let v <- releasing reason (<- ExceptT.lift (reasonOf reason).run)
      throw (.rejected v)

end Attempt

end ScriptHost
