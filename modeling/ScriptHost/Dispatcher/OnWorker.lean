import ScriptHost.Dispatcher.Work

set_option autoImplicit false

/-!
Operations that only the worker can do: on values of the engine, calls, timers, promises and waits for
them.
-/

namespace ScriptHost

namespace WorkerOp

def bindConstant (operation : String) (constant : LinkM Ptr) (target : Target) : OpM Answer := do
  let p <- OpM.ofAttempt (Attempt.withLink operation constant)
  WorldM.bindHandle target (.ofBorrowed p)
  pure .ok

def bindMade (target : Target) (act : Attempt Handle) : OpM Answer := do
  WorldM.bindHandle target (<- OpM.ofAttempt act)
  pure .ok

def bindNew (operation : String) (make : LinkM Ptr) (target : Target) : OpM Answer :=
  bindMade target do Attempt.own (<- Attempt.withLink operation make)

def bindOutcome (target : Target) (act : Attempt Settled) : OpM Answer := do
  let o <- OpM.ofAttempt act
  WorldM.bindOutcome target o
  pure (WorldM.settledName o)

def ask {α : Type} (operands : Operands) (h : String) (operation : String) (f : Ptr -> LinkM α) : OpM α := do
  let h <- OpM.view operands h
  OpM.ofAttempt do
    let p <- Attempt.raw h
    Attempt.withLink operation (f p)

def setProperty (operands : Operands) (h key v : String) : OpM Answer := do
  let h <- OpM.view operands h
  let v <- OpM.view operands v
  OpM.ofAttempt do
    let p <- Attempt.raw h
    let q <- Attempt.raw v
    Attempt.withLink "set property" (Link.setProp p key q)
  pure .ok

def equals (operands : Operands) (a b : String) : OpM Answer := do
  let a <- OpM.view operands a
  let b <- OpM.view operands b
  OpM.ofAttempt do
    let p <- Attempt.raw a
    let q <- Attempt.raw b
    pure (.bool (<- Attempt.withLink "strict equals" (Link.isEqual p q .strict)))

def bindLastError (target : Target) : OpM Answer := do
  match <- OpM.ofAttempt (Attempt.withLink "last error" Link.takeLastError) with
  | none => pure .absent
  | some p =>
      WorldM.bindHandle target (<- OpM.ofAttempt (Attempt.own p))
      pure .ok

def countLive : OpM Answer := do
  let values <- OpM.ofAttempt (Attempt.withLink "live value count" Link.liveValueCount)
  pure (.list [.nat values, .nat (<- WorldM.look).worker.vault.liveHandles])

def scheduleFunction (operands : Operands) (function : String) (delay : Nat) (repeating : Bool)
    (target : Target) : OpM Answer := do
  let f <- OpM.view operands function
  let f <- OpM.ofAttempt (Attempt.duplicate f)
  let id <- WorldM.scheduleAlarm (.function f) delay repeating
  WorldM.bindTimer target id
  pure (.nat id.toNat)

def callViews (operands : Operands) (function : String) (this : Option String) (args : List String) :
    OpM (Handle × Option Handle × List Handle) := do
  let f <- OpM.view operands function
  let this <- OpM.optionalView operands this
  let args <- OpM.views operands args
  pure (f, this, args)

def optionalRaw : Option Handle -> Attempt (Option Ptr)
  | none => pure none
  | some h => do pure (some (<- Attempt.raw h))

def attach (operands : Operands) (p : String) (onFulfilled onRejected : Option String) (target : Target) :
    OpM Answer := do
  let onFulfilled <- OpM.optionalView operands onFulfilled
  let onRejected <- OpM.optionalView operands onRejected
  let p <- OpM.view operands p
  bindMade target do
    let p <- Attempt.raw p
    let f <- optionalRaw onFulfilled
    let g <- optionalRaw onRejected
    Attempt.own (<- Attempt.withLink "promise then" (Link.promiseThen p f g))

def bindSettlement (operands : Operands) (p : String) (target : Target) : OpM Answer := do
  let p <- OpM.view operands p
  match <- OpM.ofAttempt (Attempt.settlement p) with
  | none => pure .absent
  | some o =>
      WorldM.bindOutcome target o
      pure (WorldM.settledName o)

def run (operands : Operands) : WorkerOp -> OpM Answer
  | undefined target => bindConstant "undefined" Link.undefined target
  | null target => bindConstant "null" Link.null target
  | boolean b target => bindConstant "boolean" (Link.boolean b) target
  | number x target => bindNew "new number" (Link.newNumber x) target
  | string s target => bindNew "new string" (Link.newString s) target
  | bytes b target => bindNew "new array buffer" (Link.newBytes b) target
  | object target => bindNew "new object" Link.newObject target
  | array target => bindNew "new array" Link.newArray target
  | error message target => bindNew "new error" (Link.newError message) target
  | fromSnapshot v target => bindMade target (Attempt.fromSnapshot v)
  | toSnapshot h => do
      let h <- OpM.view operands h
      pure (.snapshot (<- OpM.ofAttempt (Attempt.toSnapshot h)))
  | get h key target => do
      let p <- ask operands h "get property" fun p => Link.getProp p key
      bindMade target (Attempt.own p)
  | set h key v => setProperty operands h key v
  | keys h => do
      let keys <- ask operands h "own property names" Link.ownKeys
      pure (.list (keys.map .text))
  | length h => do pure (.nat (<- ask operands h "length" Link.length))
  | kind h => do pure (.text (<- ask operands h "type of" Link.kind).name)
  | toNumber h => do pure (.number (<- ask operands h "get number" Link.number))
  | toText h => do pure (.text (<- ask operands h "to string" Link.toText))
  | toBytes h => do pure (.bytes (<- ask operands h "copy array buffer" Link.bytes))
  | strictEquals a b => equals operands a b
  | lastError target => bindLastError target
  | live => countLive
  | state => do pure (.text (<- WorldM.look).worker.phase.name)
  | name => do
      let threadName := (<- WorldM.look).worker.config.threadName
      pure (.list [.text threadName, .text threadName])
  | access => pure (.bool true)
  | sleep duration => do
      WorldM.alter (.pass (WorldM.microseconds duration))
      pure .ok
  | patience polls => do
      WorldM.alter (.patience polls)
      pure .ok
  | fault exportName f => do
      WorldM.alter (.fault exportName f)
      pure .ok
  | call function this args target => do
      let (f, this, args) <- callViews operands function this args
      bindOutcome target (Attempt.call f this args)
  | callChecked function this args target => do
      let (f, this, args) <- callViews operands function this args
      bindMade target (Attempt.callChecked f this args)
  | functionTimer function delay repeating target =>
      scheduleFunction operands function delay repeating target
  | clearTimer timer => do
      let id <- OpM.timer timer
      pure (.bool (<- WorldM.cancelAlarm id))
  | pendingTimers => do pure (.nat (<- WorldM.look).worker.timers.size)
  | deferred target => do
      WorldM.bindDeferred target (<- OpM.ofAttempt Attempt.createDeferred)
      pure .ok
  | settle d fulfil h => do
      let d <- OpM.deferred d
      let h <- OpM.view operands h
      OpM.ofAttempt (Attempt.settle d fulfil h)
      pure .ok
  | settleValue d fulfil v => do
      let d <- OpM.deferred d
      OpM.ofAttempt (Attempt.settleValue d fulfil v)
      pure .ok
  | andThen p onFulfilled onRejected target => attach operands p onFulfilled onRejected target
  | promiseState p => do
      let p <- OpM.view operands p
      pure (.text (<- OpM.ofAttempt (Attempt.promiseState p)).name)
  | settlement p target => bindSettlement operands p target
  | await p token target => do
      let p <- OpM.view operands p
      let token <- OpM.optionalToken token
      bindOutcome target (ExceptT.mk (WorldM.await p token))
  | settledValue o => do
      let o <- OpM.takeOutcome o
      pure (.snapshot (<- OpM.ofAttempt (Attempt.settledValue o)))
  | shutdown => do
      WorldM.requestShutdown
      pure .ok

end WorkerOp

end ScriptHost
