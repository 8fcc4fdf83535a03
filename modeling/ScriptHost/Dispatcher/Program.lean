import ScriptHost.Engine.Scalar
import ScriptHost.Link
import ScriptHost.Resource
import ScriptHost.Timers

set_option autoImplicit false

/-!
Programs that host code runs: operations on named variables, and the steps of a caller on a thread of
its own.

Every name stands in one of the name spaces for handles, outcomes, deferreds, scopes, tokens and timers,
which the operation tells. A `target` is the name that a result is bound to.
-/

namespace ScriptHost

abbrev Target := Option String

inductive HandleOp where
  | duplicate (h : String) (target : Target)
  | borrow (h : String) (target : Target)
  | release (h : String)
  -- Lets the handle go and unbinds it.
  | drop (h : String)
  | info (h : String)
  | raw (h : String)
  | render (h : String)
  | sameValue (a b : String)

inductive DeferredOp where
  | promise (d : String) (target : Target)
  | isSettled (d : String)
  | clone (d : String) (target : Target)
  | drop (d : String)

inductive TokenOp where
  | create (target : Target)
  | cancel (token : String)
  | isCancelled (token : String)

inductive OutcomeOp where
  | flags (o : String)
  | payloads (o : String)
  | peek (o : String)
  | takeSuccess (o : String) (target : Target)
  | takeFailure (o : String) (target : Target)
  | matchWith (o : String)
  | toResult (o : String) (target : Target)
  | drop (o : String)
  | dispose (o : String)

inductive ScopeOp where
  | create (target : Target)
  -- Defers a handle; the target is bound to a view of it.
  | handle (s h : String) (target : Target)
  | outcome (s o : String)
  | scope (s child : String)
  | action (s name : String) (ending : Ending)
  | dispose (s : String)
  | info (s : String)
  | drop (s : String)

inductive TimerRef where
  | id (id : TimerId)
  | bound (name : String)

inductive WorkerOp where
  | undefined (target : Target)
  | null (target : Target)
  | boolean (b : Bool) (target : Target)
  | number (x : Binary64) (target : Target)
  | string (s : String) (target : Target)
  | bytes (b : ByteArray) (target : Target)
  | object (target : Target)
  | array (target : Target)
  | error (message : String) (target : Target)
  | fromSnapshot (v : Snapshot) (target : Target)
  | toSnapshot (h : String)
  | get (h key : String) (target : Target)
  | set (h key v : String)
  | keys (h : String)
  | length (h : String)
  | kind (h : String)
  | toNumber (h : String)
  | toText (h : String)
  | toBytes (h : String)
  | strictEquals (a b : String)
  | lastError (target : Target)
  | live
  | state
  | name
  | access
  | sleep (duration : Nat)
  | patience (polls : Option Nat)
  | fault (name : String) (fault : Option Fault)
  | call (function : String) (this : Option String) (args : List String) (target : Target)
  | callChecked (function : String) (this : Option String) (args : List String) (target : Target)
  | functionTimer (function : String) (delay : Nat) (repeating : Bool) (target : Target)
  | clearTimer (timer : TimerRef)
  | pendingTimers
  | deferred (target : Target)
  | settle (d : String) (fulfil : Bool) (h : String)
  | settleValue (d : String) (fulfil : Bool) (v : Snapshot)
  | andThen (p : String) (onFulfilled onRejected : Option String) (target : Target)
  | promiseState (p : String)
  | settlement (p : String) (target : Target)
  | await (p : String) (token : Option String) (target : Target)
  -- The snapshot of what an outcome holds, which is used up.
  | settledValue (o : String)
  | shutdown

inductive ReturnMode where
  | borrow
  | duplicate
  | take
  deriving DecidableEq

structure TaskPlan (σ : Type) where
  yields : Nat
  sleep : Option Nat
  script : Option σ
  panic : Option Panic
  -- What the promise is settled with: a value to resolve it with, or a reason to reject it for.
  result : Except Snapshot Snapshot

inductive Op where
  | handle (op : HandleOp)
  | deferred (op : DeferredOp)
  | token (op : TokenOp)
  | outcome (op : OutcomeOp)
  | scope (op : ScopeOp)
  | worker (op : WorkerOp)
  | function (name : String) (body : List Op) (target : Target)
  | asyncFunction (name : String) (body : List Op) (plan : TaskPlan (List Op)) (target : Target)
  | microtask (name : String) (body : List Op)
  | timer (name : String) (body : List Op) (delay : Nat) (repeating : Bool) (target : Target)
  -- A program run by the dispatcher in place.
  | inline (body : List Op)
  -- A program queued as a work item.
  | post (name : String) (body : List Op)
  -- A program run with a scope that is disposed afterwards.
  | scopeRun (scope : Target) (body : List Op)
  -- A program run only on the `n`-th call of the callback around it.
  | onCall (n : Nat) (body : List Op)
  | fail (message : String)
  | panic (p : Panic)
  | ret (h : String) (mode : ReturnMode)
  -- Runs an operation whose error ends the program.
  | attempt (op : Op)

instance : Inhabited Op :=
  ⟨.fail ""⟩

inductive RejectionHook where
  | record
  | panic
  deriving DecidableEq

inductive CallerStep where
  | invoke (ops : List Op)
  -- Programs that are all queued before the first of them starts.
  | batch (items : List (List Op))
  -- Operations on a thread that does not own the engine.
  | off (ops : List Op)
  | hook (hook : Option RejectionHook)
  | globalHook
  | createDeferred (target : Target)
  | settle (d : String) (fulfil : Bool) (v : Snapshot)
  | settleHandle (d : String) (fulfil : Bool) (h : String)
  -- Settles with the result of a future that is ready.
  | settleFuture (d : String) (result : Except Snapshot Snapshot)
  -- Waits for a promise. Meanwhile a program can be run and the wait be cancelled. If `snapshot`, the
  -- answer is a snapshot of what the promise settled with.
  | await (p : String) (token : Option String) (target : Target) (during : Option (List Op))
      (cancel : Option String) (snapshot : Bool)
  | scheduleTimer (name : String) (ops : List Op) (delay : Nat) (repeating : Bool) (target : Target)
  | cancelTimer (timer : TimerRef)
  | status
  | shutdown

end ScriptHost
