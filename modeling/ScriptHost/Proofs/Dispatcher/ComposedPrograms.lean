import ScriptHost.Dispatcher.Exec
import ScriptHost.Proofs.Dispatcher.ComposedCalls

set_option autoImplicit false

/-!
Programs of host code that leave nothing behind, and what the worker runs besides.
-/

namespace ScriptHost

open WorldM

namespace WorldM

theorem composed_scheduleAlarm (delayed : Delayed) (delay : Nat) (repeating : Bool) :
    Composed (scheduleAlarm delayed delay repeating) :=
  composed_bind composed_look fun _ => composed_bind (composed_alter _) fun _ => composed_pure _

theorem composed_discardAlarm (a : Alarm) : Composed (discardAlarm a) := by
  unfold discardAlarm
  split
  next h _ => exact composed_discardHandle h
  next => exact composed_pure _

theorem composed_discardAlarms (alarms : List Alarm) : Composed (discardAlarms alarms) := by
  induction alarms with
  | nil => exact composed_pure _
  | cons a rest ih => exact composed_bind (composed_discardAlarm a) fun _ => ih

theorem composed_cancelAlarm (id : TimerId) : Composed (cancelAlarm id) := by
  refine composed_bind composed_getWorker fun k => composed_bind (composed_alter _) fun _ => ?_
  split
  next => exact composed_pure _
  next => exact composed_bind (composed_discardAlarms _) fun _ => composed_pure _

theorem composed_sendAll (items : List Work) : Composed (sendAll items) := by
  induction items with
  | nil => exact composed_pure _
  | cons item rest ih => exact composed_bind (composed_submit item) fun _ => ih

theorem composed_carryOut (item : Work) : Composed (carryOut item) := by
  cases item with
  | script ops reply =>
    refine composed_bind (composed_program _ ops) fun ran => composed_bind (composed_verdict ran) fun answers => ?_
    exact composed_putReply _ _
  | post label ops =>
    exact composed_bind (composed_runCallback _ _ _) fun ran => composed_bind (composed_verdict ran) fun _ =>
      composed_pure _
  | gate items => exact composed_sendAll items
  | noop => exact composed_pure _
  | createDeferred reply => exact composed_bind Attempt.composed_createDeferred fun _ => composed_putReply _ _
  | settle d result reply =>
    refine composed_bind (Attempt.composed_settleResult d result) fun settled =>
      composed_bind (composed_letGoDeferred d) fun _ => ?_
    cases reply with
    | none => exact composed_pure _
    | some id => exact composed_putReply _ _
  | settleHandle d fulfil h reply =>
    refine composed_bind (Attempt.composed_holding (fun h => Attempt.composed_settle d fulfil h) h) fun settled => ?_
    exact composed_bind (composed_letGoDeferred d) fun _ => composed_putReply _ _
  | schedule callback delay repeating reply =>
    exact composed_bind (composed_scheduleAlarm _ _ _) fun _ => composed_putReply _ _
  | cancelTimer id reply => exact composed_bind (composed_cancelAlarm id) fun _ => composed_putReply _ _
  | watch p token reply settled => exact composed_pure _
  | settledValue o reply => exact composed_bind (Attempt.composed_settledValue o) fun _ => composed_putReply _ _
  | release handles => exact composed_discardHandles handles

theorem composed_runWork (item : Work) : Composed (runWork item) :=
  composed_bind (composed_alter _) fun _ => composed_carryOut item

theorem composed_runTaskScript (label : String) (script : Option (List Op)) :
    Composed (runTaskScript label script) := by
  cases script with
  | none => exact composed_pure _
  | some ops =>
    refine composed_bind (composed_alter _) fun _ => composed_bind (composed_runCallback _ _ _) fun ran => ?_
    refine composed_bind (composed_verdict ran) fun answers => ?_
    cases answers with
    | ok _ => exact composed_pure _
    | error _ => exact composed_emit _

theorem composed_pollTask (t : HostTask) : Composed (pollTask t) := by
  unfold pollTask
  split
  next => exact composed_pure _
  next => exact composed_bind composed_look fun _ => composed_pure _
  next =>
    refine composed_bind (composed_runTaskScript _ _) fun _ => ?_
    split
    next => exact composed_bind (composed_letGoDeferred _) fun _ => composed_pure _
    next => exact composed_bind (composed_submitBy _ _) fun _ => composed_pure _

theorem composed_runAlarm (a : Alarm) : Composed (runAlarm a) := by
  refine composed_bind (composed_alter _) fun _ => ?_
  split
  next f _ =>
    refine composed_bind (Attempt.composed_callChecked f none []) fun called => ?_
    split
    next h => exact composed_bind (composed_discardHandle h) fun _ => composed_pure _
    next => exact composed_bind (composed_pure _) fun _ => composed_pure _
  next =>
    refine composed_bind (composed_runCallback _ _ _) fun ran => ?_
    exact composed_bind (composed_verdict ran) fun _ => composed_pure _

theorem composed_hasSettled (p : Handle) : Composed (hasSettled p).run := by
  refine composed_bindExcept (Attempt.composed_settlement p) fun found => ?_
  split
  next => exact composed_pure _
  next o => exact composed_bindExcept (composed_lift (composed_discardOutcome o)) fun _ => composed_pure _

theorem composed_runMicrotask (c : Callback) : Composed (LoopM.runMicrotask c) :=
  composed_bind (composed_runCallback c _ _) fun ran => composed_bind (composed_verdict ran) fun _ => composed_pure _

end WorldM

namespace WorkerOp

variable {α : Type} (operands : Operands)

theorem composed_bindConstant (operation : String) {constant : LinkM Ptr} (composed : Link.Composed none constant)
    (target : Target) : Composed (bindConstant operation constant target).run := by
  refine composed_bindExcept (OpM.composed_ofAttempt (Attempt.composed_withLink _ composed.anyhow)) fun p => ?_
  exact composed_bindExcept (composed_lift (composed_bindHandle target _)) fun _ => composed_pure _

theorem composed_bindMade (target : Target) {act : Attempt Handle} (composed : Composed act.run) :
    Composed (bindMade target act).run := by
  refine composed_bindExcept (OpM.composed_ofAttempt composed) fun h => ?_
  exact composed_bindExcept (composed_lift (composed_bindHandle target h)) fun _ => composed_pure _

theorem composed_bindNew (operation : String) {make : LinkM Ptr} (composed : Link.Composed none make)
    (target : Target) : Composed (bindNew operation make target).run :=
  composed_bindMade target (composed_bindExcept (Attempt.composed_withLink _ composed.anyhow) Attempt.composed_own)

theorem composed_bindOutcome (target : Target) {act : Attempt Settled} (composed : Composed act.run) :
    Composed (bindOutcome target act).run := by
  refine composed_bindExcept (OpM.composed_ofAttempt composed) fun o => ?_
  exact composed_bindExcept (composed_lift (WorldM.composed_bindOutcome target o)) fun _ => composed_pure _

theorem composed_ask (h operation : String) {f : Ptr -> LinkM α} (composed : ∀ p, Link.Composed (some 29) (f p)) :
    Composed (ask operands h operation f).run := by
  refine composed_bindExcept (OpM.composed_view operands h) fun h => OpM.composed_ofAttempt ?_
  exact composed_bindExcept (Attempt.composed_raw h) fun p => Attempt.composed_withLink _ (composed p)

theorem composed_shown (h operation : String) {f : Ptr -> LinkM α} (composed : ∀ p, Link.Composed (some 29) (f p))
    (answer : α -> Answer) : Composed (do pure (answer (<- ask operands h operation f)) : OpM Answer).run :=
  composed_bindExcept (composed_ask operands h operation composed) fun _ => composed_pure _

theorem composed_scheduleFunction (function : String) (delay : Nat) (repeating : Bool) (target : Target) :
    Composed (scheduleFunction operands function delay repeating target).run := by
  refine composed_bindExcept (OpM.composed_view operands function) fun f => ?_
  refine composed_bindExcept (OpM.composed_ofAttempt (Attempt.composed_duplicate f)) fun f => ?_
  refine composed_bindExcept (composed_lift (composed_scheduleAlarm _ delay repeating)) fun id => ?_
  exact composed_bindExcept (composed_lift (composed_bindTimer target id)) fun _ => composed_pure _

theorem composed_callViews (function : String) (this : Option String) (args : List String) :
    Composed (callViews operands function this args).run := by
  refine composed_bindExcept (OpM.composed_view operands function) fun f => ?_
  refine composed_bindExcept (OpM.composed_optionalView operands this) fun this => ?_
  exact composed_bindExcept (OpM.composed_views operands args) fun args => composed_pure _

theorem composed_optionalRaw (h : Option Handle) : Composed (optionalRaw h).run := by
  cases h with
  | none => exact composed_pure _
  | some h => exact composed_bindExcept (Attempt.composed_raw h) fun _ => composed_pure _

theorem composed_attach (p : String) (onFulfilled onRejected : Option String) (target : Target) :
    Composed (attach operands p onFulfilled onRejected target).run := by
  refine composed_bindExcept (OpM.composed_optionalView operands onFulfilled) fun f => ?_
  refine composed_bindExcept (OpM.composed_optionalView operands onRejected) fun g => ?_
  refine composed_bindExcept (OpM.composed_view operands p) fun p => composed_bindMade target ?_
  refine composed_bindExcept (Attempt.composed_raw p) fun p => composed_bindExcept (composed_optionalRaw f) fun f => ?_
  refine composed_bindExcept (composed_optionalRaw g) fun g => ?_
  have attached := (Link.composed_promiseThen p f g).within (show 21 ≤ 29 by decide)
  exact composed_bindExcept (Attempt.composed_withLink _ attached) fun p => Attempt.composed_own p

theorem composed_bindSettlement (p : String) (target : Target) : Composed (bindSettlement operands p target).run := by
  refine composed_bindExcept (OpM.composed_view operands p) fun p => ?_
  refine composed_bindExcept (OpM.composed_ofAttempt (Attempt.composed_settlement p)) fun found => ?_
  split
  next => exact composed_pure _
  next o => exact composed_bindExcept (composed_lift (WorldM.composed_bindOutcome target o)) fun _ => composed_pure _

theorem composed_bindLastError (target : Target) : Composed (bindLastError target).run := by
  have taken := Attempt.composed_withLink "last error" Link.settles_takeLastError.composed.anyhow
  refine composed_bindExcept (OpM.composed_ofAttempt taken) fun exception => ?_
  split
  next => exact composed_pure _
  next p =>
    refine composed_bindExcept (OpM.composed_ofAttempt (Attempt.composed_own p)) fun h => ?_
    exact composed_bindExcept (composed_lift (composed_bindHandle target h)) fun _ => composed_pure _

theorem composed_setProperty (h key v : String) : Composed (setProperty operands h key v).run := by
  refine composed_bindExcept (OpM.composed_view operands h) fun h => ?_
  refine composed_bindExcept (OpM.composed_view operands v) fun v =>
    composed_bindExcept (OpM.composed_ofAttempt ?_) fun _ => composed_pure _
  refine composed_bindExcept (Attempt.composed_raw h) fun p => composed_bindExcept (Attempt.composed_raw v) fun q => ?_
  exact Attempt.composed_withLink _ ((Link.composed_setProp p key q).within (by decide))

theorem composed_equals (a b : String) : Composed (equals operands a b).run := by
  refine composed_bindExcept (OpM.composed_view operands a) fun a => ?_
  refine composed_bindExcept (OpM.composed_view operands b) fun b => OpM.composed_ofAttempt ?_
  refine composed_bindExcept (Attempt.composed_raw a) fun p => composed_bindExcept (Attempt.composed_raw b) fun q => ?_
  exact composed_bindExcept (Attempt.composed_withLink _ (Link.composed_isEqual p q .strict).anyhow) fun _ =>
    composed_pure _

theorem composed_countLive : Composed countLive.run := by
  have counted := Attempt.composed_withLink "live value count" Link.composed_liveValueCount.anyhow
  refine composed_bindExcept (OpM.composed_ofAttempt counted) fun n => ?_
  exact composed_bindExcept (composed_lift composed_look) fun _ => composed_pure _

theorem composed_run (op : WorkerOp) : Composed (op.run operands).run := by
  have looked (f : World -> Answer) : Composed (do pure (f (<- WorldM.look)) : OpM Answer).run :=
    composed_bindExcept (composed_lift composed_look) fun _ => composed_pure _
  have altered (c : Change) : Composed (do
      WorldM.alter c
      pure .ok : OpM Answer).run :=
    composed_bindExcept (composed_lift (composed_alter c)) fun _ => composed_pure _
  cases op with
  | undefined target => exact composed_bindConstant _ Link.composed_undefined target
  | null target => exact composed_bindConstant _ Link.composed_null target
  | boolean b target => exact composed_bindConstant _ (Link.composed_boolean b) target
  | number x target => exact composed_bindNew _ (Link.composed_newNumber x) target
  | string s target => exact composed_bindNew _ (Link.composed_newString s) target
  | bytes b target => exact composed_bindNew _ (Link.composed_newBytes b) target
  | object target => exact composed_bindNew _ Link.composed_newObject target
  | array target => exact composed_bindNew _ Link.composed_newArray target
  | error message target => exact composed_bindNew _ (Link.composed_newError message) target
  | fromSnapshot v target => exact composed_bindMade target (Attempt.composed_fromSnapshot v)
  | toSnapshot h =>
    refine composed_bindExcept (OpM.composed_view operands h) fun h => ?_
    exact composed_bindExcept (OpM.composed_ofAttempt (Attempt.composed_toSnapshot h)) fun _ => composed_pure _
  | get h key target =>
    refine composed_bindExcept (composed_ask operands h _ fun p => ?_) fun p =>
      composed_bindMade target (Attempt.composed_own p)
    exact (Link.composed_getProp p key).within (by decide)
  | set h key v => exact composed_setProperty operands h key v
  | keys h => exact composed_shown operands h _ Link.composed_ownKeys _
  | length h => exact composed_shown operands h _ Link.composed_length _
  | kind h => exact composed_shown operands h _ (fun p => (Link.composed_kind p).anyhow) _
  | toNumber h => exact composed_shown operands h _ (fun p => (Link.composed_number p).anyhow) _
  | toText h => exact composed_shown operands h _ (fun p => (Link.composed_toText p).within (by decide)) _
  | toBytes h => exact composed_shown operands h _ Link.composed_bytes _
  | strictEquals a b => exact composed_equals operands a b
  | lastError target => exact composed_bindLastError target
  | live => exact composed_countLive
  | state => exact looked _
  | name => exact looked _
  | access => exact composed_pure _
  | sleep duration => exact altered _
  | patience polls => exact altered _
  | fault exportName f => exact altered _
  | call function this args target =>
    refine composed_bindExcept (composed_callViews operands function this args) fun views => ?_
    exact composed_bindOutcome target (Attempt.composed_call _ _ _)
  | callChecked function this args target =>
    refine composed_bindExcept (composed_callViews operands function this args) fun views => ?_
    exact composed_bindMade target (Attempt.composed_callChecked _ _ _)
  | functionTimer function delay repeating target =>
    exact composed_scheduleFunction operands function delay repeating target
  | clearTimer timer =>
    refine composed_bindExcept (OpM.composed_timer timer) fun id => ?_
    exact composed_bindExcept (composed_lift (composed_cancelAlarm id)) fun _ => composed_pure _
  | pendingTimers => exact looked _
  | deferred target =>
    refine composed_bindExcept (OpM.composed_ofAttempt Attempt.composed_createDeferred) fun d => ?_
    exact composed_bindExcept (composed_lift (composed_bindDeferred target d)) fun _ => composed_pure _
  | settle d fulfil h =>
    refine composed_bindExcept (OpM.composed_lookup _ d) fun d =>
      composed_bindExcept (OpM.composed_view operands h) fun h => ?_
    exact composed_bindExcept (OpM.composed_ofAttempt (Attempt.composed_settle d fulfil h)) fun _ => composed_pure _
  | settleValue d fulfil v =>
    refine composed_bindExcept (OpM.composed_lookup _ d) fun d => ?_
    exact composed_bindExcept (OpM.composed_ofAttempt (Attempt.composed_settleValue d fulfil v)) fun _ =>
      composed_pure _
  | andThen p onFulfilled onRejected target => exact composed_attach operands p onFulfilled onRejected target
  | promiseState p =>
    refine composed_bindExcept (OpM.composed_view operands p) fun p => ?_
    exact composed_bindExcept (OpM.composed_ofAttempt (Attempt.composed_promiseState p)) fun _ => composed_pure _
  | settlement p target => exact composed_bindSettlement operands p target
  | await p token target =>
    refine composed_bindExcept (OpM.composed_view operands p) fun p => ?_
    refine composed_bindExcept (OpM.composed_optionalToken token) fun token => ?_
    exact composed_bindOutcome target (composed_await p token)
  | settledValue o =>
    refine composed_bindExcept (OpM.composed_taken (OpM.composed_lookup _ o) _) fun o => ?_
    exact composed_bindExcept (OpM.composed_ofAttempt (Attempt.composed_settledValue o)) fun _ => composed_pure _
  | shutdown => exact composed_bindExcept (composed_lift composed_requestShutdown) fun _ => composed_pure _

end WorkerOp

namespace Op

variable (operands : Operands)

theorem composed_ofOpM {act : OpM Answer} (composed : Composed act.run) : Composed (ofOpM act) := by
  refine composed_bind composed fun r => ?_
  cases r <;> exact composed_pure _

theorem composed_onWorker {act : WorldM Effect} (composed : Composed act) : Composed (onWorker act) := by
  refine composed_bind composed_thread fun t => ?_
  cases t with
  | worker => exact composed
  | other => exact composed_pure _

theorem composed_defineFunction (name : String) (body : List Op) (plan : Option (TaskPlan (List Op)))
    (target : Target) : Composed (defineFunction name body plan target).run :=
  WorkerOp.composed_bindMade target (Attempt.composed_registerFunction name _)

theorem composed_scheduleTimer (name : String) (body : List Op) (delay : Nat) (repeating : Bool) (target : Target) :
    Composed (scheduleTimer name body delay repeating target) := by
  refine composed_bind (composed_scheduleAlarm _ delay repeating) fun id => ?_
  exact composed_bind (composed_bindTimer target id) fun _ => composed_pure _

theorem composed_runInline (body : List Op) : Composed (runInline body) := by
  refine composed_bind (composed_program _ body) fun ran => composed_bind (composed_verdict ran) fun answers => ?_
  cases answers <;> exact composed_pure _

theorem composed_finishedScope (target : Target) : Composed (finishedScope target) := by
  cases target with
  | none => exact composed_pure _
  | some name =>
    exact composed_bind composed_look fun _ => composed_bind (composed_modifyBindings _) fun _ => composed_pure _

theorem composed_runWithScope (target : Target) (body : List Op) : Composed (runWithScope operands target body) := by
  refine composed_bind (composed_bindScope target _) fun _ => ?_
  refine composed_bind (composed_program operands body) fun ran => ?_
  refine composed_bind (composed_finishedScope target) fun scope => ?_
  refine composed_bind (composed_disposeAny clean_held scope) fun disposed => ?_
  obtain ⟨disposal, scope⟩ := disposed
  dsimp only
  split
  next => exact composed_pure _
  next => exact composed_pure _
  next => exact composed_bind (composed_discardHandle _) fun _ => composed_pure _
  next => exact composed_pure _

theorem composed_runOnCall (n : Nat) (body : List Op) : Composed (runOnCall operands n body) := by
  unfold runOnCall
  split
  next => exact composed_pure _
  next =>
    refine composed_bind (composed_program operands body) fun ran => ?_
    split
    next => exact composed_pure _
    next h _ => exact composed_bind (composed_discardHandle h) fun _ => composed_pure _
    next => exact composed_pure _

theorem composed_returnHandle (h : String) (mode : ReturnMode) : Composed (returnHandle operands h mode).run := by
  cases mode with
  | borrow => exact OpM.composed_view operands h
  | duplicate =>
    exact composed_bindExcept (OpM.composed_view operands h) fun h =>
      OpM.composed_ofAttempt (Attempt.composed_duplicate h)
  | take => exact OpM.composed_takeHandle h

theorem composed_run (op : Op) : Composed (op.run operands) := by
  cases op with
  | handle op => exact composed_ofOpM (op.composed_run operands)
  | deferred op => exact composed_ofOpM op.composed_run
  | token op => exact composed_ofOpM op.composed_run
  | outcome op => exact composed_ofOpM op.composed_run
  | scope op => exact composed_ofOpM op.composed_run
  | worker op => exact composed_onWorker (composed_ofOpM (WorkerOp.composed_run operands op))
  | function name body target =>
    exact composed_onWorker (composed_ofOpM (composed_defineFunction name body none target))
  | asyncFunction name body plan target =>
    exact composed_onWorker (composed_ofOpM (composed_defineFunction name body (some plan) target))
  | microtask name body => exact composed_onWorker (composed_bind (composed_alter _) fun _ => composed_pure _)
  | timer name body delay repeating target =>
    have scheduled := composed_scheduleTimer name body delay repeating target
    exact composed_onWorker (composed_bind scheduled fun _ => composed_pure _)
  | inline body => exact composed_onWorker (composed_runInline body)
  | post name body =>
    refine composed_onWorker (composed_bind ?_ fun _ => composed_pure _)
    exact composed_bind (composed_submit _) fun _ => composed_pure _
  | scopeRun target body => exact composed_onWorker (composed_runWithScope operands target body)
  | onCall n body => exact composed_runOnCall operands n body
  | fail message => exact composed_pure _
  | panic p => exact composed_bind (composed_emit _) fun _ => composed_pure _
  | ret h mode =>
    refine composed_bind (composed_returnHandle operands h mode) fun r => ?_
    cases r <;> exact composed_pure _
  | attempt op =>
    refine composed_bind (composed_run op) fun effect => ?_
    split <;> exact composed_pure _

theorem composed_runAll (ops : List Op) : Composed (runAll operands ops) := by
  induction ops with
  | nil => exact composed_bind (composed_alter _) fun _ => composed_pure _
  | cons op rest ih =>
    refine composed_bind (composed_alter _) fun _ => composed_bind (composed_run operands op) fun effect => ?_
    split
    next => exact composed_bind ih fun _ => composed_pure _
    next => exact composed_bind ih fun _ => composed_pure _
    next => exact ih
    next => exact composed_bind (composed_alter _) fun _ => composed_pure _

end Op

end ScriptHost
