import ScriptHost.Proofs.Conversion.Composure
import ScriptHost.Proofs.Dispatcher.Exports

set_option autoImplicit false

/-!
What the worker runs on behalf of others, and what the caller does: nothing of it leaves anything behind.
-/

namespace ScriptHost

open WorldM

namespace Attempt

variable {α : Type}

theorem composed_toText (h : Handle) : Composed (toText h).run :=
  composed_bindExcept (composed_raw h) fun p => composed_withLink _ ((Link.composed_toText p).within (by decide))

theorem composed_registerFunction (name : String) (handler : Handler) : Composed (registerFunction name handler).run := by
  refine composed_bindExcept (composed_lift composed_look) fun w => composed_bindExcept (composed_ofExcept _) fun made => ?_
  refine composed_bindExcept (composed_lift (composed_alter _)) fun _ => ?_
  refine composed_bindExcept (composed_withLink _ ?_) fun p => composed_own p
  exact (Link.composed_newFunction made.1 name).anyhow

theorem composed_fromSnapshot (v : Snapshot) : Composed (fromSnapshot v).run := by
  refine composed_bindExcept (composed_lift composed_look) fun w => ?_
  exact composed_bindExcept (composed_withLink _ (Conversion.composed_toEngine _ _ v)) fun p => composed_own p

theorem composed_toSnapshot (h : Handle) : Composed (toSnapshot h).run := by
  refine composed_bindExcept (composed_raw h) fun p => composed_bindExcept (composed_lift composed_look) fun w => ?_
  exact composed_withLink _ (Conversion.composed_fromEngine _ _ p)

theorem composed_reasonOf (h : Handle) : Composed (reasonOf h).run := by
  refine composed_bindExcept (composed_lift (composed_toSnapshot h)) fun shown => ?_
  cases shown with
  | ok v => exact composed_pure _
  | error e => exact composed_bindExcept (composed_toText h) fun _ => composed_pure _

theorem composed_rawAll (hs : List Handle) : Composed (rawAll hs).run := by
  induction hs with
  | nil => exact composed_pure _
  | cons h rest ih =>
    exact composed_bindExcept (composed_raw h) fun _ => composed_bindExcept ih fun _ => composed_pure _

theorem comes_then {β : Type} {r : Runner} {t : Thread} {w w' : World} {act : Attempt α} {f : α -> Attempt β}
    {Q : Except Error β -> World -> Prop} (composed : Composed act.run) (loyal : r.Loyal composure)
    (begun : w'.Poised ∧ w.Returned w') (failed : ∀ e w'', w''.Poised ∧ w.Returned w'' -> Q (.error e) w'')
    (rest : ∀ a w'', w''.Poised ∧ w.Returned w'' -> LoopM.Comes (r.on t (f a).run) w'' Q) :
    LoopM.Comes (r.on t (act >>= f).run) w' Q := by
  rw [ExceptT.run_bind, Runner.on_bind]
  refine LoopM.comes_bind (composed r t loyal w' begun.1) ?_
  rintro (e | a) w'' ⟨poised, returned⟩
  next => exact LoopM.comes_pure (failed e w'' ⟨poised, begun.2.trans returned⟩)
  next => exact rest a w'' ⟨poised, begun.2.trans returned⟩

/-- The payload of a failure is what was pending in the course of the call. -/
theorem comes_call {r : Runner} {w : World} (loyal : r.Loyal composure) (poised : w.Poised)
    (function : Handle) (this : Option Handle) (args : List Handle) :
    LoopM.Comes (r.on .worker (call function this args).run) w fun a w' =>
      (w'.Poised ∧ w.Returned w') ∧ ∀ h, a = .ok (.failure (.live h)) -> Within w w' h.ptr := by
  have failed {x : Except Error Settled} (e : Error) (w' : World) (post : w'.Poised ∧ w.Returned w')
      (same : x = .error e) : (w'.Poised ∧ w.Returned w') ∧ ∀ h, x = .ok (.failure (.live h)) -> Within w w' h.ptr :=
    ⟨post, fun h told => by cases same.symm.trans told⟩
  have owned (p : Ptr) (w' : World) (post : w'.Poised ∧ w.Returned w') :
      LoopM.Comes (r.on .worker (own p).run) w' fun a w'' =>
      (w''.Poised ∧ w.Returned w'') ∧ w'.Past w'' ∧ ∃ n, a = .ok ⟨p, .owned, some n⟩ := by
    have comes := composed_own p r .worker loyal w' post.1
    refine ⟨⟨fun a came => ?_⟩, comes.cut⟩
    obtain ⟨poised, returned⟩ := comes.post a came
    exact ⟨⟨poised, post.2.trans returned⟩, returned.toPast, w'.worker.vault.nextReference, (Option.some.inj came).symm⟩
  -- The continuation is whatever the call goes on with, so that it is not spelled out here again.
  have called (next : Completion -> Attempt Settled)
      (success : ∀ p, next (.returned p) = own p >>= fun h => pure (.success (.live h)))
      (failure : ∀ p, next (.threw p) = own p >>= fun h => pure (.failure (.live h)))
      (f this : Ptr) (args : List Ptr) (w' : World) (post : w'.Poised ∧ w.Returned w') :
      LoopM.Comes (r.on .worker (checkAccess "call" >>= fun _ => WorldM.host.call f this args >>= next).run) w' fun a w'' =>
        (w''.Poised ∧ w.Returned w'') ∧ ∀ h, a = .ok (.failure (.live h)) -> Within w w'' h.ptr := by
    refine comes_then (composed_checkAccess _) loyal post (fun e w'' post => failed e w'' post rfl) ?_
    rintro _ w₁ ⟨poised₁, returned₁⟩
    rw [ExceptT.run_bind, Runner.on_bind]
    refine LoopM.comes_bind (comes_hostCall loyal poised₁ f this args) ?_
    rintro (e | p | p) w₂ ⟨⟨poised₂, returned₂⟩, pending⟩
    next => exact LoopM.comes_pure (failed e w₂ ⟨poised₂, returned₁.trans returned₂⟩ rfl)
    next =>
      change LoopM.Comes (r.on .worker (next (.returned p)).run) w₂ _
      rw [success, ExceptT.run_bind, Runner.on_bind]
      refine LoopM.comes_bind (owned p w₂ ⟨poised₂, returned₁.trans returned₂⟩) ?_
      rintro _ w₃ ⟨post₃, -, n, rfl⟩
      exact LoopM.comes_pure ⟨post₃, fun h told => by cases told⟩
    next =>
      change LoopM.Comes (r.on .worker (next (.threw p)).run) w₂ _
      rw [failure, ExceptT.run_bind, Runner.on_bind]
      refine LoopM.comes_bind (owned p w₂ ⟨poised₂, returned₁.trans returned₂⟩) ?_
      rintro _ w₃ ⟨post₃, past₃, n, rfl⟩
      refine LoopM.comes_pure ⟨post₃, ?_⟩
      rintro _ ⟨⟩ clear
      obtain ⟨mid, begun, past, raised⟩ := pending p rfl (past₃.faultless clear)
      exact ⟨mid, returned₁.toPast.trans begun, past.trans past₃, raised⟩
  have listed (next : Completion -> Attempt Settled)
      (success : ∀ p, next (.returned p) = own p >>= fun h => pure (.success (.live h)))
      (failure : ∀ p, next (.threw p) = own p >>= fun h => pure (.failure (.live h)))
      (f this : Ptr) (w' : World) (post : w'.Poised ∧ w.Returned w') :=
    comes_then (t := .worker) (composed_rawAll args) loyal post (fun e w' post => failed e w' post rfl) fun args w' post =>
      called next success failure f this args w' post
  refine comes_then (composed_raw function) loyal ⟨poised, .refl w⟩ (fun e w' post => failed e w' post rfl) ?_
  intro f w' post
  cases this with
  | some h =>
    refine comes_then (composed_raw h) loyal post (fun e w' post => failed e w' post rfl) fun this w' post => ?_
    exact listed _ (fun _ => rfl) (fun _ => rfl) f this w' post
  | none =>
    have undefined := composed_withLink "undefined" Link.composed_undefined.anyhow
    refine comes_then undefined loyal post (fun e w' post => failed e w' post rfl) fun this w' post => ?_
    exact listed _ (fun _ => rfl) (fun _ => rfl) f this w' post

theorem composed_call (function : Handle) (this : Option Handle) (args : List Handle) :
    Composed (call function this args).run :=
  composed_of_worker fun _ loyal _ poised => (comes_call loyal poised function this args).imp fun _ _ post => post.1

theorem composed_dispose (o : Settled) : Composed (dispose o).run := by
  refine composed_bindExcept (composed_lift ((clean_outcome clean_handle).release o)) fun x => ?_
  refine composed_bindExcept (composed_lift (composed_discardOutcome x.2)) fun _ => ?_
  split <;> exact composed_pure _

theorem composed_orDiscard (o : Settled) {act : Attempt α} (composed : Composed act.run) :
    Composed (orDiscard o act).run := by
  refine composed_bindExcept (composed_lift composed) fun result => ?_
  cases result with
  | ok a => exact composed_pure _
  | error e => exact composed_bindExcept (composed_lift (composed_discardOutcome o)) fun _ => composed_pure _

theorem composed_returned (operation : String) (o : Settled) : Composed (returned operation o).run := by
  unfold returned
  split
  next => exact composed_pure _
  next exception =>
    refine composed_bindExcept (composed_orDiscard _ (composed_toText exception)) fun message => ?_
    exact composed_bindExcept (composed_dispose _) fun _ => composed_pure _
  next => exact composed_pure _
  next => exact composed_pure _

theorem composed_callChecked (function : Handle) (this : Option Handle) (args : List Handle) :
    Composed (callChecked function this args).run :=
  composed_bindExcept (composed_call function this args) (composed_returned _)

theorem composed_holding {act : Handle -> Attempt α} (composed : ∀ h, Composed (act h).run) (h : Handle) :
    Composed (holding h act).run := by
  refine composed_bindExcept (composed_lift (composed h)) fun result => ?_
  exact composed_bindExcept (composed_lift (composed_discardHandle h)) fun _ => composed_ofExcept result

theorem composed_settle (id : DeferredId) (fulfil : Bool) (v : Handle) : Composed (settle id fulfil v).run := by
  refine composed_bindExcept (composed_checkAccess _) fun _ =>
    composed_bindExcept (composed_lift composed_look) fun w => ?_
  split
  next => exact composed_pure _
  next d _ =>
    split
    next => exact composed_pure _
    next =>
      split
      next => exact composed_pure _
      next capability _ =>
        refine composed_bindExcept (composed_duplicate capability) fun copy => ?_
        refine composed_bindExcept (composed_holding (fun f => composed_call f none [v]) copy) fun o => ?_
        refine composed_bindExcept (composed_returned _ o) fun h => ?_
        refine composed_bindExcept (composed_lift composed_look) fun w => ?_
        split
        next => exact composed_dispose _
        next d _ =>
          refine composed_bindExcept (composed_lift (composed_alter _)) fun _ => ?_
          exact composed_bindExcept (composed_lift (composed_discardHandles _)) fun _ => composed_dispose _

theorem composed_settleValue (id : DeferredId) (fulfil : Bool) (v : Snapshot) :
    Composed (settleValue id fulfil v).run :=
  composed_bindExcept (composed_fromSnapshot v) fun h => composed_holding (fun h => composed_settle id fulfil h) h

theorem composed_settleResult (id : DeferredId) (result : Except Snapshot Snapshot) :
    Composed (settleResult id result).run := by
  cases result <;> exact composed_settleValue id _ _

theorem composed_promiseState (p : Handle) : Composed (promiseState p).run :=
  composed_bindExcept (composed_raw p) fun ptr => composed_withLink _ (Link.composed_promiseState ptr).anyhow

theorem composed_settlement (p : Handle) : Composed (settlement p).run := by
  refine composed_bindExcept (composed_raw p) fun ptr => ?_
  have result := (Link.composed_promiseResult ptr).within (show 21 ≤ 29 by decide)
  refine composed_bindExcept (composed_withLink _ ((Link.composed_promiseState ptr).anyhow.bind fun state => ?_))
    fun found => ?_
  next =>
    cases state with
    | pending => exact Link.composed_pure _
    | fulfilled => exact result.bind fun _ => Link.composed_pure _
    | rejected => exact result.bind fun _ => Link.composed_pure _
  next =>
    split
    next => exact composed_pure _
    next v => exact composed_bindExcept (composed_own v) fun _ => composed_pure _
    next v => exact composed_bindExcept (composed_own v) fun _ => composed_pure _

theorem composed_releasing (h : Handle) (result : Except Error α) : Composed (releasing h result).run := by
  refine composed_bindExcept (composed_lift (clean_handle.release h)) fun x => ?_
  refine composed_bindExcept (composed_lift (composed_discardHandle x.2)) fun _ => ?_
  split
  next => exact composed_ofExcept result
  next => exact composed_pure _

theorem composed_settledValue (o : Settled) : Composed (settledValue o).run := by
  unfold settledValue
  split
  next => exact composed_pure _
  next v _ => exact composed_bindExcept (composed_lift (composed_toSnapshot v)) (composed_releasing v)
  next reason _ =>
    refine composed_bindExcept (composed_lift (composed_reasonOf reason)) fun shown => ?_
    exact composed_bindExcept (composed_releasing reason shown) fun _ => composed_pure _

end Attempt

theorem OpM.composed_timer (ref : TimerRef) : Composed (timer ref).run := by
  cases ref with
  | id id => exact composed_pure _
  | bound name => exact composed_lookup _ name

namespace WorldM

theorem composed_modifyCaller (f : Caller -> Caller) : Composed (modifyCaller f) :=
  composed_alter _

theorem composed_newReply : Composed newReply :=
  composed_bind composed_look fun _ => composed_bind (composed_modifyCaller _) fun _ => composed_pure _

theorem composed_putReply (id : ReplyId) (reply : Reply) : Composed (putReply id reply) :=
  composed_modifyCaller _

theorem composed_reply (id : ReplyId) : Composed (reply? id) :=
  composed_bind composed_look fun _ => composed_pure _

mutual

theorem composed_discardWork (item : Work) : Composed (discardWork item) := by
  cases item with
  | settle d result reply => exact composed_letGoDeferred d
  | settleHandle d fulfil h reply => exact composed_bind (composed_discardHandle h) fun _ => composed_letGoDeferred d
  | settledValue o reply => exact composed_discardOutcome o
  | release handles => exact composed_discardHandles handles
  | gate items => exact composed_discardWorks items
  | _ => exact composed_pure _

theorem composed_discardWorks (items : List Work) : Composed (discardWorks items) := by
  cases items with
  | nil => exact composed_pure _
  | cons item rest => exact composed_bind (composed_discardWork item) fun _ => composed_discardWorks rest

end

theorem composed_submitBy (port : Port) (item : Work) : Composed (submitBy port item) := by
  refine composed_bind (composed_send port item) fun sent => ?_
  split
  next => exact composed_pure _
  next => exact composed_bind (composed_discardWork item) fun _ => composed_pure _

theorem composed_submit (item : Work) : Composed (submit item) :=
  composed_submitBy .front item

theorem composed_newReplies {α : Type} (items : List α) : Composed (items.mapM fun _ => newReply) := by
  have collected (ids : List ReplyId) : Composed (List.mapM.loop (fun _ : α => newReply) items ids) := by
    induction items generalizing ids with
    | nil => exact composed_pure _
    | cons item rest ih => exact composed_bind composed_newReply fun id => ih (id :: ids)
  exact collected []

theorem composed_request (work : ReplyId -> Work) (wait : ReplyId -> Wait) : Composed (request work wait) := by
  refine composed_bind composed_newReply fun id => composed_bind (composed_submit _) fun sent => ?_
  cases sent <;> exact composed_pure _

theorem composed_startDuring (ops : Option (List Op)) : Composed (startDuring ops) := by
  cases ops with
  | none => exact composed_pure _
  | some ops =>
    refine composed_bind composed_newReply fun id => composed_bind (composed_submit _) fun sent => ?_
    cases sent <;> exact composed_pure _

theorem composed_register (p : Ptr) (token : Option TokenId) (settled : ReplyId) :
    Composed (register p token settled) := by
  refine composed_bind (composed_isCancelled token) fun cancelled => ?_
  split
  next => exact composed_pure _
  next =>
    refine composed_bind composed_newReply fun id => composed_bind (composed_submit _) fun sent => ?_
    cases sent <;> exact composed_pure _

theorem composed_answered {act : OpM Wait} (composed : Composed act.run) : Composed (answered act) := by
  refine composed_bind composed fun wait => ?_
  cases wait <;> exact composed_pure _

theorem composed_verdict (ran : Ran) : Composed (verdict ran) := by
  unfold verdict
  split
  next => exact composed_pure _
  next h _ => exact composed_bind (composed_discardHandle h) fun _ => composed_pure _
  next => exact composed_pure _
  next => exact composed_pure _

theorem composed_startStep (step : CallerStep) : Composed (startStep step) := by
  cases step with
  | invoke ops => exact composed_request _ _
  | batch items =>
    refine composed_bind (composed_newReplies items) fun ids => composed_bind (composed_submit _) fun sent => ?_
    cases sent <;> exact composed_pure _
  | off ops =>
    refine composed_bind (composed_program _ ops) fun ran => composed_bind (composed_verdict ran) fun answers => ?_
    cases answers <;> exact composed_pure _
  | hook hook => exact composed_bind (composed_alter _) fun _ => composed_pure _
  | globalHook => exact composed_pure _
  | createDeferred target => exact composed_request _ _
  | settle d fulfil v =>
    refine composed_answered (composed_bindExcept (OpM.composed_lookup _ d) fun d => ?_)
    exact composed_bindExcept (composed_lift (composed_holdDeferred d)) fun _ => composed_lift (composed_request _ _)
  | settleHandle d fulfil h =>
    refine composed_answered (composed_bindExcept (OpM.composed_lookup _ d) fun d => ?_)
    refine composed_bindExcept (OpM.composed_takeHandle h) fun h => ?_
    exact composed_bindExcept (composed_lift (composed_holdDeferred d)) fun _ => composed_lift (composed_request _ _)
  | settleFuture d result =>
    refine composed_answered (composed_bindExcept (OpM.composed_lookup _ d) fun d => ?_)
    exact composed_bindExcept (composed_lift (composed_holdDeferred d)) fun _ => composed_lift (composed_request _ _)
  | await p token target during cancel snapshot =>
    refine composed_answered (composed_bindExcept (OpM.composed_view _ p) fun p => ?_)
    refine composed_bindExcept (OpM.composed_optionalToken token) fun token => ?_
    refine composed_bindExcept (OpM.composed_optionalToken cancel) fun cancel => ?_
    refine composed_bindExcept (composed_lift composed_newReply) fun settled => ?_
    refine composed_bindExcept (composed_lift (composed_register _ token settled)) fun registered => ?_
    exact composed_bindExcept (composed_lift (composed_startDuring during)) fun _ => composed_pure _
  | scheduleTimer name ops delay repeating target => exact composed_request _ _
  | cancelTimer timer =>
    refine composed_answered (composed_bindExcept (OpM.composed_timer timer) fun timer => ?_)
    exact composed_lift (composed_request _ _)
  | status => exact composed_bind composed_getWorker fun _ => composed_pure _
  | shutdown => exact composed_bind composed_requestShutdown fun _ => composed_pure _

theorem composed_received (gone : Bool) (id : ReplyId) : Composed (received gone id) := by
  refine composed_bind (composed_reply id) fun reply => ?_
  split <;> exact composed_pure _

theorem composed_receivedOr (gone : Bool) (id : Except Error ReplyId) : Composed (receivedOr gone id) := by
  cases id with
  | error e => exact composed_pure _
  | ok id => exact composed_received gone id

theorem composed_receivedAll (gone : Bool) (ids : List (Except Error ReplyId)) : Composed (receivedAll gone ids) := by
  induction ids with
  | nil => exact composed_pure _
  | cons id rest ih =>
    exact composed_bind (composed_receivedOr gone id) fun _ => composed_bind ih fun _ => composed_pure _

theorem composed_afterSettlement (s : SettlementWait) (result : Except Error Settled) :
    Composed (afterSettlement s result) := by
  cases result with
  | error e => exact composed_pure _
  | ok o =>
    simp only [afterSettlement]
    split
    next =>
      refine composed_bind composed_newReply fun id => composed_bind (composed_submit _) fun sent => ?_
      cases sent <;> exact composed_pure _
    next => exact composed_bind (composed_bindOutcome _ o) fun _ => composed_pure _

theorem composed_leaveCancelled (s : SettlementWait) : Composed (leaveCancelled s) :=
  composed_bind (composed_submit _) fun _ => composed_afterSettlement s _

theorem composed_resumeSettlement (gone quiet : Bool) (s : SettlementWait) :
    Composed (resumeSettlement gone quiet s) := by
  have ended {act : WorldM Wait} (composed : Composed act) : Composed (do pure (some (<- act))) :=
    composed_bind composed fun _ => composed_pure _
  have after (result : Except Error Settled) := ended (composed_afterSettlement s result)
  have left := ended (composed_leaveCancelled s)
  refine composed_bind (composed_receivedOr gone s.registered) fun registered => ?_
  split
  next => exact composed_pure _
  next => exact after _
  next =>
    refine composed_bind (composed_reply s.settled) fun settled => ?_
    split
    next => exact after _
    next =>
      split
      next => exact after _
      next =>
        refine composed_bind (composed_isCancelled s.token) fun cancelled => ?_
        split
        next => exact left
        next =>
          split
          next token _ =>
            split
            next => exact composed_bind (composed_cancelToken token) fun _ => left
            next => exact composed_pure _
          next => exact composed_pure _

theorem composed_resume (gone quiet : Bool) (wait : Wait) : Composed (resume gone quiet wait) := by
  cases wait with
  | answer id => exact composed_bind (composed_received gone id) fun _ => composed_pure _
  | batch ids => exact composed_bind (composed_receivedAll gone ids) fun _ => composed_pure _
  | deferred id target =>
    refine composed_bind (composed_reply id) fun reply => ?_
    split
    next d => exact composed_bind (composed_bindDeferred target d) fun _ => composed_pure _
    next => exact composed_pure _
    next => exact composed_pure _
  | timer id target =>
    refine composed_bind (composed_reply id) fun reply => ?_
    split
    next timer => exact composed_bind (composed_bindTimer target timer) fun _ => composed_pure _
    next => exact composed_pure _
  | settlement s => exact composed_resumeSettlement gone quiet s
  | snapshot id during => exact composed_bind (composed_received gone id) fun _ => composed_pure _
  | meanwhile a during => exact composed_bind (composed_receivedOr gone during) fun _ => composed_pure _
  | _ => exact composed_pure _

theorem composed_startNext : Composed startNext := by
  refine composed_bind composed_look fun w => ?_
  split
  next =>
    refine composed_bind composed_getWorker fun k => ?_
    split
    next => exact composed_bind composed_requestShutdown fun _ => composed_pure _
    next => exact composed_pure _
  next step rest _ =>
    refine composed_bind (composed_modifyCaller _) fun _ => composed_bind (composed_startStep step) fun wait => ?_
    exact composed_bind (composed_modifyCaller _) fun _ => composed_pure _

theorem composed_callerTurn (gone quiet : Bool) : Composed (callerTurn gone quiet) := by
  refine composed_bind composed_look fun w => ?_
  split
  next =>
    split
    next => exact composed_startNext
    next => exact composed_pure _
  next a _ =>
    split
    next => exact composed_bind (composed_alter _) fun _ => composed_pure _
    next => exact composed_pure _
  next wait _ _ =>
    refine composed_bind (composed_resume gone quiet wait) fun resumed => ?_
    split
    next => exact composed_bind (composed_modifyCaller _) fun _ => composed_pure _
    next => exact composed_pure _

end WorldM

end ScriptHost
