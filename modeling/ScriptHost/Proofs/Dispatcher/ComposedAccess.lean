import ScriptHost.Dispatcher.AnyThread
import ScriptHost.Proofs.Dispatcher.Composure

set_option autoImplicit false

/-!
What any thread may do leaves the engine composed: access to handles and to what names are bound to, and all that goes
out of use.
-/

namespace ScriptHost

open WorldM

namespace Attempt

variable {α : Type}

theorem composed_ofExcept (r : Except Error α) : Composed (ofExcept r).run := by
  cases r <;> exact composed_pure _

theorem composed_checkAccess (operation : String) : Composed (checkAccess operation).run := by
  refine composed_bindExcept (composed_lift composed_look) fun w => ?_
  exact composed_bindExcept (composed_lift composed_thread) fun t => composed_ofExcept _

theorem composed_withLink (operation : String) {act : LinkM α} (composed : Link.Composed (some 29) act) :
    Composed (withLink operation act).run :=
  composed_bindExcept (composed_checkAccess operation) fun _ => composed_asking composed

theorem composed_own (p : Ptr) : Composed (own p).run :=
  composed_lift (composed_handle (.own p))

theorem composed_raw (h : Handle) : Composed (raw h).run :=
  composed_bindExcept (composed_lift composed_look) fun _ => composed_ofExcept _

theorem composed_duplicate (h : Handle) : Composed (duplicate h).run :=
  composed_handle (.duplicate h)

theorem composed_release (h : Handle) : Composed (release h).run :=
  composed_handle (.release h)

theorem composed_handOver (h : Handle) : Composed (handOver h).run :=
  composed_handle (.handOver h)

theorem composed_sameValue (a b : Handle) : Composed (sameValue a b).run :=
  composed_handle (.sameValue a b)

end Attempt

namespace WorldM

variable {α : Type}

theorem composed_getWorker : Composed getWorker :=
  composed_bind composed_look fun _ => composed_pure _

theorem composed_emit (e : Event) : Composed (emit e) :=
  composed_alter _

theorem composed_send (port : Port) (w : Work) : Composed (send port w) :=
  composed_bind composed_look fun _ => composed_bind (composed_alter _) fun _ => composed_pure _

theorem composed_requestShutdown : Composed requestShutdown :=
  composed_bind (composed_alter _) fun _ => composed_bind composed_look fun _ => composed_alter _

theorem composed_discardHandle (h : Handle) : Composed (discardHandle h) :=
  composed_handle (.discard h)

theorem composed_discardHandles (hs : List Handle) : Composed (discardHandles hs) := by
  induction hs with
  | nil => exact composed_pure _
  | cons h rest ih => exact composed_bind (composed_discardHandle h) fun _ => ih

section Resources

/-- Resources that are released and discarded without a trace. -/
structure Clean (α : Type) [Resource WorldM α] : Prop where
  release : ∀ a : α, Composed (Resource.release a)
  discard : ∀ a : α, Composed (Resource.discard a)

theorem clean_handle : Clean Handle where
  release h := composed_bind (Attempt.composed_release h) fun _ => composed_pure _
  discard := composed_discardHandle

mutual

theorem composed_releaseEntry [Resource WorldM α] (clean : Clean α) (e : ScopeEntry α) :
    Composed (Scope.releaseEntry e) := by
  cases e with
  | leaf resource =>
    refine composed_bind (clean.release resource) fun x => ?_
    exact composed_bind (clean.discard x.2) fun _ => composed_pure _
  | scope disposed stack =>
    unfold Scope.releaseEntry
    split
    next => exact composed_pure _
    next => exact composed_bind (composed_releaseStack clean stack) fun _ => composed_pure _

theorem composed_releaseStack [Resource WorldM α] (clean : Clean α) (entries : List (ScopeEntry α)) :
    Composed (Scope.releaseStack entries) := by
  cases entries with
  | nil => exact composed_pure _
  | cons entry rest =>
    refine composed_bind (composed_releaseEntry clean entry) fun _ => ?_
    exact composed_bind (composed_releaseStack clean rest) fun _ => composed_pure _

end

variable [Resource WorldM α] (clean : Clean α)
include clean

theorem composed_releaseSlot (s : Slot α) : Composed s.release := by
  cases s with
  | live a => exact composed_bind (clean.release a) fun _ => composed_pure _
  | transferred => exact composed_pure _

theorem composed_discardSlot (s : Slot α) : Composed s.discard := by
  cases s with
  | live a => exact clean.discard a
  | transferred => exact composed_pure _

theorem clean_outcome : Clean (Outcome α α) where
  release o := by
    cases o with
    | success s => exact composed_bind (composed_releaseSlot clean s) fun _ => composed_pure _
    | failure s => exact composed_bind (composed_releaseSlot clean s) fun _ => composed_pure _
  discard o := by
    cases o with
    | success s => exact composed_discardSlot clean s
    | failure s => exact composed_discardSlot clean s

theorem composed_disposeAny (s : Scope α) : Composed s.dispose := by
  unfold Scope.dispose
  split
  next => exact composed_pure _
  next => exact composed_bind (composed_releaseStack clean s.stack) fun _ => composed_pure _

theorem composed_discardScope (s : Scope α) : Composed s.discard :=
  composed_bind (composed_disposeAny clean s) fun _ => composed_pure _

theorem composed_defer (s : Scope α) (entry : ScopeEntry α) : Composed (s.defer entry) := by
  have discarded : Composed (Scope.discardEntry entry) := by
    cases entry with
    | leaf resource => exact clean.discard resource
    | scope disposed stack => exact composed_discardScope clean ⟨disposed, stack⟩
  unfold Scope.defer
  split
  next => exact composed_bind discarded fun _ => composed_pure _
  next => exact composed_pure _

end Resources

theorem composed_discardOutcome (o : Settled) : Composed (discardOutcome o) :=
  (clean_outcome clean_handle).discard o

theorem clean_held : Clean Held where
  release a := by
    cases a with
    | handle h => exact composed_bind (clean_handle.release h) fun _ => composed_pure _
    | outcome o => exact composed_bind ((clean_outcome clean_handle).release o) fun _ => composed_pure _
    | action name ending => exact composed_bind (composed_emit _) fun _ => composed_pure _
  discard a := by
    cases a with
    | handle h => exact composed_discardHandle h
    | outcome o => exact composed_discardOutcome o
    | action name ending => exact composed_pure _

theorem composed_holdDeferred (id : DeferredId) : Composed (holdDeferred id) :=
  composed_alter _

theorem composed_releaseDeferred (d : Deferred) : Composed (releaseDeferred d) := by
  unfold releaseDeferred
  refine composed_bind composed_thread fun t => composed_bind composed_getWorker fun k => ?_
  split
  next =>
    refine composed_bind (composed_send _ _) fun sent => ?_
    split
    next => exact composed_pure _
    next => exact composed_discardHandles _
  next => exact composed_discardHandles _

theorem composed_letGoDeferred (id : DeferredId) : Composed (letGoDeferred id) := by
  unfold letGoDeferred
  refine composed_bind composed_look fun w => ?_
  split
  next => exact composed_pure _
  next d _ =>
    split
    next => exact composed_bind (composed_alter _) fun _ => composed_releaseDeferred d
    next => exact composed_alter _

theorem composed_settleOld {discard : α -> WorldM Unit} (composed : ∀ a, Composed (discard a)) (old : Option α) :
    Composed (settleOld discard old) := by
  cases old with
  | none => exact composed_pure _
  | some a => exact composed a

theorem composed_modifyBindings (f : Bindings -> Bindings) : Composed (modifyBindings f) :=
  composed_alter _

section Binding

/-- A binding gives way to another one. -/
theorem composed_rebind {discard : α -> WorldM Unit} (composed : ∀ a, Composed (discard a))
    (find : World -> Option α) (f : Bindings -> Bindings) :
    Composed (do
      let old := find (<- look)
      modifyBindings f
      settleOld discard old) :=
  composed_bind composed_look fun _ => composed_bind (composed_alter _) fun _ => composed_settleOld composed _

variable (target : Target)

theorem composed_bindHandle (h : Handle) : Composed (bindHandle target h) := by
  cases target with
  | none => exact composed_discardHandle h
  | some name => exact composed_rebind composed_discardHandle _ _

theorem composed_bindOutcome (o : Settled) : Composed (bindOutcome target o) := by
  cases target with
  | none => exact composed_discardOutcome o
  | some name => exact composed_rebind composed_discardOutcome _ _

theorem composed_bindDeferred (id : DeferredId) : Composed (bindDeferred target id) := by
  cases target with
  | none => exact composed_letGoDeferred id
  | some name => exact composed_rebind composed_letGoDeferred _ _

theorem composed_bindScope (s : Scope Held) : Composed (bindScope target s) := by
  cases target with
  | none => exact composed_discardScope clean_held s
  | some name => exact composed_rebind (composed_discardScope clean_held) _ _

theorem composed_bindTimer (id : TimerId) : Composed (bindTimer target id) := by
  cases target with
  | none => exact composed_pure _
  | some name => exact composed_modifyBindings _

theorem composed_bindToken : Composed (bindToken target) := by
  refine composed_bind composed_look fun w => composed_bind (composed_alter _) fun _ => ?_
  cases target with
  | none => exact composed_pure _
  | some name => exact composed_modifyBindings _

end Binding

theorem composed_isCancelled (token : Option TokenId) : Composed (isCancelled token) := by
  cases token with
  | none => exact composed_pure _
  | some id => exact composed_bind composed_look fun _ => composed_pure _

theorem composed_cancelToken (id : TokenId) : Composed (cancelToken id) :=
  composed_alter _

end WorldM

namespace OpM

variable {α : Type}

theorem composed_ofAttempt {act : Attempt α} (composed : Composed act.run) : Composed (ofAttempt act).run := by
  refine composed_bind composed fun r => ?_
  cases r <;> exact composed_pure _

theorem composed_ofExcept (r : Except Error α) : Composed (ofExcept r).run :=
  composed_ofAttempt (Attempt.composed_ofExcept r)

theorem composed_lookup (space : Bindings -> Table String α) (name : String) : Composed (lookup space name).run := by
  refine composed_bindExcept (composed_lift composed_look) fun w => ?_
  split
  next => exact composed_pure _
  next => exact composed_pure _

/-- What is taken is not bound any more. -/
theorem composed_taken {act : OpM α} (composed : Composed act.run) (f : Bindings -> Bindings) :
    Composed (do
      let a <- act
      modifyBindings f
      pure a : OpM α).run :=
  composed_bindExcept composed fun _ => composed_bindExcept (composed_lift (composed_modifyBindings _)) fun _ =>
    composed_pure _

theorem composed_handle (name : String) : Composed (handle name).run :=
  composed_lookup _ name

theorem composed_takeHandle (name : String) : Composed (takeHandle name).run :=
  composed_taken (composed_handle name) _

variable (operands : Operands)

theorem composed_view (name : String) : Composed (view operands name).run := by
  unfold view
  have borrowed (h : Handle) : Composed (do ofExcept (h.borrow (<- look).worker.vault) : OpM Handle).run :=
    composed_bindExcept (composed_lift composed_look) fun _ => composed_ofExcept _
  split
  next => exact composed_bindExcept (composed_pure _) borrowed
  next => exact composed_bindExcept (composed_handle name) borrowed

theorem composed_views (names : List String) : Composed (views operands names).run := by
  induction names with
  | nil => exact composed_pure _
  | cons name rest ih =>
    exact composed_bindExcept (composed_view operands name) fun _ => composed_bindExcept ih fun _ => composed_pure _

theorem composed_optionalView (name : Option String) : Composed (optionalView operands name).run := by
  cases name with
  | none => exact composed_pure _
  | some name => exact composed_bindExcept (composed_view operands name) fun _ => composed_pure _

omit operands in
theorem composed_optionalToken (name : Option String) : Composed (optionalToken name).run := by
  cases name with
  | none => exact composed_pure _
  | some name => exact composed_bindExcept (composed_lookup _ name) fun _ => composed_pure _

end OpM

theorem Attempt.composed_promiseOf (id : DeferredId) : Composed (promiseOf id).run := by
  refine composed_bindExcept (composed_lift composed_look) fun w => ?_
  split
  next h _ => exact composed_duplicate h
  next => exact composed_pure _

theorem HandleOp.composed_run (operands : Operands) (op : HandleOp) : Composed (op.run operands).run := by
  have bound (target : Target) (h : Handle) : Composed (do
      bindHandle target h
      pure .ok : OpM Answer).run :=
    composed_bindExcept (composed_lift (composed_bindHandle target h)) fun _ => composed_pure _
  cases op with
  | duplicate h target =>
    refine composed_bindExcept (OpM.composed_view operands h) fun h => ?_
    exact composed_bindExcept (OpM.composed_ofAttempt (Attempt.composed_duplicate h)) (bound target)
  | borrow h target => exact composed_bindExcept (OpM.composed_view operands h) (bound target)
  | release h =>
    refine composed_bindExcept (OpM.composed_handle h) fun h => ?_
    exact composed_bindExcept (OpM.composed_ofAttempt (Attempt.composed_release h)) fun _ => composed_pure _
  | drop h =>
    refine composed_bindExcept (OpM.composed_takeHandle h) fun h => ?_
    exact composed_bindExcept (composed_lift (composed_discardHandle h)) fun _ => composed_pure _
  | info h =>
    refine composed_bindExcept (OpM.composed_handle h) fun h => ?_
    exact composed_bindExcept (composed_lift composed_look) fun _ => composed_pure _
  | raw h =>
    refine composed_bindExcept (OpM.composed_handle h) fun h => ?_
    exact composed_bindExcept (OpM.composed_ofAttempt (Attempt.composed_raw h)) fun _ => composed_pure _
  | render h => exact composed_bindExcept (composed_lift composed_look) fun _ => composed_pure _
  | sameValue a b =>
    refine composed_bindExcept (OpM.composed_view operands a) fun a => ?_
    refine composed_bindExcept (OpM.composed_view operands b) fun b => ?_
    exact composed_bindExcept (OpM.composed_ofAttempt (Attempt.composed_sameValue a b)) fun _ => composed_pure _

theorem DeferredOp.composed_run (op : DeferredOp) : Composed op.run.run := by
  cases op with
  | promise d target =>
    refine composed_bindExcept (OpM.composed_lookup _ d) fun d => ?_
    refine composed_bindExcept (OpM.composed_ofAttempt (Attempt.composed_promiseOf d)) fun h => ?_
    exact composed_bindExcept (composed_lift (composed_bindHandle target h)) fun _ => composed_pure _
  | isSettled d =>
    refine composed_bindExcept (OpM.composed_lookup _ d) fun d => ?_
    exact composed_bindExcept (composed_lift composed_look) fun _ => composed_pure _
  | clone d target =>
    refine composed_bindExcept (OpM.composed_lookup _ d) fun d => ?_
    refine composed_bindExcept (composed_lift (composed_holdDeferred d)) fun _ => ?_
    exact composed_bindExcept (composed_lift (composed_bindDeferred target d)) fun _ => composed_pure _
  | drop d =>
    refine composed_bindExcept (OpM.composed_lookup _ d) fun id => ?_
    refine composed_bindExcept (composed_lift (composed_modifyBindings _)) fun _ => ?_
    exact composed_bindExcept (composed_lift (composed_letGoDeferred id)) fun _ => composed_pure _

theorem TokenOp.composed_run (op : TokenOp) : Composed op.run.run := by
  cases op with
  | create target => exact composed_bindExcept (composed_lift (composed_bindToken target)) fun _ => composed_pure _
  | cancel name =>
    refine composed_bindExcept (OpM.composed_lookup _ name) fun id => ?_
    exact composed_bindExcept (composed_lift (composed_cancelToken id)) fun _ => composed_pure _
  | isCancelled name =>
    refine composed_bindExcept (OpM.composed_lookup _ name) fun id => ?_
    exact composed_bindExcept (composed_lift (composed_isCancelled (some id))) fun _ => composed_pure _

namespace OutcomeOp

theorem composed_bindTaken (o : String) (target : Target) (taken : Except Error Handle × Settled) :
    Composed (bindTaken o target taken).run := by
  refine composed_bindExcept (composed_lift (composed_modifyBindings _)) fun _ => ?_
  refine composed_bindExcept (OpM.composed_ofExcept taken.1) fun h => ?_
  exact composed_bindExcept (composed_lift (composed_bindHandle target h)) fun _ => composed_pure _

theorem composed_bindResult (o : Settled) (target : Target) : Composed (bindResult o target).run := by
  have bound (x : String × Handle) : Composed (do
      bindHandle target x.2
      pure (.list [.text x.1, .ok]) : OpM Answer).run :=
    composed_bindExcept (composed_lift (composed_bindHandle target x.2)) fun _ => composed_pure _
  unfold bindResult
  split
  next => exact composed_bindExcept (composed_pure _) bound
  next => exact composed_bindExcept (composed_pure _) bound
  next => exact composed_pure _

theorem composed_run (op : OutcomeOp) : Composed op.run.run := by
  have named (o : String) : Composed (OpM.outcome o).run := OpM.composed_lookup _ o
  have taken (o : String) : Composed (OpM.takeOutcome o).run := OpM.composed_taken (named o) _
  cases op with
  | flags o => exact composed_bindExcept (named o) fun _ => composed_pure _
  | payloads o => exact composed_bindExcept (named o) fun _ => composed_pure _
  | peek o =>
    exact composed_bindExcept (named o) fun _ => composed_bindExcept (OpM.composed_ofExcept _) fun _ => composed_pure _
  | takeSuccess o target => exact composed_bindExcept (named o) fun _ => composed_bindTaken o target _
  | takeFailure o target => exact composed_bindExcept (named o) fun _ => composed_bindTaken o target _
  | matchWith o =>
    exact composed_bindExcept (named o) fun _ => composed_bindExcept (OpM.composed_ofExcept _) fun _ => composed_pure _
  | toResult o target => exact composed_bindExcept (taken o) fun o => composed_bindResult o target
  | drop o =>
    refine composed_bindExcept (taken o) fun o => ?_
    exact composed_bindExcept (composed_lift (composed_discardOutcome o)) fun _ => composed_pure _
  | dispose o =>
    refine composed_bindExcept (named o) fun held => ?_
    refine composed_bindExcept (composed_lift ((clean_outcome clean_handle).release held)) fun x => ?_
    refine composed_bindExcept (composed_lift (composed_modifyBindings _)) fun _ => ?_
    exact composed_bindExcept (OpM.composed_ofExcept _) fun _ => composed_pure _

end OutcomeOp

namespace ScopeOp

theorem composed_bindChanged (s : String) (changed : Except Error Unit × Scope Held) :
    Composed (bindChanged s changed).run := by
  refine composed_bindExcept (composed_lift (composed_modifyBindings _)) fun _ => ?_
  exact composed_bindExcept (OpM.composed_ofExcept changed.1) fun _ => composed_pure _

theorem composed_viewFor (scope : Scope Held) (h : Handle) : Composed (viewFor scope h).run := by
  refine composed_bindExcept (Attempt.composed_ofExcept _) fun _ => ?_
  exact composed_bindExcept (composed_lift composed_look) fun _ => Attempt.composed_ofExcept _

theorem composed_deferHandle (s : String) (h : Handle) (target : Target) : Composed (deferHandle s h target).run := by
  refine composed_bindExcept (OpM.composed_lookup _ s) fun scope => ?_
  refine composed_bindExcept (composed_lift (composed_viewFor scope h)) fun viewed => ?_
  cases viewed with
  | error e => exact composed_bindExcept (composed_lift (composed_discardHandle h)) fun _ => composed_pure _
  | ok view =>
    refine composed_bindExcept (composed_lift (composed_defer clean_held scope _)) fun x => ?_
    refine composed_bindExcept (composed_lift (composed_modifyBindings _)) fun _ => ?_
    exact composed_bindExcept (composed_lift (composed_bindHandle target view)) fun _ => composed_pure _

theorem composed_run (op : ScopeOp) : Composed op.run.run := by
  have named (s : String) : Composed (OpM.scope s).run := OpM.composed_lookup _ s
  have taken (s : String) : Composed (OpM.takeScope s).run := OpM.composed_taken (named s) _
  have changed (s : String) {act : WorldM (Except Error Unit × Scope Held)} (composed : Composed act) :
      Composed (do bindChanged s (<- act) : OpM Answer).run :=
    composed_bindExcept (composed_lift composed) fun x => composed_bindChanged s x
  cases op with
  | create target => exact composed_bindExcept (composed_lift (composed_bindScope target _)) fun _ => composed_pure _
  | handle s h target =>
    refine composed_bindExcept (named s) fun _ => ?_
    exact composed_bindExcept (OpM.composed_takeHandle h) fun h => composed_deferHandle s h target
  | outcome s o =>
    refine composed_bindExcept (named s) fun scope => ?_
    refine composed_bindExcept (OpM.composed_taken (OpM.composed_lookup _ o) _) fun o => ?_
    exact changed s (composed_defer clean_held scope _)
  | scope s child =>
    refine composed_bindExcept (named s) fun _ => composed_bindExcept (taken child) fun child => ?_
    exact composed_bindExcept (named s) fun scope => changed s (composed_defer clean_held scope _)
  | action s name ending =>
    exact composed_bindExcept (named s) fun scope => changed s (composed_defer clean_held scope _)
  | dispose s => exact composed_bindExcept (named s) fun scope => changed s (composed_disposeAny clean_held scope)
  | info s => exact composed_bindExcept (named s) fun _ => composed_pure _
  | drop s =>
    refine composed_bindExcept (taken s) fun scope => ?_
    exact composed_bindExcept (composed_lift (composed_disposeAny clean_held scope)) fun _ => composed_pure _

end ScopeOp

end ScriptHost
