import ScriptHost.Dispatcher.Work
import ScriptHost.Proofs.Dispatcher.Runs

set_option autoImplicit false

/-!
Looks at promises and replies queue nothing, so a queue that was emptied before stays empty.
-/

namespace ScriptHost

open Dialogue LoopM

namespace World

variable {w w' w'' : World}

/-- Nothing was queued or taken off a queue, and no fault came or went. -/
structure Undisturbed (w w' : World) : Prop where
  microtasks : w'.worker.microtasks = w.worker.microtasks
  jobs : w'.heap.line = w.heap.line
  faults : w'.worker.vault.link.faults = Table.empty <-> w.worker.vault.link.faults = Table.empty

theorem Undisturbed.refl (w : World) : Undisturbed w w :=
  ⟨rfl, rfl, Iff.rfl⟩

theorem Undisturbed.trans (first : Undisturbed w w') (second : Undisturbed w' w'') : Undisturbed w w'' :=
  ⟨second.microtasks.trans first.microtasks, second.jobs.trans first.jobs, second.faults.trans first.faults⟩

theorem Undisturbed.drained (same : Undisturbed w w') (drained : w.Drained) : w'.Drained := by
  obtain ⟨microtasks, jobs⟩ := drained
  refine ⟨same.microtasks.trans microtasks, fun clear => ?_⟩
  exact (congrArg Heap.Line.waiting same.jobs).trans (jobs (same.faults.1 clear))

theorem undisturbed_setPhase (w : World) (p : Phase) : Undisturbed w (w.setPhase p) := by
  unfold setPhase
  split <;> exact ⟨rfl, rfl, Iff.rfl⟩

theorem undisturbed_meet (w : World) (d : Demand) : Undisturbed w (w.meet d) := by
  cases d with
  | send port item =>
    simp only [meet]
    split <;> exact ⟨rfl, rfl, Iff.rfl⟩
  | announce => exact undisturbed_setPhase w _
  | close =>
    simp only [meet]
    split <;> exact ⟨rfl, rfl, Iff.rfl⟩
  | hold => exact ⟨rfl, rfl, Iff.rfl⟩
  | letGo => exact ⟨rfl, rfl, Iff.rfl⟩
  | desert reply => exact ⟨rfl, rfl, Iff.rfl⟩

/-- A relation that leads through everything which touches neither the queues nor a promise. -/
structure Quieting (R : World -> World -> Prop) : Prop extends Way R where
  schedule : ∀ w a, R w { w with arrivals := a }
  meet : ∀ w d, R w (w.meet d)
  caller : ∀ w f, R w ((Change.caller f).apply w)
  ask : ∀ (q : Ask), q.Quiet -> ∀ w, R w (w.onLink fun l => (q.perform.run l).2)
  book : ∀ w alive nextReference, R w (w.onVault fun v => { v with alive, nextReference })

namespace Quieting

variable {R : World -> World -> Prop}

theorem arrive (law : Quieting R) (w : World) : R w w.arrive :=
  arrive_leads law.refl law.trans law.schedule law.meet w

theorem custodial (law : Quieting R) (w : World) :
    Vault.Custodial fun v v' => R (w.onVault fun _ => v) (w.onVault fun _ => v') :=
  .of_asks ⟨fun _ => law.refl _, law.trans⟩ (fun q quiet v => law.ask q quiet (w.onVault fun _ => v))
    fun v => law.book (w.onVault fun _ => v)

end Quieting

theorem undisturbed_law : Quieting Undisturbed where
  refl := .refl
  trans := .trans
  schedule _ _ := ⟨rfl, rfl, Iff.rfl⟩
  meet := undisturbed_meet
  caller _ _ := ⟨rfl, rfl, Iff.rfl⟩
  ask q quiet w := ⟨rfl, (quiet w.worker.vault.link).line, q.perform_faultless⟩
  book _ _ _ := ⟨rfl, rfl, Iff.rfl⟩

theorem undisturbed_arrive (w : World) : Undisturbed w w.arrive :=
  undisturbed_law.arrive w

end World

def Act.Quiet : Act -> Prop
  | look | thread | handle _ | alter (.caller _) => True
  | ask q => q.Quiet
  | _ => False

/-- What each act of a kind leads to, host code of that kind leads to. -/
theorem Runner.on_leads {R : World -> World -> Prop} {α : Type} {r : Runner} {t : Thread} {kind : Act -> Prop} (way : Way R)
    (acted : ∀ a : Act, kind a -> ∀ w, R w (final (a.perform r t) w)) {act : WorldM α} (only : act.Only kind) (w : World) :
    R w (final (r.on t act) w) := by
  induction act generalizing w with
  | done a => exact way.refl w
  | ask a next ih =>
    have first : R w (final (a.perform r t) w) := acted a only.1 w
    change R w (final (a.perform r t >>= fun x => r.on t (next x)) w)
    rw [final_bind]
    split
    next => exact first
    next x _ => exact way.trans first (ih x (only.2 x) _)

namespace World.Quieting

variable {R : World -> World -> Prop} {r : Runner} {t : Thread}

theorem acted (law : Quieting R) (a : Act) (quiet : a.Quiet) (w : World) : R w (final (a.perform r t) w) := by
  cases a with
  | look => exact law.arrive w
  | thread => exact law.refl w
  | alter c =>
    cases c with
    | caller f => exact law.caller w f
    | _ => exact quiet.elim
  | ask q =>
    cases t with
    | worker => exact law.ask q quiet w
    | other => exact law.refl w
  | handle c => exact (law.custodial w).perform t c w.worker.vault
  | program operands ops => exact quiet.elim
  | await p token => exact quiet.elim

theorem ran {α : Type} (law : Quieting R) {act : WorldM α} (quiet : act.Only Act.Quiet) (w : World) :
    R w (final (r.on t act) w) :=
  Runner.on_leads law.toWay law.acted quiet w

end World.Quieting

theorem Runner.undisturbed {α : Type} {r : Runner} {t : Thread} {act : WorldM α} (quiet : act.Only Act.Quiet)
    (w : World) : w.Undisturbed (final (r.on t act) w) :=
  World.undisturbed_law.ran quiet w

namespace Attempt

variable {α β : Type}

def Quiet (act : Attempt α) : Prop :=
  act.run.Only Act.Quiet

theorem quiet_pure (a : α) : Quiet (pure a) :=
  trivial

theorem quiet_bind {act : Attempt α} {f : α -> Attempt β} (first : Quiet act) (rest : ∀ a, Quiet (f a)) :
    Quiet (act >>= f) :=
  only_bindExcept first rest

theorem quiet_lift {act : WorldM α} (quiet : act.Only Act.Quiet) : Quiet (ExceptT.lift act) :=
  only_lift quiet

theorem quiet_ofExcept (r : Except Error α) : Quiet (ofExcept r) := by
  cases r <;> exact trivial

theorem quiet_checkAccess (operation : String) : Quiet (checkAccess operation) := by
  refine quiet_bind (quiet_lift (only_question trivial)) fun w => ?_
  exact quiet_bind (quiet_lift (only_question trivial)) fun t => quiet_ofExcept _

theorem quiet_withLink (operation : String) {act : LinkM α} (quiet : Link.Quiet act) :
    Quiet (withLink operation act) := by
  refine quiet_bind (quiet_checkAccess operation) fun _ => ?_
  exact only_through quiet fun q fine => only_question fine

theorem quiet_raw (h : Handle) : Quiet (raw h) :=
  quiet_bind (quiet_lift (only_question trivial)) fun _ => quiet_ofExcept _

theorem quiet_own (p : Ptr) : Quiet (own p) :=
  quiet_lift (only_question trivial)

theorem quiet_settlement (p : Handle) : Quiet (settlement p) := by
  refine quiet_bind (quiet_raw p) fun ptr => ?_
  refine quiet_bind (quiet_withLink _ ?_) fun found => ?_
  · refine Link.quiet_bind (Link.quiet_promiseState ptr) fun state => ?_
    cases state with
    | pending => exact Link.quiet_pure _
    | fulfilled => exact Link.quiet_bind (Link.quiet_promiseResult ptr) fun _ => Link.quiet_pure _
    | rejected => exact Link.quiet_bind (Link.quiet_promiseResult ptr) fun _ => Link.quiet_pure _
  · split
    next => exact quiet_pure _
    next v => exact quiet_bind (quiet_own v) fun _ => quiet_pure _
    next v => exact quiet_bind (quiet_own v) fun _ => quiet_pure _

end Attempt

namespace WorldM

theorem quiet_discardHandle (h : Handle) : (discardHandle h).Only Act.Quiet :=
  only_question trivial

theorem quiet_discardOutcome (o : Settled) : (discardOutcome o).Only Act.Quiet := by
  cases o with
  | success slot =>
    cases slot with
    | live h => exact quiet_discardHandle h
    | transferred => exact only_pure _
  | failure slot =>
    cases slot with
    | live h => exact quiet_discardHandle h
    | transferred => exact only_pure _

theorem quiet_hasSettled (p : Handle) : Attempt.Quiet (hasSettled p) := by
  refine Attempt.quiet_bind (Attempt.quiet_settlement p) fun found => ?_
  cases found with
  | none => exact Attempt.quiet_pure false
  | some o => exact Attempt.quiet_bind (Attempt.quiet_lift (quiet_discardOutcome o)) fun _ => Attempt.quiet_pure true

theorem quiet_isCancelled (token : Option TokenId) : (isCancelled token).Only Act.Quiet := by
  cases token with
  | none => exact only_pure _
  | some id => exact only_bind (only_question trivial) fun _ => only_pure _

end WorldM

end ScriptHost
