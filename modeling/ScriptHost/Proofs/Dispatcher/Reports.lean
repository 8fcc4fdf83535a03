import ScriptHost.Dispatcher.Rejections
import ScriptHost.Proofs.Dispatcher.Submit

set_option autoImplicit false

/-!
What reports of rejections keep: they ask the engine, count references and call the hook, and run no programs.
-/

namespace ScriptHost

open LoopM

namespace Vault.Custodial

variable {R : Vault -> Vault -> Prop}

theorem leads_same (law : Custodial R) (p q : Ptr) : Leads R (same p q) :=
  law.leads_withLink .worker _ (.compare p q _)

theorem leads_isAmong (law : Custodial R) (promise : Ptr) (ps : List Ptr) : Leads R (isAmong promise ps) := by
  induction ps with
  | nil => exact law.pure _
  | cons p rest ih =>
    refine law.bind (law.leads_same p promise) fun found => ?_
    split
    next => exact law.pure _
    next => exact ih

theorem leads_takePair (law : Custodial R) (promise : Ptr) (pairs : List (Handle × Handle)) :
    Leads R (takePair promise pairs) := by
  induction pairs with
  | nil => exact law.pure _
  | cons e rest ih =>
    refine law.bind (law.leads_same _ promise) fun found => ?_
    split
    next => exact law.pure _
    next => exact law.bind ih fun _ => law.pure _

theorem leads_discardPairs (law : Custodial R) (pairs : List (Handle × Handle)) :
    Leads R (ExceptT.lift (discardPairs pairs)) := by
  induction pairs with
  | nil => exact law.refl
  | cons e rest ih =>
    intro v
    exact law.trans (law.trans (law.discard e.1 .worker v) (law.discard e.2 .worker _)) (ih _)

theorem leads_sortOut (law : Custodial R) (held : List Ptr) (e : Rejection) (pair : Handle × Handle)
    (kept : List (Handle × Handle)) : Leads R (sortOut held e pair kept) := by
  unfold sortOut
  split
  next =>
    refine law.bind (law.leads_takePair _ kept) fun found => ?_
    exact law.bind (law.leads_discardPairs _) fun _ => law.pure _
  next =>
    refine law.bind (law.leads_isAmong _ held) fun waited => ?_
    split
    next => exact law.bind (law.leads_discardPairs _) fun _ => law.pure _
    next => exact law.pure _

theorem leads_collectUnhandled (law : Custodial R) (held : List Ptr) (events : List Rejection)
    (kept : List (Handle × Handle)) : Leads R (collectUnhandled held events kept) := by
  induction events generalizing kept with
  | nil => exact law.pure kept
  | cons e rest ih =>
    unfold collectUnhandled
    refine law.bind (law.leads_own e.promise) fun promise => ?_
    refine law.bind (law.leads_own e.reason) fun reason => ?_
    have sorted : Leads R (ExceptT.lift (sortOut held e (promise, reason) kept).run) :=
      law.leads_sortOut held e (promise, reason) kept
    refine law.bind sorted fun next => ?_
    split
    next => exact ih _
    next => exact law.bind (law.leads_discardPairs _) fun _ => law.throw _

theorem leads_takeUnhandled (law : Custodial R)
    (take : ∀ v, R v { v with link := (outcome OwnerM.takeRejections v.link).2 }) (held : List Ptr) :
    Leads R (takeUnhandled held) := by
  refine law.bind (law.leads_checkAccess .worker _) fun _ => ?_
  have taken : Leads R (ExceptT.mk (Vault.onLink OwnerM.takeRejections.run)) := take
  exact law.bind taken fun events => law.leads_collectUnhandled held events []

end Vault.Custodial

namespace Attempt

open Dialogue

theorem plain_ofExcept {α : Type} (r : Except Error α) : (ofExcept r).run.Only (Act.Plain .worker) := by
  cases r <;> exact trivial

theorem plain_withLink {α : Type} (operation : String) (act : LinkM α) :
    (withLink operation act).run.Only (Act.Plain .worker) := by
  have checked : (checkAccess operation).run.Only (Act.Plain .worker) := by
    refine only_bindExcept (only_lift (only_question trivial)) fun w => ?_
    exact only_bindExcept (only_lift (only_question trivial)) fun t => plain_ofExcept _
  exact only_bindExcept checked fun _ => only_through (only_any act.run) fun q _ => only_question rfl

theorem plain_raw (h : Handle) : (raw h).run.Only (Act.Plain .worker) :=
  only_bindExcept (only_lift (only_question trivial)) fun _ => plain_ofExcept _

theorem plain_reasonOf (h : Handle) : (reasonOf h).run.Only (Act.Plain .worker) := by
  have snapshot : (toSnapshot h).run.Only (Act.Plain .worker) := by
    refine only_bindExcept (plain_raw h) fun p => ?_
    exact only_bindExcept (only_lift (only_question trivial)) fun w => plain_withLink _ _
  have text : (toText h).run.Only (Act.Plain .worker) := only_bindExcept (plain_raw h) fun p => plain_withLink _ _
  refine only_bindExcept (only_lift snapshot) fun read => ?_
  cases read with
  | ok v => exact only_pure _
  | error e => exact only_bindExcept text fun s => only_pure _

end Attempt

theorem LoopM.final_takeUnhandled (w : World) :
    final takeUnhandled w = w.onVault fun v =>
      (outcome (Vault.takeUnhandled (w.worker.awaitedPromises ++ w.worker.watchedPromises)) v).2 :=
  rfl

theorem Duty.frame_report {b : Nat} (p : Ptr) (reason : Snapshot) (w : World) :
    w.Frame b ((Duty.report p reason).apply w) :=
  .of_note rfl rfl rfl rfl nofun

theorem Duty.frame_flush {b : Nat} (w : World) : w.Frame b (Duty.flush.apply w) :=
  .of_note rfl rfl rfl rfl nofun

namespace Still

variable {I : World -> Prop} {b : Nat} {w : World}

section Reports

variable (still : Still I) (reports : ∀ p reason w, I w -> I ((Duty.report p reason).apply w))
include still reports

theorem grows_report (e : Handle × Handle) (early : b ≤ w.cycles) : Grows I b w (final (report e) w) := by
  unfold report
  rw [final_bind]
  have asked := still.ran (t := .worker) Runner.flat_sound (Attempt.reasonOf e.2).run early
  split
  next => exact asked
  next reason _ =>
    rw [final_bind]
    have told (w' : World) : Grows I b w' (final (step (.report e.1.ptr (toldReason reason))) w') :=
      (still.arrive w').trans ⟨reports e.1.ptr _ _, Duty.frame_report e.1.ptr _ _⟩
    have reported := asked.trans (told _)
    exact reported.trans (still.ran Runner.flat_sound _ (reported.started early))

theorem grows_reportAll (pairs : List (Handle × Handle)) (early : b ≤ w.cycles) :
    Grows I b w (final (reportAll pairs) w) := by
  induction pairs generalizing w with
  | nil => exact .refl w
  | cons e rest ih =>
    have first := still.grows_report reports e early
    unfold reportAll
    rw [final_bind]
    split
    next => exact first
    next => exact first.trans (ih (first.started early))

/-- What requests and calls of the hook keep, the report of rejections keeps. -/
theorem grows_flushRejections (take : ∀ w, I w -> I (w.onLink fun l => (outcome OwnerM.takeRejections l).2))
    (flush : I w.arrive -> I (Duty.flush.apply w.arrive)) (early : b ≤ w.cycles) :
    Grows I b w (final flushRejections w) := by
  have law (w : World) : Vault.Custodial fun v v' => Grows I b (w.onVault fun _ => v) (w.onVault fun _ => v') :=
    .of_asks ⟨fun v => .refl _, .trans⟩ (fun q _ v => still.asked q (w.onVault fun _ => v)) fun v alive nextReference =>
      ⟨still.book (w.onVault fun _ => v) alive nextReference, .of_same rfl rfl rfl⟩
  have flushed : Grows I b w (Duty.flush.apply w.arrive) := (still.arrive w).trans ⟨flush, Duty.frame_flush _⟩
  unfold flushRejections
  rw [final_bind]
  change Grows I b w (final (takeUnhandled >>= _) (Duty.flush.apply w.arrive))
  generalize Duty.flush.apply w.arrive = w' at *
  have taken : Grows I b w (final takeUnhandled w') := by
    rw [final_takeUnhandled]
    refine flushed.trans ((law w').leads_takeUnhandled (fun v => ⟨take _, ?_⟩) _ w'.worker.vault)
    exact .of_same rfl rfl rfl
  rw [final_bind]
  split
  next => exact taken
  next answer _ =>
    split
    next pairs _ => exact taken.trans (still.grows_reportAll reports pairs (taken.started early))
    next => exact taken

end Reports

end Still

/-- Reports leave the frame of a run alone. -/
theorem World.frame_flushRejections {b : Nat} {w : World} (early : b ≤ w.cycles) :
    w.Frame b (final flushRejections w) :=
  (still_anything.grows_flushRejections (fun _ _ _ _ => trivial) (fun _ _ => trivial) (fun _ => trivial) early).frame

end ScriptHost
