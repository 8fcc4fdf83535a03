import ScriptHost.Proofs.Dispatcher.Cycles

set_option autoImplicit false

/-!
Pacts that hold act by act.

If every act of host code and every duty of the loop, by itself, leads on to a world in which the pact holds, then
programs, waits and cycles do so too, nested ones included.
-/

namespace ScriptHost

open LoopM

namespace Pact

variable {P : Pact} {w w' w'' : World}

/-- If the pact holds in the first world, it holds in the second one, and between the two. -/
def Leads (P : Pact) (w w' : World) : Prop :=
  P.always w -> P.always w' ∧ P.across w w'

theorem Leads.refl (w : World) : P.Leads w w :=
  fun ok => ⟨ok, P.refl w⟩

theorem Leads.trans (first : P.Leads w w') (second : P.Leads w' w'') : P.Leads w w'' := by
  intro ok
  obtain ⟨ok, across⟩ := first ok
  obtain ⟨ok, across'⟩ := second ok
  exact ⟨ok, P.trans across across'⟩

structure ByActs (P : Pact) : Prop where
  schedule : ∀ w a, P.Leads w { w with arrivals := a }
  change : ∀ (c : Change) w, P.Leads w (c.apply w)
  ask : ∀ (q : Ask) w, P.Leads w (w.onLink fun l => (q.perform.run l).2)
  takeRejections : ∀ w, P.Leads w (w.onLink fun l => (outcome OwnerM.takeRejections l).2)
  own : ∀ w, P.Leads w (w.onVault fun v => { v with alive := v.nextReference :: v.alive, nextReference := v.nextReference + 1 })
  bury : ∀ w (h : Handle), P.Leads w (w.onVault fun v => { v with alive := v.alive.filter fun r => !decide (h.reference = some r) })
  duty : ∀ (d : Duty) w, d.Allowed w -> P.always w -> P.always (d.apply w) ∧ (d.isOfWait = false -> P.across w (d.apply w))
  wait : ∀ h w w', P.always w -> P.across ((Duty.beginWait h).apply w) w' -> P.across w (Duty.endWait.apply w')
  flush : ∀ w, P.Leads w (Duty.flush.apply w)
  report : ∀ p reason w, P.Leads w ((Duty.report p reason).apply w)

end Pact

namespace LoopM

variable {P : Pact} {b : Nat} {w : World} {α : Type}

theorem honours_of_leads {act : LoopM α} (leads : P.Leads w (final act w)) (frame : w.Frame b (final act w)) :
    Honours P b act w :=
  ⟨⟨fun ok => (leads ok).1, frame⟩, fun ok _ _ => (leads ok).2⟩

end LoopM

namespace Pact.ByActs

variable {P : Pact} {w : World} {b : Nat} {r : Runner} {t : Thread} {α : Type} (acts : P.ByActs)
include acts

theorem arrive (w : World) : P.Leads w w.arrive :=
  World.arrive_leads .refl .trans acts.schedule (fun w d => acts.change (.demand d) w) w

theorem custodial (w : World) : Vault.Custodial fun v v' => P.Leads (w.onVault fun _ => v) (w.onVault fun _ => v') where
  refl _ := .refl _
  trans := .trans
  errand errand v := by
    have asked := Dialogue.through_leads
      (R := fun l l' => P.Leads (w.onVault fun _ => { v with link := l }) (w.onVault fun _ => { v with link := l' }))
      (fun _ => .refl _) .trans (fun q _ l => acts.ask q (w.onVault fun _ => { v with link := l })) errand.quiet v.link
    exact asked
  own v := acts.own (w.onVault fun _ => v)
  bury v h := acts.bury (w.onVault fun _ => v) h

theorem acted (loyal : r.Loyal P) (a : Act) (early : b ≤ w.cycles) : Honours P b (a.perform r t) w := by
  have frame : w.Frame b (final (a.perform r t) w) := (still_anything.acted loyal.framed a early).frame
  cases a with
  | look => exact honours_of_leads (acts.arrive w) frame
  | thread => exact .pure
  | alter c => exact honours_of_leads (acts.change c w) frame
  | ask q =>
    cases t with
    | worker => exact honours_of_leads (acts.ask q w) frame
    | other => exact .exhausted
  | handle c => exact honours_of_leads ((acts.custodial w).perform t c w.worker.vault) frame
  | program operands ops => exact loyal.program early t operands ops
  | await p token => exact loyal.await early t p token

theorem ran (loyal : r.Loyal P) (act : WorldM α) : r.Does P t act := by
  intro b w early
  induction act generalizing w with
  | done a => exact .pure
  | ask a next ih =>
    have first : Honours P b (a.perform r t) w := acts.acted loyal a early
    exact first.bind fun x _ => ih x (first.grown.started early)

theorem chores (loyal : r.Loyal P) : r.Chores P where
  loyal := loyal
  stand := acts.ran loyal _
  work _ := acts.ran loyal _
  task _ := acts.ran loyal _
  microtask _ := acts.ran loyal _
  job early := by
    have first := acts.ran loyal (t := .worker) WorldM.executeJob.run early
    refine first.bind fun status _ => ?_
    split
    next => exact .pure
    next => exact .pure
    next => exact .pure
    next => exact (acts.ran loyal WorldM.dropJobError (first.grown.started early)).bind fun _ _ => .pure
  reply _ _ := acts.ran loyal _
  alarm _ := acts.ran loyal _
  discardAlarms _ := acts.ran loyal _
  pending := acts.ran loyal _
  cancelled _ := acts.ran loyal _
  turn _ _ := acts.ran loyal _
  settlement _ := acts.ran loyal _
  settled _ := acts.ran loyal _
  duplicate _ _ := acts.ran loyal _
  discard _ := acts.ran loyal _

omit acts in
theorem flat_loyal : Runner.flat.Loyal P :=
  ⟨fun _ _ _ _ => .exhausted, fun _ _ _ _ => .exhausted, Runner.ofFuel_aloof 0⟩

theorem reported (e : Handle × Handle) (early : b ≤ w.cycles) : Honours P b (LoopM.report e) w := by
  have told (reason : Except Error Snapshot) (w : World) : Honours P b (step (.report e.1.ptr (toldReason reason))) w :=
    honours_of_leads ((acts.arrive w).trans (acts.report _ _ _)) (w.frame_arrive.trans (Duty.frame_report _ _ _))
  have read : Honours P b (Runner.flat.act (Attempt.reasonOf e.2).run) w := acts.ran flat_loyal _ early
  refine read.bind fun reason _ => (told reason _).bind fun _ _ => ?_
  exact acts.ran flat_loyal _ ((told reason _).grown.started (read.grown.started early))

theorem reportedAll (pairs : List (Handle × Handle)) (early : b ≤ w.cycles) : Honours P b (reportAll pairs) w := by
  induction pairs generalizing w with
  | nil => exact .pure
  | cons e rest ih =>
    have first := acts.reported e early
    exact first.bind fun _ _ => ih (first.grown.started early)

theorem flushed (early : b ≤ w.cycles) : Honours P b flushRejections w := by
  have noted : Honours P b (step .flush) w :=
    honours_of_leads ((acts.arrive w).trans (acts.flush _)) (w.frame_arrive.trans (Duty.frame_flush _))
  refine noted.bind fun _ _ => ?_
  have early := noted.grown.started early
  generalize final (step .flush) w = w' at *
  have taken : Honours P b takeUnhandled w' := by
    refine honours_of_leads ?_ (.of_same ?_ rfl rfl)
    next =>
      rw [final_takeUnhandled]
      exact (acts.custodial w').leads_takeUnhandled (fun v => acts.takeRejections (w'.onVault fun _ => v)) _ w'.worker.vault
    next =>
      rw [final_takeUnhandled]
      have law : Vault.Custodial fun v v' => v'.closed = v.closed :=
        .of_asks ⟨fun _ => rfl, fun first second => second.trans first⟩ (fun _ _ _ => rfl) fun _ _ _ => rfl
      exact law.leads_takeUnhandled (fun _ => rfl) _ w'.worker.vault
  refine taken.bind fun answer _ => ?_
  split
  next pairs _ => exact acts.reportedAll pairs (taken.grown.started early)
  next => exact .pure

theorem routine : Routine P where
  arrive w ok := acts.arrive w ok
  duty d w _ allowed ok := acts.duty d w allowed ok
  wait := acts.wait
  flush w _ _ _ ok := by
    have flushed := acts.flushed (b := 0) (w := w) (Nat.zero_le _)
    exact ⟨flushed.grown.kept ok, flushed.across ok⟩

/-- Programs and waits keep the pact, however deep they are nested. -/
theorem loyal (fuel : Nat) : (Runner.ofFuel fuel).Loyal P :=
  Runner.ofFuel_loyal acts.routine (fun _ => acts.chores) (fun _ loyal _ _ _ => acts.ran loyal _) fuel

end Pact.ByActs

end ScriptHost
