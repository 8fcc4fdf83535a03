import ScriptHost.Proofs.Dispatcher.Jobs
import ScriptHost.Proofs.Dispatcher.Watching

set_option autoImplicit false

/-!
What the drain cycle keeps, and when both queues are empty.

An invariant that host code and the duties of the loop keep is kept by all cycles, nested ones included.
A delayed callback and the report of rejections are duties that the loop has only while both queues are
empty, and it blocks only while nobody is left waiting for a promise that has settled, so that is shown on the way.
-/

namespace ScriptHost

open LoopM

namespace LoopM

variable {P : Pact} {b : Nat} {w : World} {α β : Type}

section Cycle

variable {r : Runner} (routine : Routine P) (chores : r.Chores P)
include routine chores

theorem keeps_runWork (item : Work) : Keeps P b (runWork r item) w fun _ _ => True := by
  cases item with
  | watch p token reply settled =>
    apply keeps_bind (keeps_chore chores.stand)
    intro _ w _
    apply keeps_bind (keeps_watch routine chores p token settled)
    exact fun _ _ _ => keeps_chore (chores.reply _ _)
  | _ => exact keeps_chore (chores.work _)

theorem keeps_runCommands (left : Nat) : Keeps P b (runCommands r left) w fun _ _ => True := by
  induction left generalizing w with
  | zero => exact keeps_pure trivial
  | succ left ih =>
    unfold runCommands
    apply keeps_bind (keeps_nextCommand routine)
    intro command w _
    split
    next => exact keeps_pure trivial
    next => exact keeps_pure trivial
    next work =>
      exact keeps_bind (keeps_withDeadline routine (fun _ _ => keeps_runWork routine chores work) fun _ _ _ _ _ _ => trivial)
        fun _ _ _ => ih

theorem keeps_drainWork : Keeps P b (drainWork r) w fun _ _ => True := by
  apply keeps_bind (keeps_step routine .pull trivial nofun rfl)
  intro _ w _
  apply keeps_bind (keeps_getWorker routine)
  intro k w _
  dsimp only
  split
  next => exact keeps_pure trivial
  next =>
    apply keeps_bind (keeps_step routine (.phase .drainingWork) rfl nofun rfl)
    intro _ w _
    exact keeps_runCommands routine chores _

omit routine in
theorem keeps_task (t : HostTask) :
    Keeps P b (r.act (WorldM.pollTask t)) w fun _ w' => w.Vigilant -> w'.Vigilant :=
  ⟨fun _ early => ⟨chores.task t early, ⟨fun _ _ => Runner.vigilant_pollTask chores.loyal.framed t⟩⟩⟩

theorem keeps_pollReady (left : Nat) (yielded : List HostTask) :
    Keeps P b (pollReady r left yielded) w fun _ w' => w.Vigilant -> w'.Vigilant := by
  have pooled (f : TaskPool -> TaskPool) (w : World) : Keeps P b (step (.tasks f)) w fun _ w' => w.Lull w' :=
    keeps_resting routine (.tasks f) trivial nofun rfl (.of_same [] rfl rfl rfl rfl)
  induction left generalizing yielded w with
  | zero => exact keeps_exhausted
  | succ left ih =>
    unfold pollReady
    apply keeps_bind (keeps_getWorker routine)
    rintro _ _ ⟨rfl, rfl⟩
    split
    next => exact (pooled _ _).imp fun _ _ lull => (w.lull_arrive.trans lull).vigilant
    next t rest _ =>
      apply keeps_bind (pooled _ _)
      intro _ w₁ lull
      apply keeps_bind (keeps_task chores t)
      intro polled w₂ still
      have still (vigilant : w.Vigilant) : w₂.Vigilant := still ((w.lull_arrive.trans lull).vigilant vigilant)
      cases polled with
      | yielded t => exact (ih _).imp fun _ _ more vigilant => more (still vigilant)
      | sleeping wake t =>
        apply keeps_bind (pooled _ _)
        exact fun _ _ lull => (ih _).imp fun _ _ more vigilant => more (lull.vigilant (still vigilant))
      | _ => exact (ih _).imp fun _ _ more vigilant => more (still vigilant)

theorem keeps_pollRound : Keeps P b (pollRound r) w fun _ w' => w.Vigilant -> w'.Vigilant := by
  have marked (on : Bool) (w : World) : Keeps P b (step (.polling on)) w fun _ w' => w.Lull w' :=
    keeps_resting routine (.polling on) trivial nofun rfl (.of_same [] rfl rfl rfl rfl)
  apply keeps_bind (marked true w)
  intro _ w₁ before
  apply keeps_bind (keeps_pollReady routine chores r.fuel [])
  intro _ w₂ still
  exact (marked false w₂).imp fun _ _ after vigilant => after.vigilant (still (before.vigilant vigilant))

theorem keeps_pollTasks : Keeps P b (pollTasks r) w fun _ _ => True :=
  keeps_bind (keeps_pollRound routine chores) fun _ _ _ => (keeps_wakeTasks routine).imp fun _ _ _ => trivial

theorem keeps_runMicrotasks (left : Nat) :
    Keeps P b (runMicrotasks r left) w fun any w' => any = false -> w'.worker.microtasks = [] := by
  induction left generalizing w with
  | zero => exact keeps_exhausted
  | succ left ih =>
    unfold runMicrotasks
    apply keeps_bind (keeps_nextMicrotask routine)
    intro next w none_left
    cases next with
    | none => exact keeps_pure fun _ => none_left rfl
    | some c =>
      apply keeps_bind (keeps_chore (chores.microtask c))
      intro _ w _
      exact keeps_bind ih fun _ _ _ => keeps_pure nofun

omit routine chores in
/-- If there was no job to run, the queue of jobs is empty, and that of microtasks is as it was. -/
theorem ends_runJob (opened : w.Open) : Ends (runJob r) w fun any w' => any = false -> w.Jobless w' := by
  unfold runJob
  apply ends_bind (Runner.ends_executeJob opened)
  intro status w' post
  split
  next =>
    obtain ⟨⟨⟩⟩ | ⟨⟨⟩⟩ | quiet := post
    exact ends_pure fun _ => quiet
  next =>
    obtain ⟨⟨⟩⟩ | ⟨⟨⟩⟩ | quiet := post
    exact ends_pure fun _ => quiet
  next => exact ends_pure nofun
  next => exact ends_bind ⟨fun _ _ => trivial⟩ fun _ _ (_ : True) => ends_pure nofun

omit routine chores in
theorem runJobs_succ (left : Nat) :
    runJobs r (left + 1) = runJob r >>= fun any =>
      if any then do
        let _ <- runJobs r left
        pure true
      else pure false := by
  simp only [runJobs, runJob, bind_assoc]
  congr 1
  funext status
  split
  next => rfl
  next => rfl
  next => rfl
  next => simp only [bind_assoc, pure_bind, if_true]

omit routine in
theorem keeps_runJobs (left : Nat) :
    Keeps P b (runJobs r left) w fun any w' => any = false -> w.Jobless w' := by
  induction left generalizing w with
  | zero => exact keeps_exhausted
  | succ left ih =>
    rw [runJobs_succ]
    have ran : Keeps P b (runJob r) w fun any w' => any = false -> w.Jobless w' :=
      ⟨fun opened early => ⟨chores.job early, ends_runJob opened⟩⟩
    apply keeps_bind ran
    intro any w quiet
    split
    next => exact keeps_bind ih fun _ _ _ => keeps_pure nofun
    next none_ran => exact keeps_pure fun _ => quiet (Bool.eq_false_iff.2 none_ran)

/-- The queues feed each other, so both are empty only after a round in which neither had anything left. -/
theorem keeps_settleImmediate (left : Nat) :
    Keeps P b (settleImmediate r left) w fun _ w' => w'.Drained := by
  induction left generalizing w with
  | zero => exact keeps_exhausted
  | succ left ih =>
    unfold settleImmediate
    apply keeps_bind (keeps_runMicrotasks routine chores r.fuel)
    intro someTasks w microtasks
    apply keeps_bind (keeps_runJobs chores r.fuel)
    intro someJobs w' jobs
    split
    next => exact ih
    next none_ran =>
      simp only [Bool.or_eq_true, not_or, Bool.not_eq_true] at none_ran
      obtain ⟨jobs, same⟩ := jobs none_ran.2
      exact keeps_pure ⟨same.trans (microtasks none_ran.1), jobs⟩

theorem keeps_drainImmediate (ok : P.always w) :
    Keeps P b (drainImmediate r) w fun _ w' => w'.Drained ∧ w'.Checked P.always := by
  apply keeps_bind ((keeps_step routine (.phase .drainingImmediate) rfl nofun rfl).sure ok)
  rintro _ w ⟨-, ok⟩
  apply keeps_withDeadline routine
  next =>
    intro w kept
    apply keeps_bind ((keeps_settleImmediate routine chores r.fuel).sure (kept ok))
    rintro _ w ⟨drained, ok⟩
    refine (keeps_checkWatchers routine chores ok).imp fun _ w' ⟨easing, checked⟩ => ?_
    exact ⟨easing.drained drained, checked⟩
  next => exact fun _ w w' ⟨drained, checked⟩ same lull => ⟨same.drained drained, lull.checked checked⟩

theorem keeps_runOneDelayed {n : Nat} (ready : w.Ready n) (checked : w.Checked P.always) (early : b ≤ n) :
    Keeps P b (runOneDelayed r n) w fun any w' => any = false -> w'.Drained ∧ w'.Checked P.always := by
  apply keeps_bind (keeps_look routine)
  rintro _ _ ⟨rfl, rfl⟩
  dsimp only
  apply keeps_bind (keeps_step routine (.timers _) trivial nofun rfl)
  intro _ w' taken
  have rested : w.Lull w' := by
    rw [taken]
    exact w.lull_arrive.trans (w.arrive.lull_arrive.trans (.of_same [] rfl rfl rfl rfl))
  have ready : w'.Ready n := by
    rw [taken]
    exact ready.arrive.arrive.later ⟨rfl, rfl, Iff.rfl⟩ (.of_same rfl rfl rfl)
  split
  next => exact keeps_pure fun _ => ⟨ready.1, rested.checked checked⟩
  next id alarm _ =>
    apply keeps_bind (keeps_step routine (.phase .runningDelayed) rfl nofun rfl)
    rintro _ _ rfl
    have ready := ready.arrive.later (World.undisturbed_setPhase _ .runningDelayed) (World.frame_setPhase _ _)
    have late (m : Nat) (same : Duty.delayed n = .delayed m) : b ≤ m := by
      cases same
      exact early
    apply keeps_bind (keeps_step routine (.delayed n) ready.arrive late rfl)
    intro _ w _
    have ran (w' : World) (_ : P.always w -> P.always w') : Keeps P b (r.act (WorldM.runAlarm alarm)) w' fun _ _ => True :=
      keeps_chore (chores.alarm alarm)
    apply keeps_bind (keeps_withDeadline routine ran fun _ _ _ _ _ _ => trivial)
    intro alarm w _
    apply keeps_bind (keeps_getWorker routine)
    intro k w _
    apply keeps_bind (keeps_step routine (.timers _) trivial nofun rfl)
    intro _ w _
    apply keeps_bind (keeps_chore (chores.discardAlarms _))
    intro _ w _
    exact keeps_pure nofun

omit chores in
theorem keeps_flush (drained : w.Drained) (checked : w.Checked P.always) :
    Keeps P b flushRejections w fun _ w' => w.Lull w' := by
  constructor
  intro opened early
  have flushed := routine.flush w opened drained checked
  have grown : Grows P.always b w (final flushRejections w) :=
    ⟨fun ok => (flushed ok).1, World.frame_flushRejections early⟩
  exact ⟨⟨grown, fun ok => (flushed ok).2⟩, ⟨fun _ _ => lull_flushRejections w⟩⟩

omit chores in
theorem keeps_report (drained : w.Drained) (checked : w.Checked P.always) :
    Keeps P b (do flushRejections; step (.phase .idle)) w fun _ w' => w'.Vigilant := by
  apply keeps_bind (keeps_flush routine drained checked)
  intro _ w' lull
  refine (keeps_resting routine (.phase .idle) rfl nofun rfl (World.lull_setPhase _ _)).imp fun _ _ later => ?_
  exact (lull.trans later).vigilant checked.vigilant

theorem keeps_cycle (ok : P.always w) : Keeps P b (runCycle r) w fun _ w' => w'.Vigilant := by
  apply keeps_open
  intro _ early
  apply keeps_bind ((keeps_look routine).sure ok)
  rintro _ _ ⟨⟨rfl, rfl⟩, ok⟩
  dsimp only
  have same : w.arrive.arrive.cycles = w.arrive.cycles := w.arrive.visited_arrive.cycles
  have started : b ≤ w.arrive.cycles := by rwa [w.visited_arrive.cycles]
  apply keeps_bind ((keeps_step routine .beginCycle trivial nofun rfl).sure ok)
  rintro _ w' ⟨begun, ok⟩
  have fresh : w'.Fresh w.arrive.cycles := by
    refine ⟨[], w.arrive.arrive.journal, ?_, nofun⟩
    rw [begun, ← same]
    rfl
  have begun : w.arrive.cycles + 1 ≤ w'.cycles := by
    rw [begun, ← same]
    exact Nat.le_refl _
  -- A cycle nested in one of the phases has a later number, so the delayed callback of this one is left to it.
  apply keeps_bind (((keeps_drainWork routine chores).within fresh begun started).sure ok)
  rintro _ w' ⟨⟨_, fresh, begun⟩, ok⟩
  apply keeps_bind (((keeps_pollTasks routine chores).within fresh begun started).sure ok)
  rintro _ w' ⟨⟨_, fresh, begun⟩, ok⟩
  apply keeps_bind (((keeps_drainImmediate routine chores ok).within fresh begun started).sure ok)
  rintro _ w' ⟨⟨⟨drained, checked⟩, fresh, _⟩, ok⟩
  apply keeps_bind ((keeps_runOneDelayed routine chores ⟨drained, fresh⟩ checked started).sure ok)
  rintro any w' ⟨idle, ok⟩
  split
  next =>
    apply keeps_bind (keeps_drainImmediate routine chores ok)
    exact fun _ _ ⟨drained, checked⟩ => keeps_report routine drained checked
  next none_due =>
    obtain ⟨drained, checked⟩ := idle (Bool.eq_false_iff.2 none_due)
    exact keeps_report routine drained checked

/-- After a cycle, nobody is left waiting for a promise that has settled. -/
theorem keeps_runCycle : Keeps P b (runCycle r) w fun _ w' => w'.Vigilant :=
  keeps_anyhow (keeps_cycle routine chores) (keeps_cycle routine_nothing chores.anyway trivial)

theorem keeps_hasPending : Keeps P b (hasPending r) w fun _ w' => w.Lull w' := by
  apply keeps_bind (keeps_resting routine .pull trivial nofun rfl (.of_same [] rfl rfl rfl rfl))
  intro _ w₁ pulled
  apply keeps_bind (keeps_getWorker routine)
  rintro _ _ ⟨rfl, rfl⟩
  have lull := pulled.trans w₁.lull_arrive
  split
  next => exact keeps_pure lull
  next =>
    apply keeps_bind (keeps_calmly chores.pending (Attempt.quiet_withLink _ Link.quiet_isJobPending))
    rintro pending w₂ ⟨asked, -⟩
    have lull := lull.trans asked
    split
    next => exact keeps_pure lull
    next => exact (keeps_isDelayedDue routine).imp fun _ _ later => lull.trans later

omit routine in
/-- A turn of the caller. -/
theorem keeps_turn (ended quiet : Bool) :
    Keeps P b (r.on .other (WorldM.callerTurn ended quiet)) w fun _ w' => w.Lull w' :=
  ⟨fun _ early => ⟨chores.turn ended quiet early, ⟨fun _ _ => chores.loyal.aloof.ran _ w⟩⟩⟩

theorem keeps_lull {again : LoopM Unit} (vigilant : w.Vigilant)
    (goesOn : ∀ w : World, w.Vigilant -> Keeps P b again w fun _ _ => True) :
    Keeps P b (do
      match nextInstant (<- look) with
      | some instant =>
          step (.advance instant)
          again
      | none =>
          if <- r.on .other (WorldM.callerTurn false true) then again
          else if (<- look).arrivals.isEmpty then exhausted
          else again) w fun _ _ => True := by
  apply keeps_bind (keeps_look routine)
  rintro _ _ ⟨rfl, rfl⟩
  have vigilant := w.lull_arrive.vigilant vigilant
  split
  next =>
    apply keeps_bind (keeps_resting routine (.advance _) trivial nofun rfl (.of_same [] rfl rfl rfl rfl))
    exact fun _ w' lull => goesOn w' (lull.vigilant vigilant)
  next =>
    apply keeps_bind (keeps_turn chores _ _)
    intro moved w₁ lull
    have vigilant := lull.vigilant vigilant
    split
    next => exact goesOn w₁ vigilant
    next =>
      apply keeps_bind (keeps_look routine)
      rintro _ _ ⟨rfl, rfl⟩
      split
      next => exact keeps_exhausted
      next => exact goesOn _ (w₁.lull_arrive.vigilant vigilant)

/-- Whenever it blocks, nobody is left waiting for a promise that has settled. -/
theorem keeps_idle (token : Option TokenId) (left : Nat) (vigilant : w.Vigilant) :
    Keeps P b (idle r token left) w fun _ _ => True := by
  induction left generalizing w with
  | zero => exact keeps_exhausted
  | succ left ih =>
    unfold idle
    have allowed : Duty.block.Allowed w.arrive := w.lull_arrive.vigilant vigilant
    apply keeps_bind (keeps_resting routine .block allowed nofun rfl (.of_same [_] rfl rfl rfl rfl))
    intro _ w₁ lull
    have vigilant := lull.vigilant vigilant
    apply keeps_bind (keeps_getWorker routine)
    rintro _ _ ⟨rfl, rfl⟩
    have vigilant := w₁.lull_arrive.vigilant vigilant
    split
    next => exact (keeps_step routine .receive trivial nofun rfl).imp fun _ _ _ => trivial
    next =>
      apply keeps_bind (keeps_calmly (chores.cancelled token) (WorldM.quiet_isCancelled token))
      rintro cancelled w₂ ⟨lull, -⟩
      have vigilant := lull.vigilant vigilant
      split
      next => exact keeps_pure trivial
      next =>
        apply keeps_bind (keeps_isDelayedDue routine)
        intro due w₃ lull
        have vigilant := lull.vigilant vigilant
        split
        next => exact keeps_pure trivial
        next =>
          apply keeps_bind (keeps_getWorker routine)
          rintro _ _ ⟨rfl, rfl⟩
          have vigilant := w₃.lull_arrive.vigilant vigilant
          split
          next => exact keeps_bind (keeps_pollRound routine chores) fun _ _ still => ih (still vigilant)
          next =>
            apply keeps_bind (keeps_wakeTasks routine)
            intro _ w₄ lull
            apply keeps_bind (keeps_getWorker routine)
            rintro _ _ ⟨rfl, rfl⟩
            have vigilant := w₄.lull_arrive.vigilant (lull.vigilant vigilant)
            split
            next => exact ih vigilant
            next =>
              apply keeps_bind (keeps_turn chores _ _)
              intro moved w₅ lull
              have vigilant := lull.vigilant vigilant
              split
              next => exact ih vigilant
              next => exact keeps_lull routine chores vigilant fun _ => ih

theorem keeps_idleWait (token : Option TokenId) (vigilant : w.Vigilant) :
    Keeps P b (idleWait r token) w fun _ _ => True := by
  apply keeps_bind (keeps_resting routine (.phase .idle) rfl nofun rfl (World.lull_setPhase _ _))
  exact fun _ w lull => keeps_idle routine chores token r.fuel (lull.vigilant vigilant)

theorem keeps_pump (p : Handle) (token : Option TokenId) (left : Nat) :
    Keeps P b (pump r p token left) w fun _ _ => True := by
  induction left generalizing w with
  | zero => exact keeps_exhausted
  | succ left ih =>
    unfold pump
    apply keeps_bind (keeps_chore (chores.settlement p))
    intro settlement w _
    split
    next => exact keeps_pure trivial
    next => exact keeps_pure trivial
    next =>
      apply keeps_bind (keeps_chore (chores.cancelled token))
      intro cancelled w _
      split
      next => exact keeps_pure trivial
      next =>
        apply keeps_bind (keeps_getWorker routine)
        intro k w _
        split
        next => exact keeps_pure trivial
        next =>
          apply keeps_bind (keeps_runCycle routine chores)
          intro _ w vigilant
          apply keeps_bind (keeps_calmly (chores.settled p) (WorldM.quiet_hasSettled p))
          rintro settled w₁ ⟨lull, -⟩
          have vigilant := lull.vigilant vigilant
          split
          next => exact keeps_pure trivial
          next =>
            apply keeps_bind (keeps_getWorker routine)
            rintro _ _ ⟨rfl, rfl⟩
            have vigilant := w₁.lull_arrive.vigilant vigilant
            dsimp only
            split
            next =>
              apply keeps_bind (keeps_hasPending routine chores)
              intro pending w₂ lull
              have vigilant := lull.vigilant vigilant
              split
              next => exact keeps_bind (keeps_idleWait routine chores token vigilant) fun _ _ _ => ih
              next => exact ih
            next => exact ih

omit routine in
theorem keeps_discardHandles (handles : List Handle) :
    Keeps P b (r.act (WorldM.discardHandles handles)) w fun _ _ => True := by
  induction handles generalizing w with
  | nil => exact keeps_pure trivial
  | cons h rest ih =>
    unfold WorldM.discardHandles
    rw [Runner.act, Runner.on_bind]
    exact keeps_bind (keeps_chore (chores.discard h)) fun _ _ _ => ih

theorem keeps_wait {t : Thread} (p : Handle) (token : Option TokenId) :
    Keeps P b (awaitSettlement r t p token) w fun _ _ => True := by
  apply keeps_bind (keeps_getWorker routine)
  intro k w _
  split
  next => exact keeps_pure trivial
  next =>
    apply keeps_bind (keeps_chore (chores.duplicate t p))
    intro duplicate w _
    split
    next => exact keeps_pure trivial
    next h =>
      have whole := waiting_bind h (pump r p token r.fuel) fun result finished => do
        r.act (WorldM.discardHandles finished)
        pure result
      have kept : Keeps P b (waiting h (pump r p token r.fuel) >>= fun x => do
          r.act (WorldM.discardHandles x.2)
          pure x.1) w fun _ _ => True := by
        apply keeps_bind (keeps_waiting routine h fun _ => keeps_pump routine chores p token r.fuel)
        intro ended w _
        exact keeps_bind (keeps_discardHandles chores _) fun _ _ _ => keeps_pure trivial
      exact whole ▸ kept

/-- Only an open engine duplicates a handle, so nobody waits for a promise of a closed one. -/
theorem honours_wait {t : Thread} (early : b ≤ w.cycles) (p : Handle) (token : Option TokenId) :
    Honours P b (awaitSettlement r t p token) w := by
  cases closed : w.worker.vault.closed with
  | false => exact ((keeps_wait routine chores p token).holds closed early).1
  | true =>
    -- The handle is not duplicated, and the wait is over before the loop does anything.
    have arrived : Honours P b getWorker w := ⟨grows_arrive routine w, fun ok _ _ => (routine.arrive w ok).2⟩
    have still : w.arrive.worker.vault.closed = true := arrived.grown.frame.closed.trans closed
    obtain ⟨e, refused⟩ := Runner.duplicate_barred (r := r) (t := t) p (.inl still)
    unfold awaitSettlement
    refine arrived.bind fun k came => ?_
    split
    next => exact .pure
    next =>
      refine (chores.duplicate t p (arrived.grown.started early)).bind fun duplicate came => ?_
      cases refused.symm.trans came
      exact .pure

end Cycle

end LoopM

/-- Programs and waits of host code keep what each part of them keeps, however deep they are nested. -/
theorem Runner.ofFuel_loyal {P : Pact} (routine : Routine P) (chores : ∀ r : Runner, r.Loyal P -> r.Chores P)
    (programs : ∀ r : Runner, r.Loyal P -> ∀ t operands ops, r.Does P t (Op.runAll operands ops)) (fuel : Nat) :
    (ofFuel fuel).Loyal P := by
  -- What a program starts runs one level down, with less fuel.
  induction fuel with
  | zero => exact ⟨fun _ _ _ _ => .exhausted, fun _ _ _ _ => .exhausted, ofFuel_aloof 0⟩
  | succ fuel ih =>
    constructor
    next => exact fun early t operands ops => programs _ ih t operands ops early
    next => exact fun early t p token => LoopM.honours_wait routine (chores _ ih) early p token
    next => exact ofFuel_aloof (fuel + 1)

namespace Stable

variable {I : World -> Prop} (stable : Stable I)

include stable

theorem routine : Routine (pact I) where
  arrive w ok := ⟨(stable.arrive (b := 0) w).kept ok, trivial⟩
  duty d w opened allowed ok := ⟨stable.duty d w opened allowed ok, fun _ => trivial⟩
  wait _ _ _ _ _ := trivial
  flush w opened drained checked ok := ⟨stable.flush w opened drained checked ok, fun _ _ => trivial⟩

theorem does {r : Runner} (loyal : r.Loyal (pact I)) (t : Thread) {α : Type} (act : WorldM α) :
    r.Does (pact I) t act := by
  have sound : r.Sound I := ⟨fun early t operands ops => (loyal.program early t operands ops).grown,
    fun early t p token => (loyal.await early t p token).grown⟩
  intro b w early
  exact ⟨stable.ran sound act early, fun _ _ _ => trivial⟩

theorem chores {r : Runner} (loyal : r.Loyal (pact I)) : r.Chores (pact I) where
  loyal := loyal
  stand := stable.does loyal _ _
  work _ := stable.does loyal _ _
  task _ := stable.does loyal _ _
  microtask _ := stable.does loyal _ _
  job early := by
    refine (stable.does loyal .worker WorldM.executeJob.run early).bind fun status came => ?_
    have early := (stable.does loyal .worker WorldM.executeJob.run early).grown.started early
    split
    next => exact .pure
    next => exact .pure
    next => exact .pure
    next => exact (stable.does loyal .worker WorldM.dropJobError early).bind fun _ _ => .pure
  reply _ _ := stable.does loyal _ _
  alarm _ := stable.does loyal _ _
  discardAlarms _ := stable.does loyal _ _
  pending := stable.does loyal _ _
  cancelled _ := stable.does loyal _ _
  turn _ _ := stable.does loyal _ _
  settlement _ := stable.does loyal _ _
  settled _ := stable.does loyal _ _
  duplicate _ _ := stable.does loyal _ _
  discard _ := stable.does loyal _ _

theorem ofFuel_loyal (fuel : Nat) : (Runner.ofFuel fuel).Loyal (pact I) :=
  Runner.ofFuel_loyal stable.routine (fun _ => stable.chores) (fun _ loyal _ _ _ => stable.does loyal _ _) fuel

end Stable

theorem stable_anything : Stable fun _ => True where
  toStill := still_anything
  duty _ _ _ _ _ := trivial
  flush _ _ _ _ _ := trivial

/-- Programs and waits of host code keep the invariant, however deep they are nested. -/
theorem Runner.ofFuel_sound {I : World -> Prop} (stable : Stable I) (fuel : Nat) : (ofFuel fuel).Sound I := by
  have loyal := stable.ofFuel_loyal fuel
  exact ⟨fun early t operands ops => (loyal.program early t operands ops).grown,
    fun early t p token => (loyal.await early t p token).grown⟩

end ScriptHost
