import ScriptHost.Proofs.Dispatcher.Lulls

set_option autoImplicit false

/-!
What the loop keeps: pacts about all worlds that a run comes to, and about the two ends of each of its parts.

The host code that the loop runs and the duties that it has by itself are to keep a pact. What is composed of them then
keeps it, too.
-/

namespace ScriptHost

open LoopM

namespace World

variable {I : World -> Prop} {w w' : World} {x : Watcher}

/-- Each watcher that is left was found to wait for a promise that is pending, in a world in which `I` held. Since then
nothing has happened to promises. -/
def Checked (I : World -> Prop) (w : World) : Prop :=
  w.Undeterred -> ∀ x ∈ w.worker.watchers,
    ∃ seen : World, I seen ∧ seen.worker.vault.told x.promise = some .pending ∧ seen.Hush w

theorem Lull.checked (lull : w.Lull w') (checked : w.Checked I) : w'.Checked I := by
  intro clear x member
  obtain ⟨seen, ok, told, hush⟩ := checked (lull.undeterred clear) x (lull.watchers ▸ member)
  exact ⟨seen, ok, told, hush.trans lull.toHush⟩

theorem Checked.vigilant (checked : w.Checked I) : w.Vigilant := by
  intro clear
  refine List.filter_eq_nil_iff.2 fun x member overdue => ?_
  obtain ⟨seen, -, told, hush⟩ := checked ⟨clear.faultless, clear.direct⟩ x member
  obtain ⟨-, record, found, pending, -⟩ := Vault.told_eq_some.1 told
  simp only [isOverdue, Bool.and_eq_true, Option.any_eq_true, decide_eq_true_eq] at overdue
  obtain ⟨-, record', found', settled⟩ := overdue
  cases found.symm.trans (hush.promises _ _ found')
  exact settled pending

end World

structure Stable (I : World -> Prop) : Prop extends Still I where
  duty : ∀ (d : Duty) w, w.Open -> d.Allowed w -> I w -> I (d.apply w)
  flush : ∀ w, w.Open -> w.Drained -> w.Checked I -> I w -> I (final flushRejections w)

/-- What is kept: something that holds of all worlds that a run comes to, and something that relates the worlds
in which a part of it starts and comes to its end. -/
structure Pact where
  always : World -> Prop
  across : World -> World -> Prop
  refl : ∀ w, across w w
  trans : ∀ {w w' w''}, across w w' -> across w' w'' -> across w w''

/-- An invariant that every act keeps leaves nothing to say of how a part of a run ends. -/
def Stable.pact (I : World -> Prop) : Pact :=
  ⟨I, fun _ _ => True, fun _ => trivial, fun _ _ => trivial⟩

/-- Nothing is promised. -/
abbrev Pact.nothing : Pact :=
  Stable.pact fun _ => True

structure LoopM.Honours (P : Pact) (b : Nat) {α : Type} (act : LoopM α) (w : World) : Prop where
  grown : Grows P.always b w (final act w)
  across : P.always w -> ∀ a, result act w = some a -> P.across w (final act w)

/-- Begins or ends a wait, which is only half of what the loop does there. -/
def Duty.isOfWait : Duty -> Bool
  | beginWait _ | endWait => true
  | _ => false

/-- What the loop does by itself. -/
structure Routine (P : Pact) : Prop where
  arrive : ∀ w, P.always w -> P.always w.arrive ∧ P.across w w.arrive
  duty : ∀ (d : Duty) w, w.Open -> d.Allowed w -> P.always w ->
    P.always (d.apply w) ∧ (d.isOfWait = false -> P.across w (d.apply w))
  -- A wait, from its beginning to its end.
  wait : ∀ h w w', P.always w -> P.across ((Duty.beginWait h).apply w) w' -> P.across w (Duty.endWait.apply w')
  flush : ∀ w, w.Open -> w.Drained -> w.Checked P.always -> P.always w ->
    P.always (final flushRejections w) ∧ ∀ a, result flushRejections w = some a -> P.across w (final flushRejections w)

theorem routine_nothing : Routine .nothing :=
  ⟨fun _ _ => ⟨trivial, trivial⟩, fun _ _ _ _ _ => ⟨trivial, fun _ => trivial⟩, fun _ _ _ _ _ => trivial,
    fun _ _ _ _ _ => ⟨trivial, fun _ _ => trivial⟩⟩

/-- Waits while something else goes on. With what that came to, it answers with what the wait is noted down as. -/
def LoopM.waiting {α : Type} (h : Handle) (act : LoopM α) : LoopM (α × List Handle) := do
  step (.beginWait h)
  let a <- act
  let finished := (<- getWorker).awaited.head?
  step .endWait
  pure (a, finished.toList)

theorem LoopM.waiting_bind {α β : Type} (h : Handle) (act : LoopM α) (f : α -> List Handle -> LoopM β) :
    (waiting h act >>= fun x => f x.1 x.2) = (do
      step (.beginWait h)
      let a <- act
      let finished := (<- getWorker).awaited.head?
      step .endWait
      f a finished.toList) := by
  simp only [waiting, bind_assoc, pure_bind]

/-- Runs a job and drops what it fails with. The answer is whether there was one. -/
def LoopM.runJob (r : Runner) : LoopM Bool := do
  match <- r.act WorldM.executeJob.run with
  | .error _ => pure false
  | .ok .idle => pure false
  | .ok .ran => pure true
  | .ok .failed => do
      r.act WorldM.dropJobError
      pure true

namespace Runner

def Does (P : Pact) (r : Runner) (t : Thread) {α : Type} (act : WorldM α) : Prop :=
  ∀ {b w}, b ≤ w.cycles -> Honours P b (r.on t act) w

/-- Runs of programs and waits, whatever starts them. -/
structure Loyal (P : Pact) (r : Runner) : Prop where
  program : ∀ {b w}, b ≤ w.cycles -> ∀ t operands ops, Honours P b (r.program t operands ops) w
  await : ∀ {b w}, b ≤ w.cycles -> ∀ t p token, Honours P b (r.await t p token) w
  aloof : r.Aloof

theorem Loyal.framed {P : Pact} {r : Runner} (loyal : r.Loyal P) : r.Sound fun _ => True :=
  ⟨fun early t operands ops => ⟨fun _ => trivial, (loyal.program early t operands ops).grown.frame⟩,
    fun early t p token => ⟨fun _ => trivial, (loyal.await early t p token).grown.frame⟩⟩

/-- The host code that the loop runs. -/
structure Chores (P : Pact) (r : Runner) : Prop where
  loyal : r.Loyal P
  stand : r.Does P .worker (WorldM.alter .stand)
  work : ∀ item, r.Does P .worker (WorldM.runWork item)
  task : ∀ task, r.Does P .worker (WorldM.pollTask task)
  microtask : ∀ c, r.Does P .worker (runMicrotask c)
  job : ∀ {b w}, b ≤ w.cycles -> Honours P b (runJob r) w
  reply : ∀ id reply, r.Does P .worker (WorldM.putReply id reply)
  alarm : ∀ alarm, r.Does P .worker (WorldM.runAlarm alarm)
  discardAlarms : ∀ alarms, r.Does P .worker (WorldM.discardAlarms alarms)
  pending : r.Does P .worker (Attempt.withLink "job pending" Link.isJobPending).run
  cancelled : ∀ token, r.Does P .worker (WorldM.isCancelled token)
  turn : ∀ ended quiet, r.Does P .other (WorldM.callerTurn ended quiet)
  settlement : ∀ p, r.Does P .worker (Attempt.settlement p).run
  settled : ∀ p, r.Does P .worker (WorldM.hasSettled p).run
  duplicate : ∀ t p, r.Does P t (Attempt.duplicate p).run
  discard : ∀ h, r.Does P .worker (WorldM.discardHandle h)

end Runner

section Anyway

variable {α : Type} {P : Pact} {b : Nat} {w : World} {r : Runner} {t : Thread}

/-- Whatever becomes of a pact, the frame of the run stays. -/
theorem LoopM.Honours.anyway {act : LoopM α} (honours : Honours P b act w) : Honours .nothing b act w :=
  ⟨⟨fun _ => trivial, honours.grown.frame⟩, fun _ _ _ => trivial⟩

namespace Runner

theorem Does.anyway {act : WorldM α} (does : r.Does P t act) : r.Does .nothing t act :=
  fun early => (does early).anyway

theorem Loyal.anyway (loyal : r.Loyal P) : r.Loyal .nothing where
  program early t operands ops := (loyal.program early t operands ops).anyway
  await early t p token := (loyal.await early t p token).anyway
  aloof := loyal.aloof

theorem Chores.anyway (chores : r.Chores P) : r.Chores .nothing where
  loyal := chores.loyal.anyway
  stand := Does.anyway chores.stand
  work item := Does.anyway (chores.work item)
  task t := Does.anyway (chores.task t)
  microtask c := Does.anyway (chores.microtask c)
  job early := (chores.job early).anyway
  reply id reply := Does.anyway (chores.reply id reply)
  alarm a := Does.anyway (chores.alarm a)
  discardAlarms alarms := Does.anyway (chores.discardAlarms alarms)
  pending := Does.anyway chores.pending
  cancelled token := Does.anyway (chores.cancelled token)
  turn ended quiet := Does.anyway (chores.turn ended quiet)
  settlement p := Does.anyway (chores.settlement p)
  settled p := Does.anyway (chores.settled p)
  duplicate t p := Does.anyway (chores.duplicate t p)
  discard h := Does.anyway (chores.discard h)

end Runner

end Anyway

namespace World

variable {b n : Nat} {w w' : World}

/-- Later cycles, nested ones included, do not count for this one. -/
theorem Fresh.later (fresh : w.Fresh n) (frame : Frame (n + 1) w w') : w'.Fresh n := by
  obtain ⟨later, earlier, begun, none_yet⟩ := fresh
  obtain ⟨marks, grown, late, _⟩ := frame.journal
  refine ⟨marks ++ later, earlier, by rw [grown, begun, List.append_assoc], ?_⟩
  intro member
  simp only [delayedCycles, List.filterMap_append, List.mem_append] at member
  rcases member with new | old
  · exact absurd (late n new) (by omega)
  · exact none_yet old

def Ready (w : World) (n : Nat) : Prop :=
  w.Drained ∧ w.Fresh n

theorem Ready.later (ready : w.Ready n) (same : w.Undisturbed w') (frame : Frame (n + 1) w w') : w'.Ready n :=
  ⟨same.drained ready.1, ready.2.later frame⟩

theorem Ready.arrive (ready : w.Ready n) : w.arrive.Ready n :=
  ready.later w.undisturbed_arrive (frame_arrive w)

end World

namespace LoopM

variable {P : Pact} {b : Nat} {w : World} {α β : Type}

/-- From an open world on, an action keeps what is to be kept, and if it comes to an end, it does so with `Q`. -/
structure Keeps (P : Pact) (b : Nat) (act : LoopM α) (w : World) (Q : α -> World -> Prop) : Prop where
  holds : w.Open -> b ≤ w.cycles -> Honours P b act w ∧ Ends act w Q

theorem Honours.pure {a : α} : Honours P b (pure a : LoopM α) w :=
  ⟨.refl w, fun _ _ _ => P.refl w⟩

theorem Honours.exhausted : Honours P b (exhausted : LoopM α) w :=
  ⟨.refl w, fun _ _ _ => P.refl w⟩

theorem Honours.bind {act : LoopM α} {f : α -> LoopM β} (first : Honours P b act w)
    (rest : ∀ a, result act w = some a -> Honours P b (f a) (final act w)) : Honours P b (act >>= f) w := by
  constructor
  next =>
    rw [final_bind]
    cases came : result act w with
    | none => exact first.grown
    | some a => exact first.grown.trans (rest a came).grown
  next =>
    intro ok c ended
    rw [result_bind] at ended
    rw [final_bind]
    cases came : result act w with
    | none => simp only [came, reduceCtorEq] at ended
    | some a =>
      simp only [came] at ended
      exact P.trans (first.across ok a came) ((rest a came).across (first.grown.kept ok) c ended)

section Rules

variable {act : LoopM α} {f : α -> LoopM β} {Q Q' : α -> World -> Prop} {Q'' : β -> World -> Prop}

theorem keeps_open (given : w.Open -> b ≤ w.cycles -> Keeps P b act w Q) : Keeps P b act w Q :=
  ⟨fun opened early => (given opened early).holds opened early⟩

theorem keeps_pure {a : α} (post : Q a w) : Keeps P b (pure a) w Q :=
  ⟨fun _ _ => ⟨.pure, ends_pure post⟩⟩

theorem keeps_exhausted : Keeps P b (exhausted : LoopM α) w Q :=
  ⟨fun _ _ => ⟨.exhausted, ends_exhausted⟩⟩

theorem keeps_bind (first : Keeps P b act w Q) (rest : ∀ a w', Q a w' -> Keeps P b (f a) w' Q'') :
    Keeps P b (act >>= f) w Q'' := by
  constructor
  intro opened early
  obtain ⟨honoured, ends⟩ := first.holds opened early
  have grown := honoured.grown
  have later (a : α) (came : result act w = some a) :=
    (rest a _ (ends.post a came)).holds (grown.frame.open opened) (grown.started early)
  refine ⟨honoured.bind fun a came => (later a came).1, ⟨fun c ended => ?_⟩⟩
  rw [result_bind] at ended
  rw [final_bind]
  cases came : result act w with
  | none => simp only [came, reduceCtorEq] at ended
  | some a =>
    simp only [came] at ended
    exact (later a came).2.post c ended

theorem Keeps.imp (keeps : Keeps P b act w Q) (weaker : ∀ a w', Q a w' -> Q' a w') : Keeps P b act w Q' :=
  ⟨fun opened early => ⟨(keeps.holds opened early).1, (keeps.holds opened early).2.imp weaker⟩⟩

theorem Keeps.and (keeps : Keeps P b act w Q) (ends : w.Open -> Ends act w Q') :
    Keeps P b act w fun a w' => Q a w' ∧ Q' a w' := by
  constructor
  intro opened early
  obtain ⟨honoured, first⟩ := keeps.holds opened early
  exact ⟨honoured, first.and (ends opened)⟩

theorem Keeps.lasting (keeps : Keeps P b act w Q) :
    Keeps P b act w fun a w' => Q a w' ∧ (P.always w -> P.always w') := by
  constructor
  intro opened early
  obtain ⟨honoured, ends⟩ := keeps.holds opened early
  exact ⟨honoured, ⟨fun a came => ⟨ends.post a came, honoured.grown.kept⟩⟩⟩

theorem Keeps.sure (keeps : Keeps P b act w Q) (ok : P.always w) : Keeps P b act w fun a w' => Q a w' ∧ P.always w' :=
  keeps.lasting.imp fun _ _ ⟨post, kept⟩ => ⟨post, kept ok⟩

/-- Where a pact does not hold to begin with, there is nothing of it to keep. -/
theorem keeps_anyhow (kept : P.always w -> Keeps P b act w Q) (otherwise : Keeps .nothing b act w Q) : Keeps P b act w Q := by
  by_cases ok : P.always w
  next => exact kept ok
  next =>
    constructor
    intro opened early
    obtain ⟨honoured, ends⟩ := otherwise.holds opened early
    exact ⟨⟨⟨fun holds => absurd holds ok, honoured.grown.frame⟩, fun holds => absurd holds ok⟩, ends⟩

theorem Keeps.within {n : Nat} (keeps : Keeps P (n + 1) act w Q) (fresh : w.Fresh n) (begun : n + 1 ≤ w.cycles)
    (early : b ≤ n) : Keeps P b act w fun a w' => Q a w' ∧ w'.Fresh n ∧ n + 1 ≤ w'.cycles := by
  constructor
  intro opened _
  obtain ⟨⟨grown, across⟩, ends⟩ := keeps.holds opened begun
  obtain ⟨marks, journal, late, staying⟩ := grown.frame.journal
  constructor
  next =>
    have later (m : Nat) (member : m ∈ delayedCycles marks) : b ≤ m :=
      Nat.le_trans (Nat.le_succ_of_le early) (late m member)
    exact ⟨⟨grown.kept, grown.frame.closed, grown.frame.cycles, marks, journal, later, staying⟩, across⟩
  next => exact ⟨fun a came => ⟨ends.post a came, fresh.later grown.frame, grown.started begun⟩⟩

end Rules

section Basic

variable (routine : Routine P)
include routine

theorem grows_arrive (w : World) : Grows P.always b w w.arrive :=
  ⟨fun ok => (routine.arrive w ok).1, w.frame_arrive⟩

theorem keeps_look : Keeps P b look w fun a w' => a = w.arrive ∧ w' = w.arrive :=
  ⟨fun _ _ => ⟨⟨grows_arrive routine w, fun ok _ _ => (routine.arrive w ok).2⟩,
    ⟨fun _ came => ⟨(Option.some.inj came).symm, rfl⟩⟩⟩⟩

theorem keeps_getWorker : Keeps P b getWorker w fun k w' => k = w.arrive.worker ∧ w' = w.arrive := by
  apply keeps_bind (keeps_look routine)
  rintro _ _ ⟨rfl, rfl⟩
  exact keeps_pure ⟨rfl, rfl⟩

theorem grows_step (d : Duty) (opened : w.Open) (allowed : d.Allowed w.arrive) (late : ∀ n, d = .delayed n -> b ≤ n) :
    Grows P.always b w (d.apply w.arrive) := by
  have arrived : Grows P.always b w w.arrive := grows_arrive routine w
  have done := routine.duty d w.arrive (arrived.frame.open opened) allowed
  exact arrived.trans ⟨fun ok => (done ok).1, Duty.frame allowed late⟩

theorem keeps_step (d : Duty) (allowed : d.Allowed w.arrive) (late : ∀ n, d = .delayed n -> b ≤ n)
    (whole : d.isOfWait = false) : Keeps P b (step d) w fun _ w' => w' = d.apply w.arrive := by
  constructor
  intro opened _
  refine ⟨⟨grows_step routine d opened allowed late, fun ok _ _ => ?_⟩, ⟨fun _ _ => rfl⟩⟩
  have arrived := routine.arrive w ok
  have opened : w.arrive.Open := (World.frame_arrive (b := b) w).open opened
  exact P.trans arrived.2 ((routine.duty d w.arrive opened allowed arrived.1).2 whole)

/-- What goes on between the beginning and the end of a wait may leave other waits behind, as long as the two
together make up for it. -/
theorem keeps_waiting {act : LoopM α} (h : Handle) (kept : ∀ w, Keeps P b act w fun _ _ => True) :
    Keeps P b (waiting h act) w fun _ _ => True := by
  constructor
  intro opened early
  have begun : Grows P.always b w _ := grows_step routine (.beginWait h) opened trivial nofun
  have inner := ((kept _).holds (begun.frame.open opened) (begun.started early)).1
  let ended := final act ((Duty.beginWait h).apply w.arrive)
  have seen : Grows P.always b ended ended.arrive := grows_arrive routine ended
  have left : Grows P.always b ended.arrive (Duty.endWait.apply ended.arrive.arrive) :=
    grows_step routine .endWait ((begun.trans (inner.grown.trans seen)).frame.open opened) trivial nofun
  refine ⟨⟨?_, fun ok => ?_⟩, ⟨fun _ _ => trivial⟩⟩
  next =>
    unfold waiting
    rw [final_bind, result_step]
    change Grows P.always b w (final (act >>= _) ((Duty.beginWait h).apply w.arrive))
    rw [final_bind]
    split
    next => exact begun.trans inner.grown
    next => exact begun.trans (inner.grown.trans (seen.trans left))
  next =>
    unfold waiting
    rw [result_bind, final_bind, result_step]
    change ∀ x, result (act >>= _) ((Duty.beginWait h).apply w.arrive) = some x ->
      P.across w (final (act >>= _) ((Duty.beginWait h).apply w.arrive))
    rw [result_bind, final_bind]
    intro x came
    split at came
    next => cases came
    next a inside =>
      have arrived := routine.arrive w ok
      have kept := inner.grown.kept (begun.kept ok)
      have across := P.trans (inner.across (begun.kept ok) a inside)
        (P.trans (routine.arrive _ kept).2 (routine.arrive _ (seen.kept kept)).2)
      exact P.trans arrived.2 (routine.wait h w.arrive _ arrived.1 across)

theorem keeps_withDeadline {act : LoopM α} {Q : α -> World -> Prop}
    (kept : ∀ w', (P.always w -> P.always w') -> Keeps P b act w' Q)
    (calm : ∀ a w w', Q a w -> w.Undisturbed w' -> w.Lull w' -> Q a w') : Keeps P b (withDeadline act) w Q := by
  apply keeps_bind ((keeps_look routine).lasting)
  rintro outer w₁ ⟨-, kept₁⟩
  apply keeps_bind ((keeps_step routine (.deadline _) trivial nofun rfl).lasting)
  rintro _ w₂ ⟨-, kept₂⟩
  apply keeps_bind (kept w₂ fun ok => kept₂ (kept₁ ok))
  intro a w post
  apply keeps_bind (keeps_step routine (.deadline _) trivial nofun rfl)
  rintro _ _ rfl
  exact keeps_pure (calm a w _ post (w.undisturbed_arrive.trans ⟨rfl, rfl, Iff.rfl⟩)
    (w.lull_arrive.trans (.of_same [] rfl rfl rfl rfl)))

/-- What the loop does in a lull. -/
theorem keeps_resting (d : Duty) (allowed : d.Allowed w.arrive) (late : ∀ n, d = .delayed n -> b ≤ n)
    (whole : d.isOfWait = false) (lull : w.arrive.Lull (d.apply w.arrive)) : Keeps P b (step d) w fun _ w' => w.Lull w' := by
  refine (keeps_step routine d allowed late whole).imp fun _ w' same => ?_
  rw [same]
  exact w.lull_arrive.trans lull

theorem keeps_nextCommand : Keeps P b nextCommand w fun _ _ => True := by
  apply keeps_bind (keeps_getWorker routine)
  intro k w _
  apply keeps_bind (keeps_step routine .take trivial nofun rfl)
  intro _ w _
  exact keeps_pure trivial

theorem keeps_wakeTasks : Keeps P b wakeTasks w fun _ w' => w.Lull w' := by
  apply keeps_bind (keeps_look routine)
  rintro _ _ ⟨rfl, rfl⟩
  refine (keeps_resting routine (.tasks _) trivial nofun rfl ?_).imp fun _ _ lull => w.lull_arrive.trans lull
  exact .of_same [] rfl rfl rfl rfl

theorem keeps_nextDeadline : Keeps P b nextDeadline w fun _ w' => w.Lull w' := by
  apply keeps_bind (keeps_getWorker routine)
  rintro _ _ ⟨rfl, rfl⟩
  apply keeps_bind (keeps_resting routine (.timers _) trivial nofun rfl (.of_same [] rfl rfl rfl rfl))
  exact fun _ _ lull => keeps_pure (w.lull_arrive.trans lull)

theorem keeps_isDelayedDue : Keeps P b isDelayedDue w fun _ w' => w.Lull w' := by
  apply keeps_bind (keeps_nextDeadline routine)
  intro deadline w' lull
  split
  next =>
    apply keeps_bind (keeps_look routine)
    rintro _ _ ⟨rfl, rfl⟩
    exact keeps_pure (lull.trans w'.lull_arrive)
  next => exact keeps_pure lull

theorem keeps_nextMicrotask :
    Keeps P b nextMicrotask w fun c w' => c = none -> w'.worker.microtasks = [] := by
  apply keeps_bind (keeps_getWorker routine)
  rintro _ w' ⟨rfl, rfl⟩
  apply keeps_bind (keeps_step routine .takeMicrotask trivial nofun rfl)
  rintro _ _ rfl
  apply keeps_pure
  intro none_left
  have before := List.head?_eq_none_iff.1 none_left
  have still := w.arrive.undisturbed_arrive.microtasks.trans before
  simp only [Duty.apply, still]

end Basic

theorem keeps_chore {t : Thread} {r : Runner} {act : WorldM α} (does : r.Does P t act) :
    Keeps P b (r.on t act) w fun _ _ => True :=
  ⟨fun _ early => ⟨does early, ⟨fun _ _ => trivial⟩⟩⟩

end LoopM

end ScriptHost
