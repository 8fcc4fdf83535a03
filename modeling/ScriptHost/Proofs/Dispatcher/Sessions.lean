import ScriptHost.Dispatcher.Session
import ScriptHost.Proofs.Dispatcher.Cycles

set_option autoImplicit false

/-!
What a whole session keeps: one invariant up to the end of the loop, and one from there on.
-/

namespace ScriptHost

open LoopM

namespace Duty

def LetsGo : Duty -> Prop
  | dropCommands | dropWork | dropFunctions | closeVault | stop => True
  | _ => False

end Duty

/-- What is kept after the worker has left its loop. -/
structure Abiding (I : World -> Prop) : Prop extends Still I where
  close : ∀ w, I w -> I (w.onLink fun l => (outcome OwnerM.closeEngine l).2)
  duty : ∀ (d : Duty) w, d.LetsGo -> I w -> I (d.apply w)

namespace LoopM

variable {I : World -> Prop} {w : World} {α β : Type}

theorem keeps_work {P : Pact} {r : Runner} (routine : Routine P) (chores : r.Chores P) (left : Nat) {b : Nat} :
    Keeps P b (work r left) w fun _ w' => w'.worker.stopping = true := by
  induction left generalizing w with
  | zero => exact keeps_exhausted
  | succ left ih =>
    unfold work
    apply keeps_bind (keeps_getWorker routine)
    rintro _ _ ⟨rfl, rfl⟩
    split
    next stopping => exact keeps_pure stopping
    next =>
      apply keeps_bind (keeps_runCycle routine chores)
      intro _ w₁ vigilant
      apply keeps_bind (keeps_getWorker routine)
      rintro _ _ ⟨rfl, rfl⟩
      have vigilant := w₁.lull_arrive.vigilant vigilant
      split
      next stopping => exact keeps_pure stopping
      next =>
        apply keeps_bind (keeps_hasPending routine chores)
        intro pending w₂ lull
        have vigilant := lull.vigilant vigilant
        dsimp only
        split
        next => exact keeps_bind (keeps_idleWait routine chores none vigilant) fun _ _ _ => ih
        next => exact ih

theorem ends_any {act : LoopM α} : Ends act w fun _ _ => True :=
  ⟨fun _ _ => trivial⟩

theorem kept_bind {act : LoopM α} {f : α -> LoopM β} {P : α -> World -> Prop} (first : I (final act w))
    (ends : Ends act w P) (rest : ∀ a w', P a w' -> I w' -> I (final (f a) w')) :
    I (final (act >>= f) w) := by
  rw [final_bind]
  split
  next => exact first
  next a came => exact rest a _ (ends.post a came) first

section Abiding

variable (abiding : Abiding I)
include abiding

theorem kept_duty (d : Duty) (lets : d.LetsGo) (ok : I w) : I (final (step d) w) :=
  abiding.duty d w.arrive lets ((abiding.arrive (b := 0) w).kept ok)

theorem kept_flat (act : WorldM α) (ok : I w) : I (final (Runner.flat.act act) w) :=
  (abiding.ran Runner.flat_sound act (Nat.zero_le _)).kept ok

theorem kept_letGoAll (left : I (Duty.leave.apply w.arrive)) : I (final letGoAll w) := by
  apply kept_bind left ends_any
  intro _ w _ ok
  apply kept_bind ((abiding.arrive (b := 0) w).kept ok) ends_any
  intro k w _ ok
  apply kept_bind (kept_duty abiding .dropCommands trivial ok) ends_any
  intro _ w _ ok
  apply kept_bind (kept_flat abiding _ ok) ends_any
  intro _ w _ ok
  apply kept_bind (kept_duty abiding .dropWork trivial ok) ends_any
  intro _ w _ ok
  apply kept_bind (kept_flat abiding _ ok) ends_any
  intro _ w _ ok
  apply kept_bind (kept_flat abiding _ ok) ends_any
  intro _ w _ ok
  apply kept_bind (kept_flat abiding _ ok) ends_any
  intro _ w _ ok
  apply kept_bind (kept_duty abiding .dropFunctions trivial ok) ends_any
  intro _ w _ ok
  exact kept_flat abiding _ ok

/-- The invariant once the engine is closed for good. The loop has no more duties then. -/
theorem stable_closed : Stable fun w => I w ∧ w.worker.vault.closed = true where
  schedule w a ok := ⟨abiding.schedule w a ok.1, ok.2⟩
  change c w ok := ⟨abiding.change c w ok.1, (c.frame (b := 0) w).closed.trans ok.2⟩
  ask q w ok := ⟨abiding.ask q w ok.1, ok.2⟩
  book w alive next ok := ⟨abiding.book w alive next ok.1, ok.2⟩
  duty _ _ opened _ ok := absurd (opened.symm.trans ok.2) Bool.false_ne_true
  flush _ opened _ _ ok := absurd (opened.symm.trans ok.2) Bool.false_ne_true

theorem kept_shutEngine (ok : I w) :
    I (final shutEngine w) ∧ (final shutEngine w).worker.vault.closed = true := by
  have stable := stable_closed abiding
  have shut : I (final (step .closeVault) w) ∧ (final (step .closeVault) w).worker.vault.closed = true :=
    ⟨kept_duty abiding .closeVault trivial ok, rfl⟩
  apply kept_bind (I := fun w => I w ∧ w.worker.vault.closed = true) shut ends_any
  intro _ w _ shut
  let closing := Act.onVault (Vault.onLink OwnerM.closeEngine.run)
  have closed : I (final closing w) ∧ (final closing w).worker.vault.closed = true :=
    ⟨abiding.close w shut.1, shut.2⟩
  apply kept_bind (I := fun w => I w ∧ w.worker.vault.closed = true) closed ends_any
  intro _ w _ shut
  exact ⟨kept_duty abiding .stop trivial shut.1, ((stable.arrive (b := 0) w).kept shut).2⟩

theorem kept_tearDown (left : I (Duty.leave.apply w.arrive)) :
    I (final tearDown w) ∧ Ends tearDown w fun _ w' => w'.worker.vault.closed = true := by
  have gone := kept_letGoAll abiding left
  constructor
  next => exact kept_bind gone ends_any fun _ _ _ ok => (kept_shutEngine abiding ok).1
  next =>
    apply ends_bind (P := fun _ w' => I w') ⟨fun _ _ => gone⟩
    exact fun _ _ ok => ⟨fun _ _ => (kept_shutEngine abiding ok).2⟩

end Abiding

section Finish

variable {r : Runner} (stable : Stable I) (sound : r.Sound I)
include stable sound

theorem kept_finishCaller (left : Nat) (ok : I w) : I (final (finishCaller r left) w) := by
  induction left generalizing w with
  | zero => exact ok
  | succ left ih =>
    apply kept_bind ((stable.ran sound _ (Nat.zero_le _)).kept ok) ends_any
    intro moved w _ ok
    split
    next => exact ih ok
    next => exact ok

theorem kept_rest (ok : I w) :
    I (final (do
      finishCaller r r.fuel
      let phase := (<- getWorker).phase
      r.on .other WorldM.dropBindings
      let w <- look
      pure (SessionReport.mk w.caller.reports.reverse phase w.events.reverse)) w) := by
  apply kept_bind (kept_finishCaller stable sound r.fuel ok) ends_any
  intro _ w _ ok
  apply kept_bind ((stable.arrive (b := 0) w).kept ok) ends_any
  intro k w _ ok
  apply kept_bind ((stable.ran sound _ (Nat.zero_le _)).kept ok) ends_any
  intro _ w _ ok
  exact (stable.arrive (b := 0) w).kept ok

end Finish

theorem session_honours {P : Pact} {I' : World -> Prop} (routine : Routine P) (abiding : Abiding I')
    (leave : ∀ w, w.Open -> w.worker.stopping = true -> P.always w -> I' (Duty.leave.apply w)) {fuel : Nat}
    (chores : (Runner.ofFuel fuel).Chores P) (opened : w.Open) (ok : P.always w) :
    P.always (final (session (.ofFuel fuel)) w) ∨ I' (final (session (.ofFuel fuel)) w) := by
  obtain ⟨⟨worked, _⟩, ends⟩ :=
    (keeps_work routine chores (Runner.ofFuel fuel).fuel (b := 0)).holds opened (Nat.zero_le _)
  unfold session
  rw [final_bind]
  split
  next => exact .inl (worked.kept ok)
  next came =>
    have arrived := grows_arrive routine (b := 0) (final (work (.ofFuel fuel) (Runner.ofFuel fuel).fuel) w)
    have stopping := (World.visited_arrive _).stopping.trans (ends.post _ came)
    have left := leave _ (arrived.frame.open (worked.frame.open opened)) stopping (arrived.kept (worked.kept ok))
    obtain ⟨torn, closed⟩ := kept_tearDown abiding left
    -- From here on the engine is closed, and the loop has no duties that could break the invariant.
    have stable := stable_closed abiding
    apply Or.inr
    apply kept_bind torn closed
    exact fun _ _ closed ok => (kept_rest stable (Runner.ofFuel_sound stable fuel) ⟨ok, closed⟩).1

theorem session_keeps {I' : World -> Prop} (stable : Stable I) (abiding : Abiding I')
    (leave : ∀ w, w.Open -> w.worker.stopping = true -> I w -> I' (Duty.leave.apply w)) (opened : w.Open)
    (ok : I w) (fuel : Nat) :
    I (final (session (.ofFuel fuel)) w) ∨ I' (final (session (.ofFuel fuel)) w) :=
  session_honours stable.routine abiding leave (stable.chores (stable.ofFuel_loyal fuel)) opened ok

end LoopM

structure World.New (w : World) : Prop where
  opened : w.Open
  ordered : w.heap.Ordered
  faultless : Mark.fault ∉ w.journal -> w.worker.vault.link.faults = Table.empty
  journal : ∀ m ∈ w.journal, m = .fault
  microtasks : w.worker.microtasks = []
  inbox : w.worker.inbox = []
  backlog : w.worker.backlog = []
  stopping : w.worker.stopping = false
  accepting : w.worker.accepting = true
  phase : w.worker.phase = .idle
  watchers : w.worker.watchers = []

namespace World.New

variable {w : World}

theorem throughout {law : Mark -> List Mark -> Prop} (new : w.New) (free : ∀ earlier, law .fault earlier) :
    Throughout law w.journal := by
  apply Throughout.of_forall
  intro m member earlier
  rw [new.journal m member]
  exact free earlier

theorem filterMap {α : Type} {f : Mark -> Option α} (new : w.New) (other : f .fault = none) :
    w.journal.filterMap f = [] := by
  apply List.filterMap_eq_nil_iff.2
  intro m member
  rw [new.journal m member]
  exact other

end World.New

namespace SessionStart

variable {s : SessionStart} {w : World}

theorem link_engine (s : SessionStart) : s.link.engine = .empty := by
  unfold link
  -- Over all links, since the fold goes on with the faults that are set already.
  suffices same : ∀ (faults : List (String × Option Fault)) (l : Link),
      (faults.foldl (fun l f => l.setFault f.1 f.2) l).engine = l.engine from same s.faults Link.empty
  intro faults
  induction faults with
  | nil => exact fun _ => rfl
  | cons f rest ih =>
    intro l
    rw [List.foldl_cons, ih, Link.setFault_engine]

theorem start_new (started : s.start = .ok w) : w.New := by
  unfold start at started
  split at started
  next => cases started
  next =>
    split at started
    next => cases started
    next =>
      have ordered := OwnerM.law_ordered.openEngine s.config.memoryLimit s.link
      have faultless := OwnerM.law_faultless.openEngine s.config.memoryLimit s.link
      rw [link_engine] at ordered
      unfold outcome at ordered faultless
      generalize (OwnerM.openEngine s.config.memoryLimit).run.run s.link = r at *
      obtain ⟨_ | _, link⟩ := r
      next => cases started
      next =>
        cases started
        exact {
          opened := rfl
          ordered := ordered rfl
          faultless := by
            intro clear
            apply faultless.2
            cases none_set : s.faults with
            | nil => simp only [SessionStart.link, none_set, List.foldl_nil, Link.empty]
            | cons f rest => exact absurd (by simp [none_set]) clear
          journal := fun m member => by
            obtain ⟨_, _, rfl⟩ := List.mem_map.1 member
            rfl
          microtasks := rfl
          inbox := rfl
          backlog := rfl
          stopping := rfl
          accepting := rfl
          phase := rfl
          watchers := rfl }

end SessionStart

/-- A session is what the loop makes of a dispatcher that has started. -/
theorem SessionReport.run_begins {s : SessionStart} {steps : List CallerStep} {arrivals : List (List Demand)}
    {fuel : Nat} {report : Option SessionReport} {w : World} (ran : run s steps arrivals fuel = .ok (report, w)) :
    ∃ begun, s.start = .ok begun ∧
      w = final (session (.ofFuel fuel)) { begun with caller := { begun.caller with steps }, arrivals } := by
  unfold run at ran
  cases started : s.start with
  | error e => simp [started, Except.map] at ran
  | ok begun =>
    simp only [started, Except.map, Except.ok.injEq] at ran
    exact ⟨begun, rfl, (congrArg Prod.snd ran).symm⟩

theorem World.New.scheduled {w : World} (new : w.New) (steps : List CallerStep) (arrivals : List (List Demand)) :
    ({ w with caller := { w.caller with steps }, arrivals } : World).New := by
  obtain ⟨opened, ordered, faultless, journal, microtasks, inbox, backlog, stopping, accepting, phase, watchers⟩ := new
  exact ⟨opened, ordered, faultless, journal, microtasks, inbox, backlog, stopping, accepting, phase, watchers⟩

/-- An invariant of the loop, and another one for afterwards, hold of whatever a session comes to. -/
theorem SessionReport.run_keeps {I I' : World -> Prop} (stable : Stable I) (abiding : Abiding I')
    (leave : ∀ w, w.Open -> w.worker.stopping = true -> I w -> I' (Duty.leave.apply w))
    (start : ∀ w, w.New -> I w) {s : SessionStart} {steps : List CallerStep} {arrivals : List (List Demand)}
    {fuel : Nat} {report : Option SessionReport} {w : World}
    (ran : run s steps arrivals fuel = .ok (report, w)) : I w ∨ I' w := by
  obtain ⟨begun, started, rfl⟩ := run_begins ran
  have fresh := (SessionStart.start_new started).scheduled steps arrivals
  exact session_keeps stable abiding leave fresh.opened (start _ fresh) fuel

theorem SessionReport.run_shows {α : Type} (s : SessionStart) (steps : List CallerStep)
    (arrivals : List (List Demand)) (fuel : Nat) (view : World -> α) (a : α)
    (shown : ((run s steps arrivals fuel).toOption.map fun r => view r.2) = some a) :
    ∃ report w, run s steps arrivals fuel = .ok (report, w) ∧ view w = a := by
  cases ran : run s steps arrivals fuel with
  | error e =>
    rw [ran] at shown
    cases shown
  | ok r =>
    rw [ran] at shown
    exact ⟨r.1, r.2, rfl, Option.some.inj shown⟩

end ScriptHost
