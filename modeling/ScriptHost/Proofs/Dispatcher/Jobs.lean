import ScriptHost.Dispatcher.Work
import ScriptHost.Proofs.Dispatcher.Quiet

set_option autoImplicit false

/-!
When the engine has run no job, there was none, and nothing else has happened.
-/

namespace ScriptHost

open LoopM

/-- A stage of a job. It ends, within as many waits for the host, with a status that is not zero. -/
def Stage.Works : Nat -> Stage -> Prop
  | _, .done result => ∃ n, result = .ok (.i32 n) ∧ n ≠ 0
  | left, .checking (.job _) => 3 ≤ left
  | left, .checking (.handler _ _) => 2 ≤ left
  | left, .calling _ (.handler _ _) => 1 ≤ left
  | _, _ => False

namespace Engine

variable {s : Engine}

theorem endJob_worked (s : Engine) (job : Job) (c : Completion) : (s.endJob job c).1 = .i32 1 := by
  cases c <;> rfl

theorem endJob_works (s : Engine) (job : Job) (c : Completion) (left : Nat) :
    (finished (s.endJob job c)).1.Works left :=
  ⟨1, congrArg Except.ok (endJob_worked s job c), by decide⟩

theorem passThrough_works (s : Engine) (job : Job) (left : Nat) :
    (finished (s.passThrough job)).1.Works left :=
  ⟨1, rfl, by decide⟩

theorem interruptJob_works (s : Engine) (job : Job) (left : Nat) :
    (finished (s.interruptJob job)).1.Works left :=
  ⟨-1, rfl, by decide⟩

theorem runHandler_works (s : Engine) (interrupted : Bool) (job : Job) (function : Ptr) {left : Nat}
    (enough : 1 ≤ left) : (s.runHandler interrupted job function).1.Works left := by
  simp only [runHandler]
  split
  next => exact endJob_works _ _ _ left
  next =>
    split
    next =>
      split
      next => exact endJob_works _ _ _ left
      next => exact enough
    next => exact endJob_works _ _ _ left

theorem afterCheck_works (s : Engine) (interrupted : Bool) {c : Check} {left : Nat}
    (works : (Stage.checking c).Works (left + 1)) : (s.afterCheck interrupted c).1.Works left := by
  cases c with
  | job job =>
    have enough : 3 ≤ left + 1 := works
    simp only [afterCheck]
    split
    next => exact interruptJob_works s job left
    next =>
      split
      next => exact passThrough_works s job left
      next => exact Nat.le_of_succ_le_succ enough
  | call function this args table => exact works.elim
  | handler job function => exact runHandler_works s interrupted job function (Nat.le_of_succ_le_succ works)

theorem beginJob_idle (none : s.heap.jobs = []) : s.beginJob = (.done (.ok (.i32 0)), s) := by
  simp only [beginJob, Heap.takeJob, none]
  rfl

theorem beginJob_works (some : s.heap.jobs ≠ []) : s.beginJob.1.Works Host.mostStages := by
  obtain ⟨job, rest, waiting⟩ := List.exists_cons_of_ne_nil some
  simp only [beginJob, Heap.takeJob, waiting]
  exact Nat.le_refl 3

end Engine

/-- No job is left, unless faults are in the way of them, and no microtask came or went. -/
structure World.Jobless (w w' : World) : Prop where
  jobs : w'.worker.vault.link.faults = Table.empty -> w'.heap.jobs = []
  microtasks : w'.worker.microtasks = w.worker.microtasks

theorem World.onLink_same {w : World} {f : Link -> Link} (same : f w.worker.vault.link = w.worker.vault.link) :
    w.onLink f = w := by
  simp only [onLink, onVault, onWorker, same]

namespace Runner

variable {r : Runner} {t : Thread} {w : World}

theorem ends_true {α : Type} {act : WorldM α} : Ends (r.on t act) w fun _ _ => True :=
  ⟨fun _ _ => trivial⟩

theorem ends_stages {left : Nat} {stage : Stage} (works : stage.Works left) :
    Ends (r.on t (WorldM.host.runStages left stage)) w fun a _ => ∃ n, a = .ok (.i32 n) ∧ n ≠ 0 := by
  induction left generalizing stage w with
  | zero =>
    cases stage with
    | done result => exact ends_pure works
    | checking c => cases c <;> simp [Stage.Works] at works
    | calling invocation f => cases f <;> simp [Stage.Works] at works
  | succ left ih =>
    cases stage with
    | done result => exact ends_pure works
    | checking c =>
      simp only [Host.runStages]
      apply ends_bindOn ends_true
      intro interrupted w _
      apply ends_bindOn (P := fun stage _ => stage.Works left)
      next => exact ends_ask (Engine.afterCheck_works _ interrupted works)
      next => exact fun stage w works => ih works
    | calling invocation f =>
      cases f with
      | call => exact works.elim
      | handler job table =>
        simp only [Host.runStages]
        apply ends_bindOn ends_true
        intro answer w _
        apply ends_bindOn (P := fun a _ => a = .i32 1)
        next => exact ends_ask (Engine.endJob_worked _ job _)
        next =>
          intro a w worked
          exact ends_pure ⟨1, congrArg Except.ok worked, by decide⟩

theorem ends_exportJob :
    Ends (r.on t (WorldM.host.runExport .job)) w fun a w' =>
      (∃ n, a = .ok (.i32 n) ∧ n ≠ 0) ∨ w.Jobless w' := by
  let asked := w.onLink fun l => ((Ask.intercept Calling.job.name).perform.run l).2
  simp only [Host.runExport]
  apply ends_bindOn (P := fun a w' =>
    w' = asked ∧ (a.isSome -> w.worker.vault.link.faults ≠ Table.empty))
  next =>
    apply ends_ask
    refine ⟨rfl, fun replaced clear => ?_⟩
    change ((w.worker.vault.link.intercept Calling.job.name).1).isSome at replaced
    rw [Link.intercept_of_faultless clear] at replaced
    cases replaced
  rintro a w' ⟨rfl, faulty⟩
  cases a with
  | some replacement =>
    apply ends_pure
    refine .inr ⟨fun clear => ?_, rfl⟩
    exact absurd ((Link.intercept_faultless _ _).1 clear) (faulty rfl)
  | none =>
    by_cases none_left : asked.heap.jobs = []
    next =>
      apply ends_bindOn (P := fun stage w' => stage = .done (.ok (.i32 0)) ∧ w' = asked)
      next =>
        have idle := Engine.beginJob_idle none_left
        apply ends_ask
        constructor
        next => exact congrArg Prod.fst idle
        next => exact World.onLink_same (congrArg (fun s => { asked.worker.vault.link with engine := s.2 }) idle)
      rintro stage w' ⟨rfl, rfl⟩
      exact ends_pure (.inr ⟨fun _ => none_left, rfl⟩)
    next =>
      apply ends_bindOn (P := fun stage _ => stage.Works Host.mostStages)
      next => exact ends_ask (Engine.beginJob_works none_left)
      next => exact fun stage w works => (ends_stages works).imp fun _ _ => .inl

theorem ends_bindExcept {α β : Type} {act : Attempt α} {f : α -> Attempt β} {P : Except Error α -> World -> Prop}
    {Q : Except Error β -> World -> Prop} (first : Ends (r.on t act.run) w P)
    (failed : ∀ e w', P (.error e) w' -> Q (.error e) w')
    (rest : ∀ a w', P (.ok a) w' -> Ends (r.on t (f a).run) w' Q) : Ends (r.on t (act >>= f).run) w Q := by
  rw [ExceptT.run_bind]
  apply ends_bindOn first
  intro a w' post
  cases a with
  | error e => exact ends_pure (failed e w' post)
  | ok a => exact rest a w' post

theorem ends_checkAccess (operation : String) (opened : w.Open) :
    Ends (r.act (Attempt.checkAccess operation).run) w fun a w' => a = .ok () ∧ w' = w.arrive := by
  have granted : w.arrive.worker.vault.access .worker operation = .ok () := by
    have still : w.arrive.worker.vault.closed = false := (World.frame_arrive (b := 0) w).open opened
    simp only [Vault.access, still, Bool.false_eq_true, if_false]
  constructor
  intro a ended
  change result (r.act (Attempt.ofExcept (w.arrive.worker.vault.access .worker operation)).run) w.arrive = _ at ended
  change _ ∧ final (r.act (Attempt.ofExcept (w.arrive.worker.vault.access .worker operation)).run) w.arrive = _
  rw [granted] at ended ⊢
  cases ended
  exact ⟨rfl, rfl⟩

/-- If the worker has run no job, the queue of jobs is empty, and the queue of microtasks is as it was. -/
theorem ends_executeJob (opened : w.Open) :
    Ends (r.act WorldM.executeJob.run) w fun a w' => a = .ok .ran ∨ a = .ok .failed ∨ w.Jobless w' := by
  apply ends_bindExcept (ends_checkAccess _ opened)
  next => exact fun e w' failed => nomatch failed.1
  rintro _ _ ⟨_, rfl⟩
  have before := w.undisturbed_arrive.microtasks
  apply ends_bindExcept (P := fun a w' => (∃ n, a = .ok n ∧ n ≠ 0) ∨ w.Jobless w')
  next =>
    apply ends_bindOn ends_exportJob
    rintro a w' (⟨n, rfl, worked⟩ | ⟨idle, same⟩)
    next => exact ends_pure (.inl ⟨n, rfl, worked⟩)
    next =>
      split
      next => exact ends_pure (.inr ⟨idle, same.trans before⟩)
      next =>
        split
        next => exact ends_pure (.inr ⟨idle, same.trans before⟩)
        next => exact ends_pure (.inr ⟨idle, same.trans before⟩)
  next =>
    rintro e w' (⟨n, impossible, _⟩ | quiet)
    next => cases impossible
    next => exact .inr (.inr quiet)
  next =>
    rintro n w' (⟨_, ⟨⟩, worked⟩ | quiet)
    next =>
      apply ends_pure
      simp only [JobStep.ofStatus, worked, if_false]
      split
      next => exact .inl rfl
      next => exact .inr (.inl rfl)
    next => exact ends_pure (.inr (.inr quiet))

end Runner

end ScriptHost
