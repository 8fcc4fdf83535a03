import ScriptHost.Proofs.Dispatcher.Sessions

set_option autoImplicit false

/-!
The order of what a cycle runs: microtasks and jobs first come, first served, and nothing of either is left
over when a delayed callback starts or rejections are reported.
-/

namespace ScriptHost

open LoopM

namespace Mark

def queuedMicrotask? : Mark -> Option Callback
  | microtaskQueued c => some c
  | _ => none

def startedMicrotask? : Mark -> Option Callback
  | microtaskStarted c => some c
  | _ => none

end Mark

def queuedMicrotasks (journal : List Mark) : List Callback :=
  journal.filterMap Mark.queuedMicrotask?

def startedMicrotasks (journal : List Mark) : List Callback :=
  journal.filterMap Mark.startedMicrotask?

/-- Both queues are empty, and everything that ever was in them has been taken out. As for the jobs, a fault
can keep them from the worker. -/
structure Moment.Clear (m : Moment) (earlier : List Mark) : Prop where
  microtasks : m.microtasks = []
  started : startedMicrotasks earlier = queuedMicrotasks earlier
  jobs : .fault ∉ earlier -> m.jobs = []
  taken : .fault ∉ earlier -> m.taken = m.queued

namespace Mark

/-- When things happen: a microtask starts when those queued before it have started, a delayed callback once
in a cycle at most, and like the report of rejections not before both queues have been emptied. -/
def Timely : Mark -> List Mark -> Prop
  | microtaskStarted c, earlier =>
      (queuedMicrotasks earlier).reverse[(startedMicrotasks earlier).length]? = some c
  | cycle n, earlier => cycle n ∉ earlier
  | delayed n m, earlier =>
      cycle n ∈ earlier ∧ n ∉ delayedCycles earlier ∧ m.Clear earlier
  | flush m, earlier => m.Clear earlier
  | _, _ => True

def Plain : Mark -> Prop
  | phase _ | accepted _ _ | refused _ _ | taken _ | reported _ | standing _ | left | scripted | watching _
  | answered _ _ _ | dropped _ _ | blocking _ => True
  | _ => False

variable {m : Mark}

theorem Plain.timely (plain : m.Plain) (earlier : List Mark) : m.Timely earlier := by
  cases m <;> first | exact plain.elim | trivial

theorem Plain.unqueued (plain : m.Plain) : m.queuedMicrotask? = none := by
  cases m <;> first | rfl | exact plain.elim

theorem Plain.unstarted (plain : m.Plain) : m.startedMicrotask? = none := by
  cases m <;> first | rfl | exact plain.elim

end Mark

namespace World

variable {w w' : World}

structure Orderly (w : World) : Prop where
  timely : Throughout Mark.Timely w.journal
  jobs : w.heap.Ordered
  microtasks : (queuedMicrotasks w.journal).reverse =
    (startedMicrotasks w.journal).reverse ++ w.worker.microtasks
  cycles : ∀ n, .cycle n ∈ w.journal -> n < w.cycles
  faultless : .fault ∉ w.journal -> w.worker.vault.link.faults = Table.empty

structure Aside (w w' : World) : Prop where
  microtasks : w'.worker.microtasks = w.worker.microtasks
  jobs : w.heap.Ordered -> w'.heap.Ordered
  cycles : w'.cycles = w.cycles
  faults : w'.worker.vault.link.faults = Table.empty <-> w.worker.vault.link.faults = Table.empty
  journal : ∃ marks, w'.journal = marks ++ w.journal ∧ ∀ m ∈ marks, m.Plain

theorem Aside.of_same (microtasks : w'.worker.microtasks = w.worker.microtasks)
    (link : w'.worker.vault.link = w.worker.vault.link) (cycles : w'.cycles = w.cycles)
    (journal : w'.journal = w.journal) : Aside w w' where
  microtasks := microtasks
  jobs ok := by rwa [heap, link]
  cycles := cycles
  faults := by rw [link]
  journal := ⟨[], journal, List.forall_mem_nil _⟩

theorem Aside.of_note {m : Mark} (microtasks : w'.worker.microtasks = w.worker.microtasks)
    (link : w'.worker.vault.link = w.worker.vault.link) (cycles : w'.cycles = w.cycles)
    (journal : w'.journal = m :: w.journal) (plain : m.Plain) : Aside w w' where
  microtasks := microtasks
  jobs ok := by rwa [heap, link]
  cycles := cycles
  faults := by rw [link]
  journal := ⟨[m], journal, fun _ member => List.mem_singleton.1 member ▸ plain⟩

theorem aside_setPhase (w : World) (p : Phase) : Aside w (w.setPhase p) := by
  unfold setPhase
  split
  next => exact .of_same rfl rfl rfl rfl
  next => exact .of_note rfl rfl rfl rfl trivial

theorem aside_meet (w : World) (d : Demand) : Aside w (w.meet d) := by
  cases d with
  | send port item =>
    simp only [meet]
    split <;> exact .of_note rfl rfl rfl rfl trivial
  | announce => exact aside_setPhase w _
  | close =>
    simp only [meet]
    split
    next => exact .of_note rfl rfl rfl rfl trivial
    next => exact .of_same rfl rfl rfl rfl
  | hold => exact .of_same rfl rfl rfl rfl
  | letGo => exact .of_same rfl rfl rfl rfl
  | desert reply => exact .of_same rfl rfl rfl rfl

theorem aside_onLink {w : World} {f : Link -> Link}
    (ordered : w.heap.Ordered -> (f w.worker.vault.link).engine.heap.Ordered)
    (faultless : (f w.worker.vault.link).faults = Table.empty <-> w.worker.vault.link.faults = Table.empty) :
    Aside w (w.onLink f) where
  microtasks := rfl
  jobs := ordered
  cycles := rfl
  faults := faultless
  journal := ⟨[], rfl, List.forall_mem_nil _⟩

theorem Orderly.aside (ok : w.Orderly) (aside : Aside w w') : w'.Orderly := by
  obtain ⟨marks, grown, plain⟩ := aside.journal
  have queued : queuedMicrotasks w'.journal = queuedMicrotasks w.journal := by
    rw [grown]
    exact filterMap_grown fun m member => (plain m member).unqueued
  have started : startedMicrotasks w'.journal = startedMicrotasks w.journal := by
    rw [grown]
    exact filterMap_grown fun m member => (plain m member).unstarted
  have earlier {m : Mark} (other : ¬ m.Plain) : m ∈ w'.journal <-> m ∈ w.journal := by
    rw [grown]
    exact mem_grown plain other
  constructor
  next =>
    rw [grown]
    exact ok.timely.append fun m member => (plain m member).timely
  next => exact aside.jobs ok.jobs
  next =>
    rw [queued, started, aside.microtasks]
    exact ok.microtasks
  next =>
    intro n member
    rw [aside.cycles]
    exact ok.cycles n ((earlier id).1 member)
  next =>
    intro clear
    exact aside.faults.2 (ok.faultless fun member => clear ((earlier id).2 member))

theorem Orderly.queueMicrotask (ok : w.Orderly) (c : Callback) :
    ((w.onWorker fun k => { k with microtasks := k.microtasks ++ [c] }).note (.microtaskQueued c)).Orderly where
  timely := ⟨trivial, ok.timely⟩
  jobs := ok.jobs
  microtasks := by
    have before := ok.microtasks
    change (c :: queuedMicrotasks w.journal).reverse =
      (startedMicrotasks w.journal).reverse ++ (w.worker.microtasks ++ [c])
    rw [List.reverse_cons, before, List.append_assoc]
  cycles n member := ok.cycles n ((List.mem_cons.1 member).resolve_left nofun)
  faultless clear := ok.faultless fun member => clear (List.mem_cons_of_mem _ member)

theorem Orderly.fault (ok : w.Orderly) (name : String) (f : Option Fault) :
    ((w.onLink fun l => l.setFault name f).note .fault).Orderly where
  timely := ⟨trivial, ok.timely⟩
  jobs := by
    have same : ((w.onLink fun l => l.setFault name f).note .fault).heap = w.heap :=
      congrArg Engine.heap (Link.setFault_engine ..)
    rw [same]
    exact ok.jobs
  microtasks := ok.microtasks
  cycles n member := ok.cycles n ((List.mem_cons.1 member).resolve_left nofun)
  faultless clear := absurd (List.mem_cons_self ..) clear

theorem Orderly.takeMicrotask (ok : w.Orderly) : (Duty.takeMicrotask.apply w).Orderly := by
  have before := ok.microtasks
  cases waiting : w.worker.microtasks with
  | nil => simpa only [Duty.apply, waiting] using ok
  | cons c rest =>
    simp only [Duty.apply, waiting]
    rw [waiting] at before
    exact {
      timely := by
        refine ⟨?_, ok.timely⟩
        change (queuedMicrotasks w.journal).reverse[(startedMicrotasks w.journal).length]? = some c
        rw [before, ← List.length_reverse, List.getElem?_append_right (Nat.le_refl _), Nat.sub_self]
        rfl
      jobs := ok.jobs
      microtasks := by
        change (queuedMicrotasks w.journal).reverse = (c :: startedMicrotasks w.journal).reverse ++ rest
        rw [before, List.reverse_cons, List.append_assoc]
        rfl
      cycles := fun n member => ok.cycles n ((List.mem_cons.1 member).resolve_left (by simp))
      faultless := fun clear => ok.faultless fun member => clear (List.mem_cons_of_mem _ member) }

theorem Orderly.beginCycle (ok : w.Orderly) : (Duty.beginCycle.apply w).Orderly where
  timely := ⟨fun member => absurd (ok.cycles w.cycles member) (Nat.lt_irrefl _), ok.timely⟩
  jobs := ok.jobs
  microtasks := ok.microtasks
  cycles n member := by
    rcases List.mem_cons.1 member with same | old
    · cases same
      exact Nat.lt_succ_self _
    · exact Nat.lt_succ_of_lt (ok.cycles n old)
  faultless clear := ok.faultless fun member => clear (List.mem_cons_of_mem _ member)

theorem Orderly.clear (ok : w.Orderly) (drained : w.Drained) : w.moment.Clear w.journal where
  microtasks := drained.1
  started := by
    have before := ok.microtasks
    rw [drained.1, List.append_nil] at before
    exact (List.reverse_injective before).symm
  jobs clear := drained.2 (ok.faultless clear)
  taken clear := by
    have waited : w.heap.queued.reverse = w.heap.taken.reverse ++ w.heap.jobs := ok.jobs
    rw [drained.2 (ok.faultless clear), List.append_nil] at waited
    exact (List.reverse_injective waited).symm

theorem Orderly.note_moment (ok : w.Orderly) {m : Mark} (timely : m.Timely w.journal)
    (unqueued : m.queuedMicrotask? = none) (unstarted : m.startedMicrotask? = none)
    (other : ∀ n, m ≠ .cycle n) : (w.note m).Orderly where
  timely := ⟨timely, ok.timely⟩
  jobs := ok.jobs
  microtasks := by
    have before := ok.microtasks
    simp only [queuedMicrotasks, startedMicrotasks] at before ⊢
    simpa only [note, List.filterMap_cons, unqueued, unstarted] using before
  cycles n member := ok.cycles n (List.mem_of_ne_of_mem (Ne.symm (other n)) member)
  faultless clear := ok.faultless fun member => clear (List.mem_cons_of_mem _ member)

theorem Orderly.fresh {n : Nat} (ok : w.Orderly) (fresh : w.Fresh n) :
    .cycle n ∈ w.journal ∧ n ∉ delayedCycles w.journal := by
  obtain ⟨later, earlier, begun, none_yet⟩ := fresh
  -- The number was new when the cycle began, so no callback before can have started under it.
  have timely := ok.timely
  rw [begun] at timely ⊢
  obtain ⟨new, timely⟩ := timely.earlier
  constructor
  next => exact List.mem_append_right _ (List.mem_cons_self ..)
  next =>
    intro member
    simp only [delayedCycles, List.filterMap_append, List.mem_append] at member
    rcases member with member | member
    · exact none_yet member
    · simp only [List.filterMap_cons, Mark.delayedCycle?] at member
      obtain ⟨m, present, same⟩ := List.mem_filterMap.1 member
      cases m with
      | delayed k moment =>
        cases same
        obtain ⟨_, _, split, law⟩ := timely.of_mem present
        rw [split] at new
        exact new (List.mem_append_right _ (List.mem_cons_of_mem _ law.1))
      | _ => cases same

end World

theorem orderly_still : Still World.Orderly where
  schedule w a ok := ok.aside (.of_same rfl rfl rfl rfl)
  change c w ok := by
    cases c with
    | demand d => exact ok.aside (w.aside_meet d)
    | queueMicrotask c => exact ok.queueMicrotask c
    | fault name f => exact ok.fault name f
    | patience polls => exact ok.aside ⟨rfl, id, rfl, Iff.rfl, [], rfl, List.forall_mem_nil _⟩
    | stand => exact ok.aside (.of_note rfl rfl rfl rfl trivial)
    | script => exact ok.aside (.of_note rfl rfl rfl rfl trivial)
    | _ => exact ok.aside (.of_same rfl rfl rfl rfl)
  ask q w ok := ok.aside (w.aside_onLink q.perform_ordered q.perform_faultless)
  book w alive next ok := ok.aside (.of_same rfl rfl rfl rfl)

theorem orderly_stable : Stable World.Orderly where
  toStill := orderly_still
  duty d w opened allowed ok := by
    cases d with
    | phase p => exact ok.aside (w.aside_setPhase p)
    | receive =>
      simp only [Duty.apply]
      split
      next => exact ok
      next => exact ok.aside (.of_same rfl rfl rfl rfl)
    | take =>
      simp only [Duty.apply]
      split
      next => exact ok
      next => exact ok.aside (.of_note rfl rfl rfl rfl trivial)
      next => exact ok.aside (.of_note rfl rfl rfl rfl trivial)
    | takeMicrotask => exact ok.takeMicrotask
    | beginCycle => exact ok.beginCycle
    | delayed n =>
      obtain ⟨begun, first⟩ := ok.fresh allowed.2
      exact ok.note_moment ⟨begun, first, ok.clear allowed.1⟩ rfl rfl (by simp)
    | watch x => exact ok.aside (.of_note rfl rfl rfl rfl trivial)
    | answer x result => exact ok.aside (.of_note rfl rfl rfl rfl trivial)
    | forsake x => exact ok.aside (.of_note rfl rfl rfl rfl trivial)
    | block => exact ok.aside (.of_note rfl rfl rfl rfl trivial)
    | flush => exact allowed.elim
    | report p reason => exact allowed.elim
    | leave => exact allowed.elim
    | dropCommands => exact allowed.elim
    | dropWork => exact allowed.elim
    | dropFunctions => exact allowed.elim
    | closeVault => exact allowed.elim
    | stop => exact allowed.elim
    | _ => exact ok.aside (.of_same rfl rfl rfl rfl)
  flush w _ drained _ ok := by
    have reports (p : Ptr) (reason : Snapshot) (w : World) (ok : w.Orderly) :
        ((Duty.report p reason).apply w).Orderly :=
      ok.aside (.of_note rfl rfl rfl rfl trivial)
    have flushed (ok : w.arrive.Orderly) : (Duty.flush.apply w.arrive).Orderly :=
      ok.note_moment (ok.clear (w.undisturbed_arrive.drained drained)) rfl rfl (by simp)
    have take (w : World) (ok : w.Orderly) : (w.onLink fun l => (outcome OwnerM.takeRejections l).2).Orderly :=
      ok.aside (w.aside_onLink (OwnerM.law_ordered.takeRejections _) (OwnerM.law_faultless.takeRejections _))
    exact (orderly_still.grows_flushRejections reports take flushed (Nat.zero_le _)).kept ok

/-- All that has happened, happened in order. -/
structure World.InOrder (w : World) : Prop where
  timely : Throughout Mark.Timely w.journal
  jobs : w.heap.Ordered

namespace World

variable {w w' : World}

theorem Orderly.inOrder (ok : w.Orderly) : w.InOrder :=
  ⟨ok.timely, ok.jobs⟩

theorem InOrder.aside (ok : w.InOrder) (aside : Aside w w') : w'.InOrder := by
  obtain ⟨marks, grown, plain⟩ := aside.journal
  refine ⟨?_, aside.jobs ok.jobs⟩
  rw [grown]
  exact ok.timely.append fun m member => (plain m member).timely

end World

theorem inOrder_abiding : Abiding World.InOrder where
  schedule w a ok := ok.aside (.of_same rfl rfl rfl rfl)
  change c w ok := by
    cases c with
    | demand d => exact ok.aside (w.aside_meet d)
    | queueMicrotask c => exact ⟨⟨trivial, ok.timely⟩, ok.jobs⟩
    | fault name f =>
      refine ⟨⟨trivial, ok.timely⟩, ?_⟩
      change (w.worker.vault.link.setFault name f).engine.heap.Ordered
      rw [Link.setFault_engine]
      exact ok.jobs
    | patience polls => exact ok.aside ⟨rfl, id, rfl, Iff.rfl, [], rfl, List.forall_mem_nil _⟩
    | stand => exact ok.aside (.of_note rfl rfl rfl rfl trivial)
    | script => exact ok.aside (.of_note rfl rfl rfl rfl trivial)
    | _ => exact ok.aside (.of_same rfl rfl rfl rfl)
  ask q w ok := ok.aside (w.aside_onLink q.perform_ordered q.perform_faultless)
  book w alive next ok := ok.aside (.of_same rfl rfl rfl rfl)
  close w ok :=
    ok.aside (w.aside_onLink (OwnerM.law_ordered.closeEngine _) (OwnerM.law_faultless.closeEngine _))
  duty d w lets ok := by
    cases d with
    | stop => exact ⟨⟨trivial, ok.timely⟩, ok.jobs⟩
    | dropCommands => exact ⟨ok.timely, ok.jobs⟩
    | dropWork => exact ⟨ok.timely, ok.jobs⟩
    | dropFunctions => exact ⟨ok.timely, ok.jobs⟩
    | closeVault => exact ⟨ok.timely, ok.jobs⟩
    | _ => exact lets.elim

theorem World.New.orderly {w : World} (new : w.New) : w.Orderly where
  timely := new.throughout fun _ => trivial
  jobs := new.ordered
  microtasks := by
    rw [queuedMicrotasks, startedMicrotasks, new.filterMap rfl, new.filterMap rfl, new.microtasks]
    rfl
  cycles n member := nomatch new.journal _ member
  faultless := new.faultless

/-- Whatever a session comes to, all that has happened in it happened in order. -/
theorem SessionReport.run_inOrder {s : SessionStart} {steps : List CallerStep} {arrivals : List (List Demand)}
    {fuel : Nat} {report : Option SessionReport} {w : World}
    (ran : run s steps arrivals fuel = .ok (report, w)) : w.InOrder := by
  have left (w : World) (_ : w.Open) (_ : w.worker.stopping = true) (ok : w.Orderly) :
      (Duty.leave.apply w).InOrder := by
    have announced := ok.inOrder.aside (w.aside_setPhase .shuttingDown)
    exact ⟨⟨trivial, announced.timely⟩, announced.jobs⟩
  rcases run_keeps orderly_stable inOrder_abiding left (fun _ new => new.orderly) ran with ok | ok
  · exact ok.inOrder
  · exact ok

/-- A program queues a microtask and a delayed callback before the caller asks for the end. -/
def alarmSteps : List CallerStep :=
  [.invoke [.microtask "m" [], .timer "t" [] 0 false none], .shutdown]

theorem alarm_inOrder : ∃ report w,
    SessionReport.run ⟨{}, [], none⟩ alarmSteps [] 5 = .ok (report, w) ∧ delayedCycles w.journal = [1] ∧
      w.InOrder := by
  obtain ⟨report, w, ran, shown⟩ :=
    SessionReport.run_shows ⟨{}, [], none⟩ alarmSteps [] 5 (fun w => delayedCycles w.journal) [1]
      (by decide +kernel)
  exact ⟨report, w, ran, shown, SessionReport.run_inOrder ran⟩

end ScriptHost
