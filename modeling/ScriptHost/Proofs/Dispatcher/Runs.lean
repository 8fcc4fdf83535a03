import ScriptHost.Dispatcher.Loop
import ScriptHost.Proofs.Handles.Calls

set_option autoImplicit false

/-!
What host code keeps. An invariant of the world that every single act keeps is kept by all programs.
-/

namespace ScriptHost

namespace Mark

def delayedCycle? : Mark -> Option Nat
  | delayed n _ => some n
  | _ => none

end Mark

def delayedCycles (journal : List Mark) : List Nat :=
  journal.filterMap Mark.delayedCycle?

/-- Every mark obeys a law about it and the marks before it. -/
def Throughout (law : Mark -> List Mark -> Prop) : List Mark -> Prop
  | [] => True
  | m :: earlier => law m earlier ∧ Throughout law earlier

namespace Throughout

variable {law : Mark -> List Mark -> Prop} {marks journal : List Mark} {m : Mark}

theorem append (free : ∀ m ∈ marks, ∀ earlier, law m earlier) (ok : Throughout law journal) :
    Throughout law (marks ++ journal) := by
  induction marks with
  | nil => exact ok
  | cons m rest ih =>
    have rest_free : ∀ m ∈ rest, ∀ earlier, law m earlier := fun m member =>
      free m (List.mem_cons_of_mem _ member)
    exact ⟨free m (List.mem_cons_self ..) _, ih rest_free⟩

theorem of_forall (free : ∀ m ∈ marks, ∀ earlier, law m earlier) : Throughout law marks := by
  rw [← List.append_nil marks]
  have nothing : Throughout law [] := trivial
  exact nothing.append free

theorem earlier {later earlier : List Mark} (ok : Throughout law (later ++ m :: earlier)) :
    law m earlier ∧ Throughout law earlier := by
  induction later with
  | nil => exact ok
  | cons m rest ih => exact ih ok.2

theorem of_mem (ok : Throughout law journal) (member : m ∈ journal) :
    ∃ later earlier, journal = later ++ m :: earlier ∧ law m earlier := by
  obtain ⟨later, earlier, split⟩ := List.append_of_mem member
  rw [split] at ok
  exact ⟨later, earlier, split, ok.earlier.1⟩

end Throughout

section Grown

variable {marks journal : List Mark} {P : Mark -> Prop}

theorem filterMap_grown {α : Type} {f : Mark -> Option α} (silent : ∀ m ∈ marks, f m = none) :
    (marks ++ journal).filterMap f = journal.filterMap f := by
  rw [List.filterMap_append, List.filterMap_eq_nil_iff.2 silent, List.nil_append]

theorem mem_grown {m : Mark} (all : ∀ m ∈ marks, P m) (other : ¬ P m) :
    m ∈ marks ++ journal <-> m ∈ journal := by
  rw [List.mem_append, or_iff_right fun member => other (all m member)]

end Grown

/-- A watcher is answered with just what is told of its promise, and with an error only if nothing can be told. -/
def Conveys : Except Error Settled -> Option Settlement -> Prop
  | .ok (.success (.live h)), some (.fulfilled v) => h.ptr = v
  | .ok (.failure (.live h)), some (.rejected v) => h.ptr = v
  | .error _, none => True
  | _, _ => False

namespace World

variable {w w' w'' : World} {b : Nat}

def Open (w : World) : Prop :=
  w.worker.vault.closed = false

/-- Both queues are empty, unless faults may have kept the worker from emptying that of the engine. -/
def Drained (w : World) : Prop :=
  w.worker.microtasks = [] ∧ (w.worker.vault.link.faults = Table.empty -> w.heap.jobs = [])

/-- No fault has come in the way. -/
structure Undeterred (w : World) : Prop where
  faultless : .fault ∉ w.journal
  direct : w.worker.vault.link.faults = Table.empty

/-- Neither faults nor programs of tasks have come in the way. -/
structure Unhindered (w : World) : Prop where
  unscripted : .scripted ∉ w.journal
  faultless : .fault ∉ w.journal
  direct : w.worker.vault.link.faults = Table.empty

/-- Nobody is left waiting for a promise that has settled, if nothing kept the worker from noticing. -/
def Vigilant (w : World) : Prop :=
  w.Unhindered -> w.overdue = []

/-- A cycle has begun and not yet started a delayed callback of its own. -/
def Fresh (w : World) (n : Nat) : Prop :=
  ∃ later earlier, w.journal = later ++ .cycle n :: earlier ∧ n ∉ delayedCycles later

/-- What no step of a run changes, or only in one direction. Delayed callbacks start in cycles from `b`
on. -/
structure Frame (b : Nat) (w w' : World) : Prop where
  closed : w'.worker.vault.closed = w.worker.vault.closed
  cycles : w.cycles ≤ w'.cycles
  journal : ∃ marks, w'.journal = marks ++ w.journal ∧ (∀ n ∈ delayedCycles marks, b ≤ n) ∧ .left ∉ marks

theorem Frame.refl (w : World) : Frame b w w :=
  ⟨rfl, Nat.le_refl _, [], rfl, List.forall_mem_nil _, List.not_mem_nil⟩

theorem Frame.trans (first : Frame b w w') (second : Frame b w' w'') : Frame b w w'' := by
  obtain ⟨marks, grown, late, staying⟩ := first.journal
  obtain ⟨marks', grown', late', staying'⟩ := second.journal
  refine ⟨second.closed.trans first.closed, Nat.le_trans first.cycles second.cycles, marks' ++ marks,
    by rw [grown', grown, List.append_assoc], ?_, ?_⟩
  next =>
    intro n member
    simp only [delayedCycles, List.filterMap_append, List.mem_append] at member
    rcases member with new | old
    · exact late' n new
    · exact late n old
  next =>
    rw [List.mem_append, not_or]
    exact ⟨staying', staying⟩

theorem Frame.open (frame : Frame b w w') (opened : w.Open) : w'.Open :=
  frame.closed.trans opened

theorem Frame.left (frame : Frame b w w') : .left ∈ w'.journal <-> .left ∈ w.journal := by
  obtain ⟨marks, grown, _, staying⟩ := frame.journal
  rw [grown, List.mem_append, or_iff_right staying]

theorem Frame.of_same (closed : w'.worker.vault.closed = w.worker.vault.closed)
    (cycles : w'.cycles = w.cycles) (journal : w'.journal = w.journal) : Frame b w w' :=
  ⟨closed, Nat.le_of_eq cycles.symm, [], journal, List.forall_mem_nil _, List.not_mem_nil⟩

theorem Frame.of_note {m : Mark} (closed : w'.worker.vault.closed = w.worker.vault.closed)
    (cycles : w'.cycles = w.cycles) (journal : w'.journal = m :: w.journal)
    (other : m.delayedCycle? = none) (staying : m ≠ .left) : Frame b w w' := by
  refine ⟨closed, Nat.le_of_eq cycles.symm, [m], journal, ?_, ?_⟩
  next => simp [delayedCycles, other]
  next => exact fun member => staying (List.mem_singleton.1 member).symm

theorem frame_setPhase (w : World) (p : Phase) : Frame b w (w.setPhase p) := by
  unfold setPhase
  split
  next => exact .refl w
  next => exact .of_note rfl rfl rfl rfl nofun

theorem frame_meet (w : World) (d : Demand) : Frame b w (w.meet d) := by
  cases d with
  | send port item =>
    simp only [meet]
    split <;> exact .of_note rfl rfl rfl rfl nofun
  | announce => exact frame_setPhase w _
  | close =>
    simp only [meet]
    split
    next => exact .of_note rfl rfl rfl rfl nofun
    next => exact .refl w
  | hold => exact .of_same rfl rfl rfl
  | letGo => exact .of_same rfl rfl rfl
  | desert reply => exact .of_same rfl rfl rfl

theorem arrive_leads {R : World -> World -> Prop} (refl : ∀ w, R w w)
    (trans : ∀ {w w' w''}, R w w' -> R w' w'' -> R w w'') (schedule : ∀ w a, R w { w with arrivals := a })
    (meet : ∀ w d, R w (w.meet d)) (w : World) : R w w.arrive := by
  have all (demands : List Demand) (w : World) : R w (demands.foldl World.meet w) := by
    induction demands generalizing w with
    | nil => exact refl w
    | cons d more ih => exact trans (meet w d) (ih (w.meet d))
  unfold arrive
  split
  next => exact refl w
  next demands rest _ => exact trans (schedule w rest) (all demands _)

/-- What other threads leave to the worker. They close the front for good. -/
structure Visited (w w' : World) : Prop where
  cycles : w'.cycles = w.cycles
  backlog : w'.worker.backlog = w.worker.backlog
  stopping : w'.worker.stopping = w.worker.stopping
  closed : w.worker.accepting = false -> w'.worker.accepting = false

theorem Visited.refl (w : World) : Visited w w :=
  ⟨rfl, rfl, rfl, id⟩

theorem Visited.trans (first : Visited w w') (second : Visited w' w'') : Visited w w'' where
  cycles := second.cycles.trans first.cycles
  backlog := second.backlog.trans first.backlog
  stopping := second.stopping.trans first.stopping
  closed shut := second.closed (first.closed shut)

theorem visited_meet (w : World) (d : Demand) : Visited w (w.meet d) := by
  cases d with
  | send port item =>
    simp only [meet]
    split <;> exact ⟨rfl, rfl, rfl, id⟩
  | announce =>
    simp only [meet, setPhase]
    split <;> exact ⟨rfl, rfl, rfl, id⟩
  | close =>
    simp only [meet]
    split
    next => exact ⟨rfl, rfl, rfl, fun _ => rfl⟩
    next => exact .refl w
  | hold => exact ⟨rfl, rfl, rfl, id⟩
  | letGo => exact ⟨rfl, rfl, rfl, id⟩
  | desert reply => exact ⟨rfl, rfl, rfl, id⟩

theorem visited_arrive (w : World) : Visited w w.arrive :=
  arrive_leads .refl .trans (fun _ _ => ⟨rfl, rfl, rfl, id⟩) visited_meet w

theorem frame_arrive (w : World) : Frame b w w.arrive :=
  arrive_leads .refl .trans (fun _ _ => .of_same rfl rfl rfl) frame_meet w

end World

theorem Change.frame {b : Nat} (c : Change) (w : World) : w.Frame b (c.apply w) := by
  cases c with
  | demand d => exact World.frame_meet w d
  | queueMicrotask c => exact .of_note rfl rfl rfl rfl nofun
  | fault name f => exact .of_note rfl rfl rfl rfl nofun
  | stand => exact .of_note rfl rfl rfl rfl nofun
  | script => exact .of_note rfl rfl rfl rfl nofun
  | _ => exact .of_same rfl rfl rfl

namespace Duty

/-- When the loop does what. Only the end of a session leaves the loop and lets everything go, and reports of
rejections are looked at as a whole. -/
def Allowed (w : World) : Duty -> Prop
  | delayed n => w.Drained ∧ w.Fresh n
  | answer x result =>
      x ∈ w.worker.watchers ∧ (w.worker.vault.link.faults = Table.empty -> Conveys result (w.worker.vault.told x.promise))
  | forsake x => x ∈ w.worker.watchers ∧ w.isGone x = true
  | block => w.Vigilant
  | flush | report _ _ => False
  | phase p => p.isOver = false
  | leave | dropCommands | dropWork | dropFunctions | closeVault | stop => False
  | _ => True

theorem frame {b : Nat} {d : Duty} {w : World} (allowed : d.Allowed w) (late : ∀ n, d = delayed n -> b ≤ n) :
    w.Frame b (d.apply w) := by
  cases d with
  | phase p => exact World.frame_setPhase w p
  | receive =>
    simp only [apply]
    split
    next => exact .refl w
    next => exact .of_same rfl rfl rfl
  | take =>
    simp only [apply]
    split
    next => exact .refl w
    next => exact .of_note rfl rfl rfl rfl nofun
    next => exact .of_note rfl rfl rfl rfl nofun
  | takeMicrotask =>
    simp only [apply]
    split
    next => exact .refl w
    next => exact .of_note rfl rfl rfl rfl nofun
  | beginCycle =>
    exact ⟨rfl, Nat.le_succ _, [_], rfl, by simp [delayedCycles, Mark.delayedCycle?], by simp⟩
  | delayed n =>
    refine ⟨rfl, Nat.le_refl _, [_], rfl, fun m member => ?_, by simp⟩
    obtain rfl : m = n := by simpa [delayedCycles, Mark.delayedCycle?] using member
    exact late m rfl
  | flush => exact allowed.elim
  | report p reason => exact allowed.elim
  | watch x => exact .of_note rfl rfl rfl rfl nofun
  | answer x result => exact .of_note rfl rfl rfl rfl nofun
  | forsake x => exact .of_note rfl rfl rfl rfl nofun
  | block => exact .of_note rfl rfl rfl rfl nofun
  | leave => exact allowed.elim
  | dropCommands => exact allowed.elim
  | dropWork => exact allowed.elim
  | dropFunctions => exact allowed.elim
  | closeVault => exact allowed.elim
  | stop => exact allowed.elim
  | _ => exact .of_same rfl rfl rfl

end Duty

namespace LoopM

variable {α β : Type} {w : World} {a : α}

def result (act : LoopM α) (w : World) : Option α :=
  (act.run.run w).1

def final (act : LoopM α) (w : World) : World :=
  (act.run.run w).2

@[simp] theorem result_pure (a : α) (w : World) : result (pure a) w = some a :=
  rfl

@[simp] theorem final_pure (a : α) (w : World) : final (pure a) w = w :=
  rfl

@[simp] theorem result_exhausted (w : World) : result (exhausted : LoopM α) w = none :=
  rfl

@[simp] theorem final_exhausted (w : World) : final (exhausted : LoopM α) w = w :=
  rfl

@[simp] theorem result_look (w : World) : result look w = some w.arrive :=
  rfl

@[simp] theorem final_look (w : World) : final look w = w.arrive :=
  rfl

@[simp] theorem result_getWorker (w : World) : result getWorker w = some w.arrive.worker :=
  rfl

@[simp] theorem final_getWorker (w : World) : final getWorker w = w.arrive :=
  rfl

@[simp] theorem result_step (d : Duty) (w : World) : result (step d) w = some () :=
  rfl

@[simp] theorem final_step (d : Duty) (w : World) : final (step d) w = d.apply w.arrive :=
  rfl

theorem run_bind (act : LoopM α) (f : α -> LoopM β) (w : World) :
    (act >>= f).run.run w =
      match result act w with
      | none => (none, final act w)
      | some a => (f a).run.run (final act w) := by
  simp only [result, final, OptionT.run_bind, Option.elimM, StateT.run_bind]
  generalize act.run.run w = r
  obtain ⟨_ | a, w'⟩ := r <;> rfl

theorem final_bind (act : LoopM α) (f : α -> LoopM β) (w : World) :
    final (act >>= f) w =
      match result act w with
      | none => final act w
      | some a => final (f a) (final act w) := by
  rw [final, run_bind]
  cases result act w <;> rfl

theorem result_bind (act : LoopM α) (f : α -> LoopM β) (w : World) :
    result (act >>= f) w =
      match result act w with
      | none => none
      | some a => result (f a) (final act w) := by
  rw [result, run_bind]
  cases result act w <;> rfl

/-- If an action comes to an end, it does so with `Q`. -/
structure Ends (act : LoopM α) (w : World) (Q : α -> World -> Prop) : Prop where
  post : ∀ a, result act w = some a -> Q a (final act w)

section Ends

variable {act : LoopM α} {f : α -> LoopM β} {P P' : α -> World -> Prop} {Q : β -> World -> Prop}

theorem ends_pure (post : P a w) : Ends (pure a) w P := by
  constructor
  intro b ended
  cases ended
  exact post

theorem ends_exhausted : Ends (exhausted : LoopM α) w P := by
  constructor
  intro a ended
  cases ended

theorem ends_bind (first : Ends act w P) (rest : ∀ a w', P a w' -> Ends (f a) w' Q) : Ends (act >>= f) w Q := by
  constructor
  intro b ended
  rw [result_bind] at ended
  rw [final_bind]
  cases came : result act w with
  | none => simp only [came, reduceCtorEq] at ended
  | some a =>
    simp only [came] at ended
    exact (rest a _ (first.post a came)).post b ended

theorem Ends.and (ends : Ends act w P) (ends' : Ends act w P') : Ends act w fun a w' => P a w' ∧ P' a w' :=
  ⟨fun a ended => ⟨ends.post a ended, ends'.post a ended⟩⟩

theorem Ends.imp (ends : Ends act w P) (weaker : ∀ a w', P a w' -> P' a w') : Ends act w P' :=
  ⟨fun a ended => weaker a _ (ends.post a ended)⟩

end Ends

end LoopM

namespace Runner

open LoopM

variable {α β : Type} {r : Runner} {t : Thread}

theorem on_bind (act : WorldM α) (f : α -> WorldM β) :
    r.on t (act >>= f) = r.on t act >>= fun a => r.on t (f a) :=
  Dialogue.through_bind act f

theorem on_question (a : Act) : r.on t (.question a) = a.perform r t :=
  Dialogue.through_question a

theorem ends_ask {q : Ask} {w : World} {P : q.Answer -> World -> Prop}
    (post : P (q.perform.run w.worker.vault.link).1 (w.onLink fun l => (q.perform.run l).2)) :
    Ends (r.on t (.question (Act.ask q))) w P := by
  rw [on_question]
  constructor
  intro a ended
  cases t with
  | worker =>
    cases ended
    exact post
  | other => cases ended

theorem ends_bindOn {act : WorldM α} {f : α -> WorldM β} {w : World} {P : α -> World -> Prop}
    {Q : β -> World -> Prop} (first : Ends (r.on t act) w P)
    (rest : ∀ a w', P a w' -> Ends (r.on t (f a)) w' Q) : Ends (r.on t (act >>= f)) w Q := by
  rw [on_bind]
  exact ends_bind first rest

end Runner

open LoopM

/-- What other threads and single acts of host code keep. -/
structure Still (I : World -> Prop) : Prop where
  schedule : ∀ w a, I w -> I { w with arrivals := a }
  change : ∀ (c : Change) w, I w -> I (c.apply w)
  ask : ∀ (q : Ask) w, I w -> I (w.onLink fun l => (q.perform.run l).2)
  book : ∀ w alive nextReference, I w -> I (w.onVault fun v => { v with alive, nextReference })

theorem still_anything : Still fun _ => True :=
  ⟨fun _ _ _ => trivial, fun _ _ _ => trivial, fun _ _ _ => trivial, fun _ _ _ _ => trivial⟩

structure Grows (I : World -> Prop) (b : Nat) (w w' : World) : Prop where
  kept : I w -> I w'
  frame : w.Frame b w'

namespace Grows

variable {I : World -> Prop} {b : Nat} {w w' w'' : World}

theorem refl (w : World) : Grows I b w w :=
  ⟨id, .refl w⟩

theorem trans (first : Grows I b w w') (second : Grows I b w' w'') : Grows I b w w'' :=
  ⟨fun ok => second.kept (first.kept ok), first.frame.trans second.frame⟩

theorem started (grown : Grows I b w w') (early : b ≤ w.cycles) : b ≤ w'.cycles :=
  Nat.le_trans early grown.frame.cycles

end Grows

/-- Runs of programs and waits keep the invariant, whatever starts them. -/
structure Runner.Sound (I : World -> Prop) (r : Runner) : Prop where
  program : ∀ {b w}, b ≤ w.cycles -> ∀ t operands ops, Grows I b w (final (r.program t operands ops) w)
  await : ∀ {b w}, b ≤ w.cycles -> ∀ t p token, Grows I b w (final (r.await t p token) w)

theorem Runner.flat_sound {I : World -> Prop} : Runner.flat.Sound I :=
  ⟨fun _ _ _ _ => .refl _, fun _ _ _ _ => .refl _⟩

namespace Still

variable {I : World -> Prop} {b : Nat} {w : World} {α : Type} {r : Runner} {t : Thread}

theorem arrive (still : Still I) (w : World) : Grows I b w w.arrive :=
  World.arrive_leads .refl .trans (fun w a => ⟨still.schedule w a, .of_same rfl rfl rfl⟩)
    (fun w d => ⟨still.change (.demand d) w, World.frame_meet w d⟩) w

theorem asked (still : Still I) (q : Ask) (w : World) :
    Grows I b w (w.onLink fun l => (q.perform.run l).2) :=
  ⟨still.ask q w, .of_same rfl rfl rfl⟩

theorem handled (still : Still I) (t : Thread) (c : HandleCall) (w : World) :
    Grows I b w (w.onVault fun v => ((c.perform t).run v).2) := by
  have law : Vault.Custodial fun v v' => Grows I b (w.onVault fun _ => v) (w.onVault fun _ => v') :=
    .of_asks ⟨fun v => .refl _, .trans⟩ (fun q _ v => still.asked q (w.onVault fun _ => v)) fun v alive nextReference =>
      ⟨still.book (w.onVault fun _ => v) alive nextReference, .of_same rfl rfl rfl⟩
  exact law.perform t c w.worker.vault

theorem acted (still : Still I) (sound : r.Sound I) (a : Act) (early : b ≤ w.cycles) :
    Grows I b w (final (a.perform r t) w) := by
  cases a with
  | look => exact still.arrive w
  | thread => exact .refl w
  | alter c => exact ⟨still.change c w, c.frame w⟩
  | ask q =>
    cases t with
    | worker => exact still.asked q w
    | other => exact .refl w
  | handle c => exact still.handled t c w
  | program operands ops => exact sound.program early t operands ops
  | await p token => exact sound.await early t p token

/-- What every act keeps, host code keeps. -/
theorem ran (still : Still I) (sound : r.Sound I) (act : WorldM α) (early : b ≤ w.cycles) :
    Grows I b w (final (r.on t act) w) := by
  induction act generalizing w with
  | done a => exact .refl w
  | ask a next ih =>
    have first := still.acted (t := t) sound a early
    change Grows I b w (final (a.perform r t >>= fun x => r.on t (next x)) w)
    rw [final_bind]
    split
    next => exact first
    next x _ => exact first.trans (ih x (first.started early))

end Still

end ScriptHost
