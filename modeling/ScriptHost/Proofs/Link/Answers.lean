import ScriptHost.Link.Typed
import ScriptHost.Proofs.Dialogue
import ScriptHost.Proofs.Engine.Queue
import ScriptHost.Proofs.Engine.Remembering

set_option autoImplicit false

/-!
What actions across the link answer, and what they leave of the link.
-/

namespace ScriptHost

namespace Link

variable {α β : Type} {l : Link}

def answered (act : LinkM α) (l : Link) : Except Error α × Link :=
  act.run.perform.run l

@[simp] theorem answered_pure (a : α) (l : Link) : answered (pure a) l = (.ok a, l) :=
  rfl

@[simp] theorem answered_throw (e : Error) (l : Link) : answered (throw e : LinkM α) l = (.error e, l) :=
  rfl

theorem answered_bind (act : LinkM α) (f : α -> LinkM β) (l : Link) :
    answered (act >>= f) l =
      match answered act l with
      | (.ok a, l) => answered (f a) l
      | (.error e, l) => (.error e, l) := by
  simp only [answered, Asking.perform, ExceptT.run_bind, Dialogue.through_bind, StateT.run_bind]
  generalize (act.run.through Ask.perform).run l = r
  obtain ⟨_ | _, _⟩ := r <;> rfl

theorem answered_bind_ok {act : LinkM α} {f : α -> LinkM β} {c : β} {l' : Link} (done : answered (act >>= f) l = (.ok c, l')) :
    ∃ a mid, answered act l = (.ok a, mid) ∧ answered (f a) mid = (.ok c, l') := by
  rw [answered_bind] at done
  generalize answered act l = r at *
  obtain ⟨e | a, mid⟩ := r
  · cases done
  · exact ⟨a, mid, rfl, done⟩

theorem answered_assoc {γ : Type} (first : LinkM α) (then' : α -> LinkM β) (rest : β -> LinkM γ) (l : Link) :
    answered (first >>= fun a => then' a >>= rest) l = answered ((first >>= then') >>= rest) l := by
  simp only [answered_bind]
  generalize answered first l = r
  obtain ⟨_ | _, _⟩ := r <;> rfl

theorem answered_bind_congr {act : LinkM α} {f g : α -> LinkM β} {l : Link}
    (same : ∀ a l, answered (f a) l = answered (g a) l) : answered (act >>= f) l = answered (act >>= g) l := by
  simp only [answered_bind, same]

@[simp] theorem answered_ofExcept (r : Except Error α) (l : Link) : answered (ofExcept r) l = (r, l) := by
  cases r <;> rfl

theorem answered_attempt (act : LinkM α) (l : Link) :
    answered (attempt act) l = (.ok (answered act l).1, (answered act l).2) := by
  have lifted : (attempt act).run = act.run >>= fun r => pure (Except.ok r) := rfl
  simp only [answered, Asking.perform, lifted, Dialogue.through_bind, StateT.run_bind]
  rfl

section Faults

variable {name : String} {answer : Replacement -> Except Error α} {act : EngineM α}

theorem intercept_faultless (l : Link) (name : String) :
    (l.intercept name).2.faults = Table.empty <-> l.faults = Table.empty := by
  unfold intercept
  cases found : l.faults.get? name with
  | none => rfl
  | some f =>
    constructor
    next =>
      intro empty
      have set : (l.faults.set name f.next.2).get? name = some f.next.2 := by simp [Table.get?_set]
      rw [show l.faults.set name f.next.2 = Table.empty from empty, Table.get?_empty] at set
      cases set
    next =>
      intro empty
      rw [empty, Table.get?_empty] at found
      cases found

theorem intercept_engine (l : Link) (name : String) : (l.intercept name).2.engine = l.engine := by
  unfold intercept
  split <;> rfl

theorem setFault_engine (l : Link) (name : String) (f : Option Fault) : (l.setFault name f).engine = l.engine := by
  unfold setFault
  split <;> rfl

theorem direct_of_faultless (clear : l.faults = Table.empty) (name : String) : l.faults.get? name = none := by
  rw [clear, Table.get?_empty]

theorem intercept_of_faultless (clear : l.faults = Table.empty) : l.intercept name = (none, l) := by
  simp only [intercept, direct_of_faultless clear]

theorem unlessFaulty_leads {R : Engine -> Engine -> Prop} (refl : ∀ s, R s s)
    (step : ∀ s, R s (outcome act s).2) : R l.engine ((unlessFaulty name answer act).run l).2.engine := by
  have same := intercept_engine l name
  simp only [unlessFaulty, StateT.run_bind, StateT.run_modifyGet]
  generalize l.intercept name = r at *
  obtain ⟨_ | replacement, l'⟩ := r
  · rw [← same]
    exact step l'.engine
  · rw [← same]
    exact refl l'.engine

theorem unlessFaulty_faultless :
    ((unlessFaulty name answer act).run l).2.faults = Table.empty <-> l.faults = Table.empty := by
  have same := intercept_faultless l name
  simp only [unlessFaulty, StateT.run_bind, StateT.run_modifyGet]
  generalize l.intercept name = r at *
  obtain ⟨_ | replacement, l'⟩ := r <;> exact same

end Faults

end Link

/-- What all requests do to the link, reserved ones included, and everything else that can be asked for. -/
structure OwnerM.Law (R : Link -> Link -> Prop) : Prop extends Way R where
  ask : ∀ (q : Ask) l, R l (q.perform.run l).2
  meet : ∀ (r : Request) l, R l ((Link.meet r).run l).2

namespace OwnerM.Law

variable {R : Link -> Link -> Prop} {α : Type}

theorem request (law : Law R) (r : Request) : Leads R (OwnerM.request r) :=
  law.meet r

theorem openEngine (law : Law R) (memoryLimit : Option Nat) : Leads R (OwnerM.openEngine memoryLimit) := by
  have sole (r : Request) : Leads R (OwnerM.openEngine.sole r) := by
    refine law.bind (law.request r) fun s => ?_
    split
    next => exact law.pure ()
    next => exact law.throw _
  have limited (limit : Nat) : Leads R (do
      let _ <- OwnerM.request (.setMemoryLimit (Int64.ofNat limit))
      OwnerM.openEngine.sole .newContext) :=
    law.bind (law.request _) fun _ => sole _
  refine law.bind (sole _) fun _ => ?_
  split
  next => exact sole _
  next limit => exact limited limit

theorem closeEngine (law : Law R) : Leads R OwnerM.closeEngine :=
  law.bind (law.request _) fun _ => law.bind (law.request _) fun _ => law.pure ()

end OwnerM.Law

namespace Engine

variable {α : Type}

theorem onMemory_heap (f : Memory -> Except Error (α × Memory)) (s : Engine) : (outcome (onMemory f) s).2.heap = s.heap := by
  simp only [onMemory, outcome_bind, outcome_get]
  split <;> rfl

/-- What holds between an engine and what it has become, whatever it has been asked for. -/
structure Habit (R : Engine -> Engine -> Prop) : Prop where
  aside : ∀ {s t}, s.memory.Later t.memory -> t.heap = s.heap -> R s t
  request : ∀ {r : Request}, r.isReserved = false -> ∀ s, R s (outcome (perform r) s).2
  job : ∀ s, R s s.beginJob.2
  check : ∀ interrupted c s, R s (s.afterCheck interrupted c).2
  resume : ∀ answer f s, R s (s.afterHost answer f).2

theorem Habit.refl {R : Engine -> Engine -> Prop} (habit : Habit R) (s : Engine) : R s s :=
  habit.aside (.refl s.memory) rfl

end Engine

namespace Ask

variable {l : Link}

theorem newBlock_heap (size : Nat) (s : Engine) : (outcome (newBlock size) s).2.heap = s.heap := by
  simp only [newBlock, outcome_bind, Engine.onMemory, outcome_get, outcome_set, outcome_pure]
  split <;> rfl

theorem remembers_newBlock (size : Nat) : Engine.Remembers (newBlock size) := by
  refine Engine.remembering.bind (Engine.remembers_allocate size) fun a => ?_
  split
  next => exact Engine.remembering.throw _
  next => exact Engine.remembering.pure _

theorem perform_habit {R : Engine -> Engine -> Prop} (habit : Engine.Habit R) (q : Ask) (l : Link) :
    R l.engine (q.perform.run l).2.engine := by
  have through {α : Type} {name : String} {answer : Replacement -> Except Error α} {act : EngineM α}
      (step : ∀ s : Engine, R s (outcome act s).2) : R l.engine ((Link.unlessFaulty name answer act).run l).2.engine :=
    Link.unlessFaulty_leads habit.refl step
  have onMemory {α : Type} {f : Memory -> Except Error (α × Memory)} (remembers : Engine.Remembers (Engine.onMemory f))
      (s : Engine) : R s (outcome (Engine.onMemory f) s).2 :=
    habit.aside (remembers s) (Engine.onMemory_heap f s)
  cases q with
  | request r common => exact through (habit.request common)
  | allocate size => exact through fun s => habit.aside (remembers_newBlock size s) (newBlock_heap size s)
  | free a => exact habit.aside (l.engine.memory.later_free a) rfl
  | readBytes a count => exact through (onMemory (Engine.remembers_readMemory _))
  | writeBytes a bytes => exact through (onMemory (Engine.remembers_write a bytes))
  | readCString a => exact through (onMemory (Engine.remembers_readMemory _))
  | intercept name =>
    have same := Link.intercept_engine l name
    change R l.engine (l.intercept name).2.engine
    rw [same]
    exact habit.refl l.engine
  | start c =>
    cases c with
    | call function this count arguments =>
      change R l.engine (l.engine.beginCall function this count arguments).2
      rw [Engine.beginCall_same]
      exact habit.refl l.engine
    | job => exact habit.job l.engine
  | check interrupted c => exact habit.check interrupted c l.engine
  | resume answer f => exact habit.resume answer f l.engine
  | poll =>
    change R l.engine (Link.poll l).2.engine
    unfold Link.poll
    split <;> exact habit.refl l.engine

end Ask

namespace Link

variable {l : Link}

theorem meet_ordered (r : Request) (ok : l.engine.heap.Ordered) : ((meet r).run l).2.engine.heap.Ordered :=
  unlessFaulty_leads (R := fun s t => s.heap.Ordered -> t.heap.Ordered) (fun _ ok => ok)
    (fun _ ok => Engine.perform_ordered r ok) ok

theorem meet_faultless (r : Request) : ((meet r).run l).2.faults = Table.empty <-> l.faults = Table.empty :=
  unlessFaulty_faultless

end Link

namespace Ask

variable {l : Link}

theorem perform_ordered (q : Ask) (ok : l.engine.heap.Ordered) :
    (q.perform.run l).2.engine.heap.Ordered := by
  have habit : Engine.Habit fun s t => s.heap.Ordered -> t.heap.Ordered := {
    aside := fun _ same ok => same ▸ ok
    request := fun _ _ ok => Engine.perform_ordered _ ok
    job := fun _ ok => Engine.beginJob_ordered ok
    check := fun interrupted c _ ok => Engine.afterCheck_ordered interrupted c ok
    resume := fun answer f _ ok => Engine.afterHost_ordered answer f ok }
  exact q.perform_habit habit l ok

theorem perform_faultless (q : Ask) :
    (q.perform.run l).2.faults = Table.empty <-> l.faults = Table.empty := by
  cases q with
  | request r common => exact Link.meet_faultless r
  | allocate size => exact Link.unlessFaulty_faultless
  | free a => exact Iff.rfl
  | readBytes a count => exact Link.unlessFaulty_faultless
  | writeBytes a bytes => exact Link.unlessFaulty_faultless
  | readCString a => exact Link.unlessFaulty_faultless
  | intercept name => exact Link.intercept_faultless l name
  | start c => exact Iff.rfl
  | check interrupted c => exact Iff.rfl
  | resume answer f => exact Iff.rfl
  | poll =>
    change (Link.poll l).2.faults = Table.empty <-> _
    unfold Link.poll
    split <;> rfl

end Ask

namespace OwnerM

theorem law_ordered : Law fun l l' => l.engine.heap.Ordered -> l'.engine.heap.Ordered where
  refl _ ok := ok
  trans first second ok := second (first ok)
  ask q _ := q.perform_ordered
  meet r _ := Link.meet_ordered r

theorem law_faultless : Law fun l l' => l'.faults = Table.empty <-> l.faults = Table.empty where
  refl _ := Iff.rfl
  trans first second := second.trans first
  ask q _ := q.perform_faultless
  meet r _ := Link.meet_faultless r

end OwnerM

end ScriptHost
