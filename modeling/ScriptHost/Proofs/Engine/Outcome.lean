import ScriptHost.Engine

set_option autoImplicit false

/-!
What actions that may fail answer and leave behind, on an engine and in general.
-/

namespace ScriptHost

section General

variable {σ α β : Type}

def outcome (act : ExceptT Error (StateM σ) α) (s : σ) : Except Error α × σ :=
  act.run.run s

@[simp] theorem outcome_pure (a : α) (s : σ) : outcome (pure a) s = (.ok a, s) :=
  rfl

@[simp] theorem outcome_throw (e : Error) (s : σ) :
    outcome (throw e : ExceptT Error (StateM σ) α) s = (.error e, s) :=
  rfl

@[simp] theorem outcome_get (s : σ) : outcome get s = (.ok s, s) :=
  rfl

@[simp] theorem outcome_set (s next : σ) : outcome (set next) s = (.ok ⟨⟩, next) :=
  rfl

@[simp] theorem outcome_modify (f : σ -> σ) (s : σ) : outcome (modify f) s = (.ok ⟨⟩, f s) :=
  rfl

@[simp] theorem outcome_modifyGet (f : σ -> α × σ) (s : σ) :
    outcome (modifyGet f) s = (.ok (f s).1, (f s).2) :=
  rfl

@[simp] theorem outcome_mk (act : StateM σ (Except Error α)) (s : σ) :
    outcome (ExceptT.mk act) s = act.run s :=
  rfl

@[simp] theorem outcome_lift (act : StateM σ α) (s : σ) :
    outcome (ExceptT.lift act) s = (.ok (act.run s).1, (act.run s).2) :=
  rfl

theorem outcome_bind (act : ExceptT Error (StateM σ) α) (f : α -> ExceptT Error (StateM σ) β) (s : σ) :
    outcome (act >>= f) s =
      match outcome act s with
      | (.ok a, s) => outcome (f a) s
      | (.error e, s) => (.error e, s) := by
  simp only [outcome, ExceptT.run_bind, StateT.run_bind]
  generalize act.run.run s = r
  obtain ⟨_ | _, _⟩ := r <;> rfl

/-- Whatever an action answers, it leads to a state that `R` relates to the one before. -/
def Leads (R : σ -> σ -> Prop) (act : ExceptT Error (StateM σ) α) : Prop :=
  ∀ s, R s (outcome act s).2

structure Way (R : σ -> σ -> Prop) : Prop where
  refl : ∀ s, R s s
  trans : ∀ {s t u}, R s t -> R t u -> R s u

namespace Way

variable {R : σ -> σ -> Prop}

theorem pure (way : Way R) (a : α) : Leads R (pure a : ExceptT Error (StateM σ) α) :=
  way.refl

theorem throw (way : Way R) (e : Error) : Leads R (throw e : ExceptT Error (StateM σ) α) :=
  way.refl

theorem bind (way : Way R) {act : ExceptT Error (StateM σ) α} {f : α -> ExceptT Error (StateM σ) β}
    (first : Leads R act) (rest : ∀ a, Leads R (f a)) : Leads R (act >>= f) := by
  intro s
  have led := first s
  rw [outcome_bind]
  generalize outcome act s = r at *
  obtain ⟨_ | a, t⟩ := r
  next => exact led
  next => exact way.trans led (rest a t)

end Way

end General

namespace Engine

variable {α : Type} {a : α} {e : Error} {m : Memory} {s : Engine}

@[simp] theorem outcome_onHeap (f : Heap -> α × Heap) (s : Engine) :
    outcome (onHeap f) s = (.ok (f s.heap).1, { s with heap := (f s.heap).2 }) :=
  rfl

@[simp] theorem outcome_modifyHeap (f : Heap -> Heap) (s : Engine) :
    outcome (modifyHeap f) s = (.ok (), { s with heap := f s.heap }) :=
  rfl

@[simp] theorem outcome_readHeap (f : Heap -> α) (s : Engine) :
    outcome (readHeap f) s = (.ok (f s.heap), s) :=
  rfl

@[simp] theorem outcome_raising (message : String) (answer : Scalar) (s : Engine) :
    outcome (raising message answer) s =
      (.ok answer, { s with heap := s.heap.raiseMessage message }) :=
  rfl

theorem outcome_onMemory {f : Memory -> Except Error (α × Memory)} (done : f s.memory = .ok (a, m)) :
    outcome (onMemory f) s = (.ok a, { s with memory := m }) := by
  simp only [onMemory, outcome_bind, outcome_get, done, outcome_set, outcome_pure]

theorem outcome_onMemory_error {f : Memory -> Except Error (α × Memory)} (failed : f s.memory = .error e) :
    outcome (onMemory f) s = (.error e, s) := by
  simp only [onMemory, outcome_bind, outcome_get, failed, outcome_throw]

theorem outcome_readMemory (f : Memory -> Except Error α) (s : Engine) :
    outcome (readMemory f) s = (f s.memory, s) := by
  unfold readMemory
  cases read : f s.memory with
  | ok a => exact outcome_onMemory (by rw [read]; rfl)
  | error e => exact outcome_onMemory_error (by rw [read]; rfl)

theorem outcome_writeWord {p : Addr} {w : UInt32} (done : s.memory.writeWord p w = .ok m) :
    outcome (writeWord p w) s = (.ok (), { s with memory := m }) :=
  outcome_onMemory (by rw [done]; rfl)

theorem outcome_insert (v : Value) (s : Engine) :
    outcome (insert v) s = (.ok (.ofWord (s.heap.insert v).1), { s with heap := (s.heap.insert v).2 }) :=
  rfl

end Engine

end ScriptHost
