import ScriptHost.Proofs.Engine.Courses
import ScriptHost.Proofs.Engine.Dealings

set_option autoImplicit false

/-!
What each move of a host makes of the tickets.

Reactions are attached where the host asks for it, and where a promise adopts another one. Unless all is freed, the
tickets there are stay, and the new ones come behind them.
-/

namespace ScriptHost

variable {may : Ptr -> Reaction -> Prop}

theorem Affairs.keeps_able (a : Affairs) (able : Ptr -> Option (Ptr × Bool)) : a.Keeps { a with resolver? := able } :=
  ⟨rfl, rfl, rfl, (Keeps.refl a).promises⟩

theorem Affairs.keeps_collected (a : Affairs) : a.Keeps { a with rejections := [] } :=
  ⟨rfl, rfl, rfl, (Keeps.refl a).promises⟩

/-- The reaction that a request attaches, if it does. -/
def Request.attaches (answer : Except Error Scalar) : Request -> Ptr -> Reaction -> Prop
  | promiseThen p onFulfilled onRejected, q, x =>
      q = p ∧ x.onFulfilled = onFulfilled ∧ x.onRejected = onRejected ∧ answer = .ok (.ofWord x.derived)
  | _, _, _ => False

namespace Engine

open Heap

variable {s : Engine}

theorem does_newPromiseCapability (out : Addr) :
    Does may s.heap (outcome (newPromiseCapability out) s).2.heap := by
  have written : s.heap.newCapability.2.Forgets (outcome (newPromiseCapability out) s).2.heap := by
    refine forgets_bind (onHeap Heap.newCapability) (fun made => ?_) s
    refine forgetful_bind (forgetful_onMemory _) fun _ => ?_
    exact forgetful_bind (forgetful_onMemory _) fun _ => forgetful_pure _
  have made : s.heap.newPromise.2.affairs.Keeps s.heap.newCapability.2.affairs :=
    (Affairs.keeps_able _ _).trans (newCapability_empowers s.heap).forgets_able.keeps
  exact ((does_newPromise s.heap).trans (does_of_keeps made)).trans (does_of_forgets written)

/-- A request for a reaction, on a promise, is answered with the derived promise. -/
theorem promiseThen_andThen {p : Ptr} (promise : s.heap.isPromise p = true) (onFulfilled onRejected : Option Ptr) :
    outcome (promiseThen p onFulfilled onRejected) s = (.ok (.ofWord s.heap.newPromise.1),
      { s with
        heap := (s.heap.newPromise.2.retain s.heap.newPromise.1).attach p ⟨s.heap.newPromise.1, onFulfilled, onRejected⟩ }) := by
  simp only [promiseThen, outcome_bind, outcome_readHeap, promise, if_true]
  rfl

theorem does_promiseThen (p : Ptr) (onFulfilled onRejected : Option Ptr) :
    Does ((Request.promiseThen p onFulfilled onRejected).attaches (outcome (promiseThen p onFulfilled onRejected) s).1)
      s.heap (outcome (promiseThen p onFulfilled onRejected) s).2.heap := by
  cases promise : s.heap.isPromise p with
  | false =>
    have raised : s.heap.Forgets (outcome (promiseThen p onFulfilled onRejected) s).2.heap := by
      simpa only [promiseThen, outcome_bind, outcome_readHeap, promise, Bool.false_eq_true, if_false] using
        forgetful_raising "then called on a non-promise value" nullResult s
    exact does_of_forgets raised
  | true =>
    rw [promiseThen_andThen promise]
    refine ((does_newPromise s.heap).trans (does_of_forgets (.of_eq (affairs_retain _ s.heap.newPromise.1)))).trans ?_
    exact does_attach _ ⟨rfl, rfl, rfl, rfl⟩

theorem does_perform (r : Request) (kept : r.clears = false) :
    Does (r.attaches (outcome (perform r) s).1) s.heap (outcome (perform r) s).2.heap := by
  cases r with
  | newPromiseCapability out => exact does_newPromiseCapability out
  | promiseThen p onFulfilled onRejected => exact does_promiseThen p onFulfilled onRejected
  | freeContext => cases kept
  | freeRuntime => cases kept
  | takeRejectionEvents outCount =>
    have collected : s.heap.affairs.Keeps s.heap.takeRejections.2.affairs := Affairs.keeps_collected _
    exact (does_of_keeps collected).trans (does_of_forgets (takeRejectionEvents_forgets outCount s))
  | _ => exact does_of_forgets (perform_forgetful _ rfl s)

end Engine

namespace Hosting

open Heap

variable {s : Hosting} {m : Move}

/-- The reactions that a move attaches. -/
def Attaches (s : Hosting) : Move -> Ptr -> Reaction -> Prop
  | .request r => r.attaches (outcome (Engine.perform r) s.engine).1
  | .poll _ => Adoption
  | .answer v => fun q x => ∃ i f rest, s.waiting = .calling i f :: rest ∧ f.adopts v q x
  | _ => Nothing

/-- The context is not freed. -/
def Keeping (m : Move) : Prop :=
  ∀ r, m = .request r -> r.clears = false

/-- Unless all is freed or a job is taken, a move does nothing but dealings. -/
theorem step_does (keeping : Keeping m) (other : m ≠ .job) : Does (s.Attaches m) s.engine.heap (s.step m).engine.heap := by
  cases m with
  | request r => exact Engine.does_perform r (keeping r rfl)
  | call function this count arguments =>
    simp only [step, enter_engine, (Engine.beginCall_heap function this count arguments).1]
    exact .refl _
  | job => exact absurd rfl other
  | poll interrupted =>
    simp only [step, poll]
    split
    next c rest waiting =>
      rw [enter_engine]
      exact Engine.does_afterCheck s.engine interrupted c
    next => exact .refl _
  | answer v =>
    simp only [step, answer]
    split
    next i f rest waiting =>
      exact (Engine.does_afterHost s.engine v f).mono fun q x adopts => ⟨i, f, rest, waiting, adopts⟩
    next => exact .refl _
  | install => exact .refl _
  | allocate size => exact .refl _
  | deallocate a => exact .refl _
  | write a bytes => exact .refl _

end Hosting

end ScriptHost
