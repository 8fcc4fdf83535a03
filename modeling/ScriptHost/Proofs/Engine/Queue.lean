import ScriptHost.Proofs.Engine.Openings

set_option autoImplicit false

/-!
Jobs leave the queue in the order in which they entered it, whatever the engine is asked for.
-/

namespace ScriptHost

def Affairs.Ordered (a : Affairs) : Prop :=
  a.queued.reverse = a.taken.reverse ++ a.jobs

namespace Heap

variable {h h' : Heap}

structure Line where
  waiting : List Job
  queued : List Job
  taken : List Job

def line (h : Heap) : Line :=
  ⟨h.jobs, h.queued, h.taken⟩

def Ordered (h : Heap) : Prop :=
  h.queued.reverse = h.taken.reverse ++ h.jobs

theorem Forgets.line (less : h.Forgets h') : h'.line = h.line := by
  simp only [Heap.line, Line.mk.injEq]
  exact ⟨less.jobs, less.queued, less.taken⟩

end Heap

variable {s s' : List Task × Affairs} {exact : Prop}

theorem Affairs.Forgets.ordered {a b : Affairs} (less : a.Forgets b) (ok : a.Ordered) : b.Ordered := by
  simpa only [Affairs.Ordered, less.jobs, less.queued, less.taken] using ok

theorem Turn.ordered (step : Turn s s') (ok : s.2.Ordered) : s'.2.Ordered := by
  cases step with
  | forget less => exact less.ordered ok
  | @enqueue j o a =>
    have before : a.queued.reverse = a.taken.reverse ++ a.jobs := ok
    change (j :: a.queued).reverse = a.taken.reverse ++ (a.jobs ++ [j])
    rw [List.reverse_cons, before, List.append_assoc]
  | _ => exact ok

theorem Turns.ordered (steps : Turns s s') (ok : s.2.Ordered) : s'.2.Ordered := by
  induction steps with
  | refl => exact ok
  | tail _ step ih => exact step.ordered ih

theorem Opening.ordered (opening : Opening exact s s') (ok : s.2.Ordered) : s'.2.Ordered := by
  cases opening with
  | @take j rest o a waiting =>
    have before : a.queued.reverse = a.taken.reverse ++ a.jobs := ok
    change a.queued.reverse = (j :: a.taken).reverse ++ rest
    rw [before, waiting, List.reverse_cons, List.append_assoc]
    rfl
  | @clear o a =>
    have before : a.queued.reverse = a.taken.reverse ++ a.jobs := ok
    change a.queued.reverse = (a.jobs.reverse ++ a.taken).reverse ++ []
    rw [before, List.reverse_append, List.reverse_reverse, List.append_nil]
  | _ => exact ok

namespace Engine

variable {s : Engine}

theorem ordered_of_opens {o o' : List Task} {h h' : Heap} (ok : h.Ordered)
    (opens : ∃ mid, Opening False (o, h.affairs) mid ∧ Turns mid (o', h'.affairs)) : h'.Ordered := by
  obtain ⟨mid, opening, turns⟩ := opens
  exact turns.ordered (opening.ordered ok)

theorem perform_ordered (r : Request) (ok : s.heap.Ordered) : (outcome (perform r) s).2.heap.Ordered := by
  obtain ⟨mid, opening, turns, -⟩ := perform_opens (o := []) (s := s) r False.elim
  exact ordered_of_opens ok ⟨mid, opening, turns⟩

theorem beginJob_ordered (ok : s.heap.Ordered) : s.beginJob.2.heap.Ordered := by
  have opening : Opening False ([], s.heap.affairs) (s.beginJob.1.tasks ++ [], s.beginJob.2.heap.affairs) :=
    beginJob_opens
  exact opening.ordered ok

theorem afterCheck_ordered (interrupted : Bool) (c : Check) (ok : s.heap.Ordered) :
    (s.afterCheck interrupted c).2.heap.Ordered := by
  have called : (c.afterCall interrupted s.heap).Ordered := by
    rcases afterCall_cases c interrupted s.heap with ⟨same, -⟩ | ⟨p, v, reject, r, f, -, -, -, -, -, turns⟩
    next =>
      rw [same]
      exact ok
    next => exact (turns []).ordered ok
  exact (afterCheck_turns (o := []) interrupted c).ordered called

theorem afterHost_ordered (answer : Ptr) (f : Frame) (ok : s.heap.Ordered) :
    (s.afterHost answer f).2.heap.Ordered :=
  (afterHost_turns (o := []) answer f).ordered ok

end Engine

end ScriptHost
