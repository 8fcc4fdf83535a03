import ScriptHost.Engine.Call
import ScriptHost.Proofs.Engine.Raising
import ScriptHost.Proofs.Engine.Recording

set_option autoImplicit false

/-!
How calls and jobs leave the exception, stage by stage.

One is pending in the end only if the answer says so, and none while the host has its turn. What a job puts into the
engine's memory for a host function goes when the function has answered.
-/

namespace ScriptHost

/-- How a call, or a job, answers when it has failed. -/
def Calling.refused : Calling -> Scalar
  | call .. => Engine.nullResult
  | job => .i32 (-1)

namespace Check

def refused : Check -> Scalar
  | call .. => Engine.nullResult
  | job _ | handler .. => .i32 (-1)

/-- How often the host has its turn from here on, at most. -/
def turns : Check -> Nat
  | job _ => 3
  | call .. | handler .. => 2

end Check

namespace Frame

def refused : Frame -> Scalar
  | call => Engine.nullResult
  | handler .. => .i32 (-1)

/-- What is in the engine's memory for the host function alone. -/
def blocks : Frame -> List (Nat × Nat)
  | call => []
  | handler _ table => [(table.toNat, 4)]

end Frame

namespace Engine

variable {s s' : Engine}

structure Silent (s s' : Engine) : Prop where
  memory : s'.memory = s.memory
  exception : s'.heap.exception = s.heap.exception

/-- What a stage comes to that follows on a check. -/
def Follows (s : Engine) (refused : Scalar) (turns : Nat) : Stage -> Engine -> Prop
  | .done result, s' => s'.memory = s.memory ∧ (result = .ok refused ∨ s'.heap.exception = s.heap.exception)
  | .checking check, s' => s.Silent s' ∧ check.refused = refused ∧ check.turns < turns
  | .calling _ frame, s' =>
      s'.memory.extents = frame.blocks ++ s.memory.extents ∧ s'.heap.exception = s.heap.exception ∧
        frame.refused = refused

theorem silent_throwing (s : Engine) (message : String) : s.Silent (s.throwing message).2 :=
  ⟨rfl, s.heap.exception_newError message⟩

theorem silent_start (s : Engine) (interrupted : Bool) (function : Ptr) (args : List Ptr) :
    s.Silent (s.start interrupted function args).2 := by
  unfold start
  split
  next => exact s.silent_throwing _
  next =>
    split
    next =>
      split
      next => exact ⟨rfl, rfl⟩
      next => exact s.silent_throwing _
    next => exact ⟨rfl, s.heap.exception_callResolving _ _ _⟩
    next => exact ⟨rfl, s.heap.exception_callResolving _ _ _⟩
    next => exact s.silent_throwing _

theorem silent_endJob (s : Engine) (job : Job) (c : Completion) : s.Silent (s.endJob job c).2 := by
  cases c with
  | returned v => exact ⟨rfl, s.heap.exception_resolveWith job.derived v⟩
  | threw exception => exact ⟨rfl, s.heap.exception_settle job.derived exception true⟩

theorem silent_passThrough (s : Engine) (job : Job) : s.Silent (s.passThrough job).2 := by
  refine ⟨rfl, ?_⟩
  unfold passThrough
  dsimp only
  split
  next => exact s.heap.exception_settle job.derived job.argument true
  next => exact s.heap.exception_resolveWith job.derived job.argument

theorem Silent.trans {s'' : Engine} (first : s.Silent s') (second : s'.Silent s'') : s.Silent s'' :=
  ⟨second.memory.trans first.memory, second.exception.trans first.exception⟩

theorem Silent.finished {r : Scalar × Engine} {refused : Scalar} {turns : Nat} (silent : s.Silent r.2) :
    s.Follows refused turns (finished r).1 (finished r).2 :=
  ⟨silent.memory, .inr silent.exception⟩

theorem first_follows (s : Engine) (c : Calling) : s.Follows c.refused 4 (c.first s).1 (c.first s).2 := by
  cases c with
  | call function this count arguments =>
    simp only [Calling.first, beginCall]
    split
    next => exact ⟨rfl, .inr rfl⟩
    next => exact ⟨⟨rfl, rfl⟩, rfl, show 2 < 4 by decide⟩
  | job =>
    simp only [Calling.first, beginJob, Heap.takeJob]
    cases s.heap.jobs with
    | nil => exact ⟨rfl, .inr rfl⟩
    | cons job rest => exact ⟨⟨rfl, rfl⟩, rfl, show 3 < 4 by decide⟩

theorem runCall_follows (s : Engine) (interrupted : Bool) (function this : Ptr) (args : List Ptr) (table : Addr) :
    s.Follows nullResult 2 (s.runCall interrupted function this args table).1
      (s.runCall interrupted function this args table).2 := by
  have started := s.silent_start interrupted function args
  unfold runCall
  generalize s.start interrupted function args = r at *
  obtain ⟨c | id, t⟩ := r
  next =>
    cases c with
    | returned v => exact Silent.finished (r := (.ofWord v, t)) started
    | threw exception =>
      refine ⟨?_, .inl rfl⟩
      exact started.memory
  next => exact ⟨congrArg Memory.extents started.memory, started.exception, rfl⟩

theorem runHandler_follows (ok : s.memory.WellFormed) (interrupted : Bool) (job : Job) (function : Ptr) :
    s.Follows (.i32 (-1)) 2 (s.runHandler interrupted job function).1 (s.runHandler interrupted job function).2 := by
  have started := s.silent_start interrupted function [job.argument]
  unfold runHandler
  generalize s.start interrupted function [job.argument] = r at *
  obtain ⟨c | id, t⟩ := r
  next => exact (started.trans (t.silent_endJob job c)).finished
  next =>
    have failed :
        s.Follows (.i32 (-1)) 2 (finished ((t.throwing outOfMemory).2.endJob job (t.throwing outOfMemory).1)).1
        (finished ((t.throwing outOfMemory).2.endJob job (t.throwing outOfMemory).1)).2 :=
      (started.trans ((t.silent_throwing outOfMemory).trans (silent_endJob _ job _))).finished
    have memory : t.memory = s.memory := started.memory
    by_cases fits : t.memory.Fits 4
    next =>
      have written : t.memory.writeTable [job.argument] =
          .ok (UInt32.ofNat t.memory.next, t.memory.topped 4 (Memory.encodeWords [job.argument])) :=
        Memory.writeTable_fits (memory ▸ ok) fits
      simp only [written, Memory.next_nonzero (memory ▸ ok : t.memory.WellFormed), if_false]
      refine ⟨?_, started.exception, rfl⟩
      change (_, 4) :: t.memory.extents = ((UInt32.ofNat t.memory.next).toNat, 4) :: s.memory.extents
      rw [Memory.toNat_next (memory ▸ ok), memory]
    next =>
      have written : t.memory.writeTable [job.argument] = .ok (0, t.memory) := Memory.writeTable_refused fits
      simp only [written, if_true]
      exact failed

theorem afterCheck_follows (ok : s.memory.WellFormed) (interrupted : Bool) (check : Check) :
    s.Follows check.refused check.turns (s.afterCheck interrupted check).1 (s.afterCheck interrupted check).2 := by
  cases check with
  | job job =>
    simp only [afterCheck]
    split
    next => exact ⟨rfl, .inl rfl⟩
    next =>
      split
      next => exact (s.silent_passThrough job).finished
      next => exact ⟨⟨rfl, rfl⟩, rfl, show 2 < 3 by decide⟩
  | call function this args table => exact s.runCall_follows interrupted function this args table
  | handler job function => exact runHandler_follows ok interrupted job function

theorem completion_calm (s : Engine) {answer : Ptr} (quiet : answer ≠ 0 -> s.heap.exception = none) :
    (s.completion answer).2.heap.exception = none := by
  unfold completion
  split
  next =>
    split
    next => rfl
    next none => exact (s.heap.exception_newError _).trans none
  next some => exact quiet some

/-- After the answer of a host function, which may have left an exception if it says so. -/
theorem afterHost_calm (s : Engine) {answer : Ptr} (quiet : answer ≠ 0 -> s.heap.exception = none) (frame : Frame) :
    (s.afterHost answer frame).1 = frame.refused ∨ (s.afterHost answer frame).2.heap.exception = none := by
  cases frame with
  | call =>
    have calm := s.completion_calm quiet
    simp only [afterHost]
    generalize s.completion answer = r at *
    obtain ⟨_ | _, t⟩ := r
    next => exact .inr calm
    next => exact .inl rfl
  | handler job table =>
    have calm := completion_calm { s with memory := s.memory.free table } quiet
    exact .inr ((silent_endJob _ job _).exception.trans calm)

theorem afterHost_extents (s : Engine) (answer : Ptr) (frame : Frame) {rest : List (Nat × Nat)}
    (ok : s.memory.WellFormed) (top : s.memory.extents = frame.blocks ++ rest) :
    (s.afterHost answer frame).2.memory.extents = rest := by
  cases frame with
  | call =>
    have same := s.completion_memory answer
    simp only [afterHost]
    generalize s.completion answer = r at *
    obtain ⟨_ | _, t⟩ := r <;> exact (congrArg Memory.extents same).trans top
  | handler job table =>
    have same := completion_memory { s with memory := s.memory.free table } answer
    have freed := Memory.extents_free_top ok top
    exact (congrArg Memory.extents ((silent_endJob _ job _).memory.trans same)).trans freed

end Engine

end ScriptHost
