import ScriptHost.Engine.Call
import ScriptHost.Proofs.Engine.Chronicle
import ScriptHost.Proofs.Engine.Remembering

set_option autoImplicit false

/-!
Engines that record rejections.

Whatever host code asks an engine for, its memory stays in order and its events stay in line with its history.
Only the owner of the engine takes what has been recorded.
-/

namespace ScriptHost

namespace Engine

/-- No pointer and no address is given out again, and what has happened to promises is never forgotten. -/
structure Grown (s s' : Engine) : Prop where
  heap : s.heap.next ≤ s'.heap.next
  memory : s.memory.next ≤ s'.memory.next
  history : s.heap.history <:+ s'.heap.history

/-- The memory is in order and has no limit, and what is recorded has happened since `past`. -/
structure Records (past : List Happening) (s : Engine) : Prop where
  memory : s.memory.WellFormed
  unlimited : s.memory.limit = none
  chronicle : s.heap.affairs.Chronicled (recordedEvents past)
  recent : past <:+ s.heap.history

/-- As long as there are pointers left, recording goes on. -/
structure Onward (s s' : Engine) : Prop extends Grown s s' where
  records : ∀ past, s'.heap.next ≤ UInt32.size -> s.Records past -> s'.Records past

variable {s t u : Engine} {o o' : List Task} {mid : List Task × Affairs} {exact : Prop}

theorem Grown.refl (s : Engine) : s.Grown s :=
  ⟨Nat.le_refl _, Nat.le_refl _, List.suffix_refl _⟩

theorem Grown.trans (first : s.Grown t) (second : t.Grown u) : s.Grown u :=
  ⟨Nat.le_trans first.heap second.heap, Nat.le_trans first.memory second.memory, first.history.trans second.history⟩

theorem Onward.refl (s : Engine) : s.Onward s :=
  ⟨.refl s, fun _ _ ok => ok⟩

theorem Onward.trans (first : s.Onward t) (second : t.Onward u) : s.Onward u :=
  ⟨first.toGrown.trans second.toGrown,
    fun past room ok => second.records past room (first.records past (Nat.le_trans second.heap room) ok)⟩

/-- An engine that has just been made records from then on. -/
theorem records_empty : Engine.empty.Records [] where
  memory := Memory.wellFormed_empty
  unlimited := rfl
  chronicle := {
    known := fun _ _ found => nomatch found
    told := nofun
    literals := nofun
    handled := fun _ _ found => nomatch found
    settled := fun _ _ _ _ found => nomatch found
    once := List.nodup_nil
    events := rfl }
  recent := List.suffix_refl _

theorem Grown.of_opens (memory : s.memory.next ≤ t.memory.next) (opening : Opening exact (o, s.heap.affairs) mid)
    (turns : Turns mid (o', t.heap.affairs)) : s.Grown t where
  heap := Nat.le_trans opening.next_le turns.next_le
  memory := memory
  history := by
    have suffix := turns.history_suffix
    rw [opening.same_history] at suffix
    exact suffix

theorem Onward.of_affairs (memory : s.memory.Later t.memory) (grown : s.Grown t)
    (chronicle : ∀ past, t.heap.next ≤ UInt32.size -> s.heap.affairs.Chronicled past -> t.heap.affairs.Chronicled past) :
    s.Onward t where
  toGrown := grown
  records _ room ok :=
    { memory := memory.wellFormed ok.memory
      unlimited := memory.limit.trans ok.unlimited
      chronicle := chronicle _ room ok.chronicle
      recent := ok.recent.trans grown.history }

theorem Onward.of_opens (memory : s.memory.Later t.memory) (opening : Opening exact (o, s.heap.affairs) mid)
    (turns : Turns mid (o', t.heap.affairs)) (kept : mid.2.rejections = s.heap.rejections) : s.Onward t :=
  .of_affairs memory (.of_opens memory.next opening turns) fun _ room ok =>
    Turns.chronicled turns room (opening.chronicled kept (Nat.le_trans turns.next_le room) ok)

theorem Onward.of_same_heap (memory : s.memory.Later t.memory) (same : t.heap = s.heap) : s.Onward t :=
  .of_affairs memory ⟨Nat.le_of_eq (congrArg Heap.next same.symm), memory.next, same ▸ List.suffix_refl _⟩
    fun _ _ ok => same ▸ ok

theorem perform_grown (r : Request) (s : Engine) : s.Grown (outcome (perform r) s).2 := by
  obtain ⟨mid, opening, turns, -⟩ := perform_opens (o := []) (s := s) r False.elim
  refine .of_opens ?_ opening turns
  by_cases limits : ∃ limit, r = .setMemoryLimit limit
  next =>
    obtain ⟨limit, rfl⟩ := limits
    exact Nat.le_refl _
  next =>
    have unlimited (limit : Int64) : r ≠ .setMemoryLimit limit := fun same => limits ⟨limit, same⟩
    exact (perform_remembers r unlimited s).next

theorem perform_onward {r : Request} (common : r.isReserved = false) (s : Engine) :
    s.Onward (outcome (perform r) s).2 := by
  obtain ⟨mid, opening, turns, kept⟩ := perform_opens (o := []) (s := s) r False.elim
  have unlimited (limit : Int64) : r ≠ .setMemoryLimit limit := by
    rintro rfl
    cases common
  exact .of_opens (perform_remembers r unlimited s) opening turns (kept common)

theorem beginJob_memory (s : Engine) : s.beginJob.2.memory = s.memory := by
  cases waiting : s.heap.jobs <;> simp [beginJob, Heap.takeJob, waiting, finished]

theorem beginJob_onward (s : Engine) : s.Onward s.beginJob.2 := by
  have opening : Opening False ([], s.heap.affairs) (s.beginJob.1.tasks ++ [], s.beginJob.2.heap.affairs) :=
    beginJob_opens
  have same : s.beginJob.2.heap.rejections = s.heap.rejections := by
    cases waiting : s.heap.jobs <;> simp [beginJob, Heap.takeJob, waiting, finished]
  exact .of_opens (s.beginJob_memory ▸ .refl s.memory) opening .refl same

theorem start_memory (s : Engine) (interrupted : Bool) (function : Ptr) (args : List Ptr) :
    (s.start interrupted function args).2.memory = s.memory := by
  unfold start
  split
  next => rfl
  next =>
    split
    next =>
      split <;> rfl
    next => rfl
    next => rfl
    next => rfl

theorem endCall_memory (s : Engine) (c : Completion) : (s.endCall c).2.memory = s.memory := by
  cases c <;> rfl

theorem endJob_memory (s : Engine) (job : Job) (c : Completion) : (s.endJob job c).2.memory = s.memory := by
  cases c <;> rfl

theorem completion_memory (s : Engine) (answer : Ptr) : (s.completion answer).2.memory = s.memory := by
  unfold completion
  split
  next =>
    split <;> rfl
  next => rfl

theorem afterCheck_later (interrupted : Bool) (c : Check) (s : Engine) :
    s.memory.Later (s.afterCheck interrupted c).2.memory := by
  cases c with
  | job job =>
    simp only [afterCheck]
    split
    next => exact .refl s.memory
    next =>
      split <;> exact .refl s.memory
  | call function this args table =>
    have same := start_memory s interrupted function args
    simp only [afterCheck, runCall]
    generalize s.start interrupted function args = r at *
    obtain ⟨c | id, s'⟩ := r
    next => exact (same ▸ endCall_memory s' c) ▸ .refl s.memory
    next => exact same ▸ .refl s'.memory
  | handler job function =>
    have same := start_memory s interrupted function [job.argument]
    simp only [afterCheck, runHandler]
    generalize s.start interrupted function [job.argument] = r at *
    obtain ⟨c | id, s'⟩ := r
    next => exact (same ▸ endJob_memory s' job c) ▸ .refl s.memory
    next =>
      dsimp only at same ⊢
      rw [← same]
      split
      next table memory stored =>
        have later := Memory.later_writeTable stored
        split
        next => exact later
        next => exact later
      next => exact .refl s'.memory

/-- The call of a resolving function marks its promise first, which nothing records. -/
theorem afterCheck_onward (interrupted : Bool) (c : Check) (s : Engine) : s.Onward (s.afterCheck interrupted c).2 := by
  have memory := afterCheck_later interrupted c s
  have checked := afterCheck_turns (s := s) (o := []) interrupted c
  rcases afterCall_cases c interrupted s.heap with ⟨same, -⟩ | ⟨p, v, reject, r, f, -, -, -, here, -, called⟩
  next =>
    rw [same] at checked
    exact .of_opens memory (.rest : Opening False _ _) checked rfl
  next =>
    have turns : Turns _ _ := (called (c.tasks ++ [])).trans checked
    exact .of_affairs memory ⟨Turns.next_le turns, memory.next, Turns.history_suffix turns⟩ fun _ room ok =>
      Turns.chronicled turns room (ok.mark here)

theorem afterHost_later (answer : Ptr) (f : Frame) (s : Engine) : s.memory.Later (s.afterHost answer f).2.memory := by
  cases f with
  | call =>
    have kept := (endCall_memory (s.completion answer).2 (s.completion answer).1).trans (completion_memory s answer)
    exact kept ▸ .refl s.memory
  | handler job table =>
    have freed := completion_memory { s with memory := s.memory.free table } answer
    generalize completed : { s with memory := s.memory.free table }.completion answer = r at freed
    have kept : (s.afterHost answer (.handler job table)).2.memory = s.memory.free table := by
      simp only [afterHost, completed]
      exact (endJob_memory r.2 job r.1).trans freed
    exact kept ▸ s.memory.later_free table

theorem afterHost_onward (answer : Ptr) (f : Frame) (s : Engine) : s.Onward (s.afterHost answer f).2 :=
  .of_opens (afterHost_later answer f s) (.rest : Opening False _ _) (afterHost_turns (o := []) answer f) rfl

end Engine

end ScriptHost
