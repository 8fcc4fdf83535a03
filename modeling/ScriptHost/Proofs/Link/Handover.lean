import ScriptHost.Proofs.Link.Recording

set_option autoImplicit false

/-!
What becomes of the recorded rejections when their owner asks for them and memory is short.

The engine takes the rejections off its list before it makes the table for them. Without the table it has nothing to
answer with but what it says when there are none.
-/

namespace ScriptHost

namespace OwnerM

variable {l : Link}

/-- All that is recorded is handed over, in its order and with its references, or it stays recorded and an error
says so. -/
def HandsOver (l : Link) : Prop :=
  ((outcome takeRejections l).1 = .ok l.engine.heap.rejections ∧
    (outcome takeRejections l).2.engine.heap = { l.engine.heap with rejections := [] }) ∨
  ((∃ e, (outcome takeRejections l).1 = .error e) ∧ (outcome takeRejections l).2.engine.heap = l.engine.heap)

theorem handsOver_refused (clear : l.faults = Table.empty) (unfit : ¬ l.engine.memory.Fits 4) : HandsOver l := by
  rw [HandsOver, takeRejections_refused clear unfit]
  exact .inr ⟨⟨_, rfl⟩, rfl⟩

theorem handsOver_listed (clear : l.faults = Table.empty) (ok : l.engine.memory.WellFormed) (fits : l.engine.memory.Fits 4)
    (more : l.engine.heap.rejections ≠ [] -> (countPlaced l.engine).memory.Fits (12 * l.engine.heap.rejections.length)) :
    HandsOver l := by
  obtain ⟨m, -, taken⟩ := takeRejections_lists clear ok fits more
  rw [HandsOver, taken]
  exact .inl ⟨rfl, rfl⟩

theorem not_handsOver (clear : l.faults = Table.empty) (ok : l.engine.memory.WellFormed) (fits : l.engine.memory.Fits 4)
    (some : l.engine.heap.rejections ≠ [])
    (unfit : ¬ (countPlaced l.engine).memory.Fits (12 * l.engine.heap.rejections.length)) : ¬ HandsOver l := by
  obtain ⟨m, -, taken⟩ := takeRejections_listed clear ok fits fun _ place =>
    Engine.takeRejectionEvents_drops (s := countPlaced l.engine) (Memory.topped_wellFormed ok fits.2 _) place some unfit
  rw [HandsOver, taken]
  rintro (⟨all, -⟩ | ⟨⟨e, failed⟩, -⟩)
  next => exact some (Except.ok.inj all).symm
  next => cases failed

/-- Rejections are lost if and only if there is room for their number and then none for the table. -/
theorem handsOver_iff (clear : l.faults = Table.empty) (ok : l.engine.memory.WellFormed) :
    HandsOver l ↔ (l.engine.memory.Fits 4 -> l.engine.heap.rejections ≠ [] ->
      (countPlaced l.engine).memory.Fits (12 * l.engine.heap.rejections.length)) := by
  constructor
  next =>
    intro hands fits some
    by_contra unfit
    exact not_handsOver clear ok fits some unfit hands
  next =>
    intro more
    by_cases fits : l.engine.memory.Fits 4
    next => exact handsOver_listed clear ok fits (more fits)
    next => exact handsOver_refused clear fits

/-- An engine with so much memory that has recorded one rejection. -/
def rejecting (limit : Nat) : Link where
  engine := ⟨Memory.empty.setLimit (some limit), Heap.empty.newPromise.2.settle 16 Ptr.undefined true, false⟩
  faults := Table.empty
  patience := none

theorem rejecting_wellFormed (limit : Nat) : (rejecting limit).engine.memory.WellFormed :=
  Memory.wellFormed_empty.of_layout rfl rfl rfl

/-- Sixteen bytes are enough for one rejection. -/
theorem roomy_handsOver : (rejecting 16).faults = Table.empty ∧ (rejecting 16).engine.memory.WellFormed ∧
    (rejecting 16).engine.heap.rejections ≠ [] ∧ HandsOver (rejecting 16) :=
  ⟨rfl, rejecting_wellFormed 16, by decide, (handsOver_iff rfl (rejecting_wellFormed 16)).2 fun _ _ => ⟨by decide, by decide⟩⟩

/-- Twelve bytes admit the number but not the table. -/
theorem cramped_loses : (rejecting 12).engine.heap.rejections ≠ [] ∧ ¬ HandsOver (rejecting 12) :=
  ⟨by decide, not_handsOver rfl (rejecting_wellFormed 12) ⟨by decide, by decide⟩ (by decide) fun fits =>
    absurd fits.1 (by decide)⟩

end OwnerM

end ScriptHost
