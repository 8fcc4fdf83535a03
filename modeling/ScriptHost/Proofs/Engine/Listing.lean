import ScriptHost.Proofs.Engine.Openings
import ScriptHost.Proofs.Engine.Scratch

set_option autoImplicit false

/-!
The table of rejections that an engine hands over, and what becomes of them if there is no memory for it.
-/

namespace ScriptHost

namespace Memory

theorem span_le (size : Nat) : span size ≤ max size 1 + 7 := by
  unfold span blockAlignment
  omega

/-- Without a limit, blocks are refused only when the addresses run out. -/
theorem fits_unlimited {m : Memory} {size : Nat} (unlimited : m.limit = none) (room : m.next + span size ≤ lastAddress) :
    m.Fits size :=
  ⟨by simp only [withinLimit, unlimited], room⟩

end Memory

namespace Engine

variable {s : Engine} {out : Addr}

/-- What the table of rejections and its place of memory are afterwards. -/
structure Listed (events : List Rejection) (out table : Addr) (m : Memory) : Prop where
  wellFormed : m.WellFormed
  place : m.Inside out.toNat 4
  count : m.Stores out.toNat [UInt32.ofNat events.length]
  some : table = 0 <-> events = []
  inside : events ≠ [] -> m.Inside table.toNat (4 * (events.flatMap rejectionWords).length)
  stored : events ≠ [] -> m.Stores table.toNat (events.flatMap rejectionWords)

/-- The table takes three words for a rejection. -/
theorem table_size {events : List Rejection} (some : events ≠ []) :
    max ((events.flatMap rejectionWords).length * 4) 4 = 12 * events.length := by
  have length := Rejection.length_words events
  have positive := List.length_pos_of_ne_nil some
  omega

theorem takeRejectionEvents_lists (ok : s.memory.WellFormed) (place : s.memory.Inside out.toNat 4)
    (fits : s.heap.rejections ≠ [] -> s.memory.Fits (12 * s.heap.rejections.length)) :
    ∃ table m, outcome (takeRejectionEvents out) s =
      (.ok (.ofWord table), { s with memory := m, heap := s.heap.takeRejections.2 }) ∧
      Listed s.heap.rejections out table m := by
  have below := place.le_next ok
  simp only [takeRejectionEvents, outcome_bind, outcome_onHeap]
  rw [show s.heap.takeRejections.1 = s.heap.rejections from rfl]
  generalize s.heap.takeRejections.2 = h
  generalize s.heap.rejections = events at *
  cases events with
  | nil =>
    obtain ⟨m, done, written⟩ := Memory.writeWord_spec ok place 0
    refine ⟨0, m, ?_, written.wellFormed, written.inside place, written.there, by simp, by simp, by simp⟩
    simp only [List.isEmpty_nil, if_true, outcome_bind, outcome_pure, outcome_modifyHeap, List.flatMap_nil,
      Heap.releaseAll_nil]
    rw [outcome_writeWord (s := ⟨s.memory, h, s.hosted⟩) done]
    rfl
  | cons e rest =>
    generalize listed : e :: rest = events at *
    have some : events ≠ [] := by simp [← listed]
    obtain ⟨table, m, done, tabled⟩ := Memory.writeTable_spec ok (events.flatMap rejectionWords)
    have made : table ≠ 0 := by
      rw [Memory.writeTable_fits ok (table_size some ▸ fits some)] at done
      exact (Prod.mk.inj (Except.ok.inj done)).1 ▸ Memory.next_nonzero ok
    obtain ⟨address, within, stored, few⟩ := tabled.stored made
    have kept := tabled.kept _ _ place
    obtain ⟨m', put, written⟩ := Memory.writeWord_spec tabled.wellFormed kept (UInt32.ofNat events.length)
    -- The table is a new block behind the place for the count, so writing the count does not touch it.
    have apart : out.toNat + 4 ≤ table.toNat := by omega
    refine ⟨table, m', ?_, written.wellFormed, written.inside kept, written.there, by simp [made, some],
      fun _ => written.inside within, fun _ => written.stores stored (.inr apart)⟩
    simp only [List.isEmpty_eq_false_iff.2 some, Bool.false_eq_true, if_false, outcome_bind]
    rw [outcome_onMemory (s := ⟨s.memory, h, s.hosted⟩) done]
    dsimp only
    rw [if_neg made, outcome_bind, outcome_writeWord (s := ⟨m, h, s.hosted⟩) put]
    rfl

/-- If there is no memory for the table, the engine answers as if nothing had been recorded. -/
theorem takeRejectionEvents_drops (ok : s.memory.WellFormed) (place : s.memory.Inside out.toNat 4)
    (some : s.heap.rejections ≠ []) (unfit : ¬ s.memory.Fits (12 * s.heap.rejections.length)) :
    ∃ table m, outcome (takeRejectionEvents out) s = (.ok (.ofWord table),
      { s with memory := m
               heap := s.heap.takeRejections.2.releaseAll (s.heap.rejections.flatMap Rejection.children) }) ∧
      Listed [] out table m := by
  obtain ⟨m, done, written⟩ := Memory.writeWord_spec ok place 0
  refine ⟨0, m, ?_, written.wellFormed, written.inside place, written.there, by simp, by simp, by simp⟩
  have none := Memory.writeTable_refused (table_size some ▸ unfit)
  simp only [takeRejectionEvents, outcome_bind, outcome_onHeap]
  rw [show s.heap.takeRejections.1 = s.heap.rejections from rfl]
  simp only [List.isEmpty_eq_false_iff.2 some, Bool.false_eq_true, if_false, outcome_bind]
  rw [outcome_onMemory (s := ⟨s.memory, s.heap.takeRejections.2, s.hosted⟩) none]
  simp only [if_true, outcome_bind, outcome_modifyHeap]
  rw [outcome_writeWord (s := ⟨s.memory, s.heap.takeRejections.2.releaseAll _, s.hosted⟩) done]
  rfl

end Engine

end ScriptHost
