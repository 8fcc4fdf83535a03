import ScriptHost.Proofs.Link.Making

set_option autoImplicit false

/-!
Calls that take texts out of the engine, and how the text of a failure is found.

A text takes a block for a moment. If there is none, an error is raised and its own text is taken, which
needs a block as well: with room for that one nothing stays behind.
-/

namespace ScriptHost

namespace Heap

variable {h : Heap} {p text : Ptr} {message : String}

theorem staticText_of_big (big : Ptr.firstCounted ≤ p) : staticText p = none := by
  have other (q : Ptr) (small : q < Ptr.firstCounted) : p ≠ q := by
    rintro rfl
    exact absurd big (UInt32.not_le.2 small)
  simp only [staticText, other Ptr.undefined (by decide), other Ptr.null (by decide), other Ptr.no (by decide),
    other Ptr.yes (by decide), if_false]

theorem displayTo_string (big : Ptr.firstCounted ≤ p) (found : h.get? p = some (.string message)) (depth : Nat) :
    h.displayTo (depth + 1) p = message := by
  simp only [displayTo, staticText_of_big big, found]

theorem display_string (big : Ptr.firstCounted ≤ p) (found : h.get? p = some (.string message)) :
    h.display p = message :=
  displayTo_string big found _

theorem display_error (big : Ptr.firstCounted ≤ p) (big' : Ptr.firstCounted ≤ text)
    (found : h.get? p = some (errorValue text)) (there : h.get? text = some (.string message)) :
    h.display p = errorText message := by
  have props : (Table.empty.set messageKey text : Table String Ptr).get? messageKey = some text := by simp
  have some : ∃ n, h.cells.size = n + 1 := by
    refine Nat.exists_eq_add_one_of_ne_zero fun none => ?_
    have empty : h.cells.entries = [] := List.length_eq_zero_iff.1 none
    simp [get?, Table.get?, empty, Table.find] at found
  obtain ⟨n, size⟩ := some
  simp only [display, size]
  rw [displayTo]
  simp only [staticText_of_big big, found, errorValue, props, displayTo_string big' there]

theorem lookup_held {h' : Heap} {held : Value} (here : h.get? p = some held) (there : h'.get? p = some held)
    (key : String) : h'.lookup p key = h.lookup p key := by
  unfold lookup
  rw [here, there]
  cases held <;> rfl

theorem displayTo_congr (h h' : Heap) (same : ∀ p, h'.get? p = h.get? p) (depth : Nat) (p : Ptr) :
    h'.displayTo depth p = h.displayTo depth p := by
  induction depth generalizing p with
  | zero => rfl
  | succ depth ih => simp only [displayTo, same, ih]

end Heap

namespace Link

variable {l l' l'' : Link} {p q : Ptr} {s : String}

section Text

def spelled (l : Link) (s : String) : Link :=
  l.withMemory (l.memory.topped (Memory.terminated s).size (Memory.terminated s))

def respelled (l : Link) (s : String) : Link :=
  l.withMemory ((l.spelled s).memory.free (UInt32.ofNat l.memory.next))

def Spells (l : Link) (s : String) : Prop :=
  l.memory.Fits (Memory.terminated s).size

theorem same_respelled (ready : l.Ready) (fits : l.Spells s) : Same l (l.respelled s) :=
  ⟨(Changed.scratched ready.memory fits (Memory.terminated s)).free (Memory.toNat_next ready.memory), rfl⟩

theorem answered_readText (clear : l.faults = Table.empty) (ok : l.memory.WellFormed)
    (s : String) :
    answered (readText (UInt32.ofNat l.memory.next)) (l.spelled s) = (.ok (Text.untilNul s), l.respelled s) := by
  have clear : (l.spelled s).faults = Table.empty := clear
  have freed : answered (request (.freeCString (UInt32.ofNat l.memory.next))) (l.spelled s) = (.ok .void, l.respelled s) :=
    answered_request (direct_of_faultless clear _) rfl
  have read : answered (readCString (UInt32.ofNat l.memory.next)) (l.spelled s) = (.ok (Text.untilNul s), l.spelled s) := by
    have asked : answered (readCString (UInt32.ofNat l.memory.next)) (l.spelled s) =
      (Ask.readCString (UInt32.ofNat l.memory.next)).perform.run (l.spelled s) := rfl
    rw [asked, Ask.perform, unlessFaulty_clear clear, Engine.outcome_readMemory]
    dsimp only [spelled, withMemory, withEngine]
    rw [Memory.topped_readCString (Memory.toNat_next ok) s]
  simp only [readText, answered_bind, answered_attempt, read, freed, answered_ofExcept]

theorem outcome_toCString_fits (ok : l.memory.WellFormed)
    (fits : l.Spells (l.engine.heap.display p)) :
    outcome (Engine.perform (.toCString p)) l.engine =
      (.ok (.ofWord (UInt32.ofNat l.memory.next)), (l.spelled (l.engine.heap.display p)).engine) := by
  simp only [Engine.perform, Engine.toCString, outcome_bind, Engine.outcome_readHeap]
  rw [Engine.outcome_onMemory (Memory.writeCString_fits ok fits)]
  simp only [Memory.next_nonzero ok, if_false, outcome_pure]
  rfl

theorem outcome_toCString_refused (unfit : ¬l.Spells (l.engine.heap.display p)) :
    outcome (Engine.perform (.toCString p)) l.engine =
      (.ok (.ofWord 0), { l.engine with heap := l.engine.heap.raiseMessage Engine.outOfMemory }) := by
  simp only [Engine.perform, Engine.toCString, outcome_bind, Engine.outcome_readHeap]
  rw [Engine.outcome_onMemory (Memory.writeCString_refused unfit)]
  rfl

theorem toText_fits (clear : l.faults = Table.empty) (ok : l.memory.WellFormed)
    (fits : l.Spells (l.engine.heap.display p)) :
    answered (toText p) l =
      (.ok (Text.untilNul (l.engine.heap.display p)), l.respelled (l.engine.heap.display p)) := by
  have asked : answered (value (.toCString p)) l = (.ok (UInt32.ofNat l.memory.next), l.spelled (l.engine.heap.display p)) :=
    answered_value clear (outcome_toCString_fits ok fits) (Memory.next_nonzero ok)
  simp only [toText, answered_bind, asked, answered_readText clear ok]

end Text

section Failure

theorem explained (ready : l.Ready) {message : String} {text : Ptr} (big : Ptr.firstCounted ≤ p)
    (big' : Ptr.firstCounted ≤ text) (found : l.engine.heap.get? p = some (Heap.errorValue text))
    (there : l.engine.heap.get? text = some (.string message)) (fits : l.Spells (Heap.errorText message))
    {l₀ : Link} (taken : answered takeLastError l₀ = (.ok (some p), l)) (depth : Nat) (operation : String) :
    ∃ e l', answered (failureWithin (depth + 1) operation) l₀ = (.ok e, l') ∧ Changed [] l l' ∧
      l'.cells = Heap.freeAll l.cells [p] := by
  have display := Heap.display_error big big' found there
  have asked : answered (word (.toCString p)) l = (.ok (UInt32.ofNat l.memory.next), l.spelled (Heap.errorText message)) := by
    rw [← display] at fits ⊢
    exact answered_word ready.clear (outcome_toCString_fits ready.memory fits)
  have freed := answered_free_value (l := l.respelled (Heap.errorText message)) ready.clear p
  refine ⟨.foreign operation (diagnosis (.ok (Text.untilNul (Heap.errorText message)))),
    (l.respelled (Heap.errorText message)).released p, ?_, (same_respelled ready fits).1.release p, rfl⟩
  simp only [failureWithin, answered_bind, answered_attempt, taken, asked, Memory.next_nonzero ready.memory, if_false,
    answered_readText ready.clear ready.memory, freed, answered_pure]

/-- There is a new error, to which nothing but the host refers, and its text. -/
structure Raised (l : Link) (message : String) (p text : Ptr) (l' : Link) : Prop where
  big : Ptr.firstCounted ≤ p
  big' : Ptr.firstCounted ≤ text
  absent : l.cells.get? p = none
  absent' : l.cells.get? text = none
  apart : p ≠ text
  changed : Changed [] l l'
  cells : l'.cells = Heap.withError l.cells p text message

namespace Raised

variable {message : String} {text : Ptr}

theorem ready (raised : Raised l message p text l') (ready : l.Ready) : l'.Ready :=
  raised.changed.ready ready (raised.cells ▸ (ready.counted.set raised.big' (Nat.le_refl 1)).set raised.big (Nat.le_refl 1))

theorem get?_error (raised : Raised l message p text l') : l'.engine.heap.get? p = some (Heap.errorValue text) :=
  Heap.get?_eq_some.2 ⟨_, raised.cells ▸ (Heap.withError_get? l.cells message raised.apart).1, rfl⟩

theorem get?_text (raised : Raised l message p text l') : l'.engine.heap.get? text = some (.string message) :=
  Heap.get?_eq_some.2 ⟨_, raised.cells ▸ (Heap.withError_get? l.cells message raised.apart).2, rfl⟩

/-- The error is two cells on top of the others, and freeing it frees its text. -/
theorem freed (raised : Raised l message p text l') (ready : l.Ready) : Heap.freeAll l'.cells [p] = l.cells := by
  have planted := Heap.withError_planted message raised.absent' raised.absent raised.apart
  have counted := (raised.ready ready).counted
  rw [raised.cells] at counted ⊢
  exact ((Heap.withError_forest l.cells message raised.apart).freed counted planted.nodup).trans planted.old

theorem released {c : Cell} (raised : Raised (l.retaining q) message p text l') (ready : l.Ready)
    (found : l.cells.get? q = some c) : Raised l message p text (l'.released q) := by
  have there : (l.retaining q).cells.get? q = some { c with refs := c.refs + 1 } := by
    simp [cells_retaining, found]
  have other {k : Ptr} (absent : (l.retaining q).cells.get? k = none) : q ≠ k := by
    rintro rfl
    simp [absent] at there
  have absent {k : Ptr} (absent : (l.retaining q).cells.get? k = none) : l.cells.get? k = none := by
    simpa [cells_retaining, other absent] using absent
  have cells : l'.cells = (Heap.withError l.cells p text message).modify q fun c => { c with refs := c.refs + 1 } := by
    rw [raised.cells, cells_retaining, Heap.withError, Table.set_modify (Ne.symm (other raised.absent')),
      Table.set_modify (Ne.symm (other raised.absent)), Heap.withError]
  have counted : Heap.Counted (Heap.withError l.cells p text message) :=
    (ready.counted.set raised.big' (Nat.le_refl 1)).set raised.big (Nat.le_refl 1)
  obtain ⟨cells', n, m, next, atop, rfl⟩ := raised.changed
  obtain rfl : cells' = _ := cells
  exact ⟨raised.big, raised.big', absent raised.absent, absent raised.absent', raised.apart, ⟨_, n, m, next, atop, rfl⟩,
    Heap.freeAll_retained counted q⟩

theorem undone (raised : Raised l message p text l') (ready : l.Ready) (same : Same l' l'') :
    Same l (l''.released p) := by
  refine ⟨(raised.changed.trans same.1).release p, ?_⟩
  change Heap.freeAll l''.cells [p] = l.cells
  rw [same.2, raised.freed ready]
end Raised

/-- Whoever takes the exception after an error was raised gets the error, unless no pointer was left for one. -/
theorem takeLastError_raised (ready : l.Ready) (message : String) :
    (∃ p text l', answered takeLastError (l.withEngine { l.engine with heap := l.engine.heap.raiseMessage message }) =
        (.ok (some p), l') ∧ Raised l message p text l' ∧ l'.memory = l.memory) ∨
      ∃ l', answered takeLastError (l.withEngine { l.engine with heap := l.engine.heap.raiseMessage message }) =
        (.ok none, l') ∧ Same l l' := by
  rw [answered_takeLastError (l := l.withEngine { l.engine with heap := l.engine.heap.raiseMessage message }) ready.clear]
  rcases Heap.newError_plants ready.counted message with
    ⟨p, text, n, later, big, big', absent', absent, apart, made⟩ | ⟨-, n, later, made⟩
  · have raised : l.engine.heap.raiseMessage message = { l.engine.heap with
        cells := Heap.withError l.cells p text message, next := n, exception := some p } := by
      simp only [Heap.raiseMessage, made, Heap.setException, ready.calm]
    have nonzero : Ptr.nonzero? p = some p := if_neg (nonzero_of_big big)
    refine .inl ⟨p, text, l.moved (Heap.withError l.cells p text message) n l.memory, ?_, ⟨big, big', absent, absent', apart,
      ⟨_, n, l.memory, later, .refl ready.memory, rfl⟩, rfl⟩, rfl⟩
    simp only [withEngine, raised, Option.getD_some, nonzero, moved, ready.calm]
  · have raised : l.engine.heap.raiseMessage message = { l.engine.heap with next := n, exception := some 0 } := by
      simp only [Heap.raiseMessage, made, Heap.setException, ready.calm]
    have zero : Ptr.nonzero? 0 = none := rfl
    refine .inr ⟨l.moved l.cells n l.memory, ?_, ⟨_, n, l.memory, later, .refl ready.memory, rfl⟩, rfl⟩
    simp only [withEngine, raised, Option.getD_some, zero, moved, ready.calm]

/-- The text of an error that was raised is found, and the error is gone. -/
theorem failure_raised (ready : l.Ready) {message : String} (fits : l.Spells (Heap.errorText message))
    (operation : String) : ∃ e l', answered (failure operation)
      (l.withEngine { l.engine with heap := l.engine.heap.raiseMessage message }) = (.ok e, l') ∧ Same l l' := by
  rcases takeLastError_raised ready message with ⟨p, text, mid, taken, raised, memory⟩ | ⟨mid, taken, same⟩
  · have fits' : mid.Spells (Heap.errorText message) := by rwa [Spells, memory]
    obtain ⟨e, l', answer, changed, cells⟩ := explained (raised.ready ready) raised.big raised.big' raised.get?_error
      raised.get?_text fits' taken 999 operation
    exact ⟨e, l', answer, raised.changed.trans changed, cells.trans (raised.freed ready)⟩
  · refine ⟨unexplained operation, mid, ?_, same⟩
    have unfolded (depth : Nat) : answered (failureWithin (depth + 1) operation)
        (l.withEngine { l.engine with heap := l.engine.heap.raiseMessage message }) = (.ok (unexplained operation), mid) := by
      simp only [failureWithin, answered_bind, answered_attempt, taken, answered_pure]
    exact unfolded 999

end Failure

end Link

end ScriptHost
