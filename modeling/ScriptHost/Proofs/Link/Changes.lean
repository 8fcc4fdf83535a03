import ScriptHost.Proofs.Engine.Planting
import ScriptHost.Proofs.Engine.Scratch
import ScriptHost.Proofs.Link.Recording

set_option autoImplicit false

/-!
Calls across the link that change nothing but cells, memory and counters.

`Changed` bounds what a call may have done, `Same` says that it has undone all of it.
-/

namespace ScriptHost

namespace Link

variable {α β : Type} {l l' l'' : Link} {p q : Ptr} {r : Request} {e : Error} {s : Engine} {act : LinkM α}
variable {scratch more : List (Nat × Nat)}

abbrev cells (l : Link) : Cells :=
  l.engine.heap.cells

abbrev memory (l : Link) : Memory :=
  l.engine.memory

def moved (l : Link) (cells : Cells) (next : Nat) (m : Memory) : Link :=
  l.withEngine { l.engine with memory := m, heap := { l.engine.heap with cells, next } }

/-- Nothing is in the way of calls, and nothing is left from others. -/
structure Ready (l : Link) : Prop where
  clear : l.faults = Table.empty
  memory : l.memory.WellFormed
  counted : Heap.Counted l.cells
  calm : l.engine.heap.exception = none

/-- The cells may be others, the counters have moved on, and there are these new blocks. -/
def Changed (scratch : List (Nat × Nat)) (l l' : Link) : Prop :=
  ∃ cells n m, l.engine.heap.next ≤ n ∧ l.memory.Atop m scratch ∧ l' = l.moved cells n m

/-- Only the counters may have moved on. -/
def Same (l l' : Link) : Prop :=
  Changed [] l l' ∧ l'.cells = l.cells

theorem Changed.refl (ready : l.Ready) : Changed [] l l :=
  ⟨l.cells, l.engine.heap.next, l.memory, Nat.le_refl _, .refl ready.memory, rfl⟩

theorem Changed.trans (first : Changed scratch l l') (second : Changed more l' l'') : Changed (more ++ scratch) l l'' := by
  obtain ⟨cells, n, m, next, atop, rfl⟩ := first
  obtain ⟨cells', n', m', next', atop', rfl⟩ := second
  exact ⟨cells', n', m', Nat.le_trans next next', atop.trans atop', rfl⟩

theorem Changed.ready (changed : Changed scratch l l') (ready : l.Ready) (counted : Heap.Counted l'.cells) : l'.Ready := by
  obtain ⟨cells, n, m, next, atop, rfl⟩ := changed
  exact ⟨ready.clear, atop.wellFormed, counted, ready.calm⟩

theorem Changed.atop (changed : Changed scratch l l') : l.memory.Atop l'.memory scratch := by
  obtain ⟨cells, n, m, next, atop, rfl⟩ := changed
  exact atop

theorem Changed.faults (changed : Changed scratch l l') : l'.faults = l.faults := by
  obtain ⟨cells, n, m, next, atop, rfl⟩ := changed
  rfl

theorem Changed.pending (changed : Changed scratch l l') : l'.engine.heap.pending = l.engine.heap.pending := by
  obtain ⟨cells, n, m, next, atop, rfl⟩ := changed
  rfl

theorem Changed.jobs (changed : Changed scratch l l') : l'.engine.heap.jobs = l.engine.heap.jobs := by
  obtain ⟨cells, n, m, next, atop, rfl⟩ := changed
  rfl

theorem Changed.history (changed : Changed scratch l l') : l'.engine.heap.history = l.engine.heap.history := by
  obtain ⟨cells, n, m, next, atop, rfl⟩ := changed
  rfl

theorem Changed.patience (changed : Changed scratch l l') : l'.patience = l.patience := by
  obtain ⟨cells, n, m, next, atop, rfl⟩ := changed
  rfl

theorem Changed.limit (changed : Changed scratch l l') : l'.memory.limit = l.memory.limit :=
  changed.atop.limit

def withMemory (l : Link) (m : Memory) : Link :=
  l.withEngine { l.engine with memory := m }

theorem Changed.withMemory {m : Memory} (atop : l.memory.Atop m scratch) : Changed scratch l (l.withMemory m) :=
  ⟨l.cells, l.engine.heap.next, m, Nat.le_refl _, atop, rfl⟩

theorem Changed.free {a : Addr} {start n : Nat} (changed : Changed ((start, n) :: scratch) l l') (here : a.toNat = start) :
    Changed scratch l (l'.withMemory (l'.memory.free a)) := by
  obtain ⟨cells, n, m, next, atop, rfl⟩ := changed
  exact ⟨cells, n, m.free a, next, atop.free here, rfl⟩

def released (l : Link) (p : Ptr) : Link :=
  l.withEngine { l.engine with heap := l.engine.heap.release p }

theorem Changed.release (changed : Changed scratch l l') (p : Ptr) : Changed scratch l (l'.released p) := by
  obtain ⟨cells, n, m, next, atop, rfl⟩ := changed
  exact ⟨Heap.freeAll cells [p], n, m, next, atop, rfl⟩

theorem Same.refl (ready : l.Ready) : Same l l :=
  ⟨.refl ready, rfl⟩

theorem Same.trans (first : Same l l') (second : Same l' l'') : Same l l'' :=
  ⟨first.1.trans second.1, second.2.trans first.2⟩

theorem Same.ready (same : Same l l') (ready : l.Ready) : l'.Ready :=
  same.1.ready ready (same.2 ▸ ready.counted)

theorem cells_retaining (l : Link) (q : Ptr) :
    (l.retaining q).cells = l.cells.modify q fun c => { c with refs := c.refs + 1 } :=
  rfl

/-- What was retained for the time being is released. -/
theorem Same.released (same : Same (l.retaining q) l') (ready : l.Ready) : Same l (l'.released q) := by
  obtain ⟨⟨cells, n, m, next, atop, rfl⟩, kept⟩ := same
  obtain rfl : cells = l.cells.modify q fun c => { c with refs := c.refs + 1 } := kept
  exact ⟨⟨_, n, m, next, atop, rfl⟩, Heap.freeAll_retained ready.counted q⟩

theorem Same.eq (same : Same l l') :
    ∃ n k, l.engine.heap.next ≤ n ∧ l.memory.next ≤ k ∧ l' = l.moved l.cells n { l.memory with next := k } := by
  obtain ⟨⟨cells, n, m, next, atop, rfl⟩, rfl⟩ := same
  exact ⟨n, m.next, next, atop.next, by rw [← atop.settled]⟩

theorem answered_next (act : LinkM α) (l : Link) : l.memory.next ≤ (answered act l).2.memory.next :=
  Dialogue.through_leads (R := fun l l' : Link => l.memory.next ≤ l'.memory.next) (fun _ => Nat.le_refl _) Nat.le_trans
    (fun q _ l => (q.perform_onward l).toGrown.memory) (Dialogue.only_any act.run) l

theorem answered_faultless (act : LinkM α) (clear : l.faults = Table.empty) : (answered act l).2.faults = Table.empty :=
  (Dialogue.through_leads (R := fun l l' : Link => l'.faults = Table.empty <-> l.faults = Table.empty) (fun _ => Iff.rfl)
    (fun first second => second.trans first) (fun q _ _ => q.perform_faultless) (Dialogue.only_any act.run) l).2 clear

section Value

theorem heap_calm (ready : l.Ready) : { l.engine.heap with exception := none } = l.engine.heap := by
  have calm := ready.calm
  generalize l.engine.heap = h at *
  cases h
  simp_all

theorem answered_word (clear : l.faults = Table.empty) {c : r.isReserved = false} {w : UInt32}
    (done : outcome (Engine.perform r) l.engine = (.ok (.ofWord w), s)) :
    answered (word r c) l = (.ok w, l.withEngine s) := by
  simp only [word, answered_bind, answered_request (direct_of_faultless clear _), done, answered_ofExcept, wordOf_ofWord]

theorem answered_int (clear : l.faults = Table.empty) {c : r.isReserved = false} {n : Int32}
    (done : outcome (Engine.perform r) l.engine = (.ok (.i32 n), s)) :
    answered (int r c) l = (.ok n, l.withEngine s) := by
  simp only [int, answered_bind, answered_request (direct_of_faultless clear _), done, Scalar.i32?, answered_pure]

theorem answered_value (clear : l.faults = Table.empty) {c : r.isReserved = false}
    (done : outcome (Engine.perform r) l.engine = (.ok (.ofWord p), s)) (some : p ≠ 0) :
    answered (value r c) l = (.ok p, l.withEngine s) := by
  simp only [value, answered_bind, answered_word clear done, some, if_false, answered_pure]

theorem answered_value_zero (clear : l.faults = Table.empty) {c : r.isReserved = false}
    (done : outcome (Engine.perform r) l.engine = (.ok (.ofWord 0), s)) :
    answered (value r c) l =
      match answered (failure r.name) (l.withEngine s) with
      | (.ok e, l) => (.error e, l)
      | (.error e, l) => (.error e, l) := by
  simp only [value, answered_bind, answered_word clear done, if_true]
  generalize answered (failure r.name) (l.withEngine s) = r
  obtain ⟨_ | _, _⟩ := r <;> rfl

theorem answered_takeLastError (clear : l.faults = Table.empty) :
    answered takeLastError l = (.ok (Ptr.nonzero? (l.engine.heap.exception.getD 0)),
      l.withEngine { l.engine with heap := { l.engine.heap with exception := none } }) := by
  have done : outcome (Engine.perform .getLastError) l.engine =
      (.ok (.ofWord (l.engine.heap.exception.getD 0)),
        { l.engine with heap := { l.engine.heap with exception := none } }) := rfl
  have asked : answered (word .getLastError) l = _ := answered_word clear done
  simp only [takeLastError, answered_bind, asked, answered_pure]

theorem answered_failure_calm (ready : l.Ready) (operation : String) :
    answered (failure operation) l = (.ok (unexplained operation), l) := by
  have taken := answered_takeLastError ready.clear
  rw [heap_calm ready, ready.calm] at taken
  have whole : answered takeLastError l = (.ok none, l) := taken
  have unfolded (depth : Nat) : answered (failureWithin (depth + 1) operation) l = (.ok (unexplained operation), l) := by
    simp only [failureWithin, answered_bind, answered_attempt, whole, answered_pure]
  exact unfolded 999

theorem answered_value_none (ready : l.Ready) {c : r.isReserved = false}
    (done : outcome (Engine.perform r) l.engine = (.ok (.ofWord 0), s)) (then' : (l.withEngine s).Ready) :
    answered (value r c) l = (.error (unexplained r.name), l.withEngine s) := by
  rw [answered_value_zero ready.clear done, answered_failure_calm then']

theorem freed_released (l : Link) (p : Ptr) :
    l.withEngine (outcome (Engine.perform (.freeValue p)) l.engine).2 = l.released p := by
  simp only [Engine.perform, Engine.freeValue, outcome_bind, Engine.outcome_onHeap, Heap.free]
  split <;> rfl

theorem answered_free_value (clear : l.faults = Table.empty) (p : Ptr) :
    answered (freeValue p) l = (.ok (), l.released p) := by
  rw [answered_freeValue (direct_of_faultless clear _), freed_released]

end Value

end Link

end ScriptHost
