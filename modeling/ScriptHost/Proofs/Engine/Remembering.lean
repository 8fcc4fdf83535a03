import ScriptHost.Proofs.Engine.Memory
import ScriptHost.Proofs.Engine.Outcome

set_option autoImplicit false

/-!
What requests leave of the memory: it stays in order, and only the owner of an engine changes its limit.
-/

namespace ScriptHost

namespace Memory

/-- Blocks may have come and gone, and their contents may have changed. -/
structure Later (m m' : Memory) : Prop where
  wellFormed : m.WellFormed -> m'.WellFormed
  next : m.next ≤ m'.next
  limit : m'.limit = m.limit

variable {m m' m'' : Memory} {a b : Addr} {bytes : ByteArray}

theorem Later.refl (m : Memory) : m.Later m :=
  ⟨id, Nat.le_refl _, rfl⟩

theorem Later.trans (first : m.Later m') (second : m'.Later m'') : m.Later m'' :=
  ⟨fun ok => second.wellFormed (first.wellFormed ok), Nat.le_trans first.next second.next,
    second.limit.trans first.limit⟩

theorem later_allocate (m : Memory) (size : Nat) : m.Later (m.allocate size).2 := by
  refine ⟨fun ok => (allocate_spec ok size).wellFormed, ?_, ?_⟩
  all_goals
    unfold allocate
    split
  next => exact Nat.le_add_right _ _
  next => exact Nat.le_refl _
  next => rfl
  next => rfl

theorem later_free (m : Memory) (a : Addr) : m.Later (m.free a) :=
  ⟨fun ok => ok.free a, Nat.le_refl _, rfl⟩

theorem later_clear (m : Memory) : m.Later m.clear :=
  ⟨WellFormed.clear, Nat.le_refl _, rfl⟩

theorem later_write (done : m.write a bytes = .ok m') : m.Later m' := by
  have kept : m'.next = m.next ∧ m'.limit = m.limit := by
    unfold Memory.write at done
    split at done
    next => exact Except.ok.inj done ▸ ⟨rfl, rfl⟩
    next => cases done
  exact ⟨fun ok => ok.write done, Nat.le_of_eq kept.1.symm, kept.2⟩

theorem later_written (done : (m.write a bytes).map (fun m => ((), m)) = .ok ((), m')) : m.Later m' := by
  cases put : m.write a bytes with
  | error e => simp [put, Except.map] at done
  | ok t =>
    obtain rfl : t = m' := by simpa [put, Except.map] using done
    exact later_write put

/-- A new block is filled, if there is one. -/
theorem later_stored
    (done : (if a = 0 then .ok (0, m) else (m.write a bytes).map fun m => (a, m)) = .ok (b, m')) : m.Later m' := by
  split at done
  next => exact (Prod.mk.inj (Except.ok.inj done)).2 ▸ .refl m
  next =>
    cases put : m.write a bytes with
    | error e => simp [put, Except.map] at done
    | ok t =>
      obtain ⟨-, rfl⟩ : a = b ∧ t = m' := by simpa [put, Except.map] using done
      exact later_write put

theorem later_writeTable {words : List UInt32} (done : m.writeTable words = .ok (a, m')) : m.Later m' :=
  (later_allocate m _).trans (later_stored done)

theorem later_writeCString {text : String} (done : m.writeCString text = .ok (a, m')) : m.Later m' :=
  (later_allocate m _).trans (later_stored done)

end Memory

namespace Engine

variable {α : Type} {s : Engine}

/-- The memory stays in order, and its limit is left alone. -/
def Remembers (act : EngineM α) : Prop :=
  Leads (fun s s' : Engine => s.memory.Later s'.memory) act

theorem remembering : Way fun s s' : Engine => s.memory.Later s'.memory :=
  ⟨fun s => .refl s.memory, .trans⟩

theorem remembers_onHeap (f : Heap -> α × Heap) : Remembers (onHeap f) :=
  fun s => .refl s.memory

theorem remembers_onMemory {f : Memory -> Except Error (α × Memory)}
    (later : ∀ (m : Memory) a m', f m = .ok (a, m') -> m.Later m') : Remembers (onMemory f) := by
  intro s
  cases done : f s.memory with
  | error e =>
    rw [outcome_onMemory_error done]
    exact .refl s.memory
  | ok x =>
    rw [outcome_onMemory (a := x.1) (m := x.2) done]
    exact later s.memory x.1 x.2 done

theorem remembers_readMemory (f : Memory -> Except Error α) : Remembers (readMemory f) := by
  intro s
  rw [outcome_readMemory]
  exact .refl s.memory

theorem remembers_write (a : Addr) (bytes : ByteArray) :
    Remembers (onMemory fun m => (m.write a bytes).map fun m => ((), m)) :=
  remembers_onMemory fun _ _ _ done => Memory.later_written done

theorem remembers_writeWord (a : Addr) (w : UInt32) : Remembers (writeWord a w) :=
  remembers_write a _

theorem remembers_allocate (size : Nat) : Remembers (onMemory fun m => .ok (m.allocate size)) :=
  remembers_onMemory fun m _ _ done => (Prod.mk.inj (Except.ok.inj done)).2 ▸ m.later_allocate size

theorem remembers_writeTable (words : List UInt32) : Remembers (onMemory fun m => m.writeTable words) :=
  remembers_onMemory fun _ _ _ done => Memory.later_writeTable done

theorem remembers_raising (message : String) (answer : Scalar) : Remembers (raising message answer) :=
  fun s => .refl s.memory

theorem remembers_insert (v : Value) : Remembers (insert v) :=
  fun s => .refl s.memory

theorem remembers_attempt (f : Heap -> Except String (α × Heap)) (onOk : α -> Scalar) (onError : Scalar) :
    Remembers (attempt f onOk onError) := by
  intro s
  simp only [attempt, outcome_bind, outcome_get]
  split <;> exact .refl s.memory

theorem remembers_toCString (p : Ptr) : Remembers (toCString p) := by
  refine remembering.bind (remembers_onHeap _) fun text => ?_
  refine remembering.bind (remembers_onMemory fun _ _ _ done => Memory.later_writeCString done) fun a => ?_
  split
  next => exact remembers_raising _ _
  next => exact remembering.pure _

theorem remembers_copyArrayBuffer (p : Ptr) (outCount : Addr) : Remembers (copyArrayBuffer p outCount) := by
  refine remembering.bind (remembers_onHeap _) fun found => ?_
  split
  next bytes =>
    refine remembering.bind (remembers_allocate _) fun data => ?_
    split
    next => exact remembers_raising _ _
    next =>
      refine remembering.bind (remembers_write data bytes) fun _ => ?_
      exact remembering.bind (remembers_writeWord outCount _) fun _ => remembering.pure _
  next => exact remembers_raising _ _

theorem remembers_getOwnPropertyNames (outTable outCount : Addr) (object : Ptr) :
    Remembers (getOwnPropertyNames outTable outCount object) := by
  refine remembering.bind (remembers_onHeap _) fun found => ?_
  split
  next => exact remembers_raising _ _
  next keys =>
    refine remembering.bind (remembers_onHeap _) fun names => ?_
    refine remembering.bind (remembers_writeTable names) fun table => ?_
    split
    next => exact remembering.bind (remembers_onHeap _) fun _ => remembers_raising _ _
    next =>
      refine remembering.bind (remembers_writeWord outTable table) fun _ => ?_
      exact remembering.bind (remembers_writeWord outCount _) fun _ => remembering.pure _

theorem remembers_getLength (outLength : Addr) (p : Ptr) : Remembers (getLength outLength p) := by
  refine remembering.bind (remembers_onHeap _) fun found => ?_
  split
  next => exact remembering.bind (remembers_writeWord outLength _) fun _ => remembering.pure _
  next => exact remembers_raising _ _

theorem remembers_newPromiseCapability (out : Addr) : Remembers (newPromiseCapability out) := by
  refine remembering.bind (remembers_onHeap _) fun made => ?_
  refine remembering.bind (remembers_writeWord out _) fun _ => ?_
  exact remembering.bind (remembers_writeWord (out + 4) _) fun _ => remembering.pure _

theorem remembers_promiseResult (p : Ptr) : Remembers (promiseResult p) := by
  intro s
  simp only [promiseResult, outcome_bind, outcome_get]
  split <;> exact .refl s.memory

theorem remembers_promiseThen (p : Ptr) (onFulfilled onRejected : Option Ptr) :
    Remembers (promiseThen p onFulfilled onRejected) := by
  refine remembering.bind (remembers_onHeap _) fun promise => ?_
  split
  next => exact remembering.bind (remembers_onHeap _) fun _ => remembering.pure _
  next => exact remembers_raising _ _

theorem remembers_takeRejectionEvents (outCount : Addr) : Remembers (takeRejectionEvents outCount) := by
  have answered (events : List Rejection) (table : Addr) : Remembers (do
      if table = 0 then
        modifyHeap fun h => h.releaseAll (events.flatMap Rejection.children)
        writeWord outCount 0
        pure nullResult
      else
        writeWord outCount (UInt32.ofNat events.length)
        pure (.ofWord table)) := by
    split
    next =>
      refine remembering.bind (remembers_onHeap _) fun _ => ?_
      exact remembering.bind (remembers_writeWord outCount 0) fun _ => remembering.pure _
    next => exact remembering.bind (remembers_writeWord outCount _) fun _ => remembering.pure _
  refine remembering.bind (remembers_onHeap _) fun events => ?_
  split
  next => exact remembering.bind (remembering.pure _) (answered events)
  next => exact remembering.bind (remembers_writeTable _) (answered events)

theorem perform_remembers (r : Request) (unlimited : ∀ limit, r ≠ .setMemoryLimit limit) : Remembers (perform r) := by
  have read {β : Type} (f : Heap -> β) (answer : β -> Scalar) :
      Remembers (do pure (answer (<- readHeap f))) :=
    remembering.bind (remembers_onHeap _) fun _ => remembering.pure _
  have made {β : Type} (f : Memory -> Except Error β) (v : β -> Value) :
      Remembers (do insert (v (<- readMemory f))) :=
    remembering.bind (remembers_readMemory f) fun _ => remembers_insert _
  cases r with
  | setMemoryLimit limit => exact absurd rfl (unlimited limit)
  | freeContext => exact fun s => s.memory.later_clear
  | freeRuntime => exact fun s => s.memory.later_clear
  | dupValue p =>
    refine remembering.bind (remembers_onHeap _) fun known => ?_
    split
    next => exact remembering.pure _
    next => exact remembers_raising _ _
  | freeValue p =>
    refine remembering.bind (remembers_onHeap _) fun known => ?_
    split
    next => exact remembering.pure _
    next => exact remembering.throw _
  | newFloat64 x => exact remembers_insert _
  | newString text => exact made _ _
  | toCString p => exact remembers_toCString p
  | freeCString text => exact fun s => s.memory.later_free text
  | newArrayBuffer data count => exact made _ _
  | copyArrayBuffer p outCount => exact remembers_copyArrayBuffer p outCount
  | newObject => exact remembers_insert _
  | newArray => exact remembers_insert _
  | getProp object key => exact remembers_attempt _ _ _
  | setProp object key value => exact remembers_attempt _ _ _
  | getOwnPropertyNames outTable outCount object => exact remembers_getOwnPropertyNames _ _ _
  | getLength outLength p => exact remembers_getLength _ _
  | newError text =>
    refine remembering.bind (remembers_readMemory _) fun message => ?_
    exact remembering.bind (remembers_onHeap _) fun _ => remembering.pure _
  | raise p => exact remembering.bind (remembers_onHeap _) fun _ => remembering.pure _
  | newFunction id name => exact made _ _
  | newPromiseCapability out => exact remembers_newPromiseCapability out
  | promiseResult p => exact remembers_promiseResult p
  | promiseThen p onFulfilled onRejected => exact remembers_promiseThen _ _ _
  | takeRejectionEvents outCount => exact remembers_takeRejectionEvents outCount
  | liveValueCount => exact read _ _
  | getFloat64 p => exact read _ _
  | typeOf p => exact read _ _
  | isEqual p q op => exact read _ _
  | getLastError => exact remembering.bind (remembers_onHeap _) fun _ => remembering.pure _
  | promiseState p => exact read _ _
  | isJobPending => exact read _ _
  | _ => exact remembering.pure _

end Engine

end ScriptHost
