import ScriptHost.Proofs.Engine.Memory
import ScriptHost.Proofs.Engine.Outcome
import ScriptHost.Proofs.Engine.Properties

set_option autoImplicit false

/-!
What references requests hand over to the host, and which they take from it.

A host finds references in the answer to a request and in the places of memory that the request wrote to.
-/

namespace ScriptHost

namespace Memory

def wordsAt (m : Memory) (a : Addr) (count : Nat) : List UInt32 :=
  match m.readWords a count with
  | .ok words => words
  | .error _ => []

def wordAt (m : Memory) (a : Addr) : UInt32 :=
  (m.wordsAt a 1).headD 0

variable {m m' : Memory} {p : Addr} {w : UInt32} {words : List UInt32}

theorem wordsAt_stores (ok : m.WellFormed) (inside : m.Inside p.toNat (4 * words.length))
    (stored : m.Stores p.toNat words) : m.wordsAt p words.length = words := by
  simp only [wordsAt, readWords_stores ok inside stored]

theorem wordAt_stores (ok : m.WellFormed) (inside : m.Inside p.toNat 4) (stored : m.Stores p.toNat [w]) :
    m.wordAt p = w := by
  have read : m.wordsAt p [w].length = [w] := wordsAt_stores ok inside stored
  simp only [wordAt, List.length_singleton] at *
  rw [read]
  rfl

theorem Worded.wordAt (worded : Worded m m' p w) (room : m.Inside p.toNat 4) : m'.wordAt p = w :=
  wordAt_stores worded.wellFormed (worded.inside room) worded.there

end Memory

namespace Scalar

def pointers (a : Scalar) : List Ptr :=
  a.word?.toList

@[simp] theorem word?_ofWord (w : UInt32) : (ofWord w).word? = some w := by
  simp [ofWord, word?]

@[simp] theorem pointers_ofWord (w : UInt32) : (ofWord w).pointers = [w] := by
  simp [pointers]

end Scalar

namespace Rejection

def pointersIn : List UInt32 -> List Ptr
  | promise :: reason :: _ :: rest => promise :: reason :: pointersIn rest
  | _ => []

theorem pointersIn_words (events : List Rejection) :
    pointersIn (events.flatMap Engine.rejectionWords) = events.flatMap children := by
  induction events with
  | nil => rfl
  | cons e rest ih =>
    simp only [List.flatMap_cons, Engine.rejectionWords, List.cons_append, List.nil_append, pointersIn,
      children, ih]

theorem length_words (events : List Rejection) :
    (events.flatMap Engine.rejectionWords).length = 3 * events.length := by
  induction events with
  | nil => rfl
  | cons e rest ih =>
    simp only [List.flatMap_cons, List.length_append, Engine.rejectionWords, List.length_cons,
      List.length_nil, ih]
    omega

end Rejection

namespace Request

/-- The references that the host has after a request was answered. -/
def handedOver (r : Request) (answer : Scalar) (m : Memory) : List Ptr :=
  match r with
  | dupValue _ | newFloat64 _ | newString _ | newArrayBuffer _ _ | newObject | newArray | getProp _ _
  | newError _ | getLastError | newFunction _ _ | promiseResult _ | promiseThen _ _ _ =>
      answer.pointers
  | newPromiseCapability out => answer.pointers ++ m.wordsAt out 2
  | getOwnPropertyNames outTable outCount _ =>
      if answer = Engine.statusOk then m.wordsAt (m.wordAt outTable) (m.wordAt outCount).toNat else []
  | takeRejectionEvents outCount =>
      Rejection.pointersIn (m.wordsAt (answer.word?.getD 0) (3 * (m.wordAt outCount).toNat))
  | _ => []

/-- The references that the host gives up, of those that it has. -/
def givenUp (r : Request) (owned : List Ptr) : List Ptr :=
  match r with
  | freeValue p => [p]
  | freeContext | freeRuntime => owned
  | _ => []

def remaining (r : Request) (owned : List Ptr) : List Ptr :=
  match r with
  | freeValue p => owned.erase p
  | freeContext | freeRuntime => []
  | _ => owned

/-- The pointers that the engine keeps without looking whether they name anything. -/
def passedOn : Request -> List Ptr
  | promiseThen _ onFulfilled onRejected => onFulfilled.toList ++ onRejected.toList
  | _ => []

def outPointers : Request -> List (Nat × Nat)
  | copyArrayBuffer _ outCount => [(outCount.toNat, 4)]
  | getOwnPropertyNames outTable outCount _ => [(outTable.toNat, 4), (outCount.toNat, 4)]
  | getLength outLength _ => [(outLength.toNat, 4)]
  | newPromiseCapability out => [(out.toNat, 8)]
  | takeRejectionEvents outCount => [(outCount.toNat, 4)]
  | _ => []

def Writable (r : Request) (m : Memory) : Prop :=
  (∀ e ∈ r.outPointers, m.Inside e.1 e.2) ∧
    r.outPointers.Pairwise fun e f => e.1 + e.2 ≤ f.1 ∨ f.1 + f.2 ≤ e.1

def clears : Request -> Bool
  | freeContext | freeRuntime => true
  | _ => false

def received (r : Request) (m : Memory) : Except Error Scalar -> List Ptr
  | .ok answer => r.handedOver answer m
  | .error _ => []

end Request

namespace Engine

open Heap

variable {stale : Nat} {outside : List Ptr} {s : Engine} {p q : Ptr}

/-- The memory is in order, and all references are accounted for with those that the host received. -/
structure Settled (stale : Nat) (outside : List Ptr) (r : Request) (result : Except Error Scalar × Engine) :
    Prop where
  memory : result.2.memory.WellFormed
  heap : Accounted stale (r.received result.2.memory result.1 ++ outside) result.2.heap

variable {r : Request} {m : Memory} {h : Heap} {hosted : Bool} {answer : Scalar}

theorem Settled.silent {result : Except Error Scalar} (ok : m.WellFormed) (a : Accounted stale outside h)
    (nothing : r.received m result = []) : Settled stale outside r (result, ⟨m, h, hosted⟩) := by
  refine ⟨ok, ?_⟩
  dsimp only
  rw [nothing]
  exact a

theorem Settled.pointer (ok : m.WellFormed) (a : Accounted stale (p :: outside) h)
    (handed : r.handedOver (.ofWord p) m = [p]) :
    Settled stale outside r (.ok (.ofWord p), ⟨m, h, hosted⟩) := by
  refine ⟨ok, ?_⟩
  dsimp only [Request.received]
  rw [handed]
  exact a

theorem settled_dupValue (ok : s.memory.WellFormed) (a : Accounted stale outside s.heap) (p : Ptr) :
    Settled stale outside (.dupValue p) (outcome (dupValue p) s) := by
  simp only [dupValue, outcome_bind, outcome_onHeap, Heap.dup]
  split
  next known => exact Settled.pointer ok (a.retain (names_of_contains known)) rfl
  next unknown =>
    rw [retain_unknown (by simpa using unknown), outcome_raising]
    exact Settled.pointer ok ((a.raiseMessage _).ignore zero_small) rfl

theorem settled_freeValue (ok : s.memory.WellFormed) (a : Accounted stale (p :: outside) s.heap) :
    Settled stale outside (.freeValue p) (outcome (freeValue p) s) := by
  simp only [freeValue, outcome_bind, outcome_onHeap, Heap.free]
  split
  next => exact Settled.silent ok a.release rfl
  next => exact Settled.silent ok a.release rfl

theorem settled_insert {v : Value} (ok : s.memory.WellFormed)
    (a : Accounted stale (v.children ++ outside) s.heap) (kind : ∀ m answer, r.handedOver answer m = answer.pointers) :
    Settled stale outside r (outcome (insert v) s) := by
  rw [outcome_insert]
  exact Settled.pointer ok a.insert (by rw [kind, Scalar.pointers_ofWord])

theorem settled_read {α : Type} {f : Memory -> Except Error α} {v : α -> Value} (ok : s.memory.WellFormed)
    (a : Accounted stale outside s.heap) (unheld : ∀ x, (v x).children = [])
    (kind : ∀ m answer, r.handedOver answer m = answer.pointers) :
    Settled stale outside r (outcome (do insert (v (<- readMemory f))) s) := by
  rw [outcome_bind, outcome_readMemory]
  cases f s.memory with
  | error e => exact Settled.silent ok a rfl
  | ok x => exact settled_insert ok (by rwa [unheld]) kind

theorem settled_attempt {f : Heap -> Except String (Ptr × Heap)} (ok : s.memory.WellFormed)
    (a : Accounted stale outside s.heap)
    (kept : ∀ x, f s.heap = .ok x -> Accounted stale (x.1 :: outside) x.2)
    (kind : ∀ m answer, r.handedOver answer m = answer.pointers) :
    Settled stale outside r (outcome (attempt f .ofWord nullResult) s) := by
  simp only [attempt, outcome_bind, outcome_get]
  cases done : f s.heap with
  | error message =>
    exact Settled.pointer ok ((a.raiseMessage message).ignore zero_small) (kind _ _)
  | ok x => exact Settled.pointer ok (kept x done) (by rw [kind, Scalar.pointers_ofWord])

def Quiet {α : Type} (stale : Nat) (outside : List Ptr) (act : EngineM α) : Prop :=
  ∀ s, s.memory.WellFormed -> Accounted stale outside s.heap ->
    (outcome act s).2.memory.WellFormed ∧ Accounted stale outside (outcome act s).2.heap

section Quiet

variable {α β : Type}

theorem quiet_pure (a : α) : Quiet stale outside (pure a) :=
  fun _ ok a => ⟨ok, a⟩

theorem quiet_bind {act : EngineM α} {f : α -> EngineM β} (first : Quiet stale outside act)
    (second : ∀ a, Quiet stale outside (f a)) : Quiet stale outside (act >>= f) := by
  intro s ok a
  have between := first s ok a
  rw [outcome_bind]
  generalize outcome act s = result at *
  obtain ⟨_ | x, t⟩ := result
  · exact between
  · exact second x t between.1 between.2

theorem quiet_readHeap (f : Heap -> α) : Quiet stale outside (readHeap f) :=
  fun _ ok a => ⟨ok, a⟩

theorem quiet_raising (message : String) (answer : Scalar) : Quiet stale outside (raising message answer) :=
  fun _ ok a => ⟨ok, a.raiseMessage message⟩

theorem quiet_onMemory {f : Memory -> Except Error (α × Memory)}
    (kept : ∀ (m : Memory) a m', m.WellFormed -> f m = .ok (a, m') -> m'.WellFormed) :
    Quiet stale outside (onMemory f) := by
  intro s ok a
  cases done : f s.memory with
  | error e =>
    rw [outcome_onMemory_error done]
    exact ⟨ok, a⟩
  | ok x =>
    rw [outcome_onMemory (a := x.1) (m := x.2) done]
    exact ⟨kept s.memory x.1 x.2 ok done, a⟩

theorem quiet_write (p : Addr) (bytes : ByteArray) :
    Quiet stale outside (onMemory fun m => (m.write p bytes).map fun m => ((), m)) := by
  refine quiet_onMemory fun m _ m' ok done => ?_
  cases put : m.write p bytes with
  | error e => simp [put, Except.map] at done
  | ok t =>
    obtain rfl : t = m' := by simpa [put, Except.map] using done
    exact ok.write put

theorem quiet_writeWord (p : Addr) (w : UInt32) : Quiet stale outside (writeWord p w) :=
  quiet_write p _

theorem quiet_toCString (p : Ptr) : Quiet stale outside (toCString p) := by
  refine quiet_bind (quiet_readHeap _) fun text => quiet_bind ?_ fun a => ?_
  · exact quiet_onMemory fun m a m' ok done => ok.writeCString done
  · split
    next => exact quiet_raising _ _
    next => exact quiet_pure _

theorem quiet_copyArrayBuffer (p : Ptr) (outCount : Addr) : Quiet stale outside (copyArrayBuffer p outCount) := by
  refine quiet_bind (quiet_readHeap _) fun value => ?_
  split
  next bytes =>
    refine quiet_bind (quiet_onMemory fun m a m' ok done => ?_) fun data => ?_
    · have granted := (Memory.allocate_spec ok (max bytes.size 1)).wellFormed
      rwa [Except.ok.inj done] at granted
    · split
      next => exact quiet_raising _ _
      next =>
        exact quiet_bind (quiet_write _ _) fun _ => quiet_bind (quiet_writeWord _ _) fun _ => quiet_pure _
  next => exact quiet_raising _ _

theorem quiet_getLength (outLength : Addr) (p : Ptr) : Quiet stale outside (getLength outLength p) := by
  refine quiet_bind (quiet_readHeap _) fun length => ?_
  split
  next => exact quiet_bind (quiet_writeWord _ _) fun _ => quiet_pure _
  next => exact quiet_raising _ _

theorem quiet_setProp (object key value : Ptr) : Quiet stale outside (setProp object key value) := by
  intro s ok a
  simp only [setProp, attempt, outcome_bind, outcome_get]
  cases stored : s.heap.setProp object (s.heap.display key) value with
  | error message => exact ⟨ok, a.raiseMessage message⟩
  | ok h => exact ⟨ok, a.setProp stored⟩

theorem quiet_raise (p : Ptr) : Quiet stale outside (raise p) := by
  intro s ok a
  simp only [raise, outcome_bind, outcome_modifyHeap, outcome_pure]
  refine ⟨ok, ?_⟩
  split
  next known => exact (a.retain (names_of_contains known)).setException
  next => exact a

end Quiet

theorem settled_newPromiseCapability {out : Addr} (ok : s.memory.WellFormed)
    (a : Accounted stale outside s.heap) (room : s.memory.Inside out.toNat 8) :
    Settled stale outside (.newPromiseCapability out) (outcome (newPromiseCapability out) s) := by
  -- The two words are next to each other, and the address of the second does not wrap around.
  have address : (out + 4).toNat = out.toNat + 4 := by
    have := room.le_next ok
    have := ok.last
    unfold Memory.lastAddress at this
    have four : (4 : UInt32).toNat = 4 := rfl
    rw [UInt32.toNat_add, four]
    omega
  obtain ⟨e, member, low, high, within⟩ := room
  have half : s.memory.Inside out.toNat 4 := ⟨e, member, low, high, by omega⟩
  have rest : s.memory.Inside (out + 4).toNat 4 := ⟨e, member, by omega, by omega, by omega⟩
  simp only [newPromiseCapability, outcome_bind, outcome_onHeap]
  have made := a.newCapability
  generalize s.heap.newCapability = capability at *
  obtain ⟨⟨promise, resolve, reject⟩, h⟩ := capability
  obtain ⟨m, done, first⟩ := Memory.writeWord_spec ok half resolve
  obtain ⟨m', done', second⟩ := Memory.writeWord_spec first.wellFormed (first.inside rest) reject
  dsimp only at made ⊢
  rw [outcome_writeWord (s := ⟨s.memory, h, s.hosted⟩) done]
  dsimp only
  rw [outcome_writeWord (s := ⟨m, h, s.hosted⟩) done']
  have stored : m'.Stores out.toNat [resolve, reject] := by
    have before := second.stores first.there (.inl (by simp [address]))
    have behind := second.there
    rw [address] at behind
    exact before.append behind
  have full : m'.Inside out.toNat 8 :=
    second.inside (first.inside ⟨e, member, low, high, within⟩)
  have read : m'.wordsAt out [resolve, reject].length = [resolve, reject] :=
    Memory.wordsAt_stores second.wellFormed full stored
  simp only [List.length_cons, List.length_nil] at read
  refine ⟨second.wellFormed, ?_⟩
  simp only [Request.received, Request.handedOver, outcome_pure, Scalar.pointers_ofWord]
  rw [read]
  exact made

theorem releaseAll_eq_foldl (ps : List Ptr) (a : Accounted stale (ps ++ outside) s.heap) :
    Accounted stale outside (ps.foldl Heap.release s.heap) := by
  generalize s.heap = h at *
  induction ps generalizing h with
  | nil => exact a
  | cons p rest ih => exact ih _ (Accounted.release a)

theorem settled_getOwnPropertyNames {outTable outCount : Addr} (object : Ptr) (ok : s.memory.WellFormed)
    (a : Accounted stale outside s.heap)
    (room : (Request.getOwnPropertyNames outTable outCount object).Writable s.memory) :
    Settled stale outside (.getOwnPropertyNames outTable outCount object)
      (outcome (getOwnPropertyNames outTable outCount object) s) := by
  obtain ⟨inside, apart⟩ := room
  have forTable : s.memory.Inside outTable.toNat 4 := inside _ List.mem_cons_self
  have forCount : s.memory.Inside outCount.toNat 4 :=
    inside (outCount.toNat, 4) (List.mem_cons_of_mem _ List.mem_cons_self)
  simp only [Request.outPointers, List.pairwise_cons, List.mem_singleton, forall_eq] at apart
  simp only [getOwnPropertyNames, outcome_bind, outcome_readHeap]
  cases s.heap.ownKeys object with
  | error message => exact Settled.silent ok (a.raiseMessage message) rfl
  | ok keys =>
    simp only [outcome_bind, outcome_onHeap]
    have named := a.newStrings keys
    generalize newStrings s.heap keys = made at *
    obtain ⟨names, h⟩ := made
    obtain ⟨table, m, done, tabled⟩ := Memory.writeTable_spec ok names
    dsimp only at named ⊢
    rw [outcome_onMemory (s := ⟨s.memory, h, s.hosted⟩) done]
    dsimp only
    split
    next =>
      have freed : Accounted stale outside (names.foldl Heap.release h) :=
        releaseAll_eq_foldl (s := ⟨m, h, s.hosted⟩) names named
      exact Settled.silent tabled.wellFormed (freed.raiseMessage _) rfl
    next some =>
      obtain ⟨address, within, stored, few⟩ := tabled.stored some
      have tableRoom := tabled.kept _ _ forTable
      obtain ⟨m', done', first⟩ := Memory.writeWord_spec tabled.wellFormed tableRoom table
      have countRoom := first.inside (tabled.kept _ _ forCount)
      obtain ⟨m'', done'', second⟩ :=
        Memory.writeWord_spec first.wellFormed countRoom (UInt32.ofNat names.length)
      rw [outcome_bind, outcome_writeWord (s := ⟨m, h, s.hosted⟩) done']
      dsimp only
      rw [outcome_bind, outcome_writeWord (s := ⟨m', h, s.hosted⟩) done'']
      -- The table is a new block behind the places for the answers, so neither write touches it.
      have below := forTable.le_next ok
      have below' := forCount.le_next ok
      have tableWord : m''.wordAt outTable = table :=
        Memory.wordAt_stores second.wellFormed (second.inside (first.inside tableRoom))
          (second.stores first.there apart.1)
      have tableThere : m''.Stores table.toNat names :=
        second.stores (first.stores stored (.inr (by omega))) (.inr (by omega))
      have count : (UInt32.ofNat names.length).toNat = names.length :=
        Memory.toNat_address (by omega)
      refine ⟨second.wellFormed, ?_⟩
      simp only [Request.received, Request.handedOver, outcome_pure, if_true, tableWord,
        second.wordAt countRoom, count]
      rw [Memory.wordsAt_stores second.wellFormed (second.inside (first.inside within)) tableThere]
      exact named

theorem settled_promiseThen {onFulfilled onRejected : Option Ptr} (ok : s.memory.WellFormed)
    (a : Accounted stale outside s.heap)
    (passing : ∀ u ∈ onFulfilled.toList ++ onRejected.toList, Lasting stale outside u) :
    Settled stale outside (.promiseThen p onFulfilled onRejected)
      (outcome (promiseThen p onFulfilled onRejected) s) := by
  simp only [promiseThen, outcome_bind, outcome_readHeap]
  split
  next promise =>
    have names : ∀ u ∈ onFulfilled.toList ++ onRejected.toList, Names stale s.heap u :=
      fun u member => a.names_lasting (passing u member)
    exact Settled.pointer ok (a.andThen promise names) rfl
  next => exact Settled.pointer ok ((a.raiseMessage _).ignore zero_small) rfl

theorem settled_promiseResult (ok : s.memory.WellFormed) (a : Accounted stale outside s.heap) :
    Settled stale outside (.promiseResult p) (outcome (promiseResult p) s) := by
  simp only [promiseResult, outcome_bind, outcome_get]
  split
  next v h found => exact Settled.pointer ok (a.promiseResult found) rfl
  next => exact Settled.pointer ok ((a.raiseMessage _).ignore zero_small) rfl

theorem settled_getLastError (ok : s.memory.WellFormed) (a : Accounted stale outside s.heap) :
    Settled stale outside .getLastError (outcome (perform .getLastError) s) := by
  simp only [perform, outcome_bind, outcome_onHeap, outcome_pure]
  have taken := a.takeException
  generalize s.heap.takeException = r at *
  obtain ⟨_ | exception, h⟩ := r
  · exact Settled.pointer ok (taken.ignore zero_small) rfl
  · exact Settled.pointer ok taken rfl

theorem settled_rejections {outCount : Addr} {events : List Rejection} {table : Addr} {h : Heap}
    (start : Nat) (ok : m.WellFormed) (room : m.Inside outCount.toNat 4)
    (a : Accounted stale (events.flatMap Rejection.children ++ outside) h)
    (below : outCount.toNat + 4 ≤ start)
    (stored : table ≠ 0 -> table.toNat = start ∧
      m.Inside table.toNat (4 * (events.flatMap rejectionWords).length) ∧
      m.Stores table.toNat (events.flatMap rejectionWords) ∧
      4 * (events.flatMap rejectionWords).length ≤ Memory.lastAddress) :
    Settled stale outside (.takeRejectionEvents outCount)
      (outcome (do
        if table = 0 then
          modifyHeap fun h => h.releaseAll (events.flatMap Rejection.children)
          writeWord outCount 0
          pure nullResult
        else
          writeWord outCount (UInt32.ofNat events.length)
          pure (.ofWord table)) ⟨m, h, hosted⟩) := by
  split
  next =>
    obtain ⟨m', done, written⟩ := Memory.writeWord_spec ok room 0
    simp only [outcome_bind, outcome_modifyHeap]
    rw [outcome_writeWord (s := ⟨m, _, hosted⟩) done]
    refine ⟨written.wellFormed, ?_⟩
    simp only [Request.received, Request.handedOver, outcome_pure, written.wordAt room]
    exact a.releaseAll
  next some =>
    obtain ⟨address, within, there, few⟩ := stored some
    rw [Rejection.length_words] at within few
    obtain ⟨m', done, written⟩ := Memory.writeWord_spec ok room (UInt32.ofNat events.length)
    rw [outcome_bind, outcome_writeWord (s := ⟨m, h, hosted⟩) done]
    have exact : (UInt32.ofNat events.length).toNat = events.length :=
      Memory.toNat_address (by omega)
    have table_there : m'.Stores table.toNat (events.flatMap rejectionWords) :=
      written.stores there (.inr (by omega))
    have read : m'.wordsAt table (3 * events.length) = events.flatMap rejectionWords := by
      rw [← Rejection.length_words]
      refine Memory.wordsAt_stores written.wellFormed (written.inside ?_) table_there
      rwa [Rejection.length_words]
    refine ⟨written.wellFormed, ?_⟩
    simp only [Request.received, Request.handedOver, outcome_pure, written.wordAt room, exact,
      Scalar.word?_ofWord, Option.getD_some]
    rw [read, Rejection.pointersIn_words]
    exact a

theorem settled_takeRejectionEvents {outCount : Addr} (ok : s.memory.WellFormed)
    (a : Accounted stale outside s.heap) (room : s.memory.Inside outCount.toNat 4) :
    Settled stale outside (.takeRejectionEvents outCount) (outcome (takeRejectionEvents outCount) s) := by
  rw [takeRejectionEvents, outcome_bind, outcome_onHeap]
  have taken := a.takeRejections
  generalize s.heap.takeRejections = r at *
  obtain ⟨events, h⟩ := r
  dsimp only at taken ⊢
  have below := room.le_next ok
  split
  next none =>
    rw [outcome_bind, outcome_pure]
    exact settled_rejections s.memory.next ok room taken below fun some => absurd rfl some
  next =>
    obtain ⟨table, m, done, tabled⟩ := Memory.writeTable_spec ok (events.flatMap rejectionWords)
    rw [outcome_bind, outcome_onMemory (s := ⟨s.memory, h, s.hosted⟩) done]
    exact settled_rejections s.memory.next tabled.wellFormed (tabled.kept _ _ room) taken below
      tabled.stored

theorem Quiet.settled {act : EngineM Scalar} (quiet : Quiet stale outside act) (ok : s.memory.WellFormed)
    (a : Accounted stale outside s.heap) (nothing : ∀ m answer, r.handedOver answer m = []) :
    Settled stale outside r (outcome act s) := by
  have kept := quiet s ok a
  refine ⟨kept.1, ?_⟩
  have none : r.received (outcome act s).2.memory (outcome act s).1 = [] := by
    cases (outcome act s).1 with
    | error e => rfl
    | ok answer => exact nothing _ answer
  rw [none]
  exact kept.2

theorem settled_freeEverything (ok : s.memory.WellFormed) (a : Accounted stale outside s.heap)
    (nothing : ∀ m answer, r.handedOver answer m = []) :
    Settled stale [] r (outcome freeEverything s) :=
  Settled.silent ok.clear a.clear (nothing _ _)

theorem perform_settled (r : Request) (owned : List Ptr) (ok : s.memory.WellFormed)
    (a : Accounted stale (r.givenUp owned ++ outside) s.heap)
    (passing : ∀ u ∈ r.passedOn, Lasting stale outside u) (room : r.Writable s.memory)
    (alone : r.clears = true -> outside = []) : Settled stale outside r (outcome (perform r) s) := by
  cases r with
  | newRuntime => exact (quiet_pure _).settled ok a fun _ _ => rfl
  | newContext => exact (quiet_pure _).settled ok a fun _ _ => rfl
  | freeContext =>
    rw [alone rfl]
    exact settled_freeEverything ok a fun _ _ => rfl
  | freeRuntime =>
    rw [alone rfl]
    exact settled_freeEverything ok a fun _ _ => rfl
  | setMemoryLimit limit => exact Settled.silent (ok.of_layout rfl rfl rfl) a rfl
  | liveValueCount =>
    exact (quiet_bind (quiet_readHeap _) fun _ => quiet_pure _).settled ok a fun _ _ => rfl
  | getUndefined => exact (quiet_pure _).settled ok a fun _ _ => rfl
  | getNull => exact (quiet_pure _).settled ok a fun _ _ => rfl
  | getTrue => exact (quiet_pure _).settled ok a fun _ _ => rfl
  | getFalse => exact (quiet_pure _).settled ok a fun _ _ => rfl
  | dupValue p => exact settled_dupValue ok a p
  | freeValue p => exact settled_freeValue ok a
  | newFloat64 x => exact settled_insert (r := .newFloat64 x) (v := .number x) ok a fun _ _ => rfl
  | getFloat64 p =>
    exact (quiet_bind (quiet_readHeap _) fun _ => quiet_pure _).settled ok a fun _ _ => rfl
  | newString text => exact settled_read (r := .newString text) (v := .string) ok a (fun _ => rfl) fun _ _ => rfl
  | toCString p => exact (quiet_toCString p).settled ok a fun _ _ => rfl
  | freeCString text => exact Settled.silent (ok.free text) a rfl
  | newArrayBuffer data count =>
    exact settled_read (r := .newArrayBuffer data count) (v := .bytes) ok a (fun _ => rfl) fun _ _ => rfl
  | copyArrayBuffer p outCount => exact (quiet_copyArrayBuffer p outCount).settled ok a fun _ _ => rfl
  | newObject =>
    exact settled_insert (r := .newObject) (v := .object .plain .empty) ok a fun _ _ => rfl
  | newArray => exact settled_insert (r := .newArray) (v := .array #[]) ok a fun _ _ => rfl
  | getProp object key =>
    exact settled_attempt (r := .getProp object key) (f := fun h => h.getProp object (h.display key)) ok a
      (fun _ read => Accounted.getProp a read) fun _ _ => rfl
  | setProp object key value => exact (quiet_setProp object key value).settled ok a fun _ _ => rfl
  | getOwnPropertyNames outTable outCount object =>
    exact settled_getOwnPropertyNames object ok a room
  | getLength outLength p => exact (quiet_getLength outLength p).settled ok a fun _ _ => rfl
  | typeOf p =>
    exact (quiet_bind (quiet_readHeap _) fun _ => quiet_pure _).settled ok a fun _ _ => rfl
  | isEqual p q op =>
    exact (quiet_bind (quiet_readHeap _) fun _ => quiet_pure _).settled ok a fun _ _ => rfl
  | newError text =>
    simp only [perform]
    rw [outcome_bind, outcome_readMemory]
    cases s.memory.readCString text with
    | error e => exact Settled.silent ok a rfl
    | ok message => exact Settled.pointer ok (a.newError message) rfl
  | raise p => exact (quiet_raise p).settled ok a fun _ _ => rfl
  | getLastError => exact settled_getLastError ok a
  | newFunction id name =>
    exact settled_read (r := .newFunction id name) (v := fun text => .function text (.host id)) ok a
      (fun _ => rfl) fun _ _ => rfl
  | newPromiseCapability out =>
    exact settled_newPromiseCapability ok a (room.1 (out.toNat, 8) List.mem_cons_self)
  | promiseState p =>
    exact (quiet_bind (quiet_readHeap _) fun _ => quiet_pure _).settled ok a fun _ _ => rfl
  | promiseResult p => exact settled_promiseResult ok a
  | promiseThen p onFulfilled onRejected => exact settled_promiseThen ok a passing
  | isJobPending =>
    exact (quiet_bind (quiet_readHeap _) fun _ => quiet_pure _).settled ok a fun _ _ => rfl
  | takeRejectionEvents outCount =>
    exact settled_takeRejectionEvents ok a (room.1 (outCount.toNat, 4) List.mem_cons_self)

end Engine

end ScriptHost
