import ScriptHost.Proofs.Engine.Openings
import ScriptHost.Proofs.Engine.Planting

set_option autoImplicit false

/-!
Promises stay what they are.

A step may free a promise, but it does not give the pointer to another value in the same breath: what is made
is made before anything is freed. So a pointer that named a promise and still names a value names a promise.
-/

namespace ScriptHost

namespace Heap

variable {h h' h'' : Heap} {p q v : Ptr} {r : PromiseRecord} {value : Value} {ks : List Ptr} {key : String}

theorem isPromise_iff : h.isPromise p = true ↔ ∃ r, h.get? p = some (.promise r) := by
  simp only [isPromise, Option.isSome_iff_exists, promise?_eq_some]

/-- No promise is gone. -/
structure Keeps (h h' : Heap) : Prop where
  counted : Counted h.cells -> Counted h'.cells
  promise : Counted h.cells -> ∀ p, h.isPromise p = true -> h'.isPromise p = true

/-- What was a promise is one, or gone. -/
def Stays (h h' : Heap) : Prop :=
  Counted h.cells -> ∀ p value, h.isPromise p = true -> h'.get? p = some value -> h'.isPromise p = true

theorem Keeps.refl (h : Heap) : h.Keeps h :=
  ⟨id, fun _ _ => id⟩

theorem Keeps.trans (first : h.Keeps h') (second : h'.Keeps h'') : h.Keeps h'' :=
  ⟨fun counted => second.counted (first.counted counted),
    fun counted p here => second.promise (first.counted counted) p (first.promise counted p here)⟩

theorem Keeps.stays (keeps : h.Keeps h') : h.Stays h' :=
  fun counted p _ here _ => keeps.promise counted p here

theorem Keeps.then (keeps : h.Keeps h') (stays : h'.Stays h'') : h.Stays h'' :=
  fun counted p value here => stays (keeps.counted counted) p value (keeps.promise counted p here)

theorem Keeps.of_cells (same : h'.cells = h.cells) : h.Keeps h' := by
  refine ⟨fun counted => same ▸ counted, fun _ p here => ?_⟩
  simpa only [isPromise, promise?, get?, same] using here

/-- What is left is as it was. -/
theorem isPromise_of_value (here : h.isPromise p = true) (same : h.get? p = some value) (there : h'.get? p = some value) :
    h'.isPromise p = true := by
  obtain ⟨r, promise⟩ := isPromise_iff.1 here
  exact isPromise_iff.2 ⟨r, there.trans (same.symm.trans promise)⟩

theorem stays_releaseAll (h : Heap) (ps : List Ptr) : h.Stays (h.releaseAll ps) :=
  fun _ _ _ here there => isPromise_of_value here (get?_releaseAll there) there

theorem keeps_retain (h : Heap) (p : Ptr) : h.Keeps (h.retain p) :=
  ⟨fun counted => counted.modify (fun _ => Nat.le_succ _) p, fun _ q here => by
    simpa only [isPromise, promise?, get?_retain] using here⟩

theorem keeps_setValue {old : Value} (found : h.get? p = some old)
    (same : old.record?.isSome = true -> value.record?.isSome = true) : h.Keeps (h.setValue p value) := by
  refine ⟨fun counted => counted.modify (f := fun c => { c with value }) (fun _ => Nat.le_refl _) p, fun _ q here => ?_⟩
  obtain ⟨r, promise⟩ := isPromise_iff.1 here
  refine isPromise_iff.2 ?_
  rw [get?_setValue]
  split
  next here =>
    subst here
    obtain rfl := Option.some.inj (found.symm.trans promise)
    cases value with
    | promise r' => exact ⟨r', by simp [found]⟩
    | _ => cases same rfl
  next => exact ⟨r, promise⟩

theorem keeps_planted (planted : Planted h.cells h'.cells ks) (counted : Counted h'.cells) : h.Keeps h' := by
  refine ⟨fun _ => counted, fun _ p here => ?_⟩
  obtain ⟨r, promise⟩ := isPromise_iff.1 here
  obtain ⟨c, found, kind⟩ := get?_eq_some.1 promise
  exact isPromise_iff.2 ⟨r, get?_eq_some.2 ⟨c, (planted.get?_old (planted.apart found)).trans found, kind⟩⟩

theorem keeps_insert (h : Heap) (unheld : value.children = []) : h.Keeps (h.insert value).2 := by
  rcases insert_plants h value with ⟨p, n, -, big, absent, made⟩ | ⟨-, made⟩
  next =>
    rw [made]
    have planted := Planted.set absent value
    refine ⟨fun counted => counted.set big (Nat.le_refl 1), fun counted => ?_⟩
    have kept : h.Keeps { h with cells := h.cells.set p ⟨1, value⟩, next := n } :=
      keeps_planted planted (counted.set big (Nat.le_refl 1))
    exact kept.promise counted
  next =>
    rw [made, unheld, releaseAll_nil]
    exact .refl h

theorem keeps_newError (h : Heap) (message : String) : h.Keeps (h.newError message).2 := by
  suffices kept : Counted h.cells -> h.Keeps (h.newError message).2 from
    ⟨fun counted => (kept counted).counted counted, fun counted => (kept counted).promise counted⟩
  intro counted
  rcases newError_plants counted message with ⟨p, text, n, -, big, big', absent, absent', apart, made⟩ | ⟨-, n, -, made⟩
  next =>
    rw [made]
    have planted := withError_planted message absent absent' apart
    exact keeps_planted planted
      ((counted.set big' (Nat.le_refl 1)).set big (Nat.le_refl 1))
  next =>
    rw [made]
    exact .of_cells rfl

theorem stays_setException (h : Heap) (p : Ptr) : h.Stays (h.setException p) := by
  unfold setException
  split
  next => exact Keeps.stays (.of_cells rfl)
  next previous _ =>
    have raised : h.Keeps { h with exception := some p } := .of_cells rfl
    exact raised.then (stays_releaseAll _ [previous])

theorem stays_raiseMessage (h : Heap) (message : String) : h.Stays (h.raiseMessage message) :=
  (keeps_newError h message).then (stays_setException _ _)

theorem unheld_of_computed (found : h.lookup p key = .ok (.computed value)) : value.children = [] := by
  unfold lookup at found
  split at found
  all_goals
    repeat' split at found
    all_goals
      cases found
      try rfl

theorem keeps_getProp (found : h.getProp p key = .ok (v, h')) : h.Keeps h' := by
  simp only [getProp] at found
  cases looked : h.lookup p key with
  | error e => simp [looked, Except.map] at found
  | ok property =>
    cases property <;> simp only [looked, Except.map, Except.ok.injEq, Prod.mk.injEq] at found
    next w => exact found.2 ▸ keeps_retain h w
    next w =>
      have made : h' = (h.insert w).2 := by rw [found]
      exact made ▸ keeps_insert h (unheld_of_computed looked)

theorem stays_setProp (stored : h.setProp p key v = .ok h') : h.Stays h' := by
  simp only [setProp] at stored
  split at stored
  next => cases stored
  next =>
    split at stored
    next found =>
      cases stored
      exact ((keeps_setValue found (by simp [Value.record?])).trans (keeps_retain _ v)).then (stays_releaseAll _ _)
    next found =>
      split at stored
      next => cases stored
      next =>
        cases stored
        exact ((keeps_setValue found (by simp [Value.record?])).trans (keeps_retain _ v)).then (stays_releaseAll _ _)
    next => cases stored

/-- A function that settles a promise holds it, and lets it go again if there is no pointer for the function. -/
theorem keeps_newResolver (h : Heap) (p : Ptr) (name : String) (kind : FunctionKind)
    (holds : (Value.function name kind).children = [p]) : h.Keeps ((h.retain p).insert (.function name kind)).2 := by
  rcases insert_plants (h.retain p) (.function name kind) with ⟨q, n, -, big, absent, made⟩ | ⟨-, made⟩
  next =>
    rw [made]
    refine (keeps_retain h p).trans ⟨fun counted => counted.set big (Nat.le_refl 1), fun counted => ?_⟩
    have kept : (h.retain p).Keeps { h.retain p with cells := (h.retain p).cells.set q ⟨1, .function name kind⟩, next := n } :=
      keeps_planted (.set absent _) (counted.set big (Nat.le_refl 1))
    exact kept.promise counted
  next =>
    rw [made, holds]
    have same (counted : Counted h.cells) : ((h.retain p).releaseAll [p]).cells = h.cells := freeAll_retained counted p
    exact ⟨fun counted => (same counted).symm ▸ counted, fun counted => (Keeps.of_cells (same counted)).promise counted⟩

theorem newPromise_keeps (h : Heap) : h.newPromise.2.Keeps h.newCapability.2 :=
  (keeps_newResolver h.newPromise.2 h.newPromise.1 "" (.resolve h.newPromise.1) rfl).trans
    (keeps_newResolver _ h.newPromise.1 "" (.reject h.newPromise.1) rfl)

theorem keeps_newCapability (h : Heap) : h.Keeps h.newCapability.2 :=
  have made : h.Keeps h.newPromise.2 := keeps_insert h rfl
  made.trans (newPromise_keeps h)

end Heap

namespace Engine

variable {α β : Type} {s : Engine}

def Keeping (act : EngineM α) : Prop :=
  Leads (fun s s' : Engine => s.heap.Keeps s'.heap) act

theorem keeping : Way fun s s' : Engine => s.heap.Keeps s'.heap :=
  ⟨fun s => .refl s.heap, .trans⟩

def Staying (act : EngineM α) : Prop :=
  Leads (fun s s' : Engine => s.heap.Stays s'.heap) act

theorem Keeping.staying {act : EngineM α} (keeps : Keeping act) : Staying act :=
  fun s => (keeps s).stays

theorem Keeping.then {act : EngineM α} {f : α -> EngineM β} (first : Keeping act) (rest : ∀ a, Staying (f a)) :
    Staying (act >>= f) := by
  intro s
  have kept := first s
  rw [outcome_bind]
  generalize outcome act s = r at *
  obtain ⟨_ | a, t⟩ := r
  next => exact kept.stays
  next => exact kept.then (rest a t)

theorem keeping_onHeap {f : Heap -> α × Heap} (keeps : ∀ h : Heap, h.Keeps (f h).2) : Keeping (onHeap f) :=
  fun s => keeps s.heap

theorem keeping_readHeap (f : Heap -> α) : Keeping (readHeap f) :=
  keeping_onHeap .refl

theorem silent : Way fun s s' : Engine => s'.heap = s.heap :=
  ⟨fun _ => rfl, fun first second => second.trans first⟩

theorem silent_onMemory (f : Memory -> Except Error (α × Memory)) :
    Leads (fun s s' : Engine => s'.heap = s.heap) (onMemory f) := by
  intro s
  cases done : f s.memory with
  | ok r => rw [outcome_onMemory (a := r.1) (m := r.2) done]
  | error e => rw [outcome_onMemory_error done]

theorem keeping_onMemory (f : Memory -> Except Error (α × Memory)) : Keeping (onMemory f) :=
  fun s => .of_cells (congrArg Heap.cells (silent_onMemory f s))

theorem keeping_insert {v : Value} (unheld : v.children = []) : Keeping (insert v) :=
  keeping_onHeap fun h => Heap.keeps_insert h unheld

theorem staying_raising (message : String) (answer : Scalar) : Staying (raising message answer) :=
  fun s => Heap.stays_raiseMessage s.heap message

theorem staying_attempt {f : Heap -> Except String (α × Heap)} {onOk : α -> Scalar} {onError : Scalar}
    (stays : ∀ h a h', f h = .ok (a, h') -> h.Stays h') : Staying (attempt f onOk onError) := by
  intro s
  simp only [attempt, outcome_bind, outcome_get]
  cases done : f s.heap with
  | ok r => exact stays s.heap r.1 r.2 done
  | error message => exact staying_raising message onError s

theorem staying_toCString (p : Ptr) : Staying (toCString p) := by
  refine (keeping_readHeap _).then fun text => (keeping_onMemory _).then fun a => ?_
  split
  next => exact staying_raising _ _
  next => exact Keeping.staying (keeping.pure _)

theorem staying_copyArrayBuffer (p : Ptr) (outCount : Addr) : Staying (copyArrayBuffer p outCount) := by
  refine (keeping_readHeap _).then fun found => ?_
  split
  next =>
    refine (keeping_onMemory _).then fun data => ?_
    split
    next => exact staying_raising _ _
    next =>
      refine (keeping_onMemory _).then fun _ => ?_
      exact Keeping.staying (keeping.bind (keeping_onMemory _) fun _ => keeping.pure _)
  next => exact staying_raising _ _

/-- Names for which there is no memory are freed again, and the heap is what it was. -/
theorem newStrings_freed (counted : Heap.Counted s.heap.cells) (keys : List String) :
    ((newStrings s.heap keys).1.foldl Heap.release (newStrings s.heap keys).2).cells = s.heap.cells := by
  have released (ps : List Ptr) (h : Heap) : (ps.foldl Heap.release h).cells = Heap.freeAll h.cells ps := by
    induction ps generalizing h with
    | nil => exact (Heap.freeAll_nil h.cells).symm
    | cons p rest ih => exact (ih (h.release p)).trans (Heap.freeAll_append h.cells [p] rest).symm
  obtain ⟨cells, n, ks, -, made, counted', planted, forest, -⟩ := Heap.newStrings_plants counted keys
  rw [released, made]
  exact (forest.freed counted' planted.nodup).trans planted.old

theorem keeps_newStrings (h : Heap) (keys : List String) : h.Keeps (newStrings h keys).2 := by
  induction keys generalizing h with
  | nil => exact .refl h
  | cons key rest ih => exact (Heap.keeps_insert h rfl).trans (ih (h.newString key).2)

theorem staying_getOwnPropertyNames (outTable outCount : Addr) (object : Ptr) :
    Staying (getOwnPropertyNames outTable outCount object) := by
  refine (keeping_readHeap _).then fun found => ?_
  split
  next => exact staying_raising _ _
  next keys =>
    intro s
    have made := keeps_newStrings s.heap keys
    have freed := fun counted => newStrings_freed (s := s) counted keys
    rw [outcome_bind, outcome_onHeap]
    dsimp only
    generalize newStrings s.heap keys = named at *
    obtain ⟨names, h⟩ := named
    cases done : s.memory.writeTable names with
    | error e =>
      rw [outcome_bind, outcome_onMemory_error (s := { s with heap := h }) done]
      exact made.stays
    | ok r =>
      obtain ⟨table, m⟩ := r
      rw [outcome_bind, outcome_onMemory (s := { s with heap := h }) done]
      dsimp only
      split
      next =>
        intro counted
        exact (Heap.Keeps.of_cells (freed counted)).then (Heap.stays_raiseMessage _ _) counted
      next =>
        have written : Keeping (do
            writeWord outTable table
            writeWord outCount (UInt32.ofNat names.length)
            pure statusOk) :=
          keeping.bind (keeping_onMemory _) fun _ => keeping.bind (keeping_onMemory _) fun _ => keeping.pure _
        exact (made.trans (written { s with heap := h, memory := m })).stays

theorem newPromiseCapability_heap (out : Addr) (s : Engine) :
    (outcome (newPromiseCapability out) s).2.heap = s.heap.newCapability.2 := by
  have written (promise resolve reject : Ptr) : Leads (fun s s' : Engine => s'.heap = s.heap) (do
      writeWord out resolve
      writeWord (out + 4) reject
      pure (Scalar.ofWord promise)) :=
    silent.bind (silent_onMemory _) fun _ => silent.bind (silent_onMemory _) fun _ => silent.pure _
  rw [newPromiseCapability, outcome_bind, outcome_onHeap]
  exact written s.heap.newCapability.1.1 s.heap.newCapability.1.2.1 s.heap.newCapability.1.2.2
    { s with heap := s.heap.newCapability.2 }

theorem staying_getLength (outLength : Addr) (p : Ptr) : Staying (getLength outLength p) := by
  refine (keeping_readHeap _).then fun found => ?_
  split
  next => exact Keeping.staying (keeping.bind (keeping_onMemory _) fun _ => keeping.pure _)
  next => exact staying_raising _ _

theorem staying_raise (p : Ptr) : Staying (raise p) := by
  intro s
  simp only [raise, outcome_bind, outcome_modifyHeap, outcome_pure]
  split
  next => exact (Heap.keeps_retain s.heap p).then (Heap.stays_setException _ p)
  next => exact (Heap.Keeps.refl s.heap).stays

theorem staying_promiseResult (p : Ptr) : Staying (promiseResult p) := by
  intro s
  simp only [promiseResult, outcome_bind, outcome_get]
  cases found : s.heap.promiseResult p with
  | none => exact staying_raising _ _ s
  | some r =>
    obtain ⟨record, -, rfl⟩ := Option.map_eq_some_iff.1 found
    exact (Heap.keeps_retain s.heap _).stays

theorem staying_takeRejectionEvents (outCount : Addr) : Staying (takeRejectionEvents outCount) := by
  have answered (events : List Rejection) (table : Addr) : Staying (do
      if table = 0 then
        modifyHeap fun h => h.releaseAll (events.flatMap Rejection.children)
        writeWord outCount 0
        pure nullResult
      else
        writeWord outCount (UInt32.ofNat events.length)
        pure (.ofWord table)) := by
    split
    next =>
      intro s
      have freed := s.heap.stays_releaseAll (events.flatMap Rejection.children)
      have written : Leads (fun s s' : Engine => s'.heap = s.heap) (do writeWord outCount 0; pure nullResult) :=
        silent.bind (silent_onMemory _) fun _ => silent.pure _
      rw [outcome_bind, outcome_modifyHeap]
      dsimp only
      rw [written]
      exact freed
    next => exact Keeping.staying (keeping.bind (keeping_onMemory _) fun _ => keeping.pure _)
  refine (keeping_onHeap fun h => .of_cells rfl).then fun events => ?_
  split
  next => exact Keeping.then (keeping.pure _) (answered events)
  next => exact (keeping_onMemory _).then (answered events)

/-- Requests other than those for reactions. -/
theorem perform_staying (r : Request) (other : ∀ p onFulfilled onRejected, r ≠ .promiseThen p onFulfilled onRejected) :
    Staying (perform r) := by
  have read {β : Type} (f : Heap -> β) (answer : β -> Scalar) : Staying (do pure (answer (<- readHeap f))) :=
    Keeping.staying (keeping.bind (keeping_readHeap _) fun _ => keeping.pure _)
  have made {β : Type} (f : Memory -> Except Error β) (v : β -> Value) (unheld : ∀ b, (v b).children = []) :
      Staying (do insert (v (<- readMemory f))) :=
    Keeping.staying (keeping.bind (keeping_onMemory _) fun b => keeping_insert (unheld b))
  have modified (f : Engine -> Engine) (kept : ∀ s : Engine, (f s).heap = s.heap) :
      Staying (do modify f; pure Scalar.void) :=
    fun s => (Heap.Keeps.of_cells (congrArg Heap.cells (kept s))).stays
  have cleared : Staying freeEverything := by
    intro s _ p value _ (found : s.heap.clear.get? p = some value)
    simp [Heap.clear, Heap.empty, Heap.get?] at found
  cases r with
  | promiseThen p onFulfilled onRejected => exact absurd rfl (other p onFulfilled onRejected)
  | setMemoryLimit limit => exact modified _ fun _ => rfl
  | freeContext => exact cleared
  | freeRuntime => exact cleared
  | dupValue p =>
    refine (keeping_onHeap fun h => Heap.keeps_retain h p).then fun known => ?_
    split
    next => exact Keeping.staying (keeping.pure _)
    next => exact staying_raising _ _
  | freeValue p =>
    intro s
    have freed := s.heap.stays_releaseAll [p]
    simp only [perform, freeValue, outcome_bind, outcome_onHeap]
    split <;> exact freed
  | newFloat64 x => exact Keeping.staying (keeping_insert rfl)
  | newString text => exact made _ _ fun _ => rfl
  | toCString p => exact staying_toCString p
  | freeCString text => exact modified _ fun _ => rfl
  | newArrayBuffer data count => exact made _ _ fun _ => rfl
  | copyArrayBuffer p outCount => exact staying_copyArrayBuffer p outCount
  | newObject => exact Keeping.staying (keeping_insert rfl)
  | newArray => exact Keeping.staying (keeping_insert rfl)
  | getProp object key => exact staying_attempt fun _ _ _ found => (Heap.keeps_getProp found).stays
  | setProp object key value =>
    refine staying_attempt fun h _ h' stored => ?_
    cases done : h.setProp object (h.display key) value with
    | error e => simp [done, Except.map] at stored
    | ok changed =>
      simp only [done, Except.map, Except.ok.injEq, Prod.mk.injEq] at stored
      exact stored.2 ▸ Heap.stays_setProp done
  | getOwnPropertyNames outTable outCount object => exact staying_getOwnPropertyNames _ _ _
  | getLength outLength p => exact staying_getLength outLength p
  | newError text =>
    refine Keeping.staying (keeping.bind (keeping_onMemory _) fun message => ?_)
    exact keeping.bind (keeping_onHeap fun h => Heap.keeps_newError h message) fun _ => keeping.pure _
  | raise p => exact staying_raise p
  | getLastError => exact Keeping.staying (keeping.bind (keeping_onHeap fun _ => .of_cells rfl) fun _ => keeping.pure _)
  | newFunction id name => exact made _ _ fun _ => rfl
  | newPromiseCapability out =>
    intro s
    exact newPromiseCapability_heap out s ▸ s.heap.keeps_newCapability.stays
  | promiseResult p => exact staying_promiseResult p
  | takeRejectionEvents outCount => exact staying_takeRejectionEvents outCount
  | liveValueCount => exact read _ _
  | getFloat64 p => exact read _ _
  | typeOf p => exact read _ _
  | isEqual a b op => exact read _ _
  | promiseState p => exact read _ _
  | isJobPending => exact read _ _
  | _ => exact Keeping.staying (keeping.pure _)

theorem throwing_keeps (s : Engine) (message : String) : s.heap.Keeps (s.throwing message).2.heap :=
  Heap.keeps_newError s.heap message

theorem endCall_stays (s : Engine) (c : Completion) : s.heap.Stays (s.endCall c).2.heap := by
  cases c with
  | returned v => exact (Heap.Keeps.refl s.heap).stays
  | threw exception => exact Heap.stays_setException s.heap exception

theorem completion_keeps (s : Engine) (answer : Ptr) : s.heap.Keeps (s.completion answer).2.heap := by
  simp only [completion]
  split
  next =>
    split
    next => exact .of_cells rfl
    next => exact throwing_keeps s _
  next => exact .refl s.heap

end Engine

end ScriptHost
