import ScriptHost.Proofs.Engine.Resolving
import ScriptHost.Proofs.Engine.Scratch

set_option autoImplicit false

/-!
Which requests raise an exception.

A request that does so says it in its answer. Otherwise the exception stays as it is, and so do the blocks of
memory, but for those few requests that answer with a block of their own.
-/

namespace ScriptHost

namespace Memory

variable {m m' m'' : Memory} {a : Addr} {bytes : ByteArray}

/-- The blocks are where they were, whatever is in them. -/
structure Kept (m m' : Memory) : Prop extends Later m m' where
  extents : m.WellFormed -> m'.extents = m.extents

theorem Kept.refl (m : Memory) : m.Kept m :=
  ⟨.refl m, fun _ => rfl⟩

theorem Kept.trans (first : m.Kept m') (second : m'.Kept m'') : m.Kept m'' :=
  ⟨first.toLater.trans second.toLater, fun ok =>
    (second.extents (first.wellFormed ok)).trans (first.extents ok)⟩

theorem Kept.used (kept : m.Kept m') (ok : m.WellFormed) : m'.used = m.used := by
  rw [(kept.wellFormed ok).used, ok.used, kept.extents ok]

theorem kept_written (done : (m.write a bytes).map (fun m => ((), m)) = .ok ((), m')) : m.Kept m' := by
  refine ⟨later_written done, fun ok => ?_⟩
  by_cases within : m.Within a.toNat bytes.size
  next =>
    obtain ⟨t, put, written⟩ := write_within ok within
    obtain rfl : t = m' := by simpa [put, Except.map] using done
    exact written.extents
  next => simp [write_outside within, Except.map] at done

/-- The newest block is the first to go. -/
theorem extents_free_top {n : Nat} {rest : List (Nat × Nat)} (ok : m.WellFormed)
    (top : m.extents = (a.toNat, n) :: rest) : (m.free a).extents = rest := by
  have apart := ok.apart
  rw [top] at apart
  have others : ∀ e ∈ rest, (!decide (e.1 = a.toNat)) = true := by
    intro e member
    have above := (List.pairwise_cons.1 apart).1 e member
    dsimp only at above
    simp only [Bool.not_eq_true', decide_eq_false_iff_not]
    omega
  rw [extents_free, top]
  simp [List.filter_eq_self.2 others]

end Memory

namespace Heap

theorem exception_newError (h : Heap) (message : String) : (h.newError message).2.exception = h.exception :=
  (exception_insert _ _).trans (exception_insert h _)

theorem exception_newCapability (h : Heap) : h.newCapability.2.exception = h.exception :=
  (exception_insert _ _).trans ((exception_insert _ _).trans (exception_insert h _))

theorem exception_andThen (h : Heap) (p : Ptr) (onFulfilled onRejected : Option Ptr) :
    (h.andThen p onFulfilled onRejected).2.exception = h.exception :=
  (exception_attach _ p _).trans (exception_insert h _)

theorem exception_resolveWith (h : Heap) (p v : Ptr) : (h.resolveWith p v).exception = h.exception := by
  unfold resolveWith
  split
  next => exact (exception_settle _ p _ true).trans (exception_newError h _)
  next =>
    split
    next => exact exception_attach (h.retain p) v _
    next => exact exception_settle h p v false

theorem exception_getProp {h h' : Heap} {p q : Ptr} {key : String} (done : h.getProp p key = .ok (q, h')) :
    h'.exception = h.exception := by
  unfold getProp at done
  cases found : h.lookup p key with
  | error e => simp [found, Except.map] at done
  | ok x =>
    cases x with
    | existing v => exact (Prod.mk.inj (Except.ok.inj (found ▸ done))).2 ▸ rfl
    | computed v =>
      have made : h.insert v = (q, h') := by simpa [found, Except.map] using done
      have same := exception_insert h v
      rwa [made] at same

theorem exception_setProp {h h' : Heap} {p v : Ptr} {key : String} (done : h.setProp p key v = .ok h') :
    h'.exception = h.exception := by
  unfold setProp at done
  split at done
  next => cases done
  next =>
    split at done
    next => exact Except.ok.inj done ▸ rfl
    next =>
      split at done
      next => cases done
      next => exact Except.ok.inj done ▸ rfl
    next => cases done

end Heap

namespace Engine

variable {α β : Type} {failed : Scalar}

/-- Blocks and exception stay as they are. -/
def Discreet (act : EngineM α) : Prop :=
  Leads (fun s s' : Engine => s.memory.Kept s'.memory ∧ s'.heap.exception = s.heap.exception) act

/-- Blocks stay as they are, and so does the exception unless the answer is this one. -/
structure Candid (failed : Scalar) (act : EngineM Scalar) : Prop where
  kept : ∀ s : Engine, s.memory.Kept (outcome act s).2.memory
  told : ∀ s : Engine, (outcome act s).1 ≠ .ok failed -> (outcome act s).2.heap.exception = s.heap.exception

section Discreet

theorem discretion : Way fun s s' : Engine => s.memory.Kept s'.memory ∧ s'.heap.exception = s.heap.exception :=
  ⟨fun s => ⟨.refl s.memory, rfl⟩, fun first second => ⟨first.1.trans second.1, second.2.trans first.2⟩⟩

theorem discreet_onHeap {f : Heap -> α × Heap} (same : ∀ h, (f h).2.exception = h.exception) : Discreet (onHeap f) :=
  fun s => ⟨.refl s.memory, same s.heap⟩

theorem discreet_readHeap (f : Heap -> α) : Discreet (readHeap f) :=
  discreet_onHeap fun _ => rfl

theorem discreet_readMemory (f : Memory -> Except Error α) : Discreet (readMemory f) := by
  intro s
  rw [outcome_readMemory]
  exact ⟨.refl s.memory, rfl⟩

theorem discreet_writeWord (a : Addr) (w : UInt32) : Discreet (writeWord a w) := by
  intro s
  unfold writeWord
  cases done : (s.memory.writeWord a w).map fun m => ((), m) with
  | error e =>
    rw [outcome_onMemory_error done]
    exact ⟨.refl s.memory, rfl⟩
  | ok x =>
    rw [outcome_onMemory (a := x.1) (m := x.2) done]
    exact ⟨Memory.kept_written done, rfl⟩

theorem discreet_insert (v : Value) : Discreet (insert v) :=
  fun s => ⟨.refl s.memory, Heap.exception_insert s.heap v⟩

end Discreet

section Candid

theorem Candid.of_discreet {act : EngineM Scalar} (discreet : Discreet act) : Candid failed act :=
  ⟨fun s => (discreet s).1, fun s _ => (discreet s).2⟩

theorem Discreet.bind_candid {act : EngineM α} {f : α -> EngineM Scalar} (first : Discreet act)
    (rest : ∀ a, Candid failed (f a)) : Candid failed (act >>= f) := by
  constructor
  next =>
    intro s
    have before := first s
    rw [outcome_bind]
    generalize outcome act s = r at *
    obtain ⟨_ | a, t⟩ := r
    next => exact before.1
    next => exact before.1.trans ((rest a).kept t)
  next =>
    intro s other
    have before := first s
    rw [outcome_bind] at other ⊢
    generalize outcome act s = r at *
    obtain ⟨_ | a, t⟩ := r
    next => exact before.2
    next => exact ((rest a).told t other).trans before.2

theorem candid_raising (message : String) (answer : Scalar) : Candid answer (raising message answer) :=
  ⟨fun s => .refl s.memory, fun _ other => absurd rfl other⟩

theorem candid_attempt {f : Heap -> Except String (α × Heap)} (onOk : α -> Scalar) (onError : Scalar)
    (same : ∀ h a h', f h = .ok (a, h') -> h'.exception = h.exception) : Candid onError (attempt f onOk onError) := by
  constructor
  next =>
    intro s
    simp only [attempt, outcome_bind, outcome_get]
    split <;> exact .refl s.memory
  next =>
    intro s other
    simp only [attempt, outcome_bind, outcome_get] at other ⊢
    split
    next done => exact same _ _ _ done
    next refused => simp [refused] at other

end Candid

/-- Requests that raise nothing and answer without a block. -/
def Mute : Request -> Prop
  | .liveValueCount | .getUndefined | .getNull | .getTrue | .getFalse | .freeValue _ | .newFloat64 _ | .getFloat64 _
  | .newString _ | .newArrayBuffer _ _ | .newObject | .newArray | .typeOf _ | .isEqual _ _ _ | .newError _
  | .newFunction _ _ | .newPromiseCapability _ | .promiseState _ | .isJobPending => True
  | _ => False

/-- Requests that may raise an exception, and how they say so. -/
def refusal? : Request -> Option Scalar
  | .setProp _ _ _ => some (.ofBool false)
  | .getLength _ _ => some statusFailed
  | .dupValue _ | .getProp _ _ | .promiseResult _ | .promiseThen _ _ _ => some nullResult
  | _ => none

theorem perform_discreet (r : Request) (mute : Mute r) : Discreet (perform r) := by
  have read {β : Type} (f : Heap -> β) (answer : β -> Scalar) : Discreet (do pure (answer (<- readHeap f))) :=
    discretion.bind (discreet_readHeap f) fun _ => discretion.pure _
  have made {β : Type} (f : Memory -> Except Error β) (v : β -> Value) :
      Discreet (do insert (v (<- readMemory f))) :=
    discretion.bind (discreet_readMemory f) fun _ => discreet_insert _
  cases r with
  | freeValue p =>
    refine discretion.bind (discreet_onHeap fun _ => rfl) fun known => ?_
    split
    next => exact discretion.pure _
    next => exact discretion.throw _
  | newFloat64 x => exact discreet_insert _
  | newString text => exact made _ _
  | newArrayBuffer data count => exact made _ _
  | newObject => exact discreet_insert _
  | newArray => exact discreet_insert _
  | newError text =>
    refine discretion.bind (discreet_readMemory _) fun message => ?_
    exact discretion.bind (discreet_onHeap fun h => h.exception_newError message) fun _ => discretion.pure _
  | newFunction id name => exact made _ _
  | newPromiseCapability out =>
    refine discretion.bind (discreet_onHeap Heap.exception_newCapability) fun made => ?_
    refine discretion.bind (discreet_writeWord out _) fun _ => ?_
    exact discretion.bind (discreet_writeWord (out + 4) _) fun _ => discretion.pure _
  | liveValueCount => exact read _ _
  | getFloat64 p => exact read _ _
  | typeOf p => exact read _ _
  | isEqual p q op => exact read _ _
  | promiseState p => exact read _ _
  | isJobPending => exact read _ _
  | getUndefined => exact discretion.pure _
  | getNull => exact discretion.pure _
  | getTrue => exact discretion.pure _
  | getFalse => exact discretion.pure _
  | _ => exact mute.elim

theorem perform_candid (r : Request) (refuses : refusal? r = some failed) : Candid failed (perform r) := by
  cases r with
  | dupValue p =>
    obtain rfl := Option.some.inj refuses
    refine Discreet.bind_candid (discreet_onHeap fun _ => rfl) fun known => ?_
    split
    next => exact .of_discreet (discretion.pure _)
    next => exact candid_raising _ _
  | getProp object key =>
    obtain rfl := Option.some.inj refuses
    unfold perform getProp
    exact candid_attempt _ _ fun _ _ _ => Heap.exception_getProp
  | setProp object key value =>
    obtain rfl := Option.some.inj refuses
    unfold perform setProp
    refine candid_attempt _ _ fun h a h' done => ?_
    cases set : h.setProp object (h.display key) value with
    | error e => simp [set, Except.map] at done
    | ok t =>
      obtain rfl : t = h' := by simpa [set, Except.map] using done
      exact Heap.exception_setProp set
  | getLength outLength p =>
    obtain rfl := Option.some.inj refuses
    refine (discreet_readHeap _).bind_candid fun found => ?_
    split
    next => exact .of_discreet (discretion.bind (discreet_writeWord _ _) fun _ => discretion.pure _)
    next => exact candid_raising _ _
  | promiseResult p =>
    obtain rfl := Option.some.inj refuses
    constructor
    next =>
      intro s
      simp only [perform, promiseResult, outcome_bind, outcome_get]
      split <;> exact .refl s.memory
    next =>
      intro s other
      simp only [perform, promiseResult, outcome_bind, outcome_get] at other ⊢
      split
      next v h found =>
        obtain ⟨record, -, same⟩ := Option.map_eq_some_iff.1 found
        exact (Prod.mk.inj same).2 ▸ rfl
      next none => simp [none] at other
  | promiseThen p onFulfilled onRejected =>
    obtain rfl := Option.some.inj refuses
    refine (discreet_readHeap _).bind_candid fun promise => ?_
    split
    next =>
      have attached := discreet_onHeap fun h : Heap => h.exception_andThen p onFulfilled onRejected
      exact .of_discreet (discretion.bind attached fun _ => discretion.pure _)
    next => exact candid_raising _ _
  | _ => cases refuses

end Engine

end ScriptHost
