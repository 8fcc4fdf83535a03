import ScriptHost.Engine.Call
import ScriptHost.Proofs.Engine.Turns
import ScriptHost.Proofs.Engine.Requests

set_option autoImplicit false

/-!
What requests, calls and jobs do to promises.

Each of them opens with at most one act of its own, such as making a promise or taking a job, and goes on
with turns.
-/

namespace ScriptHost

def Task.children : Task -> List Ptr
  | job j => j.children
  | handling j => j.children
  | resolution p v _ => [p, v]
  | reaction p r => p :: r.children

def PromiseRecord.derived (r : PromiseRecord) : List Ptr :=
  r.reactions.map Reaction.derived

/-- The promises that something under way, waiting or attached may settle, with multiplicity. -/
def targets (s : List Task × Affairs) : List Ptr :=
  s.1.map Task.target ++
    (s.2.jobs.map Job.derived ++
      s.2.promises.entries.flatMap fun e => e.2.derived)

/-- Nothing that concerns promises refers to the pointer. -/
structure Unknown (s : List Task × Affairs) (p : Ptr) : Prop where
  promise : s.2.promises.get? p = none
  target : p ∉ targets s
  resolver : ∀ f reject, s.2.resolver? f ≠ some (p, reject)
  value : ∀ q r, s.2.promises.get? q = some r -> r.settlement ≠ .fulfilled p
  resolution : ∀ q v reject, .resolution q v reject ∈ s.1 -> v ≠ p
  argument : ∀ j, j ∈ s.2.jobs ∨ .job j ∈ s.1 -> j.argument ≠ p

namespace Affairs

def begin (a : Affairs) (n : Nat) : Affairs :=
  { a with
    promises := a.promises.set (UInt32.ofNat n) .fresh
    next := n + 1 }

/-- Forgotten jobs count as taken. -/
def clear (a : Affairs) : Affairs :=
  { a with
    promises := .empty
    resolver? := fun _ => none
    jobs := []
    taken := a.jobs.reverse ++ a.taken
    rejections := []
    literal := fun _ => false }

/-- New functions may resolve `p`. -/
structure Empowers (p : Ptr) (a b : Affairs) : Prop where
  forgets : a.Forgets { b with resolver? := a.resolver? }
  resolvers : ∀ f t, b.resolver? f = some t -> a.resolver? f = some t ∨ t.1 = p

namespace Empowers

variable {p : Ptr} {a b c : Affairs}

theorem of_forgets (less : a.Forgets b) : a.Empowers p b :=
  ⟨{ less with resolvers := fun _ _ h => h }, fun f t here => .inl (less.resolvers f t here)⟩

theorem trans (first : a.Empowers p b) (second : b.Empowers p c) : a.Empowers p c where
  forgets :=
    { promises := second.forgets.promises.trans first.forgets.promises
      resolvers := fun _ _ here => here
      jobs := second.forgets.jobs.trans first.forgets.jobs
      queued := second.forgets.queued.trans first.forgets.queued
      taken := second.forgets.taken.trans first.forgets.taken
      rejections := second.forgets.rejections.trans first.forgets.rejections
      history := second.forgets.history.trans first.forgets.history
      next := Nat.le_trans first.forgets.next second.forgets.next
      literal := (first.forgets.trans (c := { c with resolver? := a.resolver? })
        { second.forgets with resolvers := fun _ _ here => here }).literal }
  resolvers f t here := (second.resolvers f t here).elim (first.resolvers f t) .inr

theorem forgets_able (h : a.Empowers p b) : { a with resolver? := b.resolver? }.Forgets b :=
  { h.forgets with resolvers := fun _ _ here => here }

end Empowers

end Affairs

/-- The act that a request, call or job opens with. `exact` says that new promises are known not to be
referred to. -/
inductive Opening (exact : Prop) : List Task × Affairs -> List Task × Affairs -> Prop where
  | rest {s : List Task × Affairs} : Opening exact s s
  | take {j : Job} {rest : List Job} {o : List Task} {a : Affairs} (waiting : a.jobs = j :: rest) :
      Opening exact (o, a) (.job j :: o, { a with jobs := rest, taken := j :: a.taken })
  | capability {o : List Task} {a : Affairs} (n : Nat) (later : a.next ≤ n)
      (absent : a.promises.get? (UInt32.ofNat n) = none) (unknown : exact -> Unknown (o, a) (UInt32.ofNat n))
      (able : Ptr -> Option (Ptr × Bool))
      (mine : ∀ f t, able f = some t -> a.resolver? f = some t ∨ t.1 = UInt32.ofNat n) :
      Opening exact (o, a) (o, { a.begin n with resolver? := able })
  | derive {o : List Task} {a : Affairs} {p : Ptr} {x : Reaction} (n : Nat) (later : a.next ≤ n)
      (absent : a.promises.get? (UInt32.ofNat n) = none) (unknown : exact -> Unknown (o, a) (UInt32.ofNat n))
      (derived : x.derived = UInt32.ofNat n) :
      Opening exact (o, a) (.reaction p x :: o, a.begin n)
  -- The pointers have run out: no promise is made, and zero stands for it.
  | barren {o : List Task} {a : Affairs} (nobody : exact -> a.promises.get? 0 = none)
      (able : Ptr -> Option (Ptr × Bool)) (mine : ∀ f t, able f = some t -> a.resolver? f = some t ∨ t.1 = 0) :
      Opening exact (o, a) (o, { a with resolver? := able })
  | sterile {o : List Task} {a : Affairs} {p : Ptr} {x : Reaction} (nobody : exact -> a.promises.get? 0 = none)
      (derived : x.derived = 0) : Opening exact (o, a) (.reaction p x :: o, a)
  | collect {o : List Task} {a : Affairs} : Opening exact (o, a) (o, { a with rejections := [] })
  | clear {o : List Task} {a : Affairs} : Opening exact (o, a) (o, a.clear)

namespace Heap

variable {h h' : Heap} {p q v : Ptr} {o : List Task} {stale n : Nat} {outside : List Ptr} {exact : Prop}

theorem releaseAll_nil (h : Heap) : h.releaseAll [] = h := by
  simp [releaseAll, freeAll]

theorem newPromise_cases (h : Heap) :
    (∃ n, h.next ≤ n ∧ Ptr.firstCounted ≤ UInt32.ofNat n ∧ h.cells.get? (UInt32.ofNat n) = none ∧
      h.newPromise.1 = UInt32.ofNat n ∧ h.newPromise.2.affairs = h.affairs.begin n) ∨
    h.newPromise = (0, h) := by
  unfold newPromise
  rcases insert_cases h (.promise .fresh) with ⟨n, later, big, absent, made⟩ | full
  next =>
    refine .inl ⟨n, later, big, absent, by rw [made], ?_⟩
    rw [made]
    have promises : (h.cells.set (UInt32.ofNat n) ⟨1, .promise .fresh⟩).choose Cell.record? =
        h.promises.set (UInt32.ofNat n) .fresh :=
      Table.choose_set_some rfl fun old found => by simp [absent] at found
    have resolvers : resolver? { h with cells := h.cells.set (UInt32.ofNat n) ⟨1, .promise .fresh⟩, next := n + 1 } =
        h.resolver? := by
      funext f
      rw [resolver?_set]
      split
      next same => simp [resolver?, get?, ← same, absent, Value.resolver?]
      next => rfl
    simp only [affairs, resolvers, isLiteral_new absent (show (Value.promise .fresh).isLiteral = false from rfl), Affairs.begin]
    exact congrArg (fun t => Affairs.mk t _ _ _ _ _ _ _ _) promises
  next =>
    rw [full]
    exact .inr (congrArg _ (releaseAll_nil h))

theorem newResolver_empowers (h : Heap) (p : Ptr) (kind : FunctionKind) (name : String)
    (mine : ∀ t, (Value.function name kind).resolver? = some t -> t.1 = p) :
    h.affairs.Empowers p ((h.retain p).insert (.function name kind)).2.affairs := by
  rw [← affairs_retain h p]
  generalize h.retain p = s
  rcases insert_cases s (.function name kind) with ⟨n, later, big, absent, made⟩ | full
  next =>
    rw [made]
    have same : (s.cells.set (UInt32.ofNat n) ⟨1, .function name kind⟩).choose Cell.record? = s.promises :=
      Table.choose_set_none rfl fun old found => by simp [absent] at found
    constructor
    next =>
      have identified : (Value.function name kind).isLiteral = false := rfl
      have literals := isLiteral_new (h := s) (n := n + 1) absent identified
      refine { Affairs.Forgets.refl s.affairs with
        promises := ?_, next := Nat.le_succ_of_le later, literal := fun f here => .inl ?_ }
      next => exact (congrArg Table.entries same) ▸ List.Sublist.refl _
      next => exact (congrFun literals f).symm.trans here
    next =>
      intro f t here
      have selected := (resolver?_set s (UInt32.ofNat n) f (.function name kind) 1 (n + 1)).symm.trans here
      split at selected
      next => exact .inr (mine t selected)
      next => exact .inl selected
  next => exact full ▸ .of_forgets (forgets_releaseAll s _)

theorem newCapability_empowers (h : Heap) : h.newPromise.2.affairs.Empowers h.newPromise.1 h.newCapability.2.affairs := by
  have first := newResolver_empowers h.newPromise.2 h.newPromise.1 (.resolve h.newPromise.1) "" (by
    simp [Value.resolver?])
  have second := newResolver_empowers ((h.newPromise.2.retain h.newPromise.1).insert
    (.function "" (.resolve h.newPromise.1))).2 h.newPromise.1 (.reject h.newPromise.1) "" (by
    simp [Value.resolver?])
  exact first.trans second

namespace Accounted

theorem unmentioned (a : Accounted stale outside h) (later : h.next ≤ n) (big : Ptr.firstCounted ≤ UInt32.ofNat n)
    (absent : h.cells.get? (UInt32.ofNat n) = none) (numbered : stale = 0 ∨ n + 1 ≤ UInt32.size) :
    UInt32.ofNat n ∉ outside ++ h.references := by
  intro member
  have few : Numbered stale h := numbered.imp_right fun small => by omega
  have counted := List.count_pos_iff.2 member
  have named : Nameable stale h.cells (UInt32.ofNat n) := by
    apply (a.balanced few).nameable
    simp only [references, List.count_append] at *
    omega
  rcases named with small | ⟨c, found⟩ | lost
  · exact absurd big (UInt32.not_le.2 small)
  · simp [absent] at found
  · have := a.reached
    rcases numbered with none | small
    · omega
    · rw [UInt32.toNat_ofNat_of_lt' (by omega)] at lost
      omega

theorem unknown (a : Accounted stale outside h) (later : h.next ≤ n) (big : Ptr.firstCounted ≤ UInt32.ofNat n)
    (absent : h.cells.get? (UInt32.ofNat n) = none) (numbered : stale = 0 ∨ n + 1 ≤ UInt32.size)
    (under : ∀ t ∈ o, ∀ q ∈ t.children, q ∈ outside) : Unknown (o, h.affairs) (UInt32.ofNat n) := by
  have unmentioned := a.unmentioned later big absent numbered
  generalize hp : UInt32.ofNat n = p at *
  simp only [references, List.mem_append, not_or] at unmentioned
  obtain ⟨notOutside, notHeld, notPending⟩ := unmentioned
  have held : ∀ q value, h.get? q = some value -> p ∉ value.children := by
    intro q value found member
    obtain ⟨c, here, rfl⟩ := get?_eq_some.1 found
    exact notHeld (mem_held_of_find here member)
  have jobs : ∀ j ∈ h.jobs, p ∉ j.children := fun j waiting member =>
    notPending (List.mem_append_left _ (List.mem_flatMap.2 ⟨j, waiting, member⟩))
  have tasks : ∀ t ∈ o, p ∉ t.children := fun t here member => notOutside (under t here p member)
  have promised : ∀ q r, h.promises.get? q = some r -> p ∉ r.children := by
    intro q r found
    exact held q _ (promise?_eq_some.1 ((get?_promises h q).symm.trans found))
  constructor
  next =>
    change h.promises.get? p = none
    simp [promises, absent]
  next =>
    simp only [targets, affairs, List.mem_append, List.mem_map, List.mem_flatMap, not_or]
    refine ⟨?_, ?_, ?_⟩
    next =>
      rintro ⟨t, here, same⟩
      apply tasks t here
      cases t <;> simp_all [Task.target, Task.children, Job.children, Reaction.children]
    next =>
      rintro ⟨j, waiting, same⟩
      exact jobs j waiting (by simp [Job.children, same])
    next =>
      rintro ⟨e, inside, among⟩
      obtain ⟨x, attached, same⟩ := List.mem_map.1 among
      apply promised e.1 e.2 (Table.find_of_mem h.promises.nodup inside)
      refine List.mem_append_right _ (List.mem_flatMap.2 ⟨x, attached, ?_⟩)
      simp [Reaction.children, same]
  next =>
    intro f reject here
    obtain ⟨value, found, selected⟩ := Option.bind_eq_some_iff.1 here
    apply held f value found
    unfold Value.resolver? at selected
    split at selected <;> simp_all [Value.children]
  next =>
    intro q r found fulfilled
    apply promised q r found
    simp [PromiseRecord.children, fulfilled, Settlement.payload?]
  next =>
    rintro q v reject under rfl
    exact tasks _ under (by simp [Task.children])
  next =>
    rintro j (waiting | under) same
    next => exact jobs j waiting (by simp [Job.children, same])
    next => exact tasks _ under (by simp [Task.children, Job.children, same])

theorem static_absent (a : Accounted stale outside h) (numbered : Numbered stale h) (small : p < Ptr.firstCounted) :
    h.affairs.promises.get? p = none := by
  cases found : h.cells.get? p with
  | none => simp [affairs, promises, found]
  | some c => exact absurd ((a.balanced numbered).counted p c found).1 (UInt32.not_le.2 small)

end Accounted

end Heap

/-- Whether a request is about promises. -/
def Request.stirring : Request -> Bool
  | freeContext | freeRuntime | newPromiseCapability _ | promiseThen _ _ _ | takeRejectionEvents _ => true
  | _ => false

theorem Turn.next_le {s s' : List Task × Affairs} (step : Turn s s') : s.2.next ≤ s'.2.next := by
  cases step with
  | forget less => exact less.next
  | _ => exact Nat.le_refl _

theorem Turns.next_le {s s' : List Task × Affairs} (steps : Turns s s') : s.2.next ≤ s'.2.next := by
  induction steps with
  | refl => exact Nat.le_refl _
  | tail _ step ih => exact Nat.le_trans ih step.next_le

theorem Turn.history_suffix {s s' : List Task × Affairs} (step : Turn s s') : s.2.history <:+ s'.2.history := by
  cases step with
  | forget less => exact less.history ▸ List.suffix_refl _
  | settle => exact List.suffix_cons _ _
  | store => exact List.suffix_cons _ _
  | react => exact List.suffix_cons _ _
  | _ => exact List.suffix_refl _

theorem Turns.history_suffix {s s' : List Task × Affairs} (steps : Turns s s') : s.2.history <:+ s'.2.history := by
  induction steps with
  | refl => exact List.suffix_refl _
  | tail _ step ih => exact ih.trans step.history_suffix

theorem Opening.next_le {exact : Prop} {s s' : List Task × Affairs} (opening : Opening exact s s') :
    s.2.next ≤ s'.2.next := by
  cases opening with
  | capability n later => exact Nat.le_succ_of_le later
  | derive n later => exact Nat.le_succ_of_le later
  | _ => exact Nat.le_refl _

theorem Opening.same_history {exact : Prop} {s s' : List Task × Affairs} (opening : Opening exact s s') :
    s'.2.history = s.2.history := by
  cases opening <;> rfl

namespace Engine

variable {s : Engine} {o : List Task} {exact : Prop}

theorem perform_forgetful (r : Request) (apart : r.stirring = false) : Forgetful (perform r) := by
  cases r with
  | newRuntime => exact forgetful_pure _
  | newContext => exact forgetful_pure _
  | freeContext => cases apart
  | freeRuntime => cases apart
  | setMemoryLimit limit => exact forgetful_bind (forgetful_modify fun _ => rfl) fun _ => forgetful_pure _
  | liveValueCount => exact forgetful_bind (forgetful_readHeap _) fun _ => forgetful_pure _
  | getUndefined => exact forgetful_pure _
  | getNull => exact forgetful_pure _
  | getTrue => exact forgetful_pure _
  | getFalse => exact forgetful_pure _
  | dupValue p =>
    refine forgetful_bind (forgetful_onHeap fun h => .of_eq (Heap.affairs_retain h p)) fun known => ?_
    split
    next => exact forgetful_pure _
    next => exact forgetful_raising _ _
  | freeValue p =>
    refine forgetful_bind (forgetful_onHeap fun h => Heap.forgets_release h p) fun known => ?_
    split
    next => exact forgetful_pure _
    next => exact forgetful_throw _
  | newFloat64 x => exact forgetful_insert _ rfl rfl
  | getFloat64 p => exact forgetful_bind (forgetful_readHeap _) fun _ => forgetful_pure _
  | newString text => exact forgetful_bind (forgetful_readMemory _) fun _ => forgetful_insert _ rfl rfl
  | toCString p => exact forgetful_toCString p
  | freeCString text => exact forgetful_bind (forgetful_modify fun _ => rfl) fun _ => forgetful_pure _
  | newArrayBuffer data count => exact forgetful_bind (forgetful_readMemory _) fun _ => forgetful_insert _ rfl rfl
  | copyArrayBuffer p outCount => exact forgetful_copyArrayBuffer p outCount
  | newObject => exact forgetful_insert _ rfl rfl
  | newArray => exact forgetful_insert _ rfl rfl
  | getProp object key => exact forgetful_attempt fun h a h' found => Heap.forgets_getProp found
  | setProp object key value =>
    refine forgetful_attempt fun h a h' stored => ?_
    cases done : h.setProp object (h.display key) value with
    | error e => simp [done, Except.map] at stored
    | ok changed =>
      simp only [done, Except.map, Except.ok.injEq, Prod.mk.injEq] at stored
      exact stored.2 ▸ Heap.forgets_setProp done
  | getOwnPropertyNames outTable outCount object => exact forgetful_getOwnPropertyNames _ _ _
  | getLength outLength p => exact forgetful_getLength outLength p
  | typeOf p => exact forgetful_bind (forgetful_readHeap _) fun _ => forgetful_pure _
  | isEqual a b op => exact forgetful_bind (forgetful_readHeap _) fun _ => forgetful_pure _
  | newError text =>
    refine forgetful_bind (forgetful_readMemory _) fun message => ?_
    exact forgetful_bind (forgetful_onHeap fun h => Heap.forgets_newError h message) fun _ => forgetful_pure _
  | raise p => exact forgetful_raise p
  | getLastError => exact forgetful_bind (forgetful_onHeap fun h => .of_eq rfl) fun _ => forgetful_pure _
  | newFunction id name => exact forgetful_bind (forgetful_readMemory _) fun _ => forgetful_insert _ rfl rfl
  | newPromiseCapability out => cases apart
  | promiseState p => exact forgetful_bind (forgetful_readHeap _) fun _ => forgetful_pure _
  | promiseResult p => exact forgetful_promiseResult p
  | promiseThen p onFulfilled onRejected => cases apart
  | isJobPending => exact forgetful_bind (forgetful_readHeap _) fun _ => forgetful_pure _
  | takeRejectionEvents outCount => cases apart

/-- Whoever passes tasks on keeps their references, and the pointers that are handed out are new. -/
def Grounded (o : List Task) (h h' : Heap) : Prop :=
  ∃ stale outside, h.Accounted stale outside ∧ Heap.Numbered stale h' ∧ ∀ t ∈ o, ∀ q ∈ t.children, q ∈ outside

theorem newPromiseCapability_opens (out : Addr)
    (grounded : exact -> Grounded o s.heap (outcome (newPromiseCapability out) s).2.heap) :
    ∃ a, Opening exact (o, s.heap.affairs) (o, a) ∧
      Turns (o, a) (o, (outcome (newPromiseCapability out) s).2.heap.affairs) ∧
      a.rejections = s.heap.rejections := by
  have written : s.heap.newCapability.2.Forgets (outcome (newPromiseCapability out) s).2.heap := by
    refine forgets_bind (onHeap Heap.newCapability) (fun made => ?_) s
    refine forgetful_bind (forgetful_onMemory _) fun _ => ?_
    exact forgetful_bind (forgetful_onMemory _) fun _ => forgetful_pure _
  have empowers := Heap.newCapability_empowers s.heap
  have reached := Nat.le_trans empowers.forgets.next written.next
  rcases Heap.newPromise_cases s.heap with ⟨n, later, big, absent, pointer, begun⟩ | full
  next =>
    rw [pointer, begun] at empowers
    rw [begun] at reached
    have unused : s.heap.affairs.promises.get? (UInt32.ofNat n) = none := by
      simp [Heap.affairs, Heap.promises, absent]
    refine ⟨_, .capability n later unused (fun known => ?_) _ empowers.resolvers,
      .single (.forget (empowers.forgets_able.trans written)), rfl⟩
    obtain ⟨stale, outside, accounted, numbered, under⟩ := grounded known
    exact accounted.unknown later big absent (numbered.imp_right fun small => Nat.le_trans reached small) under
  next =>
    rw [full] at empowers reached
    refine ⟨_, .barren (fun known => ?_) _ empowers.resolvers,
      .single (.forget (empowers.forgets_able.trans written)), rfl⟩
    obtain ⟨stale, outside, accounted, numbered, -⟩ := grounded known
    exact accounted.static_absent (numbered.of_le reached) Heap.zero_small

theorem promiseThen_opens (p : Ptr) (onFulfilled onRejected : Option Ptr)
    (grounded : exact -> Grounded o s.heap (outcome (promiseThen p onFulfilled onRejected) s).2.heap) :
    ∃ mid, Opening exact (o, s.heap.affairs) mid ∧
      Turns mid (o, (outcome (promiseThen p onFulfilled onRejected) s).2.heap.affairs) ∧
      mid.2.rejections = s.heap.rejections := by
  cases promise : s.heap.isPromise p with
  | false =>
    have raised : s.heap.Forgets (outcome (promiseThen p onFulfilled onRejected) s).2.heap := by
      simpa only [promiseThen, outcome_bind, outcome_readHeap, promise, Bool.false_eq_true, if_false] using
        forgetful_raising "then called on a non-promise value" nullResult s
    exact ⟨_, .rest, .single (.forget raised), rfl⟩
  | true =>
    have done : (outcome (promiseThen p onFulfilled onRejected) s).2.heap =
        (s.heap.andThen p onFulfilled onRejected).2 := by
      simp only [promiseThen, outcome_bind, outcome_readHeap, promise, if_true]
      rfl
    rw [done] at grounded ⊢
    have attached := Heap.attach_turns (o := o) (s.heap.newPromise.2.retain s.heap.newPromise.1) p
      ⟨s.heap.newPromise.1, onFulfilled, onRejected⟩
    rw [Heap.affairs_retain] at attached
    have reached := attached.next_le
    rcases Heap.newPromise_cases s.heap with ⟨n, later, big, absent, pointer, begun⟩ | full
    next =>
      rw [begun] at attached reached
      have unused : s.heap.affairs.promises.get? (UInt32.ofNat n) = none := by
        simp [Heap.affairs, Heap.promises, absent]
      refine ⟨_, .derive n later unused (fun known => ?_) pointer, attached, rfl⟩
      obtain ⟨stale, outside, accounted, numbered, under⟩ := grounded known
      exact accounted.unknown later big absent (numbered.imp_right fun small => Nat.le_trans reached small) under
    next =>
      have pointer : s.heap.newPromise.1 = 0 := by rw [full]
      have kept : s.heap.newPromise.2.affairs = s.heap.affairs := by rw [full]
      rw [kept] at attached reached
      refine ⟨_, .sterile (fun known => ?_) pointer, attached, rfl⟩
      obtain ⟨stale, outside, accounted, numbered, -⟩ := grounded known
      exact accounted.static_absent (numbered.of_le reached) Heap.zero_small

theorem takeRejectionEvents_forgets (outCount : Addr) (s : Engine) :
    s.heap.takeRejections.2.Forgets (outcome (takeRejectionEvents outCount) s).2.heap := by
  refine forgets_bind (onHeap Heap.takeRejections) (fun events => ?_) s
  have answered (table : Addr) : Forgetful (do
      if table = 0 then
        modifyHeap fun h => h.releaseAll (events.flatMap Rejection.children)
        writeWord outCount 0
        pure nullResult
      else
        writeWord outCount (UInt32.ofNat events.length)
        pure (.ofWord table)) := by
    split
    next =>
      refine forgetful_bind (forgetful_onHeap fun h => Heap.forgets_releaseAll h _) fun _ => ?_
      exact forgetful_bind (forgetful_onMemory _) fun _ => forgetful_pure _
    next => exact forgetful_bind (forgetful_onMemory _) fun _ => forgetful_pure _
  split
  next => exact forgetful_bind (forgetful_pure _) answered
  next => exact forgetful_bind (forgetful_onMemory _) answered

theorem perform_opens (r : Request) (grounded : exact -> Grounded o s.heap (outcome (perform r) s).2.heap) :
    ∃ mid, Opening exact (o, s.heap.affairs) mid ∧ Turns mid (o, (outcome (perform r) s).2.heap.affairs) ∧
      (r.isReserved = false -> mid.2.rejections = s.heap.rejections) := by
  have plain : Forgetful (perform r) ->
      ∃ mid, Opening exact (o, s.heap.affairs) mid ∧ Turns mid (o, (outcome (perform r) s).2.heap.affairs) ∧
        (r.isReserved = false -> mid.2.rejections = s.heap.rejections) :=
    fun less => ⟨_, .rest, .single (.forget (less s)), fun _ => rfl⟩
  cases r with
  | newPromiseCapability out =>
    obtain ⟨a, opening, turns, kept⟩ := newPromiseCapability_opens out grounded
    exact ⟨(o, a), opening, turns, fun _ => kept⟩
  | promiseThen p onFulfilled onRejected =>
    obtain ⟨mid, opening, turns, kept⟩ := promiseThen_opens p onFulfilled onRejected grounded
    exact ⟨mid, opening, turns, fun _ => kept⟩
  | freeContext => exact ⟨_, .clear, .refl, nofun⟩
  | freeRuntime => exact ⟨_, .clear, .refl, nofun⟩
  | takeRejectionEvents outCount =>
    exact ⟨_, .collect, .single (.forget (takeRejectionEvents_forgets outCount s)), nofun⟩
  | _ => exact plain (perform_forgetful _ rfl)

end Engine

namespace Check

def tasks : Check -> List Task
  | job j => [.job j]
  | call _ _ _ _ => []
  | handler j _ => [.handling j]

/-- The function that is called unless the run is interrupted, with its arguments. -/
def called : Check -> Option (Ptr × List Ptr)
  | job _ => none
  | call function _ args _ => some (function, args)
  | handler j function => some (function, [j.argument])

/-- The promise that the function settles, with what it is called for. -/
def resolving (c : Check) (h : Heap) : Option (Ptr × Ptr × Bool) :=
  match c.called with
  | none => none
  | some (function, args) =>
      (h.resolver? function).map fun (p, reject) => (p, args.head?.getD Ptr.undefined, reject)

/-- The heap after the call of a resolving function. Other functions change nothing yet. -/
def afterCall (c : Check) (interrupted : Bool) (h : Heap) : Heap :=
  match c.resolving h with
  | some (p, v, reject) => if interrupted then h else h.callResolving p v reject
  | none => h

end Check

def Frame.tasks : Frame -> List Task
  | call => []
  | handler j _ => [.handling j]

def Stage.tasks : Stage -> List Task
  | done _ => []
  | checking c => c.tasks
  | calling _ f => f.tasks

theorem Check.resolving_able {c : Check} {h : Heap} {p v : Ptr} {reject : Bool}
    (resolving : c.resolving h = some (p, v, reject)) : ∃ f, h.affairs.resolver? f = some (p, reject) := by
  unfold Check.resolving at resolving
  split at resolving
  next => simp at resolving
  next function args _ =>
    obtain ⟨t, able, same⟩ := Option.map_eq_some_iff.1 resolving
    cases same
    exact ⟨function, able⟩

namespace Engine

variable {s : Engine} {o : List Task} {function this : Ptr} {args : List Ptr} {table : Addr}

theorem throwing_forgets (s : Engine) (message : String) : s.heap.Forgets (s.throwing message).2.heap :=
  Heap.forgets_newError s.heap message

theorem endCall_forgets (s : Engine) (c : Completion) : s.heap.Forgets (s.endCall c).2.heap := by
  cases c with
  | returned v => exact .refl s.heap
  | threw exception => exact Heap.forgets_setException s.heap exception

theorem completion_forgets (s : Engine) (answer : Ptr) : s.heap.Forgets (s.completion answer).2.heap := by
  simp only [completion]
  split
  next =>
    split
    next => exact .of_eq rfl
    next => exact throwing_forgets s _
  next => exact .refl s.heap

theorem endJob_turns (s : Engine) (job : Job) (c : Completion) :
    Turns (.handling job :: o, s.heap.affairs) (o, (s.endJob job c).2.heap.affairs) := by
  cases c with
  | returned v =>
    refine .head (.finish v false) ((Heap.resolveWith_turns s.heap job.derived v).tail (.forget ?_))
    exact Heap.Forgets.trans (Heap.forgets_release _ v) (Heap.forgets_releaseAll _ job.children)
  | threw exception =>
    refine .head (.finish exception true) ((Heap.settle_turns s.heap job.derived exception true (by simp)).tail (.forget ?_))
    exact Heap.Forgets.trans (Heap.forgets_release _ exception) (Heap.forgets_releaseAll _ job.children)

theorem passThrough_turns (s : Engine) (job : Job) :
    Turns (.job job :: o, s.heap.affairs) (o, (s.passThrough job).2.heap.affairs) := by
  have finished := fun h : Heap => Heap.forgets_releaseAll h job.children
  refine .head .pass ?_
  simp only [passThrough]
  cases gone : job.rejected with
  | true => exact (Heap.settle_turns s.heap job.derived job.argument true (by simp)).tail (.forget (finished _))
  | false => exact (Heap.resolveWith_turns s.heap job.derived job.argument).tail (.forget (finished _))

theorem interruptJob_turns (s : Engine) (job : Job) :
    Turns (.job job :: o, s.heap.affairs) (o, (s.interruptJob job).2.heap.affairs) := by
  refine .head .drop (.single (.forget ?_))
  exact Heap.Forgets.trans (Heap.forgets_releaseAll s.heap job.children) (Heap.forgets_raiseMessage _ interruptedText)

/-- The first call of a resolving function marks its promise. All later ones change nothing. -/
theorem afterCall_cases (c : Check) (interrupted : Bool) (h : Heap) :
    (c.afterCall interrupted h = h ∧ ∀ p v reject r, interrupted = false -> c.resolving h = some (p, v, reject) ->
      h.affairs.promises.get? p = some r -> r.resolved = true) ∨
    ∃ p v reject r f, interrupted = false ∧ c.resolving h = some (p, v, reject) ∧
      h.affairs.resolver? f = some (p, reject) ∧ h.affairs.promises.get? p = some r ∧ r.resolved = false ∧
      ∀ o, Turns (.resolution p v reject :: o, h.affairs.mark p r) (o, (c.afterCall interrupted h).affairs) := by
  unfold Check.afterCall
  cases target : c.resolving h with
  | none => exact .inl ⟨rfl, by simp⟩
  | some t =>
    obtain ⟨p, v, reject⟩ := t
    cases interrupted with
    | true => exact .inl ⟨rfl, by simp⟩
    | false =>
      simp only [Bool.false_eq_true, if_false]
      have promise : h.affairs.promises.get? p = h.promise? p := Heap.get?_promises h p
      cases found : h.promise? p with
      | none =>
        refine .inl ⟨by simp only [Heap.callResolving, found], ?_⟩
        rintro _ _ _ r - ⟨⟩ here
        simp [promise, found] at here
      | some r =>
        cases first : r.resolved with
        | true =>
          refine .inl ⟨by simp only [Heap.callResolving, found, first, if_true], ?_⟩
          rintro _ _ _ r' - ⟨⟩ here
          obtain rfl : r = r' := Option.some.inj (found.symm.trans (promise.symm.trans here))
          exact first
        | false =>
          obtain ⟨f, able⟩ := Check.resolving_able target
          exact .inr ⟨p, v, reject, r, f, trivial, rfl, able, promise.trans found, first,
            fun o => Heap.callResolving_turns found first⟩

theorem start_forgets (interrupted : Bool) {c : Check} (called : c.called = some (function, args)) :
    (c.afterCall interrupted s.heap).Forgets (s.start interrupted function args).2.heap := by
  have resolving : c.resolving s.heap =
      (s.heap.resolver? function).map fun (p, reject) => (p, args.head?.getD Ptr.undefined, reject) := by
    simp only [Check.resolving, called]
  cases interrupted with
  | true =>
    have same : c.afterCall true s.heap = s.heap := by
      unfold Check.afterCall
      split <;> rfl
    rw [same]
    exact throwing_forgets s interruptedText
  | false =>
    have able : ∀ p reject, s.heap.resolver? function = some (p, reject) ->
        c.afterCall false s.heap = s.heap.callResolving p (args.head?.getD Ptr.undefined) reject := by
      intro p reject found
      simp [Check.afterCall, resolving, found]
    have unable : s.heap.resolver? function = none -> c.afterCall false s.heap = s.heap := by
      intro found
      simp [Check.afterCall, resolving, found]
    simp only [start, Bool.false_eq_true, if_false]
    split
    next name id found =>
      rw [unable (by simp [Heap.resolver?, found, Value.resolver?])]
      split
      next => exact .refl s.heap
      next => exact throwing_forgets s _
    next name p found =>
      rw [able p false (by simp [Heap.resolver?, found, Value.resolver?])]
      exact .refl _
    next name p found =>
      rw [able p true (by simp [Heap.resolver?, found, Value.resolver?])]
      exact .refl _
    next host resolve reject =>
      rw [unable ?_]
      next => exact throwing_forgets s _
      cases found : s.heap.get? function with
      | none => simp [Heap.resolver?, found]
      | some value =>
        cases value with
        | function name kind => cases kind <;> simp_all
        | _ => simp [Heap.resolver?, found, Value.resolver?]

theorem runCall_turns (interrupted : Bool) (function this : Ptr) (args : List Ptr) (table : Addr) :
    Turns (o, ((Check.call function this args table).afterCall interrupted s.heap).affairs)
      ((s.runCall interrupted function this args table).1.tasks ++ o,
        (s.runCall interrupted function this args table).2.heap.affairs) := by
  have started := start_forgets (s := s) interrupted (c := .call function this args table) rfl
  simp only [runCall]
  split
  next c s' ended =>
    rw [ended] at started
    exact .single (.forget (started.trans (endCall_forgets s' c)))
  next id s' hosted =>
    rw [hosted] at started
    exact .single (.forget started)

theorem runHandler_turns (interrupted : Bool) (job : Job) (function : Ptr) :
    Turns (.handling job :: o, ((Check.handler job function).afterCall interrupted s.heap).affairs)
      ((s.runHandler interrupted job function).1.tasks ++ o,
        (s.runHandler interrupted job function).2.heap.affairs) := by
  have started := start_forgets (s := s) interrupted (c := .handler job function) rfl
  have failed : ∀ s' : Engine, ((Check.handler job function).afterCall interrupted s.heap).Forgets s'.heap ->
      Turns (.handling job :: o, ((Check.handler job function).afterCall interrupted s.heap).affairs)
        (o, ((s'.throwing outOfMemory).2.endJob job (s'.throwing outOfMemory).1).2.heap.affairs) := fun s' less =>
    .head (.forget (less.trans (throwing_forgets s' outOfMemory))) (endJob_turns _ job _)
  simp only [runHandler]
  split
  next c s' ended =>
    rw [ended] at started
    exact .head (.forget started) (endJob_turns s' job c)
  next id s' hosted =>
    rw [hosted] at started
    split
    next t memory _ =>
      split
      next => exact failed { s' with memory } started
      next => exact .single (.forget started)
    next => exact failed s' started

/-- Once a resolving function has been called, the rest of a stage is a sequence of turns. -/
theorem afterCheck_turns (interrupted : Bool) (c : Check) :
    Turns (c.tasks ++ o, (c.afterCall interrupted s.heap).affairs)
      ((s.afterCheck interrupted c).1.tasks ++ o, (s.afterCheck interrupted c).2.heap.affairs) := by
  cases c with
  | job job =>
    cases interrupted with
    | true => exact interruptJob_turns s job
    | false =>
      cases handler : job.handler with
      | none =>
        simp only [afterCheck, handler, Bool.false_eq_true, if_false]
        exact passThrough_turns s job
      | some function =>
        simp only [afterCheck, handler, Bool.false_eq_true, if_false]
        exact .single (.handle (by simp [handler]))
  | call function this args table => exact runCall_turns interrupted function this args table
  | handler job function => exact runHandler_turns interrupted job function

theorem afterHost_turns (answer : Ptr) (f : Frame) :
    Turns (f.tasks ++ o, s.heap.affairs) (o, (s.afterHost answer f).2.heap.affairs) := by
  cases f with
  | call => exact .single (.forget ((completion_forgets s answer).trans (endCall_forgets _ _)))
  | handler job table =>
    have freed := completion_forgets { s with memory := s.memory.free table } answer
    exact .head (.forget freed) (endJob_turns _ job _)

theorem beginCall_same (s : Engine) (function this : Ptr) (count : UInt32) (arguments : Addr) :
    (s.beginCall function this count arguments).2 = s := by
  unfold beginCall
  split <;> rfl

theorem beginCall_heap (function this : Ptr) (count : UInt32) (arguments : Addr) :
    (s.beginCall function this count arguments).2.heap = s.heap ∧
      (s.beginCall function this count arguments).1.tasks = [] := by
  simp only [beginCall]
  split <;> exact ⟨rfl, rfl⟩

theorem beginJob_opens {exact : Prop} :
    Opening exact (o, s.heap.affairs) (s.beginJob.1.tasks ++ o, s.beginJob.2.heap.affairs) := by
  cases waiting : s.heap.jobs with
  | nil =>
    simp only [beginJob, Heap.takeJob, waiting]
    exact .rest
  | cons job rest =>
    simp only [beginJob, Heap.takeJob, waiting]
    exact .take waiting

end Engine

end ScriptHost
