import Mathlib.Data.List.Sort
import ScriptHost.Proofs.Engine.Staging
import ScriptHost.Proofs.Link.Composed

set_option autoImplicit false

/-!
Whatever is asked of an engine, its memory has the same blocks afterwards.

What crosses the link puts texts, buffers and tables into the engine's memory and takes them out again, on every way
out. A call or a job keeps blocks there while a host function runs, so it relies on the function to leave the blocks
alone that it found.
-/

namespace ScriptHost

namespace Memory

variable {m m' : Memory}

/-- The blocks that are allocated, by their starts and sizes. -/
def allocated (m : Memory) : Set (Nat × Nat) :=
  {e | e ∈ m.extents}

theorem allocated_congr (same : m'.extents = m.extents) : m'.allocated = m.allocated := by
  unfold allocated
  rw [same]

/-- Blocks do not overlap, so there is but one order in which they descend. -/
theorem extents_of_allocated (ok : m.WellFormed) (ok' : m'.WellFormed) (same : m'.allocated = m.allocated) :
    m'.extents = m.extents := by
  have descends {m : Memory} (ok : m.WellFormed) : m.extents.Pairwise fun later earlier => earlier.1 < later.1 := by
    refine ok.apart.imp fun {later earlier} apart => ?_
    omega
  have distinct {m : Memory} (ok : m.WellFormed) : m.extents.Nodup := by
    refine (descends ok).imp ?_
    rintro later earlier before rfl
    exact Nat.lt_irrefl _ before
  have perm : m'.extents.Perm m.extents :=
    (List.perm_ext_iff_of_nodup (distinct ok') (distinct ok)).2 fun e => Set.ext_iff.1 same e
  refine perm.eq_of_pairwise (fun a b _ _ before after => ?_) (descends ok') (descends ok)
  exact absurd (Nat.lt_trans before after) (Nat.lt_irrefl _)

end Memory

/-- What is asked of the engine across its link alone. -/
inductive LinkCall where
  | failure (operation : String)
  | readTable (a : Addr) (count : Nat)
  | dupValue (p : Ptr)
  | freeValue (p : Ptr)
  | liveValueCount
  | undefined
  | null
  | boolean (b : Bool)
  | newNumber (x : Binary64)
  | number (p : Ptr)
  | newString (s : String)
  | toText (p : Ptr)
  | newBytes (bytes : ByteArray)
  | bytes (p : Ptr)
  | newObject
  | newArray
  | getProp (object : Ptr) (key : String)
  | setProp (object : Ptr) (key : String) (v : Ptr)
  | ownPropertyNames (object : Ptr)
  | length (p : Ptr)
  | kind (p : Ptr)
  | isEqual (a b : Ptr) (op : Equality)
  | newError (message : String)
  | raise (p : Ptr)
  | takeLastError
  | newFunction (id : FunctionId) (name : String)
  | newPromiseCapability
  | promiseState (p : Ptr)
  | promiseResult (p : Ptr)
  | promiseThen (p : Ptr) (onFulfilled onRejected : Option Ptr)
  | isJobPending

namespace LinkCall

abbrev Answer : LinkCall -> Type
  | failure _ => Error
  | readTable .. | ownPropertyNames _ => List Ptr
  | freeValue _ | setProp .. | raise _ => Unit
  | liveValueCount | length _ => Nat
  | number _ => Binary64
  | toText _ => String
  | bytes _ => ByteArray
  | kind _ => ValueKind
  | isEqual .. | isJobPending => Bool
  | takeLastError => Option Ptr
  | newPromiseCapability => Ptr × Ptr × Ptr
  | promiseState _ => PromiseState
  | _ => Ptr

def run : (c : LinkCall) -> LinkM c.Answer
  | failure operation => Link.failure operation
  | readTable a count => Link.readTable a count
  | dupValue p => Link.dupValue p
  | freeValue p => Link.freeValue p
  | liveValueCount => Link.liveValueCount
  | undefined => Link.undefined
  | null => Link.null
  | boolean b => Link.boolean b
  | newNumber x => Link.newNumber x
  | number p => Link.number p
  | newString s => Link.newString s
  | toText p => Link.toText p
  | newBytes content => Link.newBytes content
  | bytes p => Link.bytes p
  | newObject => Link.newObject
  | newArray => Link.newArray
  | getProp object key => Link.getProp object key
  | setProp object key v => Link.setProp object key v
  | ownPropertyNames object => Link.ownPropertyNames object
  | length p => Link.length p
  | kind p => Link.kind p
  | isEqual a b op => Link.isEqual a b op
  | newError message => Link.newError message
  | raise p => Link.raise p
  | takeLastError => Link.takeLastError
  | newFunction id name => Link.newFunction id name
  | newPromiseCapability => Link.newPromiseCapability
  | promiseState p => Link.promiseState p
  | promiseResult p => Link.promiseResult p
  | promiseThen p onFulfilled onRejected => Link.promiseThen p onFulfilled onRejected
  | isJobPending => Link.isJobPending

theorem neat (c : LinkCall) : Link.Neat c.run := by
  cases c with
  | failure operation => exact Link.composed_failure.extents
  | readTable a count => exact (Link.composed_readTable a count).extents
  | dupValue p => exact (Link.composed_dupValue p).extents
  | freeValue p => exact (Link.composed_freeValue p).extents
  | liveValueCount => exact Link.composed_liveValueCount.extents
  | undefined => exact Link.composed_undefined.extents
  | null => exact Link.composed_null.extents
  | boolean b => exact (Link.composed_boolean b).extents
  | newNumber x => exact (Link.composed_newNumber x).extents
  | number p => exact (Link.composed_number p).extents
  | newString s => exact (Link.composed_newString s).extents
  | toText p => exact (Link.composed_toText p).extents
  | newBytes content => exact (Link.composed_newBytes content).extents
  | bytes p => exact (Link.composed_bytes p).extents
  | newObject => exact Link.composed_newObject.extents
  | newArray => exact Link.composed_newArray.extents
  | getProp object key => exact (Link.composed_getProp object key).extents
  | setProp object key v => exact (Link.composed_setProp object key v).extents
  | ownPropertyNames object => exact fun _ usable => (Link.composes_ownPropertyNames usable).extents
  | length p => exact (Link.composed_length p).extents
  | kind p => exact (Link.composed_kind p).extents
  | isEqual a b op => exact (Link.composed_isEqual a b op).extents
  | newError message => exact (Link.composed_newError message).extents
  | raise p => exact Link.neat_raise p
  | takeLastError => exact Link.settles_takeLastError.extents
  | newFunction id name => exact (Link.composed_newFunction id name).extents
  | newPromiseCapability => exact Link.composed_newPromiseCapability.extents
  | promiseState p => exact (Link.composed_promiseState p).extents
  | promiseResult p => exact (Link.composed_promiseResult p).extents
  | promiseThen p onFulfilled onRejected => exact (Link.composed_promiseThen p onFulfilled onRejected).extents
  | isJobPending => exact Link.composed_isJobPending.extents

end LinkCall

/-- What is asked of the engine, by way of its owner and of host functions as well. -/
inductive EngineCall where
  | across (c : LinkCall)
  | call (function this : Ptr) (args : List Ptr)
  | executePendingJob
  | takeRejections

namespace EngineCall

abbrev Answer : EngineCall -> Type
  | across c => c.Answer
  | call .. => Completion
  | executePendingJob => JobStep
  | takeRejections => List Rejection

end EngineCall

/-- A host around a link, with a state of its own. -/
abbrev AroundM (σ : Type) := StateM (Link × σ)

namespace AroundM

variable {σ α β : Type}

def onLink (act : StateM Link α) : AroundM σ α :=
  modifyGet fun x => ((act.run x.1).1, ((act.run x.1).2, x.2))

def host (interrupted : AroundM σ Bool) (answer : Invocation -> AroundM σ Ptr) : Host (AroundM σ) :=
  ⟨fun q => onLink q.perform, interrupted, answer⟩

/-- Asks something of the engine, whose calls run in this host. -/
def perform (host : Host (AroundM σ)) : (c : EngineCall) -> AroundM σ (Except Error c.Answer)
  | .across c => (host.onLink c.run).run
  | .call function this args => (host.call function this args).run
  | .executePendingJob => host.executePendingJob.run
  | .takeRejections => onLink OwnerM.takeRejections.run

/-- The engine can be used as before, and its memory has the same blocks. -/
def Balanced (act : AroundM σ α) : Prop :=
  ∀ x : Link × σ, x.1.Usable -> (act.run x).2.1.Usable ∧ (act.run x).2.1.memory.allocated = x.1.memory.allocated

/-- An engine that can be used, with these blocks in its memory. -/
structure Holds (extents : List (Nat × Nat)) (x : Link × σ) : Prop where
  usable : x.1.Usable
  extents : x.1.memory.extents = extents

variable {x : Link × σ} {base : List (Nat × Nat)} {interrupted : AroundM σ Bool} {answer : Invocation -> AroundM σ Ptr}

theorem Balanced.holds {act : AroundM σ α} (balanced : Balanced act) (held : Holds base x) : Holds base (act.run x).2 := by
  obtain ⟨usable, same⟩ := balanced x held.usable
  exact ⟨usable, (Memory.extents_of_allocated held.usable.memory usable.memory same).trans held.extents⟩

theorem balanced_of_holds {act : AroundM σ α} (holds : ∀ x base, Holds base x -> Holds base (act.run x).2) : Balanced act := by
  intro x usable
  obtain ⟨usable', extents⟩ := holds x _ ⟨usable, rfl⟩
  exact ⟨usable', Memory.allocated_congr extents⟩

theorem perform_usable (q : Ask) {l : Link} (usable : l.Usable) : (q.perform.run l).2.Usable :=
  ⟨q.perform_faultless.2 usable.clear, (q.perform_later l).wellFormed usable.memory⟩

theorem run_through (act : Asking α) (x : Link × σ) :
    (act.through fun q => onLink (σ := σ) q.perform).run x = ((act.perform.run x.1).1, ((act.perform.run x.1).2, x.2)) := by
  induction act generalizing x with
  | done a => rfl
  | ask q next ih => exact ih _ _

theorem outcome_onLink (act : LinkM α) (x : Link × σ) :
    outcome ((host interrupted answer).onLink act) x = ((Link.answered act x.1).1, ((Link.answered act x.1).2, x.2)) :=
  run_through act.run x

theorem holds_onLink {act : LinkM α} (neat : Link.Neat act) (held : Holds base x) :
    Holds base (outcome ((host interrupted answer).onLink act) x).2 := by
  rw [outcome_onLink]
  exact ⟨held.usable.answered act, (neat x.1 held.usable).trans held.extents⟩

end AroundM

namespace Stage

/-- What a stage keeps in the engine's memory while it waits. -/
def blocks : Stage -> List (Nat × Nat)
  | done _ | checking _ => []
  | calling _ frame => frame.blocks

/-- How often the host has its turn from here on, at most. -/
def turns : Stage -> Nat
  | done _ => 0
  | checking check => check.turns
  | calling .. => 1

end Stage

theorem Engine.Follows.stage {s s' : Engine} {refused : Scalar} {turns : Nat} {stage : Stage}
    (follows : s.Follows refused turns stage s') (some : 2 ≤ turns) :
    s'.memory.extents = stage.blocks ++ s.memory.extents ∧ stage.turns < turns := by
  cases stage with
  | done result => exact ⟨congrArg Memory.extents follows.1, Nat.lt_of_lt_of_le Nat.zero_lt_two some⟩
  | checking check => exact ⟨congrArg Memory.extents follows.1.memory, follows.2.2⟩
  | calling inv frame => exact ⟨follows.1, some⟩

namespace AroundM

variable {σ α : Type} {x : Link × σ} {base : List (Nat × Nat)} {interrupted : AroundM σ Bool}
  {answer : Invocation -> AroundM σ Ptr}

/-- However often the host has its turn, only what was there before is left when the engine has answered. -/
theorem runStages_holds (polls : Balanced interrupted) (answers : ∀ inv, Balanced (answer inv)) {left : Nat} {stage : Stage}
    (enough : stage.turns ≤ left) (held : Holds (stage.blocks ++ base) x) :
    Holds base (((host interrupted answer).runStages left stage).run x).2 := by
  induction left generalizing stage x with
  | zero =>
    cases stage with
    | done result => exact held
    | checking check => exact held
    | calling inv frame => exact absurd enough (Nat.not_succ_le_zero 0)
  | succ left ih =>
    cases stage with
    | done result => exact held
    | checking check =>
      have polled := polls.holds held
      let next := (interrupted.run x).2.1.engine.afterCheck (interrupted.run x).1 check
      have follows : Engine.Follows _ _ _ next.1 next.2 := Engine.afterCheck_follows polled.usable.memory _ check
      obtain ⟨extents, fewer⟩ := follows.stage (by cases check <;> exact Nat.le_of_ble_eq_true rfl)
      have advanced : Holds (next.1.blocks ++ base)
          ({ (interrupted.run x).2.1 with engine := next.2 }, (interrupted.run x).2.2) :=
        ⟨perform_usable (.check _ check) polled.usable, extents.trans (congrArg (next.1.blocks ++ ·) polled.extents)⟩
      exact ih (Nat.le_of_lt_succ (Nat.lt_of_lt_of_le fewer enough)) advanced
    | calling inv frame =>
      have answered := (answers inv).holds held
      exact ⟨perform_usable (.resume _ frame) answered.usable,
        Engine.afterHost_extents _ _ frame answered.usable.memory answered.extents⟩

theorem runExport_holds (polls : Balanced interrupted) (answers : ∀ inv, Balanced (answer inv)) (c : Calling)
    (held : Holds base x) : Holds base (((host interrupted answer).runExport c).run x).2 := by
  have direct : x.1.intercept c.name = (none, x.1) := Link.intercept_of_faultless held.usable.clear
  have asked : ((host interrupted answer).ask (.intercept c.name)).run x = (none, x) := by
    change ((x.1.intercept c.name).1, ((x.1.intercept c.name).2, x.2)) = _
    rw [direct]
  have follows := Engine.first_follows x.1.engine c
  obtain ⟨extents, fewer⟩ := follows.stage (by decide)
  simp only [Host.runExport, StateT.run_bind, asked]
  exact runStages_holds polls answers (Nat.le_of_lt_succ fewer)
    ⟨perform_usable (.start c) held.usable, extents.trans (congrArg _ held.extents)⟩

theorem runTyped_holds {β : Type} (polls : Balanced interrupted) (answers : ∀ inv, Balanced (answer inv)) (c : Calling)
    (take : Scalar -> Option β) (unfit : String) (held : Holds base x) :
    Holds base (outcome ((host interrupted answer).runTyped c take unfit) x).2 := by
  have answered := runExport_holds polls answers c held
  simp only [Host.runTyped, outcome_mk, StateT.run_bind]
  generalize ((host interrupted answer).runExport c).run x = r at *
  obtain ⟨_ | s, x'⟩ := r
  next => exact answered
  next =>
    change Holds base (StateT.run (_ : AroundM σ (Except Error β)) x').2
    dsimp only
    split <;> exact answered

/-- The blocks that are there before are those that are there afterwards. -/
def Restores (x x' : Link × σ) : Prop :=
  ∀ base, Holds base x -> Holds base x'

theorem restoring : Way (Restores (σ := σ)) :=
  ⟨fun _ _ held => held, fun first second base held => second base (first base held)⟩

theorem outcome_table (interrupted : AroundM σ Bool) (answer : Invocation -> AroundM σ Ptr) (args : List Ptr)
    (held : Holds base x) {r : Except Error Addr × (Link × σ)}
    (done : outcome ((host interrupted answer).onLink (if args.isEmpty then pure 0 else Link.writeTable args)) x = r) :
    ∃ size, Holds (Link.tableBlocks size r.1 ++ base) r.2 := by
  rw [outcome_onLink] at done
  subst done
  by_cases empty : args.isEmpty = true
  next =>
    simp only [empty, if_true]
    exact ⟨0, held⟩
  next =>
    simp only [empty, Bool.false_eq_true, if_false]
    obtain ⟨size, extents, -⟩ := Link.writeTable_blocks held.usable args
    exact ⟨size, held.usable.answered _, extents.trans (congrArg _ held.extents)⟩

theorem freeTable_holds (interrupted : AroundM σ Bool) (answer : Invocation -> AroundM σ Ptr) {table : Addr} {size : Nat}
    (held : Holds (Link.tableBlocks size (.ok table) ++ base) x) :
    Holds base (outcome ((host interrupted answer).onLink (if table = 0 then pure () else Link.free table)) x).2 := by
  rw [outcome_onLink]
  by_cases zero : table = 0
  next =>
    simp only [Link.tableBlocks, zero, if_true] at held ⊢
    exact held
  next =>
    simp only [Link.tableBlocks, zero, if_false] at held ⊢
    exact ⟨held.usable.answered _, Memory.extents_free_top held.usable.memory held.extents⟩

theorem outcome_lifted {τ β : Type} (act : ExceptT Error (StateM τ) α) (f : Except Error α -> ExceptT Error (StateM τ) β)
    (s : τ) : outcome (ExceptT.lift act.run >>= f) s = outcome (f (outcome act s).1) (outcome act s).2 :=
  rfl

/-- The table of arguments goes before the answer is looked at. -/
theorem call_holds (polls : Balanced interrupted) (answers : ∀ inv, Balanced (answer inv)) (function this : Ptr)
    (args : List Ptr) (held : Holds base x) : Holds base (outcome ((host interrupted answer).call function this args) x).2 := by
  rw [Host.call, outcome_bind]
  obtain ⟨size, held⟩ := outcome_table interrupted answer args held rfl
  generalize outcome ((host interrupted answer).onLink (if args.isEmpty then _ else _)) x = r at *
  obtain ⟨_ | table, x₁⟩ := r
  next => exact held
  next =>
    have ran := runTyped_holds polls answers (.call function this (UInt32.ofNat args.length) table) Scalar.word?
      "export returned a non-pointer value" held
    have freed := freeTable_holds interrupted answer ran
    have raised : Leads Restores ((host interrupted answer).onLink Link.takeLastError) :=
      fun x base held => holds_onLink Link.settles_takeLastError.extents held
    dsimp only
    rw [outcome_lifted, outcome_bind]
    generalize outcome ((host interrupted answer).onLink (if table = 0 then _ else _)) _ = r at *
    obtain ⟨_ | _, x₂⟩ := r
    next => exact freed
    next =>
      refine (?_ : Leads Restores _) x₂ base freed
      split
      next => exact restoring.throw _
      next =>
        split
        next =>
          refine restoring.bind raised fun exception => ?_
          split
          next => exact restoring.pure _
          next => exact restoring.throw _
        next => exact restoring.pure _

theorem perform_balanced (polls : Balanced interrupted) (answers : ∀ inv, Balanced (answer inv)) (c : EngineCall) :
    Balanced (perform (host interrupted answer) c) := by
  refine balanced_of_holds fun x base held => ?_
  cases c with
  | across c => exact holds_onLink c.neat held
  | call function this args => exact call_holds polls answers function this args held
  | executePendingJob =>
    have ran : Leads Restores ((host interrupted answer).runTyped .job Scalar.i32? "export returned a non-integer value") :=
      fun x base held => runTyped_holds polls answers _ _ _ held
    exact restoring.bind ran (fun n => restoring.pure _) x base held
  | takeRejections =>
    have recovers := Link.takeRejections_recovers held.usable
    exact ⟨recovers.usable, recovers.extents.trans held.extents⟩

end AroundM

/-- What can be done to an engine, by its owner and by anybody. -/
inductive EngineUse where
  | request (r : Request)
  | install
  | ask (q : Ask)
  | call (c : EngineCall)

namespace AroundM

variable {σ α β : Type} {interrupted : AroundM σ Bool} {answer : Invocation -> AroundM σ Ptr}

def step (host : Host (AroundM σ)) (x : Link × σ) : EngineUse -> Link × σ
  | .request r => (((Link.meet r).run x.1).2, x.2)
  | .install => (x.1.installHost, x.2)
  | .ask q => ((q.perform.run x.1).2, x.2)
  | .call c => ((perform host c).run x).2

/-- A new engine after it has been used for some time. -/
def after (host : Host (AroundM σ)) (uses : List EngineUse) (s : σ) : Link × σ :=
  uses.foldl (step host) (Link.empty, s)

theorem meet_usable (r : Request) {l : Link} (usable : l.Usable) : ((Link.meet r).run l).2.Usable := by
  refine ⟨(Link.meet_faultless r).2 usable.clear, ?_⟩
  by_cases limits : ∃ limit, r = .setMemoryLimit limit
  next =>
    obtain ⟨limit, rfl⟩ := limits
    rw [Link.meet, Link.unlessFaulty_clear usable.clear]
    exact ⟨usable.memory.apart, usable.memory.below, usable.memory.first, usable.memory.last, usable.memory.used⟩
  next =>
    have remembers := Engine.perform_remembers r fun limit same => limits ⟨limit, same⟩
    have later : l.engine.memory.Later ((Link.meet r).run l).2.engine.memory :=
      Link.unlessFaulty_leads (R := fun s t : Engine => s.memory.Later t.memory) (fun s => .refl s.memory) remembers
    exact later.wellFormed usable.memory

theorem step_usable (polls : Balanced interrupted) (answers : ∀ inv, Balanced (answer inv)) (u : EngineUse) {x : Link × σ}
    (usable : x.1.Usable) : (step (host interrupted answer) x u).1.Usable := by
  cases u with
  | request r => exact meet_usable r usable
  | install => exact ⟨usable.clear, usable.memory⟩
  | ask q => exact perform_usable q usable
  | call c => exact (perform_balanced polls answers c x usable).1

theorem after_usable (polls : Balanced interrupted) (answers : ∀ inv, Balanced (answer inv)) (uses : List EngineUse) (s : σ) :
    (after (host interrupted answer) uses s).1.Usable := by
  have used (x : Link × σ) (usable : x.1.Usable) : (uses.foldl (step (host interrupted answer)) x).1.Usable := by
    induction uses generalizing x with
    | nil => exact usable
    | cons u rest ih => exact ih _ (step_usable polls answers u usable)
  exact used _ ⟨rfl, Memory.wellFormed_empty⟩

theorem balanced_pure (a : α) : Balanced (pure a : AroundM σ α) :=
  fun _ usable => ⟨usable, rfl⟩

theorem Balanced.bind {act : AroundM σ α} {f : α -> AroundM σ β} (first : Balanced act) (rest : ∀ a, Balanced (f a)) :
    Balanced (act >>= f) := by
  intro x usable
  obtain ⟨usable', same⟩ := first x usable
  obtain ⟨usable'', same'⟩ := rest (act.run x).1 (act.run x).2 usable'
  exact ⟨usable'', same'.trans same⟩

/-- A host function that answers with a new text, for which it uses memory itself. -/
def greet (_ : Invocation) : AroundM Unit Ptr := do
  match <- perform (host (pure false) fun _ => pure 0) (.across (.newString "hello")) with
  | .ok p => pure p
  | .error _ => pure 0

/-- An engine of 40 bytes with a function of the host. -/
def greeter : List EngineUse :=
  [.request .newRuntime, .request (.setMemoryLimit 40), .request .newContext, .install,
    .call (.across (.newFunction 7 "greet"))]

end AroundM

end ScriptHost
