import ScriptHost.Proofs.Engine.Raising
import ScriptHost.Proofs.Link.Reading

set_option autoImplicit false

/-!
Calls across the link that leave the engine composed.

Such a call leaves no exception behind and none of its blocks, whether it succeeds or fails. Where it has to take
the text of an exception, it needs room for that of the error that there is no memory.
-/

namespace ScriptHost

namespace Heap

variable {h : Heap}

theorem newError_told (h : Heap) (message : String) (some : (h.newError message).1 ≠ 0) :
    (h.newError message).2.display (h.newError message).1 = errorText message := by
  unfold newError newString at some ⊢
  rcases insert_plants h (.string message) with ⟨text, n, -, big, -, made⟩ | ⟨-, made⟩
  · rw [made] at some ⊢
    dsimp only at some ⊢
    let mid : Heap := { h with cells := h.cells.set text ⟨1, .string message⟩, next := n }
    rcases insert_plants mid (errorValue text) with ⟨p, n', -, big', absent, made'⟩ | ⟨-, made'⟩
    · have apart : p ≠ text := by
        rintro rfl
        simp [mid] at absent
      change (mid.insert (errorValue text)).2.display (mid.insert (errorValue text)).1 = _
      rw [made']
      exact display_error big' big (by simp [get?]) (by simp [get?, mid, apart])
    · exact absurd (congrArg Prod.fst made') some
  · -- Without a pointer for the text there is none for the error either.
    have none : (h.insert (errorValue 0)).1 = 0 := (insert_same_pointer h _ _).trans (congrArg Prod.fst made)
    have held : (Value.string message).children = [] := rfl
    rw [made, held, releaseAll, freeAll_nil] at some
    exact absurd none some

/-- Unless no pointer is left for it, the error that is raised has the message as its text. -/
theorem raiseMessage_told (calm : h.exception = none) (message : String) :
    ∃ p, (h.raiseMessage message).exception = some p ∧
      (p ≠ 0 -> ({ h.raiseMessage message with exception := none } : Heap).display p = errorText message) := by
  have still := (exception_newError h message).trans calm
  refine ⟨(h.newError message).1, ?_, fun nonzero => ?_⟩
  next => simp only [raiseMessage, setException, still]
  next =>
    have same :
        ({ h.raiseMessage message with exception := none } : Heap) =
          { (h.newError message).2 with exception := none } := by
      simp only [raiseMessage, setException, still]
    rw [same, ← newError_told h message nonzero]
    exact displayTo_congr (h.newError message).2 { (h.newError message).2 with exception := none } (fun _ => rfl) _ _

end Heap

namespace Link

variable {α β : Type} {l l' l'' : Link} {p q : Ptr} {r : Request} {j k : Option Nat} {operation : String}

structure Usable (l : Link) : Prop where
  clear : l.faults = Table.empty
  memory : l.memory.WellFormed

def Calm (l : Link) : Prop :=
  l.engine.heap.exception = none

/-- Room for a text of this size, where one is needed. -/
def Spare (l : Link) : Option Nat -> Prop
  | none => True
  | some k =>
      (∀ limit, l.memory.limit = some limit -> l.memory.used + k ≤ limit) ∧ l.memory.next + 24 ≤ Memory.lastAddress

section States

theorem answered_later (act : LinkM α) (l : Link) : l.memory.Later (answered act l).2.memory :=
  Dialogue.through_leads (R := fun l l' : Link => l.memory.Later l'.memory) (fun l => .refl l.memory) .trans
    (fun q _ l => q.perform_later l) (Dialogue.only_any act.run) l

theorem Usable.answered (usable : l.Usable) (act : LinkM α) : (Link.answered act l).2.Usable :=
  ⟨answered_faultless act usable.clear, (answered_later act l).wellFormed usable.memory⟩

/-- Room that is there in the end was there before. -/
theorem Spare.before (spare : l'.Spare k) (kept : l.memory.Kept l'.memory) (ok : l.memory.WellFormed) : l.Spare k := by
  cases k with
  | none => trivial
  | some k =>
    obtain ⟨bytes, last⟩ := spare
    refine ⟨fun limit set => ?_, Nat.le_trans (Nat.add_le_add_right kept.next 24) last⟩
    rw [← kept.used ok]
    exact bytes limit (kept.limit.trans set)

theorem Spare.less {few more : Nat} (spare : l.Spare (some more)) (le : few ≤ more) : l.Spare (some few) :=
  ⟨fun limit set => Nat.le_trans (Nat.add_le_add_left le _) (spare.1 limit set), spare.2⟩

theorem Spare.spells (spare : l.Spare (some 21)) : l.Spells (Heap.errorText Engine.outOfMemory) := by
  have span : Memory.span 21 = 24 := rfl
  refine ⟨?_, by rw [size_outOfMemory, span]; exact spare.2⟩
  rw [size_outOfMemory]
  unfold Memory.withinLimit
  split
  next => rfl
  next limit set => exact decide_eq_true (spare.1 limit set)

end States

structure Composes (k : Option Nat) (l l' : Link) : Prop where
  extents : l'.memory.extents = l.memory.extents
  calm : l.Calm -> l'.Spare k -> l'.Calm

/-- The blocks of memory are where they were. -/
def Neat (act : LinkM α) : Prop :=
  ∀ l : Link, l.Usable -> (answered act l).2.memory.extents = l.memory.extents

/-- With room for a text of this size in the end, there is no exception then. -/
structure Composed (k : Option Nat) (act : LinkM α) : Prop where
  extents : Neat act
  calm : ∀ l : Link, l.Usable -> l.Calm -> (answered act l).2.Spare k -> (answered act l).2.Calm

/-- An exception that was there before is gone as well. -/
structure Settles (k : Option Nat) (act : LinkM α) : Prop where
  extents : Neat act
  calm : ∀ l : Link, l.Usable -> (answered act l).2.Spare k -> (answered act l).2.Calm

section Rules

variable {act : LinkM α} {f : α -> LinkM β}

theorem kept_of_extents (extents : (answered act l).2.memory.extents = l.memory.extents) :
    l.memory.Kept (answered act l).2.memory :=
  ⟨answered_later act l, fun _ => extents⟩

theorem Composes.refl (l : Link) : Composes k l l :=
  ⟨rfl, fun calm _ => calm⟩

theorem Composed.composes (composed : Composed k act) (usable : l.Usable) : Composes k l (answered act l).2 :=
  ⟨composed.extents l usable, composed.calm l usable⟩

theorem Composed.of_composes (composes : ∀ l : Link, l.Usable -> Composes k l (answered act l).2) : Composed k act :=
  ⟨fun l usable => (composes l usable).extents, fun l usable => (composes l usable).calm⟩

theorem Composed.kept (composed : Composed k act) (usable : l.Usable) : l.memory.Kept (answered act l).2.memory :=
  kept_of_extents (composed.extents l usable)

theorem Settles.composed (settles : Settles k act) : Composed k act :=
  ⟨settles.extents, fun l usable _ => settles.calm l usable⟩

theorem composed_pure (a : α) : Composed k (pure a) :=
  ⟨fun _ _ => rfl, fun _ _ calm _ => calm⟩

theorem composed_throw (e : Error) : Composed k (throw e : LinkM α) :=
  ⟨fun _ _ => rfl, fun _ _ calm _ => calm⟩

theorem composed_ofExcept (r : Except Error α) : Composed k (ofExcept r) := by
  cases r <;> exact ⟨fun _ _ => rfl, fun _ _ calm _ => calm⟩

theorem Neat.bind (first : Neat act) (rest : ∀ a, Neat (f a)) : Neat (act >>= f) := by
  intro l usable
  have before := first l usable
  have usable' := usable.answered act
  rw [answered_bind]
  generalize answered act l = r at *
  obtain ⟨_ | a, l'⟩ := r
  next => exact before
  next => exact (rest a l' usable').trans before

theorem Neat.attempt (neat : Neat act) : Neat (attempt act) := by
  intro l usable
  rw [answered_attempt]
  exact neat l usable

theorem Composed.bind (first : Composed k act) (rest : ∀ a, Composed k (f a)) : Composed k (act >>= f) := by
  refine ⟨first.extents.bind fun a => (rest a).extents, fun l usable calm spare => ?_⟩
  have before := first.calm l usable calm
  have usable' := usable.answered act
  rw [answered_bind] at spare ⊢
  generalize answered act l = r at *
  obtain ⟨_ | a, l'⟩ := r
  next => exact before spare
  next => exact (rest a).calm l' usable' (before (spare.before ((rest a).kept usable') usable'.memory)) spare

theorem Settles.bind_pure (first : Settles k act) (rest : ∀ a, Composed k (f a)) : Settles k (act >>= f) := by
  constructor
  next => exact (first.composed.bind rest).extents
  next =>
    intro l usable spare
    have before := first.calm l usable
    have usable' := usable.answered act
    rw [answered_bind] at spare ⊢
    generalize answered act l = r at *
    obtain ⟨_ | a, l'⟩ := r
    next => exact before spare
    next => exact (rest a).calm l' usable' (before (spare.before ((rest a).kept usable') usable'.memory)) spare

theorem Composed.attempt (composed : Composed k act) : Composed k (attempt act) := by
  refine ⟨composed.extents.attempt, fun l usable calm spare => ?_⟩
  rw [answered_attempt] at spare ⊢
  exact composed.calm l usable calm spare

theorem Composed.more (composed : Composed j act) (less : ∀ l : Link, l.Spare k -> l.Spare j) : Composed k act :=
  ⟨composed.extents, fun l usable calm spare => composed.calm l usable calm (less _ spare)⟩

theorem Composed.within {few more : Nat} (composed : Composed (some few) act) (le : few ≤ more) :
    Composed (some more) act :=
  composed.more fun _ spare => spare.less le

theorem Composed.anyhow (composed : Composed none act) : Composed k act :=
  composed.more fun _ _ => trivial

/-- What a composed call does to a link that can be used, and several of them one after the other. -/
structure Recovers (l l' : Link) : Prop extends Composes (some 29) l l' where
  usable : l'.Usable
  later : l.memory.Later l'.memory

theorem recovers_way : Way fun l l' : Link => l.Usable -> Recovers l l' where
  refl l usable := ⟨.refl l, usable, .refl l.memory⟩
  trans {l l' l''} first second usable := by
    have first := first usable
    have second := second first.usable
    refine ⟨⟨second.extents.trans first.extents, fun calm spare => second.calm (first.calm calm ?_) spare⟩,
      second.usable, first.later.trans second.later⟩
    exact spare.before ⟨second.later, fun _ => second.extents⟩ first.usable.memory

theorem Composed.recovers (composed : Composed (some 29) act) (usable : l.Usable) : Recovers l (answered act l).2 :=
  ⟨composed.composes usable, usable.answered act, answered_later act l⟩

end Rules

section Requests

variable {c : r.isReserved = false}

theorem answered_request_clear (clear : l.faults = Table.empty) :
    answered (request r c) l =
      ((outcome (Engine.perform r) l.engine).1, l.withEngine (outcome (Engine.perform r) l.engine).2) :=
  unlessFaulty_clear clear _ _ _

theorem composed_request (mute : Engine.Mute r) : Composed none (request r c) := by
  have discreet := Engine.perform_discreet r mute
  constructor
  next =>
    intro l usable
    rw [answered_request_clear usable.clear]
    exact (discreet l.engine).1.extents usable.memory
  next =>
    intro l usable calm _
    rw [answered_request_clear usable.clear]
    exact (discreet l.engine).2.trans calm

theorem composed_word (mute : Engine.Mute r) : Composed none (word r c) :=
  (composed_request mute).bind fun _ => composed_ofExcept _

theorem composed_int (mute : Engine.Mute r) : Composed none (int r c) := by
  refine (composed_request mute).bind fun s => ?_
  split
  next => exact composed_pure _
  next => exact composed_throw _

theorem composed_freeValue (p : Ptr) : Composed none (freeValue p) :=
  (composed_request (r := .freeValue p) trivial).attempt.bind fun _ => composed_pure _

theorem composed_freeValues (ps : List Ptr) : Composed none (freeValues ps) := by
  induction ps with
  | nil => exact composed_pure _
  | cons p rest ih => exact (composed_freeValue p).bind fun _ => ih

theorem pending_of_nonzero {exception : Option Ptr} (taken : Ptr.nonzero? (exception.getD 0) = some p) :
    exception = some p := by
  cases exception with
  | none => cases taken
  | some q =>
    unfold Ptr.nonzero? at taken
    split at taken
    next => cases taken
    next => exact taken

theorem settles_takeLastError : Settles none takeLastError := by
  constructor
  next =>
    intro l usable
    rw [answered_takeLastError usable.clear]
    rfl
  next =>
    intro l usable _
    rw [answered_takeLastError usable.clear]
    rfl

end Requests

section Failures

/-- What is read of an exception that is not pending any more. -/
def explain (depth : Nat) (exception : Ptr) : LinkM String := do
  let block <- word (.toCString exception) (rfl : false = false)
  if block = 0 then throw (<- failureWithin depth (Request.toCString exception).name)
  else readText block

/-- An engine whose exception has been taken. -/
def eased (l : Link) : Link :=
  l.withEngine { l.engine with heap := { l.engine.heap with exception := none } }

theorem Usable.eased (usable : l.Usable) : l.eased.Usable :=
  ⟨usable.clear, usable.memory⟩

theorem answered_failureWithin (usable : l.Usable) (depth : Nat) (operation : String) :
    answered (failureWithin (depth + 1) operation) l =
      match Ptr.nonzero? (l.engine.heap.exception.getD 0) with
      | none => (.ok (unexplained operation), l.eased)
      | some exception =>
          (.ok (.foreign operation (diagnosis (answered (explain depth exception) l.eased).1)),
            (answered (explain depth exception) l.eased).2.released exception) := by
  have taken := answered_takeLastError usable.clear
  rw [failureWithin, answered_bind, answered_attempt, taken]
  cases Ptr.nonzero? (l.engine.heap.exception.getD 0) with
  | none => rfl
  | some exception =>
    have clear := (usable.eased.answered (explain depth exception)).clear
    have freed := answered_free_value clear exception
    change answered (attempt (explain depth exception) >>= _) l.eased = _
    rw [answered_bind, answered_attempt]
    dsimp only
    rw [answered_bind, freed]
    rfl

theorem failureWithin_succ (usable : l.Usable) (depth : Nat) (operation : String) :
    (answered (failureWithin (depth + 1) operation) l).2 =
      match Ptr.nonzero? (l.engine.heap.exception.getD 0) with
      | none => l.eased
      | some exception => (answered (explain depth exception) l.eased).2.released exception := by
  rw [answered_failureWithin usable]
  split <;> rfl

theorem extents_respelled (usable : l.Usable) {s : String} (fits : l.Spells s) :
    (l.respelled s).memory.extents = l.memory.extents := by
  have ok := Memory.topped_wellFormed usable.memory fits.2 (Memory.terminated s)
  exact Memory.extents_free_top (m := (l.spelled s).memory) ok
    (by rw [Memory.toNat_next usable.memory]; rfl)

theorem answered_explain_fits (usable : l.Usable) (fits : l.Spells (l.engine.heap.display p)) (depth : Nat) :
    answered (explain depth p) l =
      (.ok (Text.untilNul (l.engine.heap.display p)), l.respelled (l.engine.heap.display p)) := by
  have asked : answered (word (.toCString p)) l = (.ok (UInt32.ofNat l.memory.next), l.spelled _) :=
    answered_word usable.clear (outcome_toCString_fits usable.memory fits)
  simp only [explain, answered_bind, asked, Memory.next_nonzero usable.memory, if_false,
    answered_readText usable.clear usable.memory]

/-- An engine that has found no memory. -/
def exhausted (l : Link) : Link :=
  l.withEngine { l.engine with heap := l.engine.heap.raiseMessage Engine.outOfMemory }

theorem Usable.exhausted (usable : l.Usable) : l.exhausted.Usable :=
  ⟨usable.clear, usable.memory⟩

theorem answered_explain_refused (usable : l.Usable) (unfit : ¬l.Spells (l.engine.heap.display p)) (depth : Nat) :
    (answered (explain depth p) l).2 =
      (answered (failureWithin depth (Request.toCString p).name) l.exhausted).2 := by
  have asked : answered (word (.toCString p)) l = (.ok 0, l.exhausted) :=
    answered_word usable.clear (outcome_toCString_refused unfit)
  simp only [explain, answered_bind, asked, if_true]
  generalize answered (failureWithin depth _) l.exhausted = r
  obtain ⟨_ | _, _⟩ := r <;> rfl

theorem extents_explain (usable : l.Usable) {depth : Nat}
    (deeper : ∀ l : Link, l.Usable -> ∀ operation,
      (answered (failureWithin depth operation) l).2.memory.extents = l.memory.extents) :
    (answered (explain depth p) l).2.memory.extents = l.memory.extents := by
  by_cases fits : l.Spells (l.engine.heap.display p)
  next =>
    rw [answered_explain_fits usable fits]
    exact extents_respelled usable fits
  next =>
    rw [answered_explain_refused usable fits]
    exact deeper _ usable.exhausted _

theorem extents_failureWithin (depth : Nat) (usable : l.Usable) (operation : String) :
    (answered (failureWithin depth operation) l).2.memory.extents = l.memory.extents := by
  induction depth generalizing l operation with
  | zero => rfl
  | succ depth ih =>
    rw [failureWithin_succ usable]
    split
    next => rfl
    next => exact extents_explain usable.eased fun l usable operation => ih usable operation

theorem calm_failure (usable : l.Usable) (calm : l.Calm) (operation : String) :
    (answered (failure operation) l).2.Calm := by
  have none : Ptr.nonzero? (l.engine.heap.exception.getD 0) = none := by
    rw [show l.engine.heap.exception = none from calm]
    rfl
  change (answered (failureWithin (999 + 1) operation) l).2.Calm
  rw [failureWithin_succ usable, none]
  rfl

theorem composed_failure : Composed none (failure operation) :=
  ⟨fun _ usable => extents_failureWithin _ usable operation, fun _ usable calm _ => calm_failure usable calm operation⟩

/-- The text of the error that there is no memory is short enough to be taken. -/
theorem calm_exhausted (usable : l.Usable) (calm : l.Calm) (depth : Nat)
    (spare : (answered (failureWithin (depth + 1) operation) l.exhausted).2.Spare (some 21)) :
    (answered (failureWithin (depth + 1) operation) l.exhausted).2.Calm := by
  obtain ⟨e, raised, told⟩ := Heap.raiseMessage_told calm Engine.outOfMemory
  have raised : l.exhausted.engine.heap.exception = some e := raised
  have eased : l.exhausted.eased.Usable := usable.exhausted.eased
  rw [failureWithin_succ usable.exhausted, raised, Option.getD_some] at spare ⊢
  by_cases zero : e = 0
  next =>
    rw [zero]
    rfl
  next =>
    have nonzero : Ptr.nonzero? e = some e := if_neg zero
    simp only [nonzero] at spare ⊢
    have text : l.exhausted.eased.engine.heap.display e = Heap.errorText Engine.outOfMemory := told zero
    have kept : l.exhausted.eased.memory.Kept (answered (explain depth e) l.exhausted.eased).2.memory :=
      kept_of_extents (extents_explain eased fun l usable operation => extents_failureWithin depth usable operation)
    have before : l.exhausted.eased.Spare (some 21) := Spare.before spare kept eased.memory
    rw [answered_explain_fits eased (text ▸ before.spells)]
    rfl

theorem settles_failure : Settles (some 21) (failure operation) := by
  refine ⟨fun _ usable => extents_failureWithin _ usable operation, fun l usable spare => ?_⟩
  change (answered (failureWithin (998 + 1 + 1) operation) l).2.Spare _ at spare
  change (answered (failureWithin (998 + 1 + 1) operation) l).2.Calm
  rw [failureWithin_succ usable] at spare ⊢
  cases exception : Ptr.nonzero? (l.engine.heap.exception.getD 0) with
  | none => rfl
  | some e =>
    simp only [exception] at spare ⊢
    by_cases fits : l.eased.Spells (l.eased.engine.heap.display e)
    next =>
      rw [answered_explain_fits usable.eased fits]
      rfl
    next =>
      have asked := answered_explain_refused usable.eased fits (998 + 1)
      rw [asked] at spare ⊢
      exact calm_exhausted usable.eased rfl 998 spare

end Failures

section Values

variable {c : r.isReserved = false}

theorem composed_value_mute (mute : Engine.Mute r) : Composed none (value r c) := by
  refine (composed_word mute).bind fun p => ?_
  split
  next => exact composed_failure.bind fun e => composed_throw e
  next => exact composed_pure p

theorem Settles.throw {act : LinkM Error} (settles : Settles k act) :
    Settles k (act >>= fun e => (throw e : LinkM α)) :=
  settles.bind_pure fun e => composed_throw e

theorem Composed.congr {act act' : LinkM α} (composed : Composed k act) (same : ∀ l, answered act' l = answered act l) :
    Composed k act' := by
  constructor
  next =>
    intro l usable
    rw [same]
    exact composed.extents l usable
  next =>
    intro l usable calm spare
    rw [same] at spare ⊢
    exact composed.calm l usable calm spare

/-- What a request answers is taken for something else. -/
def Takes (act : LinkM β) (r : Request) (take : Scalar -> Except Error β) : Prop :=
  ∀ l : Link, l.Usable -> answered act l =
    ((outcome (Engine.perform r) l.engine).1.bind take, l.withEngine (outcome (Engine.perform r) l.engine).2)

theorem takes_word : Takes (word r c) r (wordOf r) := by
  intro l usable
  rw [word, answered_bind, answered_request_clear usable.clear]
  generalize outcome (Engine.perform r) l.engine = x
  obtain ⟨_ | s, _⟩ := x
  next => rfl
  next => exact answered_ofExcept _ _

def intOf (r : Request) (s : Scalar) : Except Error Int32 :=
  match s.i32? with
  | some n => .ok n
  | none => .error (.foreign r.name "export returned a non-integer value")

theorem takes_int : Takes (int r c) r (intOf r) := by
  intro l usable
  rw [int, answered_bind, answered_request_clear usable.clear]
  generalize outcome (Engine.perform r) l.engine = x
  obtain ⟨_ | s, _⟩ := x
  next => rfl
  next =>
    cases number : s.i32? <;> simp [Except.bind, intOf, number]

/-- Where a request may raise an exception, it says so, and the host goes on from there. -/
theorem composed_told {failed : Scalar} {act : LinkM β} {take : Scalar -> Except Error β} {b : β}
    (takes : Takes act r take) (candid : Engine.Candid failed (Engine.perform r)) (told : take failed = .ok b)
    {f : Except Error β -> LinkM α} (settled : Settles k (f (.ok b))) (rest : ∀ x, Composed k (f x)) : Composed k (attempt act >>= f) := by
  have asked (l : Link) (usable : l.Usable) : answered (attempt act >>= f) l =
      answered (f ((outcome (Engine.perform r) l.engine).1.bind take))
        (l.withEngine (outcome (Engine.perform r) l.engine).2) := by
    rw [answered_bind, answered_attempt, takes l usable]
  have usable' (l : Link) (usable : l.Usable) : (l.withEngine (outcome (Engine.perform r) l.engine).2).Usable :=
    ⟨usable.clear, (candid.kept l.engine).wellFormed usable.memory⟩
  constructor
  next =>
    intro l usable
    rw [asked l usable]
    exact ((rest _).extents _ (usable' l usable)).trans ((candid.kept l.engine).extents usable.memory)
  next =>
    intro l usable calm spare
    rw [asked l usable] at spare ⊢
    by_cases same : (outcome (Engine.perform r) l.engine).1 = .ok failed
    next =>
      rw [same, Except.bind, told] at spare ⊢
      exact settled.calm _ (usable' l usable) spare
    next => exact (rest _).calm _ (usable' l usable) ((candid.told l.engine same).trans calm) spare

theorem Composed.of_attempt {act : LinkM β} {f : β -> LinkM α}
    (composed : Composed k (Link.attempt act >>= fun x => ofExcept x >>= f)) : Composed k (act >>= f) := by
  refine composed.congr fun l => ?_
  simp only [answered_bind, answered_attempt, answered_ofExcept]

theorem composed_value (refuses : Engine.refusal? r = some Engine.nullResult) : Composed (some 21) (value r c) := by
  refine Composed.of_attempt ?_
  refine composed_told takes_word (Engine.perform_candid r refuses) (b := 0) rfl settles_failure.throw fun x => ?_
  refine (composed_ofExcept x).bind fun p => ?_
  split
  next => exact settles_failure.throw.composed
  next => exact composed_pure p

theorem composed_confirm (refuses : Engine.refusal? r = some Engine.statusFailed) :
    Composed (some 21) (confirm r 0 c) := by
  refine Composed.of_attempt ?_
  refine composed_told takes_int (Engine.perform_candid r refuses) (b := -1) rfl settles_failure.throw fun x => ?_
  refine (composed_ofExcept x).bind fun n => ?_
  split
  next => exact composed_pure ()
  next => exact settles_failure.throw.composed

end Values

section Places

variable {act : Addr -> LinkM α} {size : Nat}

theorem composed_readBytes (a : Addr) (count : Nat) : Composed none (readBytes a count) := by
  constructor
  next =>
    intro l usable
    rw [answered_readBytes usable.clear]
  next =>
    intro l usable calm _
    rw [answered_readBytes usable.clear]
    exact calm

theorem composed_readWord (a : Addr) : Composed none (readWord a) := by
  refine (composed_readBytes a 4).bind fun bytes => ?_
  split
  next => exact composed_pure _
  next => exact composed_throw _

theorem composed_writeBytes (a : Addr) (bytes : ByteArray) : Composed none (writeBytes a bytes) := by
  have asked (l : Link) (usable : l.Usable) : answered (writeBytes a bytes) l = _ :=
    unlessFaulty_clear usable.clear _ _ (Engine.onMemory fun m => (m.write a bytes).map fun m => ((), m))
  constructor
  next =>
    intro l usable
    rw [asked l usable]
    cases done : (l.memory.write a bytes).map fun m => ((), m) with
    | error e =>
      rw [Engine.outcome_onMemory_error done]
      rfl
    | ok x =>
      rw [Engine.outcome_onMemory (a := x.1) (m := x.2) done]
      exact (Memory.kept_written done).extents usable.memory
  next =>
    intro l usable calm _
    rw [asked l usable]
    cases done : (l.memory.write a bytes).map fun m => ((), m) with
    | error e =>
      rw [Engine.outcome_onMemory_error done]
      exact calm
    | ok x =>
      rw [Engine.outcome_onMemory (a := x.1) (m := x.2) done]
      exact calm

/-- How much room is left beside a block of this size. -/
def Covers (size : Nat) : Option Nat -> Option Nat -> Prop
  | none, _ => True
  | some few, some more => few + size ≤ more
  | some _, none => False

theorem Usable.scratched (usable : l.Usable) (fits : l.memory.Fits size) (content : ByteArray) :
    (l.withMemory (l.memory.topped size content)).Usable :=
  ⟨usable.clear, Memory.topped_wellFormed usable.memory fits.2 content⟩

/-- What is composed beside a block is so without it. -/
theorem Composes.unscratched (content : ByteArray) {x : Except Error α × Link} (covers : Covers size j k)
    (usable : l.Usable) (usable' : x.2.Usable)
    (composes : Composes j (l.withMemory (l.memory.topped size content)) x.2) :
    Composes k l (Link.unscratched l.memory.next x).2 := by
  have top : x.2.memory.extents = ((UInt32.ofNat l.memory.next).toNat, size) :: l.memory.extents := by
    rw [composes.extents, Memory.toNat_next usable.memory]
    rfl
  have without := Memory.extents_free_top usable'.memory top
  refine ⟨without, fun calm spare => composes.calm calm ?_⟩
  cases j with
  | none => trivial
  | some few =>
    cases k with
    | none => exact covers.elim
    | some more =>
      obtain ⟨bytes, last⟩ := spare
      refine ⟨fun limit set => ?_, last⟩
      have before := usable'.memory.used
      have after := (usable'.memory.free (UInt32.ofNat l.memory.next)).used
      rw [top] at before
      rw [without] at after
      have enough := bytes limit set
      simp only [List.map_cons, List.sum_cons] at before
      change few + size ≤ more at covers
      change (x.2.memory.free (UInt32.ofNat l.memory.next)).used + more ≤ limit at enough
      change x.2.memory.used + few ≤ limit
      omega

/-- A call that uses a block for the time being is composed if it is so beside the block. -/
theorem composed_scratched {content : ByteArray} {whole : LinkM α} (covers : Covers size j k)
    (inside : ∀ l : Link, l.Usable -> l.memory.Fits size -> Composes j (l.withMemory (l.memory.topped size content))
      (answered (act (UInt32.ofNat l.memory.next)) (l.withMemory (l.memory.topped size content))).2)
    (fits : ∀ l : Link, l.Usable -> l.memory.Fits size -> answered whole l = Link.unscratched l.memory.next
      (answered (act (UInt32.ofNat l.memory.next)) (l.withMemory (l.memory.topped size content))))
    (refused : ∀ l : Link, l.Usable -> ¬l.memory.Fits size -> (answered whole l).2 = l) : Composed k whole := by
  refine .of_composes fun l usable => ?_
  by_cases room : l.memory.Fits size
  next =>
    rw [fits l usable room]
    exact .unscratched content covers usable ((usable.scratched room content).answered _) (inside l usable room)
  next =>
    rw [refused l usable room]
    exact .refl l

theorem composed_withBlock (covers : Covers size j k) (inside : ∀ a, Composed j (act a)) :
    Composed k (withBlock size act) :=
  composed_scratched covers (fun _ usable room => (inside _).composes (usable.scratched room _))
    (fun _ usable room => answered_withBlock_fits usable.clear usable.memory room)
    fun _ usable room => congrArg Prod.snd (answered_withBlock_refused usable.clear room)

theorem composed_withCString {s : String} (inside : ∀ a, Composed none (act a)) : Composed none (withCString s act) :=
  composed_scratched (j := none) trivial (fun _ usable room => (inside _).composes (usable.scratched room _))
    (fun _ usable room => answered_withCString_fits usable.clear usable.memory room)
    fun _ usable room => congrArg Prod.snd (answered_withCString_refused usable.clear room)

end Places

end Link

end ScriptHost
