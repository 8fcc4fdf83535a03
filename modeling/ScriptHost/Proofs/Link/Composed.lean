import ScriptHost.Proofs.Link.Composure
import ScriptHost.Proofs.Link.Properties

set_option autoImplicit false

/-!
That the typed calls across the link are composed.

Most of them ask for one thing only. Those that are answered with a block of memory free it themselves, so what they
do is followed from one block to the other.
-/

namespace ScriptHost

namespace Link

variable {α β : Type} {l l' l'' : Link} {p q : Ptr} {r : Request} {j k : Option Nat}

section Calls

theorem composed_dupValue (p : Ptr) : Composed (some 21) (dupValue p) :=
  composed_value rfl

theorem composed_undefined : Composed none undefined :=
  composed_value_mute (r := .getUndefined) trivial

theorem composed_null : Composed none null :=
  composed_value_mute (r := .getNull) trivial

theorem composed_newObject : Composed none newObject :=
  composed_value_mute (r := .newObject) trivial

theorem composed_newArray : Composed none newArray :=
  composed_value_mute (r := .newArray) trivial

theorem composed_boolean (b : Bool) : Composed none (boolean b) := by
  cases b with
  | true => exact composed_value_mute (r := .getTrue) trivial
  | false => exact composed_value_mute (r := .getFalse) trivial

theorem composed_newNumber (x : Binary64) : Composed none (newNumber x) :=
  composed_value_mute (r := .newFloat64 x) trivial

theorem composed_newString (s : String) : Composed none (newString s) :=
  composed_withCString fun text => composed_value_mute (r := .newString text) trivial

theorem composed_newError (message : String) : Composed none (newError message) :=
  composed_withCString fun text => composed_value_mute (r := .newError text) trivial

theorem composed_newFunction (id : FunctionId) (name : String) : Composed none (newFunction id name) :=
  composed_withCString fun text => composed_value_mute (r := .newFunction id text) trivial

theorem composed_newBytes (bytes : ByteArray) : Composed none (newBytes bytes) := by
  refine composed_withBlock (j := none) trivial fun block => ?_
  exact (composed_writeBytes block bytes).bind fun _ =>
    composed_value_mute (r := .newArrayBuffer block (UInt32.ofNat bytes.size)) trivial

theorem composed_newPromiseCapability : Composed none newPromiseCapability := by
  refine composed_withBlock (j := none) trivial fun out => ?_
  refine (composed_value_mute (r := .newPromiseCapability out) trivial).bind fun promise => ?_
  exact (composed_readWord out).bind fun _ => (composed_readWord (out + 4)).bind fun _ => composed_pure _

theorem composed_number (p : Ptr) : Composed none (number p) := by
  refine (composed_request (r := .getFloat64 p) trivial).bind fun s => ?_
  split
  next => exact composed_pure _
  next => exact composed_throw _

theorem composed_kind (p : Ptr) : Composed none (kind p) := by
  refine (composed_int (r := .typeOf p) trivial).bind fun tag => ?_
  split
  next => exact composed_pure _
  next => exact composed_throw _

theorem composed_promiseState (p : Ptr) : Composed none (promiseState p) := by
  refine (composed_int (r := .promiseState p) trivial).bind fun tag => ?_
  split
  next => exact composed_pure _
  next => exact composed_throw _

theorem composed_isEqual (a b : Ptr) (op : Equality) : Composed none (isEqual a b op) :=
  (composed_int (r := .isEqual a b op) trivial).bind fun _ => composed_pure _

theorem composed_withKey {key : String} {act : Ptr -> LinkM α} (inside : ∀ a, Composed k (act a)) :
    Composed k (withKey key act) := by
  refine (composed_newString key).anyhow.bind fun name => ?_
  refine (inside name).attempt.bind fun result => ?_
  exact (composed_freeValue name).anyhow.bind fun _ => composed_ofExcept result

theorem composed_promiseResult (p : Ptr) : Composed (some 21) (promiseResult p) :=
  composed_value rfl

theorem composed_promiseThen (p : Ptr) (onFulfilled onRejected : Option Ptr) :
    Composed (some 21) (promiseThen p onFulfilled onRejected) :=
  composed_value rfl

theorem composed_liveValueCount : Composed none liveValueCount :=
  (composed_int (r := .liveValueCount) trivial).bind fun _ => composed_pure _

theorem composed_isJobPending : Composed none isJobPending :=
  (composed_int (r := .isJobPending) trivial).bind fun _ => composed_pure _

theorem composed_readTable (a : Addr) (count : Nat) : Composed none (readTable a count) := by
  unfold readTable
  split
  next => exact composed_pure _
  next => exact (composed_readBytes a _).bind fun _ => composed_pure _

/-- The block that is left where a table has been made, which may be empty. -/
def tableBlocks (size : Nat) : Except Error Addr -> List (Nat × Nat)
  | .ok table => if table = 0 then [] else [(table.toNat, size)]
  | .error _ => []

theorem writeTable_blocks (usable : l.Usable) (ps : List Ptr) :
    ∃ size, (answered (writeTable ps) l).2.memory.extents =
        tableBlocks size (answered (writeTable ps) l).1 ++ l.memory.extents ∧
      (answered (writeTable ps) l).2.engine.heap = l.engine.heap := by
  refine ⟨max (Memory.encodeWords ps).size 4, ?_⟩
  by_cases fits : l.memory.Fits (max (Memory.encodeWords ps).size 4)
  next =>
    rw [writeTable, answered_writeBlock_fits usable.clear usable.memory (Nat.le_max_left ..) fits]
    simp only [tableBlocks, Memory.next_nonzero usable.memory, if_false, Memory.toNat_next usable.memory]
    exact ⟨rfl, rfl⟩
  next =>
    rw [writeTable, answered_writeBlock_refused usable.clear fits]
    exact ⟨rfl, rfl⟩

theorem neat_raise (p : Ptr) : Neat (raise p) := by
  intro l usable
  have asked := answered_request_clear (r := .raise p) (c := rfl) usable.clear
  simp only [raise, answered_bind, asked]
  rfl

/-- The exception is all that is left. -/
theorem neat_raiseError (message : String) : Neat (raiseError message) := by
  refine (composed_newError message).extents.bind fun error => (neat_raise error).attempt.bind fun result => ?_
  exact (composed_freeValue error).extents.bind fun _ => (composed_ofExcept (k := none) result).extents

theorem composed_getProp (object : Ptr) (key : String) : Composed (some 21) (getProp object key) :=
  composed_withKey fun _ => composed_value rfl

/-- The key is freed before the exception is taken. -/
theorem composed_setProp (object : Ptr) (key : String) (v : Ptr) : Composed (some 21) (setProp object key v) := by
  have freed (name : Ptr) {f : LinkM Unit} (settles : Settles (some 21) f) :
      Settles (some 21) (freeValue name >>= fun _ => f) := by
    have same (l : Link) (usable : l.Usable) :
        answered (freeValue name >>= fun _ => f) l = answered f (l.released name) := by
      rw [answered_bind, answered_free_value usable.clear]
    constructor
    next =>
      intro l usable
      rw [same l usable]
      exact settles.extents _ ⟨usable.clear, usable.memory⟩
    next =>
      intro l usable spare
      rw [same l usable] at spare ⊢
      exact settles.calm _ ⟨usable.clear, usable.memory⟩ spare
  let finish (status : Int32) : LinkM Unit :=
    if status = 1 then pure () else do throw (<- failure (Request.setProp object 0 v).name)
  have ending (status : Int32) : Composed (some 21) (finish status) := by
    unfold finish
    split
    next => exact composed_pure ()
    next => exact settles_failure.throw.composed
  have told : Composed (some 21) (newString key >>= fun name =>
      attempt (int (.setProp object name v)) >>= fun result => freeValue name >>= fun _ =>
        ofExcept result >>= finish) := by
    refine (composed_newString key).anyhow.bind fun name => ?_
    refine composed_told takes_int (Engine.perform_candid _ rfl) (b := 0) rfl (freed name settles_failure.throw) fun x => ?_
    exact (composed_freeValue name).anyhow.bind fun _ => (composed_ofExcept x).bind ending
  refine told.congr fun l => ?_
  change answered (withKey key (fun k => int (.setProp object k v)) >>= finish) l = _
  rw [withKey, ← answered_assoc]
  refine answered_bind_congr fun name l => ?_
  rw [← answered_assoc]
  refine answered_bind_congr fun result l => ?_
  rw [← answered_assoc]

theorem composed_length (p : Ptr) : Composed (some 29) (length p) := by
  refine composed_withBlock (j := some 21) (show 21 + 4 ≤ 29 by decide) fun out => ?_
  exact (composed_confirm rfl).bind fun _ => (composed_readWord out).anyhow.bind fun _ => composed_pure _

theorem composed_toText (p : Ptr) : Composed (some 21) (toText p) := by
  have refused (l : Link) (usable : l.Usable) (unfit : ¬l.Spells (l.engine.heap.display p)) :
      (answered (toText p) l).2 = (answered (failure (Request.toCString p).name) l.exhausted).2 := by
    have failed := answered_value_zero (c := rfl) usable.clear (outcome_toCString_refused unfit)
    change (answered (value (.toCString p) >>= readText) l).2 = (answered _ (l.withEngine _)).2
    rw [answered_bind, failed]
    generalize answered (failure (Request.toCString p).name) _ = x
    obtain ⟨_ | _, _⟩ := x <;> rfl
  constructor
  next =>
    intro l usable
    by_cases fits : l.Spells (l.engine.heap.display p)
    next =>
      rw [toText_fits usable.clear usable.memory fits]
      exact extents_respelled usable fits
    next =>
      rw [refused l usable fits]
      exact extents_failureWithin _ usable.exhausted _
  next =>
    intro l usable calm spare
    by_cases fits : l.Spells (l.engine.heap.display p)
    next =>
      rw [toText_fits usable.clear usable.memory fits]
      exact calm
    next =>
      rw [refused l usable fits] at spare ⊢
      exact settles_failure.calm _ usable.exhausted spare

theorem composed_texts (ps : List Ptr) : Composed (some 21) (texts ps) := by
  induction ps with
  | nil => exact composed_pure _
  | cons p rest ih => exact (composed_toText p).bind fun s => ih.bind fun _ => composed_pure _

end Calls

section Blocks

variable {object : Ptr} {content : ByteArray} {keys : List String} {s : Engine} {f : Ptr -> LinkM α}

/-- A request that has raised an exception and answered with nothing ends the call. -/
theorem composes_value_raised {c : r.isReserved = false} (usable : l.Usable)
    (done : outcome (Engine.perform r) l.engine = (.ok (.ofWord 0), s)) (kept : l.memory.Kept s.memory) :
    Composes (some 21) l (answered (value r c >>= f) l).2 := by
  have settles : Settles (some 21) (failure r.name >>= fun e => (throw e : LinkM α)) := settles_failure.throw
  have usable' : (l.withEngine s).Usable := ⟨usable.clear, kept.wellFormed usable.memory⟩
  have same : answered (value r c >>= f) l = answered (failure r.name >>= fun e => throw e) (l.withEngine s) := by
    rw [answered_bind, answered_value_zero usable.clear done, answered_bind]
    generalize answered (failure r.name) (l.withEngine s) = x
    obtain ⟨_ | _, _⟩ := x <;> rfl
  rw [same]
  exact ⟨(settles.extents _ usable').trans (kept.extents usable.memory), fun _ spare => settles.calm _ usable' spare⟩

theorem composes_confirm_raised {c : r.isReserved = false} {n expected : Int32} {f : Unit -> LinkM α}
    (usable : l.Usable) (done : outcome (Engine.perform r) l.engine = (.ok (.i32 n), s)) (other : n ≠ expected)
    (kept : l.memory.Kept s.memory) : Composes (some 21) l (answered (confirm r expected c >>= f) l).2 := by
  have settles : Settles (some 21) (failure r.name >>= fun e => (throw e : LinkM α)) := settles_failure.throw
  have usable' : (l.withEngine s).Usable := ⟨usable.clear, kept.wellFormed usable.memory⟩
  have same :
      answered (confirm r expected c >>= f) l = answered (failure r.name >>= fun e => throw e) (l.withEngine s) := by
    simp only [confirm, answered_bind, answered_int usable.clear done, other, if_false]
    generalize answered (failure r.name) (l.withEngine s) = x
    obtain ⟨_ | _, _⟩ := x <;> rfl
  rw [same]
  exact ⟨(settles.extents _ usable').trans (kept.extents usable.memory), fun _ spare => settles.calm _ usable' spare⟩

theorem copyArrayBuffer_raised (out : Addr) (other : ∀ content, l.engine.heap.get? p ≠ some (.bytes content)) :
    ∃ message, outcome (Engine.perform (.copyArrayBuffer p out)) l.engine =
      (.ok (.ofWord 0), { l.engine with heap := l.engine.heap.raiseMessage message }) := by
  refine ⟨"value is not an ArrayBuffer", ?_⟩
  simp only [Engine.perform, Engine.copyArrayBuffer, outcome_bind, Engine.outcome_readHeap]
  rfl

theorem composes_copied (usable : l.Usable) (small : l.memory.Fits 4) :
    Composes (some 21) (l.placed 4) (answered (copied p (UInt32.ofNat l.memory.next)) (l.placed 4)).2 := by
  have usable' : (l.placed 4).Usable := usable.scratched small _
  by_cases buffer : ∃ content, (l.placed 4).engine.heap.get? p = some (.bytes content)
  next =>
    obtain ⟨content, found⟩ := buffer
    by_cases fits : (l.placed 4).memory.Fits (max content.size 1)
    next =>
      obtain ⟨m, noted, done⟩ := bytes_fits usable.clear usable.memory small found fits
      rw [done]
      have top :
          m.extents =
            ((UInt32.ofNat (l.placed 4).memory.next).toNat, max content.size 1) :: (l.placed 4).memory.extents := by
        rw [noted.atop.extents, Memory.toNat_next usable'.memory]
        rfl
      exact ⟨Memory.extents_free_top noted.wellFormed top, fun calm _ => calm⟩
    next => exact composes_value_raised usable' (copyArrayBuffer_refused found fits) (.refl _)
  next =>
    obtain ⟨message, done⟩ := copyArrayBuffer_raised (l := l.placed 4) (p := p) (UInt32.ofNat l.memory.next)
      fun content found => buffer ⟨content, found⟩
    exact composes_value_raised usable' done (.refl _)

theorem composed_bytes (p : Ptr) : Composed (some 29) (bytes p) :=
  composed_scratched (j := some 21) (show 21 + 4 ≤ 29 by decide) (fun _ usable small => composes_copied usable small)
    (fun _ usable small => answered_withBlock_fits usable.clear usable.memory small)
    fun _ usable small => congrArg Prod.snd (answered_withBlock_refused usable.clear small)

theorem newStrings_moves (h : Heap) (keys : List String) :
    ∃ cells n, (Engine.newStrings h keys).2 = { h with cells, next := n } := by
  induction keys generalizing h with
  | nil => exact ⟨h.cells, h.next, rfl⟩
  | cons key rest ih =>
    have made : ∃ cells n, (h.newString key).2 = { h with cells, next := n } := by
      rcases Heap.insert_plants h (.string key) with ⟨p, n, -, -, -, made⟩ | ⟨-, made⟩
      next => exact ⟨_, n, congrArg Prod.snd made⟩
      next => exact ⟨_, h.next, congrArg Prod.snd made⟩
    obtain ⟨cells, n, made⟩ := made
    obtain ⟨cells', n', more⟩ := ih { h with cells, next := n }
    refine ⟨cells', n', ?_⟩
    change (Engine.newStrings (h.newString key).2 rest).2 = _
    rw [made, more]

theorem getOwnPropertyNames_raised (outTable outCount : Addr) {message : String}
    (unlisted : l.engine.heap.ownKeys object = .error message) :
    outcome (Engine.perform (.getOwnPropertyNames outTable outCount object)) l.engine =
      (.ok Engine.statusFailed, { l.engine with heap := l.engine.heap.raiseMessage message }) := by
  simp only [Engine.perform, Engine.getOwnPropertyNames, outcome_bind, Engine.outcome_readHeap, unlisted]
  rfl

theorem composes_ownPropertyNames (usable : l.Usable) :
    Composes (some 29) l (answered (ownPropertyNames object) l).2 := by
  by_cases small : l.memory.Fits 8
  next =>
    have usable' : (l.placed 8).Usable := usable.scratched small _
    cases listed : l.engine.heap.ownKeys object with
    | error message =>
      rw [ownPropertyNames, answered_withBlock_fits usable.clear usable.memory small]
      refine .unscratched (j := some 21) ByteArray.empty (show 21 + 8 ≤ 29 by decide) usable (usable'.answered _) ?_
      exact composes_confirm_raised usable' (getOwnPropertyNames_raised (l := l.placed 8) _ _ listed) (by decide) (.refl _)
    | ok keys =>
      have length := length_newStrings l.engine.heap keys
      by_cases fits : (l.placed 8).memory.Fits (max (keys.length * 4) 4)
      next =>
        obtain ⟨cells, n, made⟩ := newStrings_moves l.engine.heap keys
        obtain ⟨m, done, found⟩ :=
          getOwnPropertyNames_fits usable.memory small listed (Prod.eta _).symm (length.symm ▸ fits)
        rw [made] at done
        rw [ownPropertyNames_fits usable.clear usable.memory small done found]
        have outer : m.extents = ((UInt32.ofNat (l.placed 8).memory.next).toNat,
              max ((Engine.newStrings l.engine.heap keys).1.length * 4) 4) ::
            ((UInt32.ofNat l.memory.next).toNat, 8) :: l.memory.extents := by
          rw [found.atop.extents, Memory.toNat_next usable'.memory, Memory.toNat_next usable.memory]
          rfl
        have inner := Memory.extents_free_top found.atop.wellFormed outer
        exact ⟨Memory.extents_free_top (found.atop.wellFormed.free _) inner, fun calm _ => calm⟩
      next =>
        rw [ownPropertyNames, answered_withBlock_fits usable.clear usable.memory small]
        refine .unscratched (j := some 21) ByteArray.empty (show 21 + 8 ≤ 29 by decide) usable (usable'.answered _) ?_
        exact composes_confirm_raised usable' (getOwnPropertyNames_refused (l := l.placed 8) _ _ listed (Prod.eta _).symm
          (length.symm ▸ fits)) (by decide) (.refl _)
  next =>
    rw [ownPropertyNames, answered_withBlock_refused usable.clear small]
    exact .refl l

theorem composed_ownKeys (object : Ptr) : Composed (some 29) (ownKeys object) := by
  refine Composed.bind (.of_composes fun l usable => composes_ownPropertyNames usable) fun names => ?_
  refine ((composed_texts names).within (by decide)).attempt.bind fun keys => ?_
  exact (composed_freeValues names).anyhow.bind fun _ => composed_ofExcept keys

theorem composed_readRejections_none (out : Addr) : Composed none (readRejections 0 out) :=
  (composed_readWord out).bind fun _ => composed_pure []

/-- Where there is no table of rejections, for lack of any or of memory, the host finds none. -/
theorem takeRejectionEvents_none {out : Addr} (ok : l.memory.WellFormed) (place : l.memory.Inside out.toNat 4)
    (none : l.engine.heap.rejections = [] ∨
      ¬l.memory.Fits (max ((l.engine.heap.rejections.flatMap Engine.rejectionWords).length * 4) 4)) :
    ∃ s : Engine, outcome (Engine.perform (.takeRejectionEvents out)) l.engine = (.ok (.ofWord 0), s) ∧
      l.memory.Kept s.memory ∧ s.heap.exception = l.engine.heap.exception := by
  obtain ⟨m, done, written⟩ := Memory.writeWord_spec ok place 0
  refine ⟨⟨m, l.engine.heap.takeRejections.2.releaseAll (l.engine.heap.rejections.flatMap Rejection.children),
      l.engine.hosted⟩,
    ?_, Memory.kept_written (by rw [← Memory.writeWord, done]; rfl), rfl⟩
  simp only [Engine.perform, Engine.takeRejectionEvents, outcome_bind, Engine.outcome_onHeap]
  rw [show l.engine.heap.takeRejections.1 = l.engine.heap.rejections from rfl]
  generalize l.engine.heap.takeRejections.2 = h
  generalize l.engine.heap.rejections = events at *
  have put (h : Heap) :
      outcome (Engine.writeWord out 0) ⟨l.memory, h, l.engine.hosted⟩ = (.ok (), ⟨m, h, l.engine.hosted⟩) :=
    Engine.outcome_writeWord done
  cases events with
  | nil =>
    simp only [List.isEmpty_nil, if_true, outcome_bind, outcome_pure, Engine.outcome_modifyHeap, put]
    rfl
  | cons e rest =>
    have unfit := none.resolve_left (List.cons_ne_nil e rest)
    simp only [List.isEmpty_cons, Bool.false_eq_true, if_false, outcome_bind]
    rw [Engine.outcome_onMemory (s := ⟨l.memory, h, l.engine.hosted⟩) (Memory.writeTable_refused unfit)]
    simp only [if_true, outcome_bind, Engine.outcome_modifyHeap, put]
    rfl

theorem takeRejectionEvents_fits (ok : l.memory.WellFormed) (small : l.memory.Fits 4) {words : List UInt32}
    (listed : l.engine.heap.rejections.flatMap Engine.rejectionWords = words) (some : l.engine.heap.rejections ≠ [])
    (fits : (l.placed 4).memory.Fits (max (words.length * 4) 4)) :
    ∃ m, outcome (Engine.perform (.takeRejectionEvents (UInt32.ofNat l.memory.next))) (l.placed 4).engine =
        (.ok (.ofWord (UInt32.ofNat (l.placed 4).memory.next)),
          { l.engine with memory := m, heap := l.engine.heap.takeRejections.2 }) ∧
      Memory.Noted l.memory ((l.placed 4).memory.topped (max (words.length * 4) 4) (Memory.encodeWords words)) m
        [((l.placed 4).memory.next, max (words.length * 4) 4), (l.memory.next, 4)] (UInt32.ofNat l.memory.next)
        (UInt32.ofNat l.engine.heap.rejections.length) := by
  have out := Memory.toNat_next ok
  have wellFormed : (l.placed 4).memory.WellFormed := Memory.topped_wellFormed ok small.2 _
  have atop := (Memory.topped_atop ok small.2 ByteArray.empty).trans
    (Memory.topped_atop wellFormed fits.2 (Memory.encodeWords words))
  have inside : ((l.placed 4).memory.topped (max (words.length * 4) 4) (Memory.encodeWords words)).Inside
      (UInt32.ofNat l.memory.next).toNat 4 := by
    rw [out]
    exact (Memory.topped_inside l.memory 4 _).topped _ _
  obtain ⟨m, done, noted⟩ := Memory.writeWord_notes ok atop inside
    ⟨(l.memory.next, 4), by simp, by omega, by dsimp only; omega⟩ (UInt32.ofNat l.engine.heap.rejections.length)
  refine ⟨m, ?_, noted⟩
  simp only [Engine.perform, Engine.takeRejectionEvents, outcome_bind, Engine.outcome_onHeap]
  rw [show (l.placed 4).engine.heap.takeRejections.1 = l.engine.heap.rejections from rfl]
  simp only [List.isEmpty_eq_false_iff.2 some, Bool.false_eq_true, if_false, outcome_bind, listed]
  have tabled (h : Heap) :
      outcome (Engine.onMemory fun m => m.writeTable words) { (l.placed 4).engine with heap := h } =
      (.ok (UInt32.ofNat (l.placed 4).memory.next), { l.engine with
        memory := (l.placed 4).memory.topped (max (words.length * 4) 4) (Memory.encodeWords words), heap := h }) :=
    Engine.outcome_onMemory (Memory.writeTable_fits wellFormed fits)
  rw [tabled]
  dsimp only
  rw [if_neg (Memory.next_nonzero wellFormed), outcome_bind, Engine.outcome_writeWord done]
  rfl

theorem composes_takeTable (usable : l.Usable) (small : l.memory.Fits 4) :
    Composes none (l.placed 4) (outcome (OwnerM.takeTable (UInt32.ofNat l.memory.next)) (l.placed 4)).2 ∧
      (outcome (OwnerM.takeTable (UInt32.ofNat l.memory.next)) (l.placed 4)).2.Usable := by
  have usable' : (l.placed 4).Usable := usable.scratched small _
  have place : (l.placed 4).memory.Inside (UInt32.ofNat l.memory.next).toNat 4 := by
    rw [Memory.toNat_next usable.memory]
    exact Memory.topped_inside l.memory 4 _
  generalize listed : l.engine.heap.rejections.flatMap Engine.rejectionWords = words
  have taken (a : Addr) (s : Engine)
      (done : outcome (Engine.perform (.takeRejectionEvents (UInt32.ofNat l.memory.next))) (l.placed 4).engine =
        (.ok (.ofWord a), s)) :
      outcome (OwnerM.takeTable (UInt32.ofNat l.memory.next)) (l.placed 4) =
        answered (readRejections a (UInt32.ofNat l.memory.next)) ((l.placed 4).withEngine s) := by
    simp only [OwnerM.takeTable, outcome_bind, OwnerM.outcome_request usable'.clear, done, OwnerM.outcome_common,
      answered_ofExcept, wordOf_ofWord]
  by_cases none : l.engine.heap.rejections = [] ∨ ¬(l.placed 4).memory.Fits (max (words.length * 4) 4)
  next =>
    obtain ⟨s, done, kept, same⟩ := takeRejectionEvents_none (l := l.placed 4) usable'.memory place (listed ▸ none)
    rw [taken 0 s done]
    have usable'' : ((l.placed 4).withEngine s).Usable := ⟨usable.clear, kept.wellFormed usable'.memory⟩
    have rest := (composed_readRejections_none (UInt32.ofNat l.memory.next)).composes usable''
    refine ⟨⟨rest.extents.trans (kept.extents usable'.memory), fun calm _ => rest.calm (same.trans calm) trivial⟩, ?_⟩
    exact usable''.answered _
  next =>
    obtain ⟨some, fits⟩ := not_or.1 none
    have fits := not_not.1 fits
    obtain ⟨m, done, noted⟩ := takeRejectionEvents_fits usable.memory small listed some fits
    rw [taken _ _ done]
    let mid := (l.placed 4).withEngine { l.engine with memory := m, heap := l.engine.heap.takeRejections.2 }
    have clear : mid.faults = Table.empty := usable.clear
    have length := Rejection.length_words l.engine.heap.rejections
    rw [listed] at length
    have room := Memory.le_span (max (words.length * 4) 4)
    have last := fits.2
    have count : UInt32.ofNat l.engine.heap.rejections.length ≠ 0 := by
      intro zero
      have same := congrArg UInt32.toNat zero
      rw [Memory.toNat_address (by omega)] at same
      exact some (List.length_eq_zero_iff.1 same)
    have inside : mid.memory.Inside (UInt32.ofNat l.memory.next).toNat 4 := by
      apply noted.inside
      rw [Memory.toNat_next usable.memory]
      exact (Memory.topped_inside l.memory 4 _).topped _ _
    have word : answered (readWord (UInt32.ofNat l.memory.next)) mid =
        (.ok (UInt32.ofNat l.engine.heap.rejections.length), mid) :=
      answered_readWord clear noted.wellFormed inside noted.there
    have top : m.extents = ((UInt32.ofNat (l.placed 4).memory.next).toNat, max (words.length * 4) 4) ::
        (l.placed 4).memory.extents := by
      rw [noted.atop.extents, Memory.toNat_next usable'.memory]
      rfl
    have freed :
        (answered (readRejections (UInt32.ofNat (l.placed 4).memory.next) (UInt32.ofNat l.memory.next)) mid).2 =
        mid.withMemory (m.free (UInt32.ofNat (l.placed 4).memory.next)) := by
      simp only [readRejections, answered_bind, word, Memory.next_nonzero usable'.memory, count, decide_false, Bool.or_self,
        Bool.false_eq_true, if_false, answered_attempt, answered_readTable clear, answered_free, answered_ofExcept]
      cases mid.engine.memory.readWords (UInt32.ofNat (l.placed 4).memory.next)
        ((UInt32.ofNat l.engine.heap.rejections.length).toNat * 3) <;> rfl
    rw [freed]
    exact ⟨⟨Memory.extents_free_top noted.wellFormed top, fun calm _ => calm⟩, clear, noted.wellFormed.free _⟩

theorem takeRejections_later (l : Link) : l.memory.Later (outcome OwnerM.takeRejections l).2.memory := by
  have way : Way fun l l' : Link => l.memory.Later l'.memory := ⟨fun l => .refl l.memory, .trans⟩
  have common {α : Type} (act : LinkM α) : Leads (fun l l' : Link => l.memory.Later l'.memory) (OwnerM.common act) :=
    fun l => answered_later act l
  have taken (out : Addr) : Leads (fun l l' : Link => l.memory.Later l'.memory) (OwnerM.takeTable out) := by
    refine way.bind (fun l => ?_) fun s => way.bind (common _) fun table => common _
    exact unlessFaulty_leads (R := fun s t : Engine => s.memory.Later t.memory) (fun s => .refl s.memory)
      (Engine.remembers_takeRejectionEvents out)
  refine way.bind (common _) (fun out => ?_) l
  exact way.bind (fun l => taken out l) fun rejections => way.bind (common _) fun _ => common _

/-- The owner's way to the rejections is composed as well. -/
theorem takeRejections_recovers (usable : l.Usable) : Recovers l (outcome OwnerM.takeRejections l).2 := by
  by_cases small : l.memory.Fits 4
  next =>
    obtain ⟨inside, usable'⟩ := composes_takeTable usable small
    have same : (outcome OwnerM.takeRejections l).2 =
        (unscratched l.memory.next (outcome (OwnerM.takeTable (UInt32.ofNat l.memory.next)) (l.placed 4))).2 := by
      simp only [OwnerM.takeRejections, outcome_bind, OwnerM.outcome_common,
        answered_allocate_fits usable.clear small usable.memory, outcome_lift, answered_free, answered_ofExcept]
      rfl
    have later := takeRejections_later l
    rw [same] at later ⊢
    exact ⟨.unscratched (j := none) ByteArray.empty trivial usable usable' inside,
      ⟨usable'.clear, usable'.memory.free _⟩, later⟩
  next =>
    have same : (outcome OwnerM.takeRejections l).2 = l := by
      simp only [OwnerM.takeRejections, outcome_bind, OwnerM.outcome_common, answered_allocate_refused usable.clear small]
    rw [same]
    exact recovers_way.refl l usable

end Blocks

end Link

end ScriptHost
