import ScriptHost.Engine.Call
import ScriptHost.Proofs.Engine.Decisions
import ScriptHost.Proofs.Engine.Outcome
import ScriptHost.Proofs.Text.NulFree

set_option autoImplicit false

/-!
The texts that an engine keeps: its strings, the keys of its objects and the names of its functions.

None of them has a NUL, whatever is done to the engine. New ones are read from its memory, where a NUL ends them, or are
made up of texts that the engine has already.
-/

namespace ScriptHost

namespace Value

def texts : Value -> List String
  | string s => [s]
  | object _ props => props.keys
  | function name _ => [name]
  | _ => []

def NulFree (v : Value) : Prop :=
  ∀ s ∈ v.texts, Text.NulFree s

variable {s : String} {v : Value}

theorem nulFree_of_texts (none : v.texts = []) : v.NulFree := by
  intro s member
  rw [none] at member
  cases member

theorem nulFree_string (free : Text.NulFree s) : (string s).NulFree :=
  List.forall_mem_singleton.2 free

theorem nulFree_function {kind : FunctionKind} (free : Text.NulFree s) : (function s kind).NulFree :=
  List.forall_mem_singleton.2 free

theorem NulFree.set {cls : ObjectClass} {props : Table String Ptr} (free : (object cls props).NulFree) (key : Text.NulFree s)
    (p : Ptr) : (object cls (props.set s p)).NulFree := by
  intro t member
  simp only [texts, Table.keys_set] at member
  split at member
  next => exact free t member
  next =>
    rcases List.mem_append.1 member with old | new
    next => exact free t old
    next => exact List.mem_singleton.1 new ▸ key

end Value

namespace Heap

def NulFree (h : Heap) : Prop :=
  ∀ p v, h.get? p = some v -> v.NulFree

variable {h h' : Heap} {p : Ptr} {s key message : String} {w : Value}

theorem nulFree_empty : empty.NulFree :=
  fun _ _ found => by cases found

theorem NulFree.mono (free : h.NulFree) (fewer : ∀ p v, h'.get? p = some v -> h.get? p = some v) : h'.NulFree :=
  fun p v found => free p v (fewer p v found)

theorem NulFree.releaseAll (free : h.NulFree) (ps : List Ptr) : (h.releaseAll ps).NulFree :=
  free.mono fun _ _ => get?_releaseAll

theorem NulFree.retain (free : h.NulFree) (p : Ptr) : (h.retain p).NulFree :=
  free.mono fun q _ found => (get?_retain h p q).symm.trans found

theorem NulFree.setValue (free : h.NulFree) (p : Ptr) (new : w.NulFree) : (h.setValue p w).NulFree := by
  intro q x found
  rw [get?_setValue] at found
  split at found
  next =>
    obtain ⟨old, -, rfl⟩ := Option.map_eq_some_iff.1 found
    exact new
  next => exact free q x found

theorem NulFree.setPromise (free : h.NulFree) (p : Ptr) (record : PromiseRecord) : (h.setValue p (.promise record)).NulFree :=
  free.setValue p (Value.nulFree_of_texts rfl)

theorem NulFree.insert (free : h.NulFree) (new : w.NulFree) : (h.insert w).2.NulFree := by
  rcases insert_cases h w with ⟨n, -, -, -, made⟩ | full
  next =>
    rw [made]
    intro q x found
    simp only [Heap.get?, Table.get?_set] at found
    split at found
    next =>
      obtain rfl := Option.some.inj found
      exact new
    next => exact free q x found
  next =>
    rw [full]
    exact free.releaseAll _

theorem NulFree.newString (free : h.NulFree) (text : Text.NulFree s) : (h.newString s).2.NulFree :=
  free.insert (Value.nulFree_string text)

theorem NulFree.newError (free : h.NulFree) (text : Text.NulFree message) : (h.newError message).2.NulFree := by
  have none : (Value.object .error Table.empty).NulFree := Value.nulFree_of_texts rfl
  exact (free.newString text).insert (none.set (by decide) _)

theorem NulFree.setException (free : h.NulFree) (p : Ptr) : (h.setException p).NulFree := by
  unfold Heap.setException
  split
  next => exact free
  next => exact NulFree.releaseAll (h := { h with exception := some p }) free _

theorem NulFree.raiseMessage (free : h.NulFree) (text : Text.NulFree message) : (h.raiseMessage message).NulFree :=
  (free.newError text).setException (h.newError message).1

theorem NulFree.enqueueAll (free : h.NulFree) (rs : List Reaction) (v : Ptr) (rejected : Bool) :
    (h.enqueueAll rs v rejected).NulFree :=
  free.mono fun _ _ => get?_enqueueAll

theorem NulFree.record (free : h.NulFree) (p v : Ptr) (handled : Bool) : (h.record p v handled).NulFree :=
  free.mono fun q _ found => (get?_record h p v handled q).symm.trans found

theorem NulFree.settle (free : h.NulFree) (p v : Ptr) (rejected : Bool) : (h.settle p v rejected).NulFree := by
  unfold Heap.settle
  split
  next => exact free
  next r _ =>
    split
    next =>
      have told : (((h.setValue p _).retain v).tell (.settled p v rejected)).NulFree :=
        (free.setPromise p { r with settlement := .ofPayload rejected v, reactions := [] }).retain v
      dsimp only
      split
      next => exact (told.record p v false).enqueueAll _ _ _
      next => exact told.enqueueAll _ _ _
    next => exact free

theorem NulFree.attach (free : h.NulFree) (p : Ptr) (r : Reaction) : (h.attach p r).NulFree := by
  have kept := free.mono fun q _ found => (get?_retainAll (r.onFulfilled.toList ++ r.onRejected.toList) h q).symm.trans found
  unfold Heap.attach
  dsimp only
  generalize (r.onFulfilled.toList ++ r.onRejected.toList).foldl Heap.retain h = g at *
  split
  next => exact kept
  next record _ =>
    have told : (g.tell (.reacted p)).NulFree := kept
    split
    next => exact told.setPromise p _
    next v _ => exact (told.setPromise p _).mono fun _ _ => get?_enqueue
    next v _ =>
      refine NulFree.mono (h := if record.handled then _ else _) ?_ fun _ _ => get?_enqueue
      split
      next => exact told.setPromise p _
      next => exact (told.setPromise p _).record p v true

theorem NulFree.resolveWith (free : h.NulFree) (p v : Ptr) : (h.resolveWith p v).NulFree := by
  unfold Heap.resolveWith
  split
  next => exact ((free.newError (by decide)).settle _ _ _).releaseAll _
  next =>
    split
    next => exact (free.retain p).attach _ _
    next => exact free.settle _ _ _

theorem NulFree.callResolving (free : h.NulFree) (p v : Ptr) (reject : Bool) : (h.callResolving p v reject).NulFree := by
  unfold Heap.callResolving
  split
  next => exact free
  next record _ =>
    split
    next => exact free
    next =>
      have marked := free.setPromise p { record with resolved := true }
      dsimp only
      split
      next => exact marked.settle _ _ _
      next => exact marked.resolveWith _ _

theorem NulFree.newPromise (free : h.NulFree) : h.newPromise.2.NulFree :=
  free.insert (Value.nulFree_of_texts rfl)

theorem NulFree.newCapability (free : h.NulFree) : h.newCapability.2.NulFree := by
  have unnamed (kind : FunctionKind) : (Value.function "" kind).NulFree := Value.nulFree_function (by decide)
  have made := free.newPromise
  unfold Heap.newCapability
  generalize h.newPromise = r at *
  have resolvable := (made.retain r.1).insert (unnamed (.resolve r.1))
  dsimp only
  generalize ((r.2.retain r.1).insert (.function "" (.resolve r.1))).2 = g at *
  exact (resolvable.retain r.1).insert (unnamed (.reject r.1))

theorem NulFree.andThen (free : h.NulFree) (p : Ptr) (onFulfilled onRejected : Option Ptr) :
    (h.andThen p onFulfilled onRejected).2.NulFree :=
  (free.newPromise.retain _).attach _ _

theorem nulFree_staticText (found : staticText p = some s) : Text.NulFree s := by
  unfold staticText at found
  repeat' split at found
  all_goals first
    | cases found; done
    | exact Option.some.inj found ▸ by decide

theorem nulFree_errorText (text : Text.NulFree message) : Text.NulFree (errorText message) := by
  unfold errorText
  split
  next => decide
  next => exact Text.nulFree_append.2 ⟨by decide, text⟩

theorem NulFree.displayTo (free : h.NulFree) (depth : Nat) (p : Ptr) : Text.NulFree (h.displayTo depth p) := by
  induction depth generalizing p with
  | zero => exact List.not_mem_nil
  | succ depth ih =>
    unfold Heap.displayTo
    split
    next s constant => exact nulFree_staticText constant
    next =>
      split
      next => decide
      next x _ => exact nulFree_numberText x
      next s found => exact free p _ found s List.mem_cons_self
      next => decide
      next props _ =>
        refine nulFree_errorText ?_
        split
        next => decide
        next message _ => exact ih message
      next => decide
      next items _ =>
        refine Text.nulFree_intercalate (by decide) fun t member => ?_
        obtain ⟨item, -, rfl⟩ := List.mem_map.1 member
        split
        next => decide
        next => exact ih item
      next name _ found =>
        have named := free p _ found name List.mem_cons_self
        have before : Text.NulFree "function " := by decide
        have behind : Text.NulFree "() \x7b [native code] \x7d" := by decide
        simp only [Text.nulFree_append, before, named, behind, and_self]
      next => decide

theorem NulFree.display (free : h.NulFree) (p : Ptr) : Text.NulFree (h.display p) :=
  free.displayTo _ p

theorem nulFree_invalidPointer (p : Ptr) : Text.NulFree (invalidPointer p) :=
  Text.nulFree_append.2 ⟨by decide, Text.nulFree_repr _⟩

/-- Texts that are written into the message of a failure. -/
theorem nulFree_about {before between : String} (first : Text.NulFree before) (second : Text.NulFree between)
    (left : Text.NulFree s) (right : Text.NulFree message) : Text.NulFree (before ++ s ++ between ++ message) := by
  simp only [Text.nulFree_append, first, left, second, right, and_self]

/-- What is found is as said, and a failure has a message without a NUL. -/
def Clean {α : Type} (found : α -> Prop) : Except String α -> Prop
  | .ok a => found a
  | .error message => Text.NulFree message

theorem NulFree.lookup (free : h.NulFree) (p : Ptr) (named : Text.NulFree key) :
    Clean (fun | .existing _ => True | .computed w => w.NulFree) (h.lookup p key) := by
  have computed (n : Nat) : (Value.number (.ofNat n)).NulFree := Value.nulFree_of_texts rfl
  unfold Heap.lookup
  split
  next => exact trivial
  next => split <;> first | exact trivial | exact computed _
  next => split <;> first | exact trivial | exact computed _
  next name _ found =>
    split
    next => exact Value.nulFree_string (free p _ found name List.mem_cons_self)
    next => exact trivial
  next => exact trivial
  next =>
    split
    next => exact nulFree_about (by decide) (by decide) named (free.display p)
    next =>
      split
      next => exact trivial
      next => exact nulFree_invalidPointer p

theorem NulFree.getProp (free : h.NulFree) (p : Ptr) (named : Text.NulFree key) :
    Clean (fun x => x.2.NulFree) (h.getProp p key) := by
  have looked := free.lookup p named
  unfold Heap.getProp
  generalize h.lookup p key = found at *
  rcases found with message | v | w
  next => exact looked
  next => exact free.retain v
  next => exact free.insert looked

theorem NulFree.setProp (free : h.NulFree) (p v : Ptr) (named : Text.NulFree key) :
    Clean Heap.NulFree (h.setProp p key v) := by
  unfold Heap.setProp
  split
  next => exact nulFree_invalidPointer v
  next =>
    split
    next cls props found => exact ((free.setValue p ((free p _ found).set named v)).retain v).releaseAll _
    next items _ =>
      split
      next => exact Text.nulFree_append.2 ⟨Text.nulFree_append.2 ⟨by decide, named⟩, by decide⟩
      next i _ => exact ((free.setValue p (Value.nulFree_of_texts rfl)).retain v).releaseAll _
    next => exact nulFree_about (by decide) (by decide) named (free.display p)

theorem NulFree.ownKeys (free : h.NulFree) (p : Ptr) :
    Clean (fun keys => ∀ s ∈ keys, Text.NulFree s) (h.ownKeys p) := by
  unfold Heap.ownKeys
  split
  next found => exact free p _ found
  next =>
    intro s member
    obtain ⟨i, -, rfl⟩ := List.mem_map.1 member
    exact Text.nulFree_repr i
  next => exact Text.nulFree_append.2 ⟨by decide, free.display p⟩

theorem NulFree.length (free : h.NulFree) (p : Ptr) : Clean (fun _ => True) (h.length p) := by
  unfold Heap.length
  split
  next => exact trivial
  next => exact trivial
  next => exact trivial
  next => exact Text.nulFree_append.2 ⟨free.display p, by decide⟩

end Heap

namespace Engine

variable {α β : Type} {P : α -> Prop} {Q : β -> Prop}

/-- No text with a NUL is put into an engine that has none, and what is answered is as said. -/
def CleanWith (P : α -> Prop) (act : EngineM α) : Prop :=
  ∀ s, s.heap.NulFree -> (outcome act s).2.heap.NulFree ∧ ∀ a, (outcome act s).1 = .ok a -> P a

def Clean (act : EngineM α) : Prop :=
  CleanWith (fun _ => True) act

theorem CleanWith.bind {act : EngineM α} {f : α -> EngineM β} (first : CleanWith P act)
    (rest : ∀ a, P a -> CleanWith Q (f a)) : CleanWith Q (act >>= f) := by
  intro s free
  obtain ⟨kept, answer⟩ := first s free
  rw [outcome_bind]
  generalize outcome act s = r at *
  obtain ⟨e | a, t⟩ := r
  next => exact ⟨kept, fun _ same => by cases same⟩
  next => exact rest a (answer a rfl) t kept

theorem Clean.bind {act : EngineM α} {f : α -> EngineM β} (first : Clean act) (rest : ∀ a, Clean (f a)) :
    Clean (act >>= f) :=
  CleanWith.bind first fun a _ => rest a

theorem clean_pure (a : α) : Clean (pure a : EngineM α) :=
  fun _ free => ⟨free, fun _ _ => trivial⟩

theorem clean_throw (e : Error) : Clean (throw e : EngineM α) :=
  fun _ free => ⟨free, fun _ _ => trivial⟩

theorem clean_onHeap {f : Heap -> α × Heap} (keeps : ∀ h : Heap, h.NulFree -> (f h).2.NulFree) : Clean (onHeap f) :=
  fun s free => ⟨keeps s.heap free, fun _ _ => trivial⟩

theorem clean_readHeap (f : Heap -> α) : Clean (readHeap f) :=
  clean_onHeap fun _ free => free

theorem cleanWith_readHeap {f : Heap -> α} (holds : ∀ h : Heap, h.NulFree -> P (f h)) : CleanWith P (readHeap f) :=
  fun s free => ⟨free, fun _ same => Except.ok.inj same ▸ holds s.heap free⟩

theorem clean_onMemory (f : Memory -> Except Error (α × Memory)) : Clean (onMemory f) := by
  intro s free
  refine ⟨?_, fun _ _ => trivial⟩
  cases done : f s.memory with
  | error e => exact outcome_onMemory_error done ▸ free
  | ok x => exact outcome_onMemory (a := x.1) (m := x.2) done ▸ free

theorem cleanWith_readMemory {f : Memory -> Except Error α} (holds : ∀ m a, f m = .ok a -> P a) :
    CleanWith P (readMemory f) := by
  intro s free
  rw [outcome_readMemory]
  exact ⟨free, fun a => holds s.memory a⟩

theorem clean_raising {message : String} (text : Text.NulFree message) (answer : Scalar) : Clean (raising message answer) := by
  have raises : Clean (modifyHeap fun h => h.raiseMessage message) := clean_onHeap fun _ free => free.raiseMessage text
  exact raises.bind fun _ => clean_pure answer

theorem clean_insert {v : Value} (new : v.NulFree) : Clean (insert v) :=
  (clean_onHeap fun _ free => free.insert new).bind fun _ => clean_pure _

theorem clean_attempt {f : Heap -> Except String (α × Heap)} (onOk : α -> Scalar) (onError : Scalar)
    (attempts : ∀ h : Heap, h.NulFree -> Heap.Clean (fun x => x.2.NulFree) (f h)) : Clean (attempt f onOk onError) := by
  intro s free
  have attempted := attempts s.heap free
  simp only [attempt, outcome_bind, outcome_get]
  generalize f s.heap = r at *
  obtain message | ⟨a, heap⟩ := r
  next => exact clean_raising attempted onError s free
  next => exact ⟨attempted, fun _ _ => trivial⟩

theorem newStrings_nulFree {h : Heap} {texts : List String} (free : h.NulFree) (clean : ∀ s ∈ texts, Text.NulFree s) :
    (newStrings h texts).2.NulFree := by
  induction texts generalizing h with
  | nil => exact free
  | cons s rest ih =>
    exact ih (free.newString (clean s List.mem_cons_self)) fun t member => clean t (List.mem_cons_of_mem s member)

theorem release_nulFree {h : Heap} (free : h.NulFree) (ps : List Ptr) : (ps.foldl Heap.release h).NulFree := by
  induction ps generalizing h with
  | nil => exact free
  | cons p rest ih => exact ih (free.releaseAll [p])

theorem clean_write (a : Addr) (bytes : ByteArray) :
    Clean (onMemory fun m => (m.write a bytes).map fun m => ((), m)) :=
  clean_onMemory _

theorem clean_writeWord (a : Addr) (w : UInt32) : Clean (writeWord a w) :=
  clean_onMemory _

theorem clean_toCString (p : Ptr) : Clean (toCString p) := by
  refine (clean_readHeap _).bind fun text => ?_
  refine (clean_onMemory _).bind fun a => ?_
  split
  next => exact clean_raising (by decide) _
  next => exact clean_pure _

theorem clean_copyArrayBuffer (p : Ptr) (outCount : Addr) : Clean (copyArrayBuffer p outCount) := by
  refine (clean_readHeap _).bind fun found => ?_
  split
  next bytes =>
    refine (clean_onMemory _).bind fun data => ?_
    split
    next => exact clean_raising (by decide) _
    next =>
      refine (clean_write data bytes).bind fun _ => ?_
      exact (clean_writeWord outCount _).bind fun _ => clean_pure _
  next => exact clean_raising (by decide) _

theorem clean_getOwnPropertyNames (outTable outCount : Addr) (object : Ptr) :
    Clean (getOwnPropertyNames outTable outCount object) := by
  refine (cleanWith_readHeap fun _ free => free.ownKeys object).bind fun found listed => ?_
  split
  next => exact clean_raising listed _
  next keys =>
    refine (clean_onHeap fun _ free => newStrings_nulFree free listed).bind fun names => ?_
    refine (clean_onMemory _).bind fun table => ?_
    split
    next =>
      refine (clean_onHeap fun _ free => release_nulFree free names).bind fun _ => ?_
      exact clean_raising (by decide) _
    next =>
      refine (clean_writeWord outTable table).bind fun _ => ?_
      exact (clean_writeWord outCount _).bind fun _ => clean_pure _

theorem clean_getLength (outLength : Addr) (p : Ptr) : Clean (getLength outLength p) := by
  refine (cleanWith_readHeap fun _ free => free.length p).bind fun found told => ?_
  split
  next => exact (clean_writeWord outLength _).bind fun _ => clean_pure _
  next => exact clean_raising told _

theorem clean_newPromiseCapability (out : Addr) : Clean (newPromiseCapability out) := by
  refine (clean_onHeap fun _ free => free.newCapability).bind fun made => ?_
  refine (clean_writeWord out _).bind fun _ => ?_
  exact (clean_writeWord (out + 4) _).bind fun _ => clean_pure _

theorem clean_promiseResult (p : Ptr) : Clean (promiseResult p) := by
  intro s free
  simp only [promiseResult, outcome_bind, outcome_get]
  split
  next v heap found =>
    obtain ⟨record, -, same⟩ := Option.map_eq_some_iff.1 found
    obtain ⟨-, rfl⟩ := Prod.mk.inj same
    exact ⟨free.retain _, fun _ _ => trivial⟩
  next => exact clean_raising (by decide) _ s free

theorem clean_promiseThen (p : Ptr) (onFulfilled onRejected : Option Ptr) :
    Clean (promiseThen p onFulfilled onRejected) := by
  refine (clean_readHeap _).bind fun promise => ?_
  split
  next =>
    refine (clean_onHeap fun _ free => free.andThen p onFulfilled onRejected).bind ?_
    exact fun _ => clean_pure _
  next => exact clean_raising (by decide) _

theorem clean_takeRejectionEvents (outCount : Addr) : Clean (takeRejectionEvents outCount) := by
  have answered (events : List Rejection) (table : Addr) : Clean (do
      if table = 0 then
        modifyHeap fun h => h.releaseAll (events.flatMap Rejection.children)
        writeWord outCount 0
        pure nullResult
      else
        writeWord outCount (UInt32.ofNat events.length)
        pure (.ofWord table)) := by
    split
    next =>
      refine (clean_onHeap fun _ free => free.releaseAll _).bind fun _ => ?_
      exact (clean_writeWord outCount 0).bind fun _ => clean_pure _
    next => exact (clean_writeWord outCount _).bind fun _ => clean_pure _
  refine (clean_onHeap fun _ free => free).bind fun events => ?_
  split
  next => exact (clean_pure _).bind fun _ => answered events _
  next => exact (clean_onMemory _).bind (answered events)

theorem perform_clean (r : Request) : Clean (perform r) := by
  have read {β : Type} (f : Heap -> β) (answer : β -> Scalar) : Clean (do pure (answer (<- readHeap f))) :=
    (clean_readHeap _).bind fun _ => clean_pure _
  have text (a : Addr) : CleanWith Text.NulFree (readMemory fun m => m.readCString a) :=
    cleanWith_readMemory fun _ _ => Memory.nulFree_readCString
  cases r with
  | setMemoryLimit limit => exact fun s free => ⟨free, fun _ _ => trivial⟩
  | freeContext => exact fun s _ => ⟨Heap.nulFree_empty, fun _ _ => trivial⟩
  | freeRuntime => exact fun s _ => ⟨Heap.nulFree_empty, fun _ _ => trivial⟩
  | dupValue p =>
    refine (clean_onHeap fun _ free => free.retain p).bind fun known => ?_
    split
    next => exact clean_pure _
    next => exact clean_raising (Heap.nulFree_invalidPointer p) _
  | freeValue p =>
    refine (clean_onHeap fun _ free => free.releaseAll [p]).bind fun known => ?_
    split
    next => exact clean_pure _
    next => exact clean_throw _
  | newFloat64 x => exact clean_insert (Value.nulFree_of_texts rfl)
  | newString a => exact (text a).bind fun s free => clean_insert (Value.nulFree_string free)
  | toCString p => exact clean_toCString p
  | freeCString a => exact fun s free => ⟨free, fun _ _ => trivial⟩
  | newArrayBuffer data count =>
    have read : Clean (readMemory fun m => m.read data count.toNat) := cleanWith_readMemory fun _ _ _ => trivial
    exact read.bind fun bytes => clean_insert (Value.nulFree_of_texts rfl)
  | copyArrayBuffer p outCount => exact clean_copyArrayBuffer p outCount
  | newObject => exact clean_insert (Value.nulFree_of_texts rfl)
  | newArray => exact clean_insert (Value.nulFree_of_texts rfl)
  | getProp object key => exact clean_attempt _ _ fun h free => free.getProp object (free.display key)
  | setProp object key value =>
    refine clean_attempt _ _ fun h free => ?_
    have stored := free.setProp object value (free.display key)
    generalize h.setProp object (h.display key) value = r at *
    cases r <;> exact stored
  | getOwnPropertyNames outTable outCount object => exact clean_getOwnPropertyNames outTable outCount object
  | getLength outLength p => exact clean_getLength outLength p
  | newError a =>
    refine (text a).bind fun message free => ?_
    exact (clean_onHeap fun _ clean => clean.newError free).bind fun _ => clean_pure _
  | raise p =>
    refine (clean_onHeap fun _ free => ?_).bind fun _ => clean_pure _
    dsimp only
    split
    next => exact (free.retain p).setException p
    next => exact free
  | getLastError =>
    exact (clean_onHeap fun _ free => free).bind fun _ => clean_pure _
  | newFunction id name => exact (text name).bind fun s free => clean_insert (Value.nulFree_function free)
  | newPromiseCapability out => exact clean_newPromiseCapability out
  | promiseResult p => exact clean_promiseResult p
  | promiseThen p onFulfilled onRejected => exact clean_promiseThen p onFulfilled onRejected
  | takeRejectionEvents outCount => exact clean_takeRejectionEvents outCount
  | liveValueCount => exact read _ _
  | getFloat64 p => exact read _ _
  | typeOf p => exact read _ _
  | isEqual a b op => exact read _ _
  | promiseState p => exact read _ _
  | isJobPending => exact read _ _
  | _ => exact clean_pure _

section Stages

variable {s : Engine} (free : s.heap.NulFree)
include free

theorem throwing_nulFree {message : String} (text : Text.NulFree message) : (s.throwing message).2.heap.NulFree :=
  free.newError text

theorem endCall_nulFree (c : Completion) : (s.endCall c).2.heap.NulFree := by
  cases c with
  | returned v => exact free
  | threw exception => exact free.setException exception

theorem endJob_nulFree (job : Job) (c : Completion) : (s.endJob job c).2.heap.NulFree := by
  cases c with
  | returned v => exact ((free.resolveWith _ _).releaseAll _).releaseAll _
  | threw exception => exact ((free.settle _ _ _).releaseAll _).releaseAll _

theorem passThrough_nulFree (job : Job) : (s.passThrough job).2.heap.NulFree := by
  unfold passThrough
  dsimp only
  split
  next => exact (free.settle _ _ _).releaseAll _
  next => exact (free.resolveWith _ _).releaseAll _

theorem interruptJob_nulFree (job : Job) : (s.interruptJob job).2.heap.NulFree := by
  have text : Text.NulFree interruptedText := by decide
  have ended : (s.heap.finishJob job).NulFree := free.releaseAll job.children
  exact ended.raiseMessage text

theorem start_nulFree (interrupted : Bool) (function : Ptr) (args : List Ptr) :
    (s.start interrupted function args).2.heap.NulFree := by
  unfold start
  split
  next => exact throwing_nulFree free (by decide)
  next =>
    split
    next =>
      split
      next => exact free
      next => exact throwing_nulFree free (by decide)
    next => exact free.callResolving _ _ _
    next => exact free.callResolving _ _ _
    next => exact throwing_nulFree free (Text.nulFree_append.2 ⟨free.display function, by decide⟩)

theorem completion_nulFree (answer : Ptr) : (s.completion answer).2.heap.NulFree := by
  unfold completion
  split
  next =>
    split
    next => exact free
    next => exact throwing_nulFree free (by decide)
  next => exact free

theorem runCall_nulFree (interrupted : Bool) (function this : Ptr) (args : List Ptr) (table : Addr) :
    (s.runCall interrupted function this args table).2.heap.NulFree := by
  have started := start_nulFree free interrupted function args
  unfold runCall
  generalize s.start interrupted function args = r at *
  obtain ⟨c | id, t⟩ := r
  next => exact endCall_nulFree started c
  next => exact started

theorem runHandler_nulFree (interrupted : Bool) (job : Job) (function : Ptr) :
    (s.runHandler interrupted job function).2.heap.NulFree := by
  have started := start_nulFree free interrupted function [job.argument]
  unfold runHandler
  generalize s.start interrupted function [job.argument] = r at *
  obtain ⟨c | id, t⟩ := r
  next => exact endJob_nulFree started job c
  next =>
    have short : Text.NulFree outOfMemory := by decide
    have thrown (m : Memory) := endJob_nulFree (throwing_nulFree (s := { t with memory := m }) started short) job
    dsimp only
    split
    next table m _ =>
      split
      next => exact thrown m _
      next => exact started
    next => exact thrown t.memory _

theorem afterCheck_nulFree (interrupted : Bool) (c : Check) : (s.afterCheck interrupted c).2.heap.NulFree := by
  cases c with
  | job job =>
    simp only [afterCheck]
    split
    next => exact interruptJob_nulFree free job
    next =>
      split
      next => exact passThrough_nulFree free job
      next => exact free
  | call function this args table => exact runCall_nulFree free interrupted function this args table
  | handler job function => exact runHandler_nulFree free interrupted job function

theorem afterHost_nulFree (answer : Ptr) (f : Frame) : (s.afterHost answer f).2.heap.NulFree := by
  cases f with
  | call => exact endCall_nulFree (completion_nulFree free answer) _
  | handler job table =>
    exact endJob_nulFree (completion_nulFree (s := { s with memory := s.memory.free table }) free answer) job _

theorem first_nulFree (c : Calling) : (c.first s).2.heap.NulFree := by
  cases c with
  | call function this count arguments =>
    simp only [Calling.first, beginCall]
    split <;> exact free
  | job =>
    simp only [Calling.first, beginJob]
    have kept : s.heap.takeJob.2.NulFree := by
      unfold Heap.takeJob
      split <;> exact free
    split
    next => exact free
    next => exact kept

end Stages

end Engine

end ScriptHost
