import Mathlib.Data.List.Nodup
import ScriptHost.FunctionTable

set_option autoImplicit false

/-!
Tables of host functions over their whole life.

Names and ids stay inverse to each other, and ids are handed out in the order of the numbers, so none comes twice
before the numbers run out. Dropping the functions does not start again: an id from before leads nowhere.
-/

namespace ScriptHost

namespace FunctionTable

variable {η : Type}

inductive Use (η : Type) where
  | register (name : String) (mode : FunctionMode) (handler : η)
  | clear

namespace Use

def isClear : Use η -> Bool
  | register .. => false
  | clear => true

end Use

def step (t : FunctionTable η) : Use η -> FunctionTable η
  | .register name mode handler => t.registering name mode handler
  | .clear => t.clear

def run (t : FunctionTable η) (uses : List (Use η)) : FunctionTable η :=
  uses.foldl step t

/-- The id that a use hands out. -/
def issued? (t : FunctionTable η) : Use η -> Option FunctionId
  | .register name mode handler => (t.register name mode handler).toOption.map Prod.fst
  | .clear => none

/-- The ids that are handed out, oldest first. -/
def issued (t : FunctionTable η) : List (Use η) -> List FunctionId
  | [] => []
  | u :: rest => (t.issued? u).toList ++ (t.step u).issued rest

/-- Each name leads to a function of this name and of the id it stands for, and each function is found by its name. -/
structure Inverse (t : FunctionTable η) : Prop where
  names : ∀ name id, t.ids.get? name = some id -> ∃ f, t.byId? id = some f ∧ f.name = name ∧ f.id = id
  functions : ∀ id f, t.byId? id = some f -> f.id = id ∧ t.ids.get? f.name = some id

/-- So many ids have been handed out. -/
structure Coherent (n : Nat) (t : FunctionTable η) : Prop extends Inverse t where
  next : t.nextId = UInt32.ofNat n
  below : ∀ id f, t.byId? id = some f -> id.toNat < n

variable {t : FunctionTable η} {n : Nat} {name : String} {mode : FunctionMode} {handler : η}
  {uses before later : List (Use η)} {u : Use η} {id : FunctionId}

theorem register_taken (taken : t.ids.contains name = true) :
    t.register name mode handler = .error (.host ("op '" ++ name ++ "' is already registered")) :=
  if_pos taken

theorem register_free (free : t.ids.contains name = false) :
    t.register name mode handler = .ok (t.nextId,
      { ids := t.ids.set name t.nextId
        functions := t.functions.set t.nextId ⟨t.nextId, name, mode, handler⟩
        nextId := t.nextId + 1 }) :=
  if_neg (Bool.eq_false_iff.1 free)

/-- A registration is refused and changes nothing, or it hands out the next id. -/
theorem register_cases (t : FunctionTable η) (name : String) (mode : FunctionMode) (handler : η) :
    (t.ids.contains name = true ∧ t.step (.register name mode handler) = t ∧
      t.issued? (.register name mode handler) = none) ∨
    (t.ids.contains name = false ∧ t.issued? (.register name mode handler) = some t.nextId ∧
      t.step (.register name mode handler) =
        { ids := t.ids.set name t.nextId
          functions := t.functions.set t.nextId ⟨t.nextId, name, mode, handler⟩
          nextId := t.nextId + 1 }) := by
  cases taken : t.ids.contains name with
  | true => exact .inl ⟨rfl, by rw [step, registering, register_taken taken], by rw [issued?, register_taken taken]; rfl⟩
  | false => exact .inr ⟨rfl, by rw [issued?, register_free taken]; rfl, by rw [step, registering, register_free taken]⟩

theorem run_cons (t : FunctionTable η) (u : Use η) (rest : List (Use η)) : t.run (u :: rest) = (t.step u).run rest :=
  rfl

theorem run_append (t : FunctionTable η) (uses more : List (Use η)) : t.run (uses ++ more) = (t.run uses).run more :=
  List.foldl_append

theorem issued_append (t : FunctionTable η) (uses more : List (Use η)) :
    t.issued (uses ++ more) = t.issued uses ++ (t.run uses).issued more := by
  induction uses generalizing t with
  | nil => rfl
  | cons u rest ih => simp only [List.cons_append, issued, ih, List.append_assoc, run, List.foldl_cons]

theorem coherent_empty : Coherent 0 (empty : FunctionTable η) where
  names := nofun
  functions := nofun
  next := rfl
  below := nofun

theorem Coherent.clear (ok : Coherent n t) : Coherent n t.clear where
  names := nofun
  functions := nofun
  next := ok.next
  below := nofun

/-- What a new function is called was free, and its id is above all others. -/
theorem Coherent.register (ok : Coherent n t) (room : n < UInt32.size) (free : t.ids.contains name = false)
    (mode : FunctionMode) (handler : η) :
    Coherent (n + 1)
      { ids := t.ids.set name t.nextId
        functions := t.functions.set t.nextId ⟨t.nextId, name, mode, handler⟩
        nextId := t.nextId + 1 } := by
  have number : t.nextId.toNat = n := ok.next ▸ UInt32.toNat_ofNat_of_lt' room
  have other (id : FunctionId) (f : HostFunction η) (found : t.byId? id = some f) : t.nextId ≠ id := by
    rintro rfl
    exact absurd (ok.below _ f found) (number ▸ Nat.lt_irrefl _)
  have unnamed : t.ids.get? name = none := by simpa [Table.contains] using free
  refine { names := fun name' id named => ?names, functions := fun id f found => ?functions, next := ?next,
           below := fun id f found => ?below }
  case names =>
    simp only [byId?, Table.get?_set] at named ⊢
    split at named
    next same =>
      cases named
      exact ⟨_, if_pos rfl, same, rfl⟩
    next =>
      obtain ⟨f, found, rest⟩ := ok.names name' id named
      exact ⟨f, (if_neg (other id f found)).trans found, rest⟩
  case functions =>
    simp only [byId?, Table.get?_set] at found ⊢
    split at found
    next same =>
      cases found
      exact ⟨same, by simp [same]⟩
    next =>
      obtain ⟨same, named⟩ := ok.functions id f found
      have apart : name ≠ f.name := by
        rintro rfl
        simp [unnamed] at named
      exact ⟨same, (if_neg apart).trans named⟩
  case next => simp [ok.next]
  case below =>
    simp only [byId?, Table.get?_set] at found
    split at found
    next same => exact same ▸ number ▸ Nat.lt_succ_self _
    next => exact Nat.lt_succ_of_lt (ok.below id f found)

theorem Coherent.step (ok : Coherent n t) (u : Use η) (room : n < UInt32.size) :
    Coherent (n + (t.issued? u).toList.length) (t.step u) := by
  cases u with
  | clear => exact ok.clear
  | register name mode handler =>
    rcases register_cases t name mode handler with ⟨-, same, none⟩ | ⟨free, some, made⟩
    next =>
      rw [same, none]
      exact ok
    next =>
      rw [made, some]
      exact ok.register room free mode handler

theorem Coherent.run (ok : Coherent n t) (few : n + (t.issued uses).length < UInt32.size) :
    Coherent (n + (t.issued uses).length) (t.run uses) := by
  induction uses generalizing t n with
  | nil => exact ok
  | cons u rest ih =>
    simp only [issued, List.length_append, ← Nat.add_assoc] at few ⊢
    exact ih (ok.step u (by omega)) few

/-- Ids are handed out in the order of the numbers. -/
theorem issued_eq (next : t.nextId = UInt32.ofNat n) :
    t.issued uses = (List.range' n (t.issued uses).length).map UInt32.ofNat := by
  induction uses generalizing t n with
  | nil => rfl
  | cons u rest ih =>
    rw [issued]
    cases u with
    | clear => exact ih next
    | register name mode handler =>
      rcases register_cases t name mode handler with ⟨-, same, none⟩ | ⟨-, some, made⟩
      next =>
        rw [same, none]
        exact ih next
      next =>
        have later := ih (t := t.step (.register name mode handler)) (n := n + 1) (by simp [made, next])
        rw [some, Option.toList_some, List.singleton_append, List.length_cons, List.range'_succ, List.map_cons, ← next]
        exact congrArg (List.cons _) later

theorem issued_nodup (next : t.nextId = UInt32.ofNat n) (few : n + (t.issued uses).length ≤ UInt32.size) :
    (t.issued uses).Nodup := by
  rw [issued_eq next]
  refine List.Nodup.map_on (fun i small j small' same => ?_) List.nodup_range'
  have bound {k : Nat} (inside : k ∈ List.range' n (t.issued uses).length) : k < UInt32.size := by
    have := List.mem_range'_1.1 inside
    omega
  have value := congrArg UInt32.toNat same
  rwa [UInt32.toNat_ofNat_of_lt' (bound small), UInt32.toNat_ofNat_of_lt' (bound small')] at value

/-- A function that is not there, and whose id is not handed out, does not come. -/
theorem run_absent (absent : t.byId? id = none) (never : id ∉ t.issued uses) : (t.run uses).byId? id = none := by
  induction uses generalizing t with
  | nil => exact absent
  | cons u rest ih =>
    simp only [issued, List.mem_append, not_or] at never
    rw [run_cons]
    refine ih ?_ never.2
    cases u with
    | clear => rfl
    | register name mode handler =>
      rcases register_cases t name mode handler with ⟨-, same, -⟩ | ⟨-, some, made⟩
      next => rwa [same]
      next =>
        have apart : t.nextId ≠ id := fun same => never.1 (by simp [some, same])
        rw [made]
        simpa [byId?, apart] using absent

/-- A function stays under its id until all are dropped. -/
theorem run_stays {f : HostFunction η} (found : t.byId? id = some f) (never : id ∉ t.issued uses) :
    (t.run uses).byId? id = if uses.any Use.isClear then none else some f := by
  induction uses generalizing t with
  | nil => exact found
  | cons u rest ih =>
    simp only [issued, List.mem_append, not_or] at never
    rw [run_cons]
    cases u with
    | clear => exact run_absent (t := t.clear) rfl never.2
    | register name mode handler =>
      refine ih ?_ never.2
      rcases register_cases t name mode handler with ⟨-, same, -⟩ | ⟨-, some, made⟩
      next => rwa [same]
      next =>
        have apart : t.nextId ≠ id := fun same => never.1 (by simp [some, same])
        rw [made]
        simpa [byId?, apart] using found

/-- What may be relied on in a table that has been used for some time. -/
structure Unambiguous (uses : List (Use η)) : Prop where
  inverse : (empty.run uses).Inverse
  distinct : (empty.issued uses).Nodup
  refused : ∀ name mode handler, ((∃ e, (empty.run uses).register name mode handler = .error e) ↔
    ∃ f, (empty.run uses).byName? name = some f) ∧ ∀ e, (empty.run uses).register name mode handler = .error e ->
      (empty.run uses).step (.register name mode handler) = empty.run uses
  serves : ∀ before name mode handler later id, uses = before ++ .register name mode handler :: later ->
    (empty.run before).issued? (.register name mode handler) = some id ->
    (empty.run uses).byId? id = if later.any Use.isClear then none else some ⟨id, name, mode, handler⟩
  -- Whoever has kept an id from before a clear reaches nobody with it.
  stale : ∀ before later id, uses = before ++ .clear :: later -> id ∈ empty.issued before ->
    (empty.run uses).byId? id = none

theorem Inverse.known_iff (ok : t.Inverse) (name : String) :
    t.ids.contains name = true ↔ ∃ f, t.byName? name = some f := by
  simp only [Table.contains, Option.isSome_iff_exists, byName?, Option.bind_eq_some_iff]
  constructor
  next =>
    rintro ⟨id, named⟩
    obtain ⟨f, found, -⟩ := ok.names name id named
    exact ⟨f, id, named, found⟩
  next =>
    rintro ⟨f, id, named, -⟩
    exact ⟨id, named⟩

theorem refused_iff (t : FunctionTable η) (name : String) (mode : FunctionMode) (handler : η) :
    (∃ e, t.register name mode handler = .error e) ↔ t.ids.contains name = true := by
  cases taken : t.ids.contains name with
  | true => exact iff_of_true ⟨_, register_taken taken⟩ rfl
  | false =>
    rw [register_free taken]
    exact iff_of_false nofun Bool.false_ne_true

theorem served_first (free : t.issued? (.register name mode handler) = some id) :
    (t.step (.register name mode handler)).byId? id = some ⟨id, name, mode, handler⟩ := by
  rcases register_cases t name mode handler with ⟨-, -, none⟩ | ⟨-, some, made⟩
  next => simp [none] at free
  next =>
    obtain rfl : t.nextId = id := Option.some.inj (some.symm.trans free)
    simp [made, byId?]

/-- As long as fewer than 2^32 registrations have succeeded, a table never mixes its functions up. -/
theorem run_unambiguous (uses : List (Use η)) (few : (empty.issued uses).length < UInt32.size) : Unambiguous uses := by
  have distinct : (empty.issued uses).Nodup := issued_nodup (n := 0) rfl (by omega)
  have coherent : Coherent (0 + (empty.issued uses).length) (empty.run uses) := coherent_empty.run (by omega)
  have inverse := coherent.toInverse
  constructor
  case inverse => exact inverse
  case distinct => exact distinct
  case refused =>
    intro name mode handler
    refine ⟨(refused_iff _ name mode handler).trans (inverse.known_iff name), fun e refused => ?_⟩
    rw [step, registering, refused]
  case serves =>
    rintro before name mode handler later id rfl handed
    rw [issued_append, issued, handed] at distinct
    -- The id is not handed out again, so what was registered under it is what is found.
    have once := (List.nodup_cons.1 (List.nodup_append.1 distinct).2.1).1
    rw [run_append, run_cons]
    exact run_stays (served_first handed) once
  case stale =>
    rintro before later id rfl handed
    rw [issued_append, issued] at distinct
    have never : id ∉ (empty.run before).clear.issued later := fun again =>
      (List.nodup_append.1 distinct).2.2 id handed id again rfl
    rw [run_append, run_cons]
    exact run_absent rfl never

/-- A name is taken, asked for once more, dropped and taken again. -/
def reopening : List (Use Bool) :=
  [.register "echo" .sync true, .register "echo" .async false, .clear, .register "echo" .async false]

theorem reopening_unambiguous : (empty.issued reopening).length < UInt32.size ∧ Unambiguous reopening ∧
    empty.issued reopening = [0, 1] ∧ (empty.run reopening).byId? 0 = none := by
  have few : (empty.issued reopening).length < UInt32.size := by decide
  have clean := run_unambiguous reopening few
  exact ⟨few, clean, by decide, clean.stale [.register "echo" .sync true, .register "echo" .async false]
    [.register "echo" .async false] 0 rfl (by decide)⟩

end FunctionTable

end ScriptHost
