import ScriptHost.Proofs.Engine.Outcome
import ScriptHost.Proofs.Engine.Promises

set_option autoImplicit false

/-!
What of a heap has to do with promises.

`Affairs` leaves out everything else. Most operations of the heap only let some of that go, and so do the
requests that are not about promises.
-/

namespace ScriptHost

namespace Table

variable {κ α β : Type} [DecidableEq κ] {k : κ} {a : α} {b : β} {t t' : Table κ α} {f : α -> Option β}

omit [DecidableEq κ] in
theorem ext_entries (same : t.entries = t'.entries) : t = t' := by
  cases t
  cases t'
  simp_all

def chosen (f : α -> Option β) (e : κ × α) : Option (κ × β) :=
  (f e.2).map fun b => (e.1, b)

omit [DecidableEq κ] in
theorem keys_chosen (f : α -> Option β) (es : List (κ × α)) :
    ((es.filterMap (chosen f)).map Prod.fst).Sublist (es.map Prod.fst) := by
  induction es with
  | nil => simp
  | cons e rest ih =>
    cases found : f e.2 with
    | none => simpa [chosen, found] using ih.cons e.1
    | some b => simpa [chosen, found] using ih

/-- The keys whose values `f` selects, with what it makes of them. -/
def choose (t : Table κ α) (f : α -> Option β) : Table κ β :=
  ⟨t.entries.filterMap (chosen f), (keys_chosen f t.entries).nodup t.nodup⟩

theorem find_chosen {es : List (κ × α)} (nodup : (es.map Prod.fst).Nodup) :
    find k (es.filterMap (chosen f)) = (find k es).bind f := by
  induction es with
  | nil => rfl
  | cons e rest ih =>
    obtain ⟨first, others⟩ := List.nodup_cons.1 nodup
    by_cases same : e.1 = k
    next =>
      cases found : f e.2 with
      | some b => simp [chosen, find, found, same]
      | none =>
        have absent : k ∉ (rest.filterMap (chosen f)).map Prod.fst := fun member =>
          first (same ▸ (keys_chosen f rest).subset member)
        simp [chosen, find, found, same, (find_eq_none_iff k _).2 absent]
    next =>
      cases found : f e.2 <;> simp [chosen, find, found, same, ih others]

@[simp] theorem get?_choose (t : Table κ α) (f : α -> Option β) (k : κ) :
    (t.choose f).get? k = (t.get? k).bind f :=
  find_chosen t.nodup

theorem put_chosen_some {es : List (κ × α)} (selected : f a = some b)
    (before : ∀ old, find k es = some old -> (f old).isSome) :
    (put k a es).filterMap (chosen f) = put k b (es.filterMap (chosen f)) := by
  induction es with
  | nil => simp [put, chosen, selected]
  | cons e rest ih =>
    by_cases same : e.1 = k
    next =>
      obtain ⟨old, found⟩ := Option.isSome_iff_exists.1 (before e.2 (by simp [find, same]))
      simp [put, same, chosen, selected, found]
    next =>
      have later := ih fun old found => before old (by simpa [find, same] using found)
      cases found : f e.2 <;> simp_all [put, chosen]

theorem put_chosen_none {es : List (κ × α)} (passed : f a = none)
    (before : ∀ old, find k es = some old -> f old = none) :
    (put k a es).filterMap (chosen f) = es.filterMap (chosen f) := by
  induction es with
  | nil => simp [put, chosen, passed]
  | cons e rest ih =>
    by_cases same : e.1 = k
    next =>
      have found := before e.2 (by simp [find, same])
      simp [put, same, chosen, passed, found]
    next =>
      have later := ih fun old found => before old (by simpa [find, same] using found)
      simp [put, same, later, List.filterMap_cons]

theorem put_self {es : List (κ × α)} (found : find k es = some a) : put k a es = es := by
  induction es with
  | nil => simp [find] at found
  | cons e rest ih =>
    by_cases same : e.1 = k
    next =>
      obtain rfl : e.2 = a := by simpa [find, same] using found
      simp [put, ← same]
    next => simp [put, same, ih (by simpa [find, same] using found)]

theorem choose_set_some (selected : f a = some b) (before : ∀ old, t.get? k = some old -> (f old).isSome) :
    (t.set k a).choose f = (t.choose f).set k b :=
  ext_entries (put_chosen_some selected before)

theorem choose_set_none (passed : f a = none) (before : ∀ old, t.get? k = some old -> f old = none) :
    (t.set k a).choose f = t.choose f :=
  ext_entries (put_chosen_none passed before)

theorem set_self (found : t.get? k = some a) : t.set k a = t :=
  ext_entries (put_self found)

theorem put_put (k : κ) (a a' : α) (es : List (κ × α)) : put k a (put k a' es) = put k a es := by
  induction es with
  | nil => simp [put]
  | cons e rest ih =>
    by_cases same : e.1 = k
    next => simp [put, same]
    next => simp [put, same, ih]

theorem set_set (t : Table κ α) (k : κ) (a a' : α) : (t.set k a').set k a = t.set k a :=
  ext_entries (put_put k a a' t.entries)

theorem choose_keep {old : α} (found : t.get? k = some old) (same : f a = f old) :
    (t.set k a).choose f = t.choose f := by
  cases selected : f old with
  | none => exact choose_set_none (same.trans selected) fun other here => by simp_all
  | some b =>
    rw [choose_set_some (same.trans selected) fun other here => by simp_all]
    exact set_self (by simp [found, selected])

theorem modify_of_found (found : t.get? k = some a) (g : α -> α) : t.modify k g = t.set k (g a) := by
  simp [modify, found]

theorem modify_of_absent (absent : t.get? k = none) (g : α -> α) : t.modify k g = t := by
  simp [modify, absent]

theorem choose_modify {g : α -> α} (same : ∀ a, f (g a) = f a) (t : Table κ α) (k : κ) :
    (t.modify k g).choose f = t.choose f := by
  cases found : t.get? k with
  | none => rw [modify_of_absent found]
  | some a => rw [modify_of_found found, choose_keep found (same a)]

theorem choose_erase (t : Table κ α) (k : κ) (f : α -> Option β) :
    ((t.erase k).choose f).entries.Sublist (t.choose f).entries :=
  List.filter_sublist.filterMap (chosen f)

theorem get?_of_sublist (sub : t'.entries.Sublist t.entries) (found : t'.get? k = some a) : t.get? k = some a :=
  find_of_mem t.nodup (sub.subset (mem_of_find found))

end Table

namespace Value

def record? : Value -> Option PromiseRecord
  | promise r => some r
  | _ => none

/-- The promise that a resolving function settles, and whether it rejects it. -/
def resolver? : Value -> Option (Ptr × Bool)
  | function _ (.resolve p) => some (p, false)
  | function _ (.reject p) => some (p, true)
  | _ => none

/-- Values of which two are the same if their contents are. -/
def isLiteral : Value -> Bool
  | number _ | string _ => true
  | _ => false

end Value

def Cell.record? (c : Cell) : Option PromiseRecord :=
  c.value.record?

structure Affairs where
  promises : Table Ptr PromiseRecord
  resolver? : Ptr -> Option (Ptr × Bool)
  jobs : List Job
  queued : List Job
  taken : List Job
  rejections : List Rejection
  history : List Happening
  next : Nat
  literal : Ptr -> Bool

namespace Affairs

/-- Some promises and functions may be gone, and pointers handed out. Nothing else happened. -/
structure Forgets (a b : Affairs) : Prop where
  promises : b.promises.entries.Sublist a.promises.entries
  resolvers : ∀ f t, b.resolver? f = some t -> a.resolver? f = some t
  jobs : b.jobs = a.jobs
  queued : b.queued = a.queued
  taken : b.taken = a.taken
  rejections : b.rejections = a.rejections
  history : b.history = a.history
  next : a.next ≤ b.next
  literal : ∀ p, b.literal p = true -> a.literal p = true ∨ ∃ n, a.next ≤ n ∧ n < b.next ∧ p = UInt32.ofNat n

namespace Forgets

variable {a b c : Affairs}

theorem refl (a : Affairs) : a.Forgets a :=
  ⟨List.Sublist.refl _, fun _ _ h => h, rfl, rfl, rfl, rfl, rfl, Nat.le_refl _, fun _ => .inl⟩

theorem trans (first : a.Forgets b) (second : b.Forgets c) : a.Forgets c where
  promises := second.promises.trans first.promises
  resolvers f t here := first.resolvers f t (second.resolvers f t here)
  jobs := second.jobs.trans first.jobs
  queued := second.queued.trans first.queued
  taken := second.taken.trans first.taken
  rejections := second.rejections.trans first.rejections
  history := second.history.trans first.history
  next := Nat.le_trans first.next second.next
  literal p here := by
    have early := first.next
    have late := second.next
    rcases second.literal p here with before | ⟨n, later, small, same⟩
    next =>
      rcases first.literal p before with known | ⟨n, later, small, same⟩
      next => exact .inl known
      next => exact .inr ⟨n, later, by omega, same⟩
    next => exact .inr ⟨n, by omega, small, same⟩

theorem promise (h : a.Forgets b) {p : Ptr} {r : PromiseRecord} (found : b.promises.get? p = some r) :
    a.promises.get? p = some r :=
  Table.get?_of_sublist h.promises found

end Forgets

end Affairs

namespace Heap

variable {h h' : Heap} {p q v : Ptr} {r : PromiseRecord} {value : Value}

def promises (h : Heap) : Table Ptr PromiseRecord :=
  h.cells.choose Cell.record?

def resolver? (h : Heap) (f : Ptr) : Option (Ptr × Bool) :=
  (h.get? f).bind Value.resolver?

def isLiteral (h : Heap) (p : Ptr) : Bool :=
  (h.get? p).any Value.isLiteral

def affairs (h : Heap) : Affairs :=
  ⟨h.promises, h.resolver?, h.jobs, h.queued, h.taken, h.rejections, h.history, h.next, h.isLiteral⟩

theorem get?_promises (h : Heap) (p : Ptr) : h.promises.get? p = h.promise? p := by
  unfold promises promise? get?
  rw [Table.get?_choose]
  cases h.cells.get? p with
  | none => rfl
  | some c => cases kind : c.value <;> simp [Cell.record?, Value.record?, kind]

def Forgets (h h' : Heap) : Prop :=
  h.affairs.Forgets h'.affairs

theorem Forgets.refl (h : Heap) : h.Forgets h :=
  Affairs.Forgets.refl _

theorem Forgets.trans {h₁ h₂ h₃ : Heap} (first : h₁.Forgets h₂) (second : h₂.Forgets h₃) : h₁.Forgets h₃ :=
  Affairs.Forgets.trans first second

theorem Forgets.of_eq (same : h'.affairs = h.affairs) : h.Forgets h' := by
  unfold Forgets
  rw [same]
  exact Affairs.Forgets.refl _

@[simp] theorem affairs_retain (h : Heap) (p : Ptr) : (h.retain p).affairs = h.affairs := by
  have promises : (h.retain p).promises = h.promises :=
    Table.choose_modify (f := Cell.record?) (g := fun c => { c with refs := c.refs + 1 }) (fun _ => rfl) h.cells p
  have resolvers : (h.retain p).resolver? = h.resolver? := by
    funext f
    simp [resolver?]
  have literals : (h.retain p).isLiteral = h.isLiteral := by
    funext f
    simp [isLiteral]
  simp only [affairs, promises, resolvers, literals]
  rfl

@[simp] theorem affairs_retainAll (ps : List Ptr) (h : Heap) : (ps.foldl retain h).affairs = h.affairs := by
  induction ps generalizing h with
  | nil => rfl
  | cons p rest ih => exact (ih (h.retain p)).trans (affairs_retain h p)

theorem promise?_retainAll (ps : List Ptr) (h : Heap) (p : Ptr) : (ps.foldl retain h).promise? p = h.promise? p := by
  have same := congrArg Affairs.promises (affairs_retainAll ps h)
  change Heap.promises _ = Heap.promises _ at same
  rw [← get?_promises, same, get?_promises]

theorem affairs_setValue_promise (found : h.promise? p = some r) (r' : PromiseRecord) :
    (h.setValue p (.promise r')).affairs = { h.affairs with promises := h.promises.set p r' } := by
  obtain ⟨c, here, kind⟩ := get?_eq_some.1 (promise?_eq_some.1 found)
  have promises : (h.setValue p (.promise r')).promises = h.promises.set p r' := by
    unfold Heap.promises setValue
    rw [Table.modify_of_found here]
    apply Table.choose_set_some (f := Cell.record?) rfl
    intro old there
    obtain rfl : c = old := by simpa [here] using there
    simp [kind, Cell.record?, Value.record?]
  have resolvers : (h.setValue p (.promise r')).resolver? = h.resolver? := by
    funext f
    unfold resolver?
    rw [get?_setValue]
    split
    next same => simp [← same, promise?_eq_some.1 found, Value.resolver?]
    next => rfl
  have literals : (h.setValue p (.promise r')).isLiteral = h.isLiteral := by
    funext f
    unfold isLiteral
    rw [get?_setValue]
    split
    next same => simp [← same, promise?_eq_some.1 found, Value.isLiteral]
    next => rfl
  simp only [affairs, promises, resolvers, literals]
  rfl

theorem affairs_setValue_other {old : Value} (found : h.get? p = some old) (before : old.record? = none)
    (after : value.record? = none) (unable : value.resolver? = old.resolver?)
    (literal : value.isLiteral = old.isLiteral) : (h.setValue p value).affairs = h.affairs := by
  obtain ⟨c, here, rfl⟩ := get?_eq_some.1 found
  have promises : (h.setValue p value).promises = h.promises := by
    unfold Heap.promises setValue
    rw [Table.modify_of_found here]
    exact Table.choose_keep here (after.trans before.symm)
  have resolvers : (h.setValue p value).resolver? = h.resolver? := by
    funext f
    unfold resolver?
    rw [get?_setValue]
    split
    next same => simp [← same, found, unable]
    next => rfl
  have literals : (h.setValue p value).isLiteral = h.isLiteral := by
    funext f
    unfold isLiteral
    rw [get?_setValue]
    split
    next same => simp [← same, found, literal]
    next => rfl
  simp only [affairs, promises, resolvers, literals]
  rfl

theorem choose_freeAll {β : Type} (f : Value -> Option β) (cells : Cells) (ps : List Ptr) :
    ((freeAll cells ps).choose fun c => f c.value).entries.Sublist (cells.choose fun c => f c.value).entries := by
  induction cells, ps using freeAll.induct with
  | case1 cells => simp [freeAll]
  | case2 cells p rest absent ih =>
    rw [freeAll]
    split
    next => exact ih
    next found => simp [absent] at found
  | case3 cells p rest c found last ih =>
    rw [freeAll]
    split
    next absent => simp [found] at absent
    next d here =>
      obtain rfl : c = d := by simpa [found] using here
      rw [if_pos last]
      exact ih.trans (Table.choose_erase cells p _)
  | case4 cells p rest c found more ih =>
    rw [freeAll]
    split
    next absent => simp [found] at absent
    next d here =>
      obtain rfl : c = d := by simpa [found] using here
      rw [if_neg more]
      have same := Table.choose_keep (f := fun c : Cell => f c.value) (a := { c with refs := c.refs - 1 }) found rfl
      exact same ▸ ih

theorem get?_releaseAll {ps : List Ptr} (found : (h.releaseAll ps).get? p = some value) : h.get? p = some value := by
  have sub := choose_freeAll some h.cells ps
  have there : ((freeAll h.cells ps).choose fun c => some c.value).get? p = some value := by
    simpa [get?, releaseAll, Option.bind_eq_some_iff] using found
  simpa [get?, Option.bind_eq_some_iff] using Table.get?_of_sublist sub there

theorem forgets_releaseAll (h : Heap) (ps : List Ptr) : h.Forgets (h.releaseAll ps) where
  promises := choose_freeAll Value.record? h.cells ps
  resolvers f t here := by
    obtain ⟨value, found, selected⟩ := Option.bind_eq_some_iff.1 here
    exact Option.bind_eq_some_iff.2 ⟨value, get?_releaseAll found, selected⟩
  jobs := rfl
  queued := rfl
  taken := rfl
  rejections := rfl
  history := rfl
  next := Nat.le_refl _
  literal p here := by
    obtain ⟨value, found, literal⟩ := (Option.any_eq_true _ _).1 here
    exact .inl ((Option.any_eq_true _ _).2 ⟨value, get?_releaseAll found, literal⟩)

theorem forgets_release (h : Heap) (p : Ptr) : h.Forgets (h.release p) :=
  forgets_releaseAll h [p]

theorem insert_cases (h : Heap) (value : Value) :
    (∃ n, h.next ≤ n ∧ Ptr.firstCounted ≤ UInt32.ofNat n ∧ h.cells.get? (UInt32.ofNat n) = none ∧
      h.insert value =
        (UInt32.ofNat n, { h with cells := h.cells.set (UInt32.ofNat n) ⟨1, value⟩, next := n + 1 })) ∨
    h.insert value = (0, h.releaseAll value.children) := by
  unfold insert
  dsimp only
  split
  next unused =>
    simp only [isUnused, Table.contains, Bool.and_eq_true, decide_eq_true_eq, Bool.not_eq_true',
      Option.isSome_eq_false_iff, Option.isNone_iff_eq_none] at unused
    exact .inl ⟨_, le_freshFrom h.cells _ h.next, unused.1, unused.2, rfl⟩
  next => exact .inr rfl

theorem resolver?_set (h : Heap) (p f : Ptr) (value : Value) (refs n : Nat) :
    { h with cells := h.cells.set p ⟨refs, value⟩, next := n }.resolver? f =
      if p = f then value.resolver? else h.resolver? f := by
  simp only [resolver?, get?, Table.get?_set]
  split <;> rfl

theorem isLiteral_set (h : Heap) (p f : Ptr) (value : Value) (refs n : Nat) :
    { h with cells := h.cells.set p ⟨refs, value⟩, next := n }.isLiteral f =
      if p = f then value.isLiteral else h.isLiteral f := by
  simp only [isLiteral, get?, Table.get?_set]
  split <;> rfl

theorem isLiteral_new {n : Nat} (absent : h.cells.get? p = none) (identified : value.isLiteral = false) :
    { h with cells := h.cells.set p ⟨1, value⟩, next := n }.isLiteral = h.isLiteral := by
  funext f
  rw [isLiteral_set]
  split
  next same => simp [isLiteral, get?, ← same, absent, identified]
  next => rfl

theorem forgets_insert (h : Heap) (plain : value.record? = none) (unable : value.resolver? = none) :
    h.Forgets (h.insert value).2 := by
  rcases insert_cases h value with ⟨n, later, big, absent, made⟩ | full
  next =>
    rw [made]
    have same : (h.cells.set (UInt32.ofNat n) ⟨1, value⟩).choose Cell.record? = h.promises :=
      Table.choose_set_none plain fun old found => by simp [absent] at found
    refine { Affairs.Forgets.refl h.affairs with
      promises := ?_, resolvers := ?_, next := Nat.le_succ_of_le later, literal := ?_ }
    next => exact (congrArg Table.entries same) ▸ List.Sublist.refl _
    next =>
      intro f t here
      have selected := (resolver?_set h (UInt32.ofNat n) f value 1 (n + 1)).symm.trans here
      split at selected
      next => simp [unable] at selected
      next => exact selected
    next =>
      intro f here
      have literal := (isLiteral_set h (UInt32.ofNat n) f value 1 (n + 1)).symm.trans here
      split at literal
      next same => exact .inr ⟨n, later, Nat.lt_succ_self n, same.symm⟩
      next => exact .inl literal
  next => exact full ▸ forgets_releaseAll h value.children

theorem forgets_newString (h : Heap) (s : String) : h.Forgets (h.newString s).2 :=
  forgets_insert h rfl rfl

theorem forgets_newError (h : Heap) (message : String) : h.Forgets (h.newError message).2 :=
  (forgets_newString h message).trans (forgets_insert _ rfl rfl)

theorem forgets_setException (h : Heap) (p : Ptr) : h.Forgets (h.setException p) := by
  unfold setException
  split
  next => exact .of_eq rfl
  next previous _ =>
    have raised : h.Forgets { h with exception := some p } := .of_eq rfl
    exact raised.trans (forgets_release _ previous)

theorem forgets_raiseMessage (h : Heap) (message : String) : h.Forgets (h.raiseMessage message) :=
  (forgets_newError h message).trans (forgets_setException _ _)

theorem forgets_foldl {α : Type} {f : Heap -> α -> Heap} (less : ∀ (h : Heap) (a : α), h.Forgets (f h a)) (as : List α) (h : Heap) :
    h.Forgets (as.foldl f h) := by
  induction as generalizing h with
  | nil => exact .refl h
  | cons a rest ih => exact (less h a).trans (ih (f h a))

theorem plain_computed {key : String} (found : h.lookup p key = .ok (.computed value)) :
    value.record? = none ∧ value.resolver? = none := by
  unfold lookup at found
  split at found
  all_goals
    repeat' split at found
    all_goals
      cases found
      try exact ⟨rfl, rfl⟩

theorem forgets_getProp {key : String} (found : h.getProp p key = .ok (v, h')) : h.Forgets h' := by
  simp only [getProp] at found
  cases looked : h.lookup p key with
  | error e => simp [looked, Except.map] at found
  | ok property =>
    cases property <;> simp only [looked, Except.map, Except.ok.injEq, Prod.mk.injEq] at found
    next w => exact found.2 ▸ .of_eq (affairs_retain h w)
    next w =>
      have made : h' = (h.insert w).2 := by rw [found]
      obtain ⟨plain, unable⟩ := plain_computed looked
      exact made ▸ forgets_insert h plain unable

theorem forgets_setProp {key : String} (stored : h.setProp p key v = .ok h') : h.Forgets h' := by
  simp only [setProp] at stored
  split at stored
  next => cases stored
  next =>
    split at stored
    next cls props found =>
      cases stored
      have same : (h.setValue p (.object cls (props.set key v))).affairs = h.affairs :=
        affairs_setValue_other found rfl rfl rfl rfl
      have stored : h.Forgets ((h.setValue p (.object cls (props.set key v))).retain v) :=
        .of_eq ((affairs_retain _ v).trans same)
      exact stored.trans (forgets_releaseAll _ _)
    next items found =>
      split at stored
      next => cases stored
      next i _ =>
        cases stored
        have same : (h.setValue p (.array (setItem items i v))).affairs = h.affairs :=
          affairs_setValue_other found rfl rfl rfl rfl
        have stored : h.Forgets ((h.setValue p (.array (setItem items i v))).retain v) :=
          .of_eq ((affairs_retain _ v).trans same)
        exact stored.trans (forgets_releaseAll _ _)
    next => cases stored

theorem forgets_promiseResult (found : h.promiseResult p = some (v, h')) : h.Forgets h' := by
  simp only [promiseResult, Option.map_eq_some_iff, Prod.mk.injEq] at found
  obtain ⟨record, _, _, rfl⟩ := found
  exact .of_eq (affairs_retain h _)

end Heap

namespace Engine

variable {α β : Type} {s : Engine}

theorem forgets_newStrings (h : Heap) (keys : List String) : h.Forgets (newStrings h keys).2 := by
  induction keys generalizing h with
  | nil => exact .refl h
  | cons key rest ih => exact (Heap.forgets_newString h key).trans (ih (h.newString key).2)

/-- Nothing happens to promises, but that some may be gone. -/
def Forgetful (act : EngineM α) : Prop :=
  ∀ s : Engine, s.heap.Forgets (outcome act s).2.heap

theorem forgetful_pure (a : α) : Forgetful (pure a : EngineM α) :=
  fun s => .refl s.heap

theorem forgetful_throw (e : Error) : Forgetful (throw e : EngineM α) :=
  fun s => .refl s.heap

theorem forgets_bind (act : EngineM α) {f : α -> EngineM β} (rest : ∀ a, Forgetful (f a)) (s : Engine) :
    (outcome act s).2.heap.Forgets (outcome (act >>= f) s).2.heap := by
  rw [outcome_bind]
  generalize outcome act s = r
  obtain ⟨_ | a, s'⟩ := r
  next => exact .refl s'.heap
  next => exact rest a s'

theorem forgetful_bind {act : EngineM α} {f : α -> EngineM β} (first : Forgetful act) (rest : ∀ a, Forgetful (f a)) :
    Forgetful (act >>= f) :=
  fun s => (first s).trans (forgets_bind act rest s)

theorem forgetful_onHeap {f : Heap -> α × Heap} (less : ∀ h : Heap, h.Forgets (f h).2) : Forgetful (onHeap f) :=
  fun s => less s.heap

theorem forgetful_readHeap (f : Heap -> α) : Forgetful (readHeap f) :=
  forgetful_onHeap .refl

theorem forgetful_raising (message : String) (answer : Scalar) : Forgetful (raising message answer) :=
  fun s => Heap.forgets_raiseMessage s.heap message

theorem forgetful_onMemory (f : Memory -> Except Error (α × Memory)) : Forgetful (onMemory f) := by
  intro s
  cases done : f s.memory with
  | ok r =>
    obtain ⟨a, m⟩ := r
    simpa only [outcome_onMemory done] using Heap.Forgets.refl s.heap
  | error e => simpa only [outcome_onMemory_error done] using Heap.Forgets.refl s.heap

theorem forgetful_readMemory (f : Memory -> Except Error α) : Forgetful (readMemory f) :=
  forgetful_onMemory _

theorem forgetful_insert (v : Value) (plain : v.record? = none) (unable : v.resolver? = none) :
    Forgetful (insert v) :=
  forgetful_bind (forgetful_onHeap fun h => Heap.forgets_insert h plain unable) fun _ => forgetful_pure _

theorem forgetful_modify {f : Engine -> Engine} (kept : ∀ s : Engine, (f s).heap = s.heap) :
    Forgetful (modify f : EngineM PUnit) :=
  fun s => .of_eq (congrArg Heap.affairs (kept s))

theorem forgetful_attempt {f : Heap -> Except String (α × Heap)} {onOk : α -> Scalar} {onError : Scalar}
    (less : ∀ h a h', f h = .ok (a, h') -> h.Forgets h') : Forgetful (attempt f onOk onError) := by
  intro s
  simp only [attempt, outcome_bind, outcome_get]
  cases done : f s.heap with
  | ok r =>
    obtain ⟨a, h'⟩ := r
    exact less s.heap a h' done
  | error message => exact forgetful_raising message onError s

theorem forgetful_toCString (p : Ptr) : Forgetful (toCString p) := by
  refine forgetful_bind (forgetful_readHeap _) fun text => forgetful_bind (forgetful_onMemory _) fun a => ?_
  split
  next => exact forgetful_raising _ _
  next => exact forgetful_pure _

theorem forgetful_copyArrayBuffer (p : Ptr) (outCount : Addr) : Forgetful (copyArrayBuffer p outCount) := by
  refine forgetful_bind (forgetful_readHeap _) fun found => ?_
  split
  next =>
    refine forgetful_bind (forgetful_onMemory _) fun data => ?_
    split
    next => exact forgetful_raising _ _
    next =>
      refine forgetful_bind (forgetful_onMemory _) fun _ => ?_
      exact forgetful_bind (forgetful_onMemory _) fun _ => forgetful_pure _
  next => exact forgetful_raising _ _

theorem forgetful_getOwnPropertyNames (outTable outCount : Addr) (object : Ptr) :
    Forgetful (getOwnPropertyNames outTable outCount object) := by
  refine forgetful_bind (forgetful_readHeap _) fun found => ?_
  split
  next => exact forgetful_raising _ _
  next keys =>
    refine forgetful_bind (forgetful_onHeap fun h => forgets_newStrings h keys) fun names => ?_
    refine forgetful_bind (forgetful_onMemory _) fun table => ?_
    split
    next =>
      refine forgetful_bind (forgetful_onHeap fun h => Heap.forgets_foldl Heap.forgets_release names h) fun _ => ?_
      exact forgetful_raising _ _
    next =>
      refine forgetful_bind (forgetful_onMemory _) fun _ => ?_
      exact forgetful_bind (forgetful_onMemory _) fun _ => forgetful_pure _

theorem forgetful_getLength (outLength : Addr) (p : Ptr) : Forgetful (getLength outLength p) := by
  refine forgetful_bind (forgetful_readHeap _) fun found => ?_
  split
  next => exact forgetful_bind (forgetful_onMemory _) fun _ => forgetful_pure _
  next => exact forgetful_raising _ _

theorem forgetful_raise (p : Ptr) : Forgetful (raise p) := by
  refine forgetful_bind (forgetful_onHeap fun h => ?_) fun _ => forgetful_pure _
  by_cases known : h.contains p = true
  next =>
    have retained : h.Forgets (h.retain p) := .of_eq (Heap.affairs_retain h p)
    simpa only [known, if_true] using retained.trans (Heap.forgets_setException _ p)
  next => simpa only [known, if_false, Bool.false_eq_true] using Heap.Forgets.refl h

theorem forgetful_promiseResult (p : Ptr) : Forgetful (promiseResult p) := by
  intro s
  simp only [promiseResult, outcome_bind, outcome_get]
  cases found : s.heap.promiseResult p with
  | none => exact forgetful_raising _ _ s
  | some r =>
    obtain ⟨v, h'⟩ := r
    exact Heap.forgets_promiseResult found

end Engine

end ScriptHost
