import ScriptHost.Proofs.Engine.Freeing
import ScriptHost.Proofs.Engine.Hosting
import ScriptHost.Proofs.Link.Storing

set_option autoImplicit false

/-!
What is read from objects and arrays after a property was set.

The value that a property had before may own parts of the structure, the container among them. Freeing it leaves the
container, to which the host refers as well, and with that all that the container refers to now.
-/

namespace ScriptHost

namespace Heap

variable {stale : Nat} {outside ps olds : List Ptr} {cells cells' : Cells} {h h' : Heap} {o p q v : Ptr} {key : String}
variable {c d : Cell} {value old x : Value} {items : Array Ptr} {cls : ObjectClass} {props : Table String Ptr}

section Surviving

theorem gone_le_held (cells cells' : Cells) (q : Ptr) : (gone cells cells').count q ≤ (held cells.entries).count q := by
  have fewer : (gone cells cells').Sublist (held cells.entries) := List.filter_sublist.flatMap _
  exact fewer.count_le q

/-- What a value holds that is still there is no part of what was lost. -/
theorem gone_le_others (found : cells.get? p = some c) (there : cells'.contains p = true) (q : Ptr) :
    (gone cells cells').count q + c.value.children.count q ≤ (held cells.entries).count q := by
  have other : ∀ e : Ptr × Cell, (!cells'.contains e.1) = true -> (!decide (e.1 = p)) = true := by
    intro e lost
    have apart : e.1 ≠ p := by
      rintro same
      simp [same, there] at lost
    simp [apart]
  have fewer : (gone cells cells').Sublist (held (cells.entries.filter fun e => !decide (e.1 = p))) :=
    (List.monotone_filter_right _ other).flatMap _
  have count := fewer.count_le q
  have total := count_held_filter cells.nodup found q
  omega

theorem stays_of_referred (found : cells.get? q = some c) (ps : List Ptr)
    (referred : ps.count q + (gone cells (freeAll cells ps)).count q < c.refs) :
    ∃ d, (freeAll cells ps).get? q = some d ∧ d.value = c.value := by
  cases there : (freeAll cells ps).get? q with
  | none =>
    have all := freeAll_removed ps found there
    omega
  | some d =>
    obtain ⟨e, here, same, -⟩ := freeAll_kept ps there
    obtain rfl : c = e := Option.some.inj (found.symm.trans here)
    exact ⟨d, rfl, same⟩

variable (balanced : Balanced stale (ps ++ outside) cells)
include balanced

theorem stays_of_owned (owned : q ∈ outside) (found : cells.get? q = some c) :
    ∃ d, (freeAll cells ps).get? q = some d ∧ d.value = c.value := by
  have total := (balanced.counted q c found).2.2
  have lost := gone_le_held cells (freeAll cells ps) q
  have own := List.count_pos_iff.2 owned
  refine stays_of_referred found ps ?_
  rw [List.count_append] at total
  omega

theorem stays_of_child (parent : (freeAll cells ps).get? p = some d) (child : q ∈ d.value.children)
    (found : cells.get? q = some c) : ∃ e, (freeAll cells ps).get? q = some e ∧ e.value = c.value := by
  obtain ⟨b, here, same, -⟩ := freeAll_kept ps parent
  have total := (balanced.counted q c found).2.2
  have lost := gone_le_others here (by simp [Table.contains, parent] : (freeAll cells ps).contains p = true) q
  have once := List.count_pos_iff.2 (same ▸ child)
  refine stays_of_referred found ps ?_
  rw [List.count_append] at total
  omega

end Surviving

section Replacing

/-- The references of a value with a property set, and of those that were given up for it. -/
theorem count_put (put : old.put key v = some (value, olds)) (big : Ptr.firstCounted ≤ q) :
    olds.count q + value.children.count q = old.children.count q + [v].count q := by
  cases old with
  | object cls props =>
    obtain ⟨rfl, rfl⟩ := Prod.mk.inj (Option.some.inj put)
    have count := Table.count_values_put key v q props.entries
    simp only [Value.children, Table.values, Table.set, Table.get?] at *
    omega
  | array items =>
    obtain ⟨i, -, both⟩ := Option.map_eq_some_iff.1 put
    obtain ⟨rfl, rfl⟩ := Prod.mk.inj both
    have count := count_setItem items i v q big
    simp only [Value.children] at *
    omega
  | _ => cases put

theorem setProp_puts_iff (known : h.contains v = true) :
    h.setProp o key v = .ok h' <-> ∃ old value olds, h.get? o = some old ∧ old.put key v = some (value, olds) ∧
      h' = ((h.setValue o value).retain v).releaseAll olds := by
  constructor
  next =>
    intro stored
    unfold setProp at stored
    rw [known] at stored
    simp only [Bool.not_true, Bool.false_eq_true, if_false] at stored
    split at stored
    next cls props here => exact ⟨_, _, _, here, rfl, (Except.ok.inj stored).symm⟩
    next items here =>
      split at stored
      next => cases stored
      next i index =>
        refine ⟨_, _, _, here, ?_, (Except.ok.inj stored).symm⟩
        rw [Value.put, index, Option.map_some]
    next => cases stored
  next =>
    rintro ⟨old, value, olds, here, put, rfl⟩
    exact setProp_puts here put known

variable (a : Accounted stale outside h) (numbered : Numbered stale h) (owned : o ∈ outside) (here : h.get? o = some old)
variable (known : h.contains v = true) (put : old.put key v = some (value, olds))
include a numbered owned here known put

/-- The container stays, and with it all that it refers to. -/
theorem stays_put (done : h' = ((h.setValue o value).retain v).releaseAll olds) :
    h'.get? o = some value ∧ (∀ q ∈ value.children, q ≠ o -> ∀ x, h.get? q = some x -> h'.get? q = some x) := by
  subst done
  have replaced : Accounted stale (olds ++ outside) ((h.retain v).setValue o value) := by
    refine (a.retain (names_of_contains known)).setValue ((get?_retain h v o).trans here) fun q big => ?_
    have count := count_put put big
    simp only [List.count_append, List.count_cons, List.count_nil] at *
    omega
  rw [retain_setValue]
  have balanced : Balanced stale (olds ++ (outside ++ h.pending)) ((h.retain v).setValue o value).cells := by
    have balanced := replaced.balanced numbered
    rwa [List.append_assoc] at balanced
  obtain ⟨c, found, rfl⟩ := get?_eq_some.1 ((get?_retain h v o).trans here)
  have there : ((h.retain v).setValue o value).cells.get? o = some { c with value } := by
    simp [setValue, found]
  obtain ⟨d, kept, rfl⟩ := stays_of_owned balanced (List.mem_append_left _ owned) there
  refine ⟨get?_eq_some.2 ⟨d, kept, rfl⟩, fun q child other x before => ?_⟩
  obtain ⟨e, found', rfl⟩ := get?_eq_some.1 ((get?_retain h v q).trans before)
  have there' : ((h.retain v).setValue o d.value).cells.get? q = some e := by
    simp [setValue, found', Ne.symm other]
  obtain ⟨f, kept', same⟩ := stays_of_child balanced kept child there'
  exact get?_eq_some.2 ⟨f, kept', same⟩

end Replacing

section Reading

theorem arrayIndex?_eq_some_iff {i : Nat} : arrayIndex? key = some i <-> i < UInt64.size ∧ key = Nat.repr i := by
  have limit : Nat.pow 2 64 = UInt64.size := rfl
  constructor
  next =>
    intro index
    unfold arrayIndex? at index
    split at index
    next j read =>
      split at index
      next canonical =>
        obtain rfl := Option.some.inj index
        simp only [Bool.and_eq_true, decide_eq_true_eq, limit] at canonical
        exact ⟨canonical.2, canonical.1.symm⟩
      next => cases index
    next => cases index
  next =>
    rintro ⟨small, rfl⟩
    exact arrayIndex?_repr small

theorem size_setItem (items : Array Ptr) (i : Nat) (v : Ptr) : (setItem items i v).size = max items.size (i + 1) := by
  unfold setItem
  split
  next inside => rw [Array.size_setIfInBounds, Nat.max_eq_left inside]
  next outside =>
    simp only [Array.size_push, Array.size_append, Array.size_replicate]
    omega

/-- What fills the gap is read where there was nothing before. -/
theorem item_setItem (items : Array Ptr) (i j : Nat) (v : Ptr) :
    (setItem items i v)[j]?.getD Ptr.undefined = if j = i then v else items[j]?.getD Ptr.undefined := by
  unfold setItem
  split
  next inside =>
    rw [Array.getElem?_setIfInBounds]
    by_cases same : j = i
    next => simp [same, inside]
    next => simp [same, Ne.symm same]
  next outside =>
    simp only [Array.getElem?_push, Array.getElem?_append, Array.getElem?_replicate, Array.size_append,
      Array.size_replicate]
    have fill : items.size + (i - items.size) = i := by omega
    rw [fill]
    by_cases same : j = i
    next => simp [same]
    next =>
      by_cases old : j < items.size
      next => simp [same, old]
      next =>
        have none : items[j]? = none := Array.getElem?_eq_none (Nat.not_lt.1 old)
        simp only [same, old, none, if_false, Option.getD_none]
        split <;> rfl

theorem getProp_existing (found : h.lookup o key = .ok (.existing p)) : h.getProp o key = .ok (p, h.retain p) := by
  rw [getProp, found]
  rfl

theorem getProp_object (here : h.get? o = some (.object cls props)) (key : String) :
    h.getProp o key =
      .ok ((props.get? key).getD Ptr.undefined, h.retain ((props.get? key).getD Ptr.undefined)) := by
  refine getProp_existing ?_
  rw [lookup, here]

theorem getProp_length (here : h.get? o = some (.array items)) :
    h.getProp o lengthKey = .ok (h.insert (.number (.ofNat items.size))) := by
  rw [getProp, lookup, here]
  rfl

/-- What an array has under a key. -/
def item (items : Array Ptr) (key : String) : Ptr :=
  ((arrayIndex? key).bind fun i => items[i]?).getD Ptr.undefined

theorem getProp_array (here : h.get? o = some (.array items)) (other : key ≠ lengthKey) :
    h.getProp o key = .ok (item items key, h.retain (item items key)) := by
  refine getProp_existing ?_
  rw [lookup, here]
  simp only [other, if_false, item]

theorem item_of_index {i : Nat} (index : arrayIndex? key = some i) : item items key = items[i]?.getD Ptr.undefined := by
  rw [item, index, Option.bind_some]

theorem item_put {i : Nat} (index : arrayIndex? key = some i) (other : String) :
    item (setItem items i v) other = if other = key then v else item items other := by
  cases found : arrayIndex? other with
  | none =>
    have apart : other ≠ key := by
      rintro rfl
      rw [index] at found
      cases found
    simp only [item, found, Option.bind_none, apart, if_false]
  | some j =>
    obtain ⟨-, rfl⟩ := arrayIndex?_eq_some_iff.1 index
    obtain ⟨-, rfl⟩ := arrayIndex?_eq_some_iff.1 found
    rw [item_of_index found, item_of_index found, item_setItem]
    by_cases same : j = i
    next => simp [same]
    next =>
      have apart : Nat.repr j ≠ Nat.repr i := fun alike => same (by simpa using congrArg String.toNat? alike)
      simp [same, apart]

end Reading

section Refusing

/-- Without the exception that is pending. -/
def dismissed (h : Heap) : Heap :=
  h.takeException.2.releaseAll h.takeException.1.toList

theorem newError_frees (counted : Counted h.cells) (message : String) :
    ∃ p n cells, h.next ≤ n ∧ h.newError message = (p, { h with cells, next := n }) ∧ freeAll cells [p] = h.cells ∧
      ∀ q c, h.cells.get? q = some c -> cells.get? q = some c := by
  rcases newError_plants counted message with
    ⟨p, text, n, later, big, big', absent', absent, apart, made⟩ | ⟨-, n, later, made⟩
  next =>
    have planted := withError_planted message absent' absent apart
    have counted' : Counted (withError h.cells p text message) :=
      (counted.set big' (Nat.le_refl 1)).set big (Nat.le_refl 1)
    have freed := (withError_forest h.cells message apart).freed counted' planted.nodup
    refine ⟨p, n, _, later, made, freed.trans planted.old, fun q c found => ?_⟩
    rw [planted.get?_old (planted.apart found), found]
  next =>
    refine ⟨0, n, h.cells, later, made, ?_, fun _ _ found => found⟩
    rw [freeAll_absent (counted.absent zero_small), freeAll_nil]

/-- Dismissing an exception that was raised dismisses the one before it as well, and leaves nothing else. -/
theorem raiseMessage_dismissed (counted : Counted h.cells) (message : String) :
    ∃ n, h.next ≤ n ∧ (h.raiseMessage message).dismissed = { h.dismissed with next := n } := by
  obtain ⟨p, n, cells, later, made, freed, -⟩ := newError_frees counted message
  refine ⟨n, later, ?_⟩
  cases pending : h.exception with
  | none =>
    simp only [raiseMessage, made, setException, pending, dismissed, takeException, releaseAll, Option.toList, freed,
      freeAll_nil]
  | some q =>
    have both : freeAll (freeAll cells [q]) [p] = freeAll h.cells [q] := by
      calc freeAll (freeAll cells [q]) [p] = freeAll cells ([q] ++ [p]) := (freeAll_append cells [q] [p]).symm
        _ = freeAll cells ([p] ++ [q]) := freeAll_perm (List.Perm.swap p q [])
        _ = freeAll (freeAll cells [p]) [q] := freeAll_append cells [p] [q]
        _ = freeAll h.cells [q] := by rw [freed]
    simp only [raiseMessage, made, setException, pending, dismissed, takeException, release, releaseAll, Option.toList,
      both]

theorem raiseMessage_keeps (counted : Counted h.cells) (calm : h.exception = none) (message : String) :
    ∀ q c, h.cells.get? q = some c -> (h.raiseMessage message).cells.get? q = some c := by
  obtain ⟨p, n, cells, -, made, -, kept⟩ := newError_frees counted message
  simpa only [raiseMessage, made, setException, calm] using kept

end Refusing

/-- A property was set. -/
structure Assigned (h h' : Heap) (o : Ptr) (key : String) (v : Ptr) : Prop where
  read : h'.getProp o key = .ok (v, h'.retain v)
  live : h'.contains v = true
  others : ∀ other, other ≠ key -> (∀ items, h.get? o = some (.array items) -> other ≠ lengthKey) ->
    ∃ p, h.getProp o other = .ok (p, h.retain p) ∧ h'.getProp o other = .ok (p, h'.retain p)
  kept : ∃ value, h'.get? o = some value ∧
    ∀ q ∈ value.children, q ≠ o -> ∀ x, h.get? q = some x -> h'.get? q = some x
  named : ∀ cls props, h.get? o = some (.object cls props) ->
    h.ownKeys o = .ok props.keys ∧
      h'.ownKeys o = .ok (if key ∈ props.keys then props.keys else props.keys ++ [key])
  numbered : ∀ items, h.get? o = some (.array items) ->
    ∃ i, key = Nat.repr i ∧ h'.getProp o lengthKey = .ok (h'.insert (.number (.ofNat (max items.size (i + 1))))) ∧
      (∀ j, items.size ≤ j -> j < i ->
        h'.getProp o (Nat.repr j) = .ok (Ptr.undefined, h'.retain Ptr.undefined)) ∧
      h.ownKeys o = .ok ((List.range items.size).map Nat.repr) ∧
      h'.ownKeys o = .ok ((List.range (max items.size (i + 1))).map Nat.repr)

theorem mem_children_put (put : old.put key v = some (value, olds)) : v ∈ value.children := by
  cases old with
  | object cls props =>
    obtain ⟨rfl, rfl⟩ := Prod.mk.inj (Option.some.inj put)
    have there : (props.set key v).get? key = some v := by simp
    exact List.mem_map_of_mem (Table.mem_of_find there)
  | array items =>
    obtain ⟨i, -, both⟩ := Option.map_eq_some_iff.1 put
    obtain ⟨rfl, rfl⟩ := Prod.mk.inj both
    unfold setItem
    split
    next inside => exact Array.mem_toList_iff.2 (Array.mem_setIfInBounds inside)
    next => exact Array.mem_toList_iff.2 Array.mem_push_self
  | _ => cases put

theorem setProp_assigns (a : Accounted stale outside h) (numbered : Numbered stale h) (owned : o ∈ outside)
    (known : h.contains v = true) (stored : h.setProp o key v = .ok h') : Assigned h h' o key v := by
  obtain ⟨old, value, olds, here, put, done⟩ := (setProp_puts_iff known).1 stored
  obtain ⟨there, kept⟩ := stays_put a numbered owned here known put done
  have live : h'.contains v = true := by
    refine contains_iff.2 ((contains_iff.1 known).imp_right fun ⟨c, found⟩ => ?_)
    by_cases same : v = o
    next =>
      obtain ⟨d, found', -⟩ := get?_eq_some.1 there
      exact ⟨d, same ▸ found'⟩
    next =>
      have before : h.get? v = some c.value := get?_eq_some.2 ⟨c, found, rfl⟩
      obtain ⟨d, found', -⟩ := get?_eq_some.1 (kept v (mem_children_put put) same _ before)
      exact ⟨d, found'⟩
  cases old with
  | object cls props =>
    obtain ⟨rfl, -⟩ := Prod.mk.inj (Option.some.inj put)
    constructor
    case read => simpa using getProp_object there key
    case live => exact live
    case others =>
      intro other apart _
      refine ⟨_, getProp_object here other, ?_⟩
      simpa [Ne.symm apart] using getProp_object there other
    case kept => exact ⟨_, there, kept⟩
    case named =>
      intro cls' props' here'
      obtain ⟨rfl, rfl⟩ := Value.object.inj (Option.some.inj (here.symm.trans here'))
      refine ⟨by rw [ownKeys, here], ?_⟩
      rw [ownKeys, there, ← Table.keys_set props key v]
    case numbered =>
      intro items here'
      cases here.symm.trans here'
  | array items =>
    obtain ⟨i, index, both⟩ := Option.map_eq_some_iff.1 put
    obtain ⟨rfl, -⟩ := Prod.mk.inj both
    obtain ⟨small, rfl⟩ := arrayIndex?_eq_some_iff.1 index
    constructor
    case read =>
      have read := getProp_array there (repr_ne_lengthKey i)
      rwa [item_put index, if_pos rfl] at read
    case live => exact live
    case others =>
      intro other apart unlike
      refine ⟨_, getProp_array here (unlike items here), ?_⟩
      have read := getProp_array there (unlike items here)
      rwa [item_put index, if_neg apart] at read
    case kept => exact ⟨_, there, kept⟩
    case named =>
      intro cls props here'
      cases here.symm.trans here'
    case numbered =>
      intro items' here'
      obtain rfl := Value.array.inj (Option.some.inj (here.symm.trans here'))
      refine ⟨i, rfl, ?_, fun j new before => ?_, by rw [ownKeys, here], ?_⟩
      next => rw [← size_setItem items i v, getProp_length there]
      next =>
        have read := getProp_array there (repr_ne_lengthKey j)
        have nothing : items[j]? = none := Array.getElem?_eq_none new
        have skipped : item (setItem items i v) (Nat.repr j) = Ptr.undefined := by
          rw [item_of_index (arrayIndex?_repr (Nat.lt_trans before small)), item_setItem, if_neg (Nat.ne_of_lt before),
            nothing, Option.getD_none]
        rwa [skipped] at read
      next => rw [ownKeys, there, ← size_setItem items i v]
  | _ => cases put

theorem setProp_object (here : h.get? o = some (.object cls props)) (known : h.contains v = true) :
    ∃ h', h.setProp o key v = .ok h' :=
  ⟨_, setProp_puts here rfl known⟩

theorem setProp_array (here : h.get? o = some (.array items)) (known : h.contains v = true) :
    (∃ h', h.setProp o key v = .ok h') <-> ∃ i < UInt64.size, key = Nat.repr i := by
  constructor
  next =>
    rintro ⟨h', stored⟩
    obtain ⟨old, value, olds, here', put, -⟩ := (setProp_puts_iff known).1 stored
    obtain rfl := Option.some.inj (here.symm.trans here')
    obtain ⟨i, index, -⟩ := Option.map_eq_some_iff.1 put
    exact ⟨i, arrayIndex?_eq_some_iff.1 index⟩
  next =>
    rintro ⟨i, index⟩
    have put : (Value.array items).put key v = some (.array (setItem items i v), items[i]?.toList) := by
      rw [Value.put, arrayIndex?_eq_some_iff.2 index, Option.map_some]
    exact ⟨_, setProp_puts here put known⟩

theorem item_cases (items : Array Ptr) (key : String) :
    (∃ i < UInt64.size, key = Nat.repr i ∧ item items key = items[i]?.getD Ptr.undefined) ∨
      (∀ i < UInt64.size, key ≠ Nat.repr i) ∧ item items key = Ptr.undefined := by
  cases index : arrayIndex? key with
  | some i =>
    obtain ⟨small, canonical⟩ := arrayIndex?_eq_some_iff.1 index
    exact .inl ⟨i, small, canonical, item_of_index index⟩
  | none =>
    refine .inr ⟨fun i small canonical => ?_, by rw [item, index]; rfl⟩
    rw [arrayIndex?_eq_some_iff.2 ⟨small, canonical⟩] at index
    cases index

end Heap

namespace Engine

/-- A request was refused with an exception, and no value, property or count is another for it. -/
structure Refused (e e' : Engine) : Prop where
  cells : e.heap.exception = none -> ∀ q c, e.heap.cells.get? q = some c -> e'.heap.cells.get? q = some c
  /-- The new exception takes the place of one that was pending. -/
  dismissed : ∃ n, e.heap.next ≤ n ∧ e'.heap.dismissed = { e.heap.dismissed with next := n }
  memory : e'.memory = e.memory

/-- What comes of setting a property of an object or array. -/
structure Assigns (e : Engine) (o : Ptr) (key : String) (v : Ptr) : Prop where
  object : ∀ cls props, e.heap.get? o = some (.object cls props) -> ∃ h', e.heap.setProp o key v = .ok h'
  array : ∀ items, e.heap.get? o = some (.array items) ->
    ((∃ h', e.heap.setProp o key v = .ok h') <-> ∃ i < UInt64.size, key = Nat.repr i)
  element : ∀ items, e.heap.get? o = some (.array items) -> key ≠ Heap.lengthKey ->
    ∃ p, e.heap.getProp o key = .ok (p, e.heap.retain p) ∧
      ((∃ i < UInt64.size, key = Nat.repr i ∧ p = items[i]?.getD Ptr.undefined) ∨
        (∀ i < UInt64.size, key ≠ Nat.repr i) ∧ p = Ptr.undefined)
  stored : ∀ h', e.heap.setProp o key v = .ok h' -> Heap.Assigned e.heap h' o key v ∧
    ∀ name, e.heap.display name = key ->
      outcome (perform (.setProp o name v)) e = (.ok (.ofBool true), { e with heap := h' })
  failed : ∀ message, e.heap.setProp o key v = .error message -> ∀ name, e.heap.display name = key ->
    ∃ e', outcome (perform (.setProp o name v)) e = (.ok (.ofBool false), e') ∧ Refused e e'

theorem refused_raising {e : Engine} (counted : Heap.Counted e.heap.cells) (message : String) :
    Refused e { e with heap := e.heap.raiseMessage message } :=
  ⟨fun calm => Heap.raiseMessage_keeps counted calm message, Heap.raiseMessage_dismissed counted message, rfl⟩

end Engine

namespace Hosting

variable {d : Discipline} {s : Hosting} {o v : Ptr}

theorem Sound.assigns (sound : s.Sound d) (few : d = .any -> s.engine.heap.next ≤ UInt32.size)
    (held : o ∈ s.owned ∨ o ∈ s.running) (live : s.engine.heap.contains v = true) (key : String) :
    s.engine.Assigns o key v := by
  have numbered := numbered_of_few few
  have counted : Heap.Counted s.engine.heap.cells := fun p c found =>
    ((sound.heap.balanced numbered).counted p c found).imp_right And.left
  constructor
  case object => exact fun _ _ here => Heap.setProp_object here live
  case array => exact fun _ here => Heap.setProp_array here live
  case element =>
    intro items here other
    exact ⟨_, Heap.getProp_array here other, Heap.item_cases items key⟩
  case stored =>
    intro h' done
    refine ⟨Heap.setProp_assigns sound.heap numbered (List.mem_append.2 held) live done, fun name named => ?_⟩
    simp only [Engine.perform, Engine.setProp, Engine.attempt, outcome_bind, outcome_get, named, done, Except.map,
      outcome_modify, outcome_pure]
  case failed =>
    intro message done name named
    refine ⟨_, ?_, Engine.refused_raising counted message⟩
    simp only [Engine.perform, Engine.setProp, Engine.attempt, outcome_bind, outcome_get, named, done, Except.map,
      Engine.outcome_raising]

/-- Makes an array. -/
def listing : List Move :=
  [.request .newArray]

theorem listing_disciplined : start.Disciplined .owning listing :=
  ⟨allowed_plain rfl rfl rfl rfl, trivial⟩

end Hosting

end ScriptHost
