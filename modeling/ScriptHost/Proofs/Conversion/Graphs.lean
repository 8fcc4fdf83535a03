import Mathlib.Data.List.Perm.Subperm
import Mathlib.Logic.Relation
import ScriptHost.Proofs.Conversion.Needs

set_option autoImplicit false

/-!
Graphs of values, and what they unfold to.

A value that is reached along several paths is unfolded once for each. A value unfolds to a snapshot exactly
if nothing is reached from it that is no data, and no container is part of itself.
-/

namespace ScriptHost

/-- What a value is to someone who copies it. -/
inductive Shape where
  | leaf (v : Snapshot)
  | list (items : List Ptr)
  | record (fields : List (String × Ptr))

namespace Shape

def parts : Shape -> List Ptr
  | leaf _ => []
  | list items => items
  | record fields => fields.map Prod.snd

end Shape

namespace Snapshot

def IsLeaf : Snapshot -> Prop
  | .list _ => False
  | .record _ => False
  | _ => True

end Snapshot

/-- Has no shape for what cannot be copied. -/
abbrev Graph := Ptr -> Option Shape

namespace Graph

def Part (g : Graph) (p q : Ptr) : Prop :=
  ∃ s, g p = some s ∧ q ∈ s.parts

def Reaches (g : Graph) : Ptr -> Ptr -> Prop :=
  Relation.ReflTransGen g.Part

/-- Is a container around the other, however far. -/
def Above (g : Graph) : Ptr -> Ptr -> Prop :=
  Relation.TransGen g.Part

def Flat (g : Graph) : Prop :=
  ∀ p v, g p = some (.leaf v) -> v.IsLeaf

def Finite (g : Graph) : Prop :=
  ∃ names : List Ptr, ∀ p q, g.Part p q -> p ∈ names

end Graph

namespace Snapshot

mutual

def Unfolds (g : Graph) : Snapshot -> Ptr -> Prop
  | .list items, p => ∃ ps, g p = some (.list ps) ∧ UnfoldsItems g items ps
  | .record fields, p => ∃ es, g p = some (.record es) ∧ UnfoldsFields g fields es
  | v, p => g p = some (.leaf v)

def UnfoldsItems (g : Graph) : List Snapshot -> List Ptr -> Prop
  | [], ps => ps = []
  | item :: rest, ps => ∃ p qs, ps = p :: qs ∧ Unfolds g item p ∧ UnfoldsItems g rest qs

def UnfoldsFields (g : Graph) : List (String × Snapshot) -> List (String × Ptr) -> Prop
  | [], es => es = []
  | (key, item) :: rest, es => ∃ p qs, es = (key, p) :: qs ∧ Unfolds g item p ∧ UnfoldsFields g rest qs

end

variable {g : Graph} {p q : Ptr} {ps : List Ptr} {es : List (String × Ptr)} {v w : Snapshot}
variable {items : List Snapshot} {fields : List (String × Snapshot)} {truth index : Nat}

theorem unfolds_leaf_iff (leaf : v.IsLeaf) : v.Unfolds g p ↔ g p = some (.leaf v) := by
  cases v
  case list => exact leaf.elim
  case record => exact leaf.elim
  all_goals exact Iff.rfl

theorem unfolds_of_leaf (flat : g.Flat) (shape : g p = some (.leaf v)) : w.Unfolds g p ↔ w = v := by
  have leaf := flat p v shape
  constructor
  next =>
    intro unfolds
    cases w
    case list =>
      obtain ⟨ps, other, -⟩ := unfolds
      cases shape.symm.trans other
    case record =>
      obtain ⟨es, other, -⟩ := unfolds
      cases shape.symm.trans other
    all_goals exact Shape.leaf.inj (Option.some.inj (Eq.trans (Eq.symm unfolds) shape))
  next =>
    rintro rfl
    exact (unfolds_leaf_iff leaf).2 shape

theorem unfolds_of_list (shape : g p = some (.list ps)) :
    w.Unfolds g p ↔ ∃ items, w = .list items ∧ UnfoldsItems g items ps := by
  constructor
  next =>
    intro unfolds
    cases w
    case list items =>
      obtain ⟨qs, same, parts⟩ := unfolds
      obtain rfl := Shape.list.inj (Option.some.inj (shape.symm.trans same))
      exact ⟨items, rfl, parts⟩
    case record =>
      obtain ⟨es, other, -⟩ := unfolds
      cases shape.symm.trans other
    all_goals cases Eq.trans (Eq.symm shape) unfolds
  next =>
    rintro ⟨items, rfl, parts⟩
    exact ⟨ps, shape, parts⟩

theorem unfolds_of_record (shape : g p = some (.record es)) :
    w.Unfolds g p ↔ ∃ fields, w = .record fields ∧ UnfoldsFields g fields es := by
  constructor
  next =>
    intro unfolds
    cases w
    case list =>
      obtain ⟨ps, other, -⟩ := unfolds
      cases shape.symm.trans other
    case record fields =>
      obtain ⟨qs, same, parts⟩ := unfolds
      obtain rfl := Shape.record.inj (Option.some.inj (shape.symm.trans same))
      exact ⟨fields, rfl, parts⟩
    all_goals cases Eq.trans (Eq.symm shape) unfolds
  next =>
    rintro ⟨fields, rfl, parts⟩
    exact ⟨es, shape, parts⟩

theorem Unfolds.shape (unfolds : v.Unfolds g p) : ∃ s, g p = some s := by
  cases v
  case list =>
    obtain ⟨ps, shape, -⟩ := unfolds
    exact ⟨_, shape⟩
  case record =>
    obtain ⟨es, shape, -⟩ := unfolds
    exact ⟨_, shape⟩
  all_goals exact ⟨_, unfolds⟩

theorem UnfoldsItems.part (unfolds : UnfoldsItems g items ps) (part : q ∈ ps) :
    ∃ item ∈ items, item.Unfolds g q := by
  induction items generalizing ps with
  | nil =>
    obtain rfl : ps = [] := unfolds
    exact nomatch part
  | cons item rest ih =>
    obtain ⟨p, qs, rfl, first, others⟩ := unfolds
    rcases List.mem_cons.1 part with rfl | part
    next => exact ⟨item, List.mem_cons_self, first⟩
    next =>
      obtain ⟨other, member, below⟩ := ih others part
      exact ⟨other, List.mem_cons_of_mem item member, below⟩

theorem UnfoldsFields.part (unfolds : UnfoldsFields g fields es) (part : q ∈ es.map Prod.snd) :
    ∃ field ∈ fields, field.2.Unfolds g q := by
  induction fields generalizing es with
  | nil =>
    obtain rfl : es = [] := unfolds
    exact nomatch part
  | cons field rest ih =>
    obtain ⟨key, item⟩ := field
    obtain ⟨p, qs, rfl, first, others⟩ := unfolds
    rcases List.mem_cons.1 part with rfl | part
    next => exact ⟨_, List.mem_cons_self, first⟩
    next =>
      obtain ⟨other, member, below⟩ := ih others part
      exact ⟨other, List.mem_cons_of_mem _ member, below⟩

theorem UnfoldsItems.length (unfolds : UnfoldsItems g items ps) : ps.length = items.length := by
  induction items generalizing ps with
  | nil =>
    obtain rfl : ps = [] := unfolds
    rfl
  | cons item rest ih =>
    obtain ⟨p, qs, rfl, -, others⟩ := unfolds
    exact congrArg (· + 1) (ih others)

theorem UnfoldsFields.keys (unfolds : UnfoldsFields g fields es) : es.map Prod.fst = fields.map Prod.fst := by
  induction fields generalizing es with
  | nil =>
    obtain rfl : es = [] := unfolds
    rfl
  | cons field rest ih =>
    obtain ⟨key, item⟩ := field
    obtain ⟨p, qs, rfl, -, others⟩ := unfolds
    exact congrArg (key :: ·) (ih others)

mutual

/-- A value unfolds to one snapshot at most. -/
theorem Unfolds.unique (flat : g.Flat) {v w : Snapshot} {p : Ptr} (first : v.Unfolds g p) (second : w.Unfolds g p) :
    v = w := by
  cases v
  case list items =>
    obtain ⟨ps, shape, parts⟩ := first
    obtain ⟨others, rfl, parts'⟩ := (unfolds_of_list shape).1 second
    rw [parts.unique flat parts']
  case record fields =>
    obtain ⟨es, shape, parts⟩ := first
    obtain ⟨others, rfl, parts'⟩ := (unfolds_of_record shape).1 second
    rw [parts.unique flat parts']
  all_goals exact ((unfolds_of_leaf flat first).1 second).symm

theorem UnfoldsItems.unique (flat : g.Flat) {items others : List Snapshot} {ps : List Ptr}
    (first : UnfoldsItems g items ps) (second : UnfoldsItems g others ps) : items = others := by
  cases items with
  | nil =>
    obtain rfl : ps = [] := first
    cases others with
    | nil => rfl
    | cons other rest =>
      obtain ⟨p, qs, same, -⟩ := second
      exact nomatch same
  | cons item rest =>
    obtain ⟨p, qs, rfl, here, below⟩ := first
    cases others with
    | nil => exact nomatch (second : p :: qs = [])
    | cons other rest' =>
      obtain ⟨p', qs', same, here', below'⟩ := second
      obtain ⟨rfl, rfl⟩ := List.cons.inj same
      rw [here.unique flat here', below.unique flat below']

theorem UnfoldsFields.unique (flat : g.Flat) {fields others : List (String × Snapshot)} {es : List (String × Ptr)}
    (first : UnfoldsFields g fields es) (second : UnfoldsFields g others es) : fields = others := by
  cases fields with
  | nil =>
    obtain rfl : es = [] := first
    cases others with
    | nil => rfl
    | cons other rest =>
      obtain ⟨p, qs, same, -⟩ := second
      exact nomatch same
  | cons field rest =>
    obtain ⟨key, item⟩ := field
    obtain ⟨p, qs, rfl, here, below⟩ := first
    cases others with
    | nil => exact nomatch (second : (key, p) :: qs = [])
    | cons other rest' =>
      obtain ⟨key', item'⟩ := other
      obtain ⟨p', qs', same, here', below'⟩ := second
      obtain ⟨pair, rfl⟩ := List.cons.inj same
      obtain ⟨rfl, rfl⟩ := Prod.mk.inj pair
      rw [here.unique flat here', below.unique flat below']

end

theorem Unfolds.part (truth : Nat) (unfolds : v.Unfolds g p) (part : g.Part p q) :
    ∃ w, Unfolds g w q ∧ (w.need truth).depth < (v.need truth).depth := by
  obtain ⟨s, shape, member⟩ := part
  cases v
  case list items =>
    obtain ⟨ps, shape', parts⟩ := unfolds
    obtain rfl := Option.some.inj (shape.symm.trans shape')
    obtain ⟨item, inside, below⟩ := parts.part member
    have := (need_le_items truth 0 inside).1
    exact ⟨item, below, by simp only [need, Need.within]; omega⟩
  case record fields =>
    obtain ⟨es, shape', parts⟩ := unfolds
    obtain rfl := Option.some.inj (shape.symm.trans shape')
    obtain ⟨field, inside, below⟩ := parts.part member
    have := (need_le_fields truth inside).1
    exact ⟨field.2, below, by simp only [need, Need.within]; omega⟩
  all_goals
    obtain rfl := Option.some.inj (shape.symm.trans unfolds)
    cases member

theorem Unfolds.reaches (unfolds : v.Unfolds g p) (reaches : g.Reaches p q) : ∃ w, Unfolds g w q := by
  induction reaches with
  | refl => exact ⟨v, unfolds⟩
  | tail _ part ih =>
    obtain ⟨w, below⟩ := ih
    obtain ⟨w', further, -⟩ := below.part 0 part
    exact ⟨w', further⟩

theorem Unfolds.above (unfolds : v.Unfolds g p) (above : g.Above p q) :
    ∃ w, Unfolds g w q ∧ (w.need 0).depth < (v.need 0).depth := by
  induction above with
  | single part => exact unfolds.part 0 part
  | tail _ part ih =>
    obtain ⟨w, below, less⟩ := ih
    obtain ⟨w', further, less'⟩ := below.part 0 part
    exact ⟨w', further, Nat.lt_trans less' less⟩

/-- Whatever unfolds is no part of itself: its snapshot would have to be less deep than itself. -/
theorem Unfolds.not_above (flat : g.Flat) (unfolds : v.Unfolds g p) : ¬g.Above p p := by
  intro above
  obtain ⟨w, again, less⟩ := unfolds.above above
  rw [again.unique flat unfolds] at less
  exact Nat.lt_irrefl _ less

theorem unfoldsItems_of_all (all : ∀ q ∈ ps, ∃ v, Unfolds g v q) : ∃ items, UnfoldsItems g items ps := by
  induction ps with
  | nil => exact ⟨[], rfl⟩
  | cons p rest ih =>
    obtain ⟨v, first⟩ := all p List.mem_cons_self
    obtain ⟨items, others⟩ := ih fun q member => all q (List.mem_cons_of_mem p member)
    exact ⟨v :: items, p, rest, rfl, first, others⟩

theorem unfoldsFields_of_all (all : ∀ q ∈ es.map Prod.snd, ∃ v, Unfolds g v q) : ∃ fields, UnfoldsFields g fields es := by
  induction es with
  | nil => exact ⟨[], rfl⟩
  | cons e rest ih =>
    obtain ⟨v, first⟩ := all e.2 List.mem_cons_self
    obtain ⟨fields, others⟩ := ih fun q member => all q (List.mem_cons_of_mem e.2 member)
    exact ⟨(e.1, v) :: fields, e.2, rest, rfl, first, others⟩

theorem unfolds_of_parts (flat : g.Flat) (shaped : g p ≠ none) (parts : ∀ q, g.Part p q -> ∃ v, Unfolds g v q) :
    ∃ v, Unfolds g v p := by
  cases shape : g p with
  | none => exact absurd shape shaped
  | some s =>
    have inside : ∀ q ∈ s.parts, ∃ v, Unfolds g v q := fun q member => parts q ⟨s, shape, member⟩
    cases s with
    | leaf v => exact ⟨v, (unfolds_of_leaf flat shape).2 rfl⟩
    | list ps =>
      obtain ⟨items, unfolds⟩ := unfoldsItems_of_all inside
      exact ⟨.list items, (unfolds_of_list shape).2 ⟨items, rfl, unfolds⟩⟩
    | record es =>
      obtain ⟨fields, unfolds⟩ := unfoldsFields_of_all inside
      exact ⟨.record fields, (unfolds_of_record shape).2 ⟨fields, rfl, unfolds⟩⟩

end Snapshot

namespace Graph

open Snapshot

variable {g : Graph} {p : Ptr}

/-- Everything in it can be copied, and nothing in it is part of itself. -/
def Tree (g : Graph) (p : Ptr) : Prop :=
  ∀ q, g.Reaches p q -> g q ≠ none ∧ ¬g.Above q q

theorem Tree.part {q : Ptr} (tree : g.Tree p) (part : g.Part p q) : g.Tree q :=
  fun r reaches => tree r (.head part reaches)

/-- The containers around a value are different ones, so there is an end to them. -/
theorem Tree.unfolds_below {p : Ptr} (flat : g.Flat) {names path : List Ptr} (complete : ∀ p q, g.Part p q -> p ∈ names)
    (nodup : path.Nodup) (around : ∀ a ∈ path, a ∈ names ∧ g.Above a p) (tree : g.Tree p) : ∃ v, Unfolds g v p := by
  refine unfolds_of_parts flat (tree p .refl).1 fun q part => ?_
  have new : p ∉ path := fun member => (tree p .refl).2 (around p member).2
  have nodup' := List.nodup_cons.2 ⟨new, nodup⟩
  have around' : ∀ a ∈ p :: path, a ∈ names ∧ g.Above a q := by
    intro a member
    rcases List.mem_cons.1 member with rfl | member
    next => exact ⟨complete a q part, .single part⟩
    next => exact ⟨(around a member).1, (around a member).2.tail part⟩
  have longer := (nodup'.subperm fun a member => (around' a member).1).length_le
  exact unfolds_below flat complete nodup' around' (tree.part part)
termination_by names.length - path.length
decreasing_by
  simp only [List.length_cons] at longer ⊢
  omega

theorem unfolds_iff_tree (flat : g.Flat) (finite : g.Finite) : (∃ v, Unfolds g v p) ↔ g.Tree p := by
  constructor
  next =>
    rintro ⟨v, unfolds⟩ q reaches
    obtain ⟨w, below⟩ := unfolds.reaches reaches
    obtain ⟨s, shape⟩ := below.shape
    exact ⟨by simp [shape], below.not_above flat⟩
  next =>
    intro tree
    obtain ⟨names, complete⟩ := finite
    exact Tree.unfolds_below flat complete List.nodup_nil (by simp) tree

end Graph

end ScriptHost
