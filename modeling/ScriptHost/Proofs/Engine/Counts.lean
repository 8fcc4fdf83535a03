import ScriptHost.Engine.Promise

set_option autoImplicit false

/-!
Reference counts of cells.

`Balanced` says that every cell counts exactly the references to its value: those held in other cells and
those held outside. The lemmas say what adding, dropping and moving references does to it.

Whoever holds references without having them counted may be left with stale ones. `stale` bounds the
pointers of which that may be so; with zero there are none.
-/

namespace ScriptHost

namespace Table

variable {κ α β : Type} [DecidableEq κ] [DecidableEq β] {es : List (κ × α)} {k : κ} {a : α}

theorem count_flatMap_put (found : find k es = some a) (g : α -> List β) (b : α) (x : β) :
    ((put k b es).flatMap fun e => g e.2).count x + (g a).count x =
      (es.flatMap fun e => g e.2).count x + (g b).count x := by
  induction es with
  | nil => simp [find] at found
  | cons e rest ih =>
    by_cases same : e.1 = k
    next =>
      obtain rfl : e.2 = a := by simpa [find, same] using found
      simp only [put, same, if_true, List.flatMap_cons, List.count_append]
      omega
    next =>
      have later := ih (by simpa [find, same] using found)
      simp only [put, same, if_false, List.flatMap_cons, List.count_append]
      omega

omit [DecidableEq β] in
theorem flatMap_put_new (absent : find k es = none) (g : α -> List β) (b : α) :
    ((put k b es).flatMap fun e => g e.2) = (es.flatMap fun e => g e.2) ++ g b := by
  induction es with
  | nil => simp [put]
  | cons e rest ih =>
    by_cases same : e.1 = k
    next => simp [find, same] at absent
    next =>
      have later := ih (by simpa [find, same] using absent)
      simp [put, same, later]

omit [DecidableEq β] in
theorem filter_eq_of_not_mem (absent : k ∉ es.map Prod.fst) : (es.filter fun e => !decide (e.1 = k)) = es := by
  rw [List.filter_eq_self]
  intro e member
  have other : e.1 ≠ k := fun same => absent (same ▸ List.mem_map_of_mem member)
  simp [other]

theorem count_flatMap_filter (nodup : (es.map Prod.fst).Nodup) (found : find k es = some a) (g : α -> List β) (x : β) :
    ((es.filter fun e => !decide (e.1 = k)).flatMap fun e => g e.2).count x + (g a).count x =
      (es.flatMap fun e => g e.2).count x := by
  induction es with
  | nil => simp [find] at found
  | cons e rest ih =>
    obtain ⟨first, others⟩ := List.nodup_cons.1 nodup
    by_cases same : e.1 = k
    next =>
      obtain rfl : e.2 = a := by simpa [find, same] using found
      simp only [same, decide_true, Bool.not_true, Bool.false_eq_true, not_false_eq_true,
        List.filter_cons_of_neg, filter_eq_of_not_mem (same ▸ first), List.flatMap_cons, List.count_append]
      omega
    next =>
      have later := ih others (by simpa [find, same] using found)
      simp only [same, decide_false, Bool.not_false, List.filter_cons_of_pos, List.flatMap_cons,
        List.count_append]
      omega

end Table

namespace Heap

def held (es : List (Ptr × Cell)) : List Ptr :=
  es.flatMap fun e => e.2.value.children

@[simp] theorem held_nil : held [] = [] :=
  rfl

@[simp] theorem held_cons (e : Ptr × Cell) (es : List (Ptr × Cell)) :
    held (e :: es) = e.2.value.children ++ held es :=
  rfl

theorem count_held_put {es : List (Ptr × Cell)} {p : Ptr} {c : Cell} (found : Table.find p es = some c)
    (d : Cell) (q : Ptr) :
    (held (Table.put p d es)).count q + c.value.children.count q =
      (held es).count q + d.value.children.count q :=
  Table.count_flatMap_put found (fun c => c.value.children) d q

theorem held_put_new {es : List (Ptr × Cell)} {p : Ptr} (absent : Table.find p es = none) (d : Cell) :
    held (Table.put p d es) = held es ++ d.value.children :=
  Table.flatMap_put_new absent (fun c => c.value.children) d

theorem count_held_filter {es : List (Ptr × Cell)} {p : Ptr} {c : Cell}
    (nodup : (es.map Prod.fst).Nodup) (found : Table.find p es = some c) (q : Ptr) :
    (held (es.filter fun e => !decide (e.1 = p))).count q + c.value.children.count q =
      (held es).count q :=
  Table.count_flatMap_filter nodup found (fun c => c.value.children) q

theorem mem_held_of_find {es : List (Ptr × Cell)} {p : Ptr} {c : Cell}
    (found : Table.find p es = some c) {q : Ptr} (child : q ∈ c.value.children) : q ∈ held es := by
  induction es with
  | nil => simp [Table.find] at found
  | cons e rest ih =>
    by_cases same : e.1 = p
    next =>
      obtain rfl : e.2 = c := by simpa [Table.find, same] using found
      exact List.mem_append_left _ child
    next => exact List.mem_append_right _ (ih (by simpa [Table.find, same] using found))

/-- `outside` lists the references that no cell holds. -/
structure Balanced (stale : Nat) (outside : List Ptr) (cells : Cells) : Prop where
  counted : ∀ p c, cells.get? p = some c ->
    Ptr.firstCounted ≤ p ∧ 1 ≤ c.refs ∧ c.refs = outside.count p + (held cells.entries).count p
  absent : ∀ p, Ptr.firstCounted ≤ p -> cells.get? p = none ->
    p.toNat < stale ∨ outside.count p + (held cells.entries).count p = 0

/-- A reference to the pointer can be counted, or needs not to be. -/
def Nameable (stale : Nat) (cells : Cells) (p : Ptr) : Prop :=
  p < Ptr.firstCounted ∨ (∃ c, cells.get? p = some c) ∨ p.toNat < stale

namespace Balanced

variable {stale : Nat} {outside outside' : List Ptr} {cells : Cells} {p : Ptr} {c : Cell}

theorem empty : Balanced stale [] Table.empty := by
  constructor
  next =>
    intro p c found
    simp at found
  next =>
    intro p _ _
    exact .inr rfl

theorem congr (b : Balanced stale outside cells)
    (same : ∀ q, Ptr.firstCounted ≤ q -> outside'.count q = outside.count q) :
    Balanced stale outside' cells := by
  constructor
  next =>
    intro q d here
    have old := b.counted q d here
    rw [same q old.1]
    exact old
  next =>
    intro q big here
    rw [same q big]
    exact b.absent q big here

theorem weaken {stale' : Nat} (b : Balanced stale outside cells) (more : stale ≤ stale') :
    Balanced stale' outside cells :=
  ⟨b.counted, fun q big here => (b.absent q big here).imp_left fun lost => Nat.lt_of_lt_of_le lost more⟩

theorem nameable (b : Balanced stale outside cells)
    (referred : 1 ≤ outside.count p + (held cells.entries).count p) : Nameable stale cells p := by
  by_cases small : p < Ptr.firstCounted
  next => exact .inl small
  next =>
    cases found : cells.get? p with
    | some c => exact .inr (.inl ⟨c, found⟩)
    | none =>
      rcases b.absent p (UInt32.not_lt.1 small) found with lost | none
      · exact .inr (.inr lost)
      · omega

theorem nameable_child (b : Balanced stale outside cells) (found : cells.get? p = some c) {q : Ptr}
    (child : q ∈ c.value.children) : Nameable stale cells q := by
  have := List.count_pos_iff.2 (mem_held_of_find found child)
  exact b.nameable (by omega)

/-- Counts and references may change hands in a cell as long as they go on to match. -/
theorem replace (b : Balanced stale outside cells) (found : cells.get? p = some c) {d : Cell} (live : 1 ≤ d.refs)
    (own : outside'.count p + d.value.children.count p + c.refs =
      outside.count p + c.value.children.count p + d.refs)
    (others : ∀ q, p ≠ q -> Ptr.firstCounted ≤ q ->
      outside'.count q + d.value.children.count q = outside.count q + c.value.children.count q) :
    Balanced stale outside' (cells.set p d) := by
  have exchanged := count_held_put found d
  constructor
  next =>
    intro q e here
    have swapped := exchanged q
    simp only [Table.get?_set] at here
    split at here
    next same =>
      subst same
      obtain rfl := Option.some.inj here
      have old := b.counted _ c found
      refine ⟨old.1, live, ?_⟩
      simp only [Table.set] at *
      omega
    next other =>
      have old := b.counted q e here
      have moved := others q other old.1
      refine ⟨old.1, old.2.1, ?_⟩
      simp only [Table.set] at *
      omega
  next =>
    intro q big here
    have swapped := exchanged q
    simp only [Table.get?_set] at here
    split at here
    next => simp at here
    next other =>
      have moved := others q other big
      refine (b.absent q big here).imp_right fun none => ?_
      simp only [Table.set] at *
      omega

/-- What the new value refers to comes from outside, what the old one referred to goes there. -/
theorem set_value (b : Balanced stale outside cells) (found : cells.get? p = some c) (v : Value)
    (moved : ∀ q, Ptr.firstCounted ≤ q ->
      outside'.count q + v.children.count q = outside.count q + c.value.children.count q) :
    Balanced stale outside' (cells.set p { c with value := v }) := by
  have old := b.counted p c found
  have live : 1 ≤ ({ c with value := v } : Cell).refs := old.2.1
  apply b.replace found live
  next => rw [moved p old.1]
  next => exact fun q _ => moved q

theorem retain (b : Balanced stale outside cells) (ok : Nameable stale cells p) :
    Balanced stale (p :: outside) (cells.modify p fun c => { c with refs := c.refs + 1 }) := by
  unfold Table.modify
  cases found : cells.get? p with
  | none =>
    constructor
    next =>
      intro q d here
      have other : p ≠ q := fun same => by simp [same, here] at found
      simpa [List.count_cons, other] using b.counted q d here
    next =>
      intro q big here
      by_cases same : p = q
      next =>
        subst same
        rcases ok with small | ⟨c, some⟩ | lost
        · exact absurd big (UInt32.not_le.2 small)
        · simp [found] at some
        · exact .inl lost
      next => simpa [List.count_cons, same] using b.absent q big here
  | some c =>
    apply b.replace found (Nat.le_add_left 1 c.refs)
    next =>
      simp only [List.count_cons_self]
      omega
    next =>
      intro q other _
      rw [List.count_cons_of_ne other]

theorem insert {v : Value} (b : Balanced stale (v.children ++ outside) cells)
    (unused : isUnused cells p = true) (recent : stale ≤ p.toNat) :
    Balanced stale (p :: outside) (cells.set p ⟨1, v⟩) := by
  simp only [isUnused, Table.contains, Bool.and_eq_true, decide_eq_true_eq, Bool.not_eq_true',
    Option.isSome_eq_false_iff, Option.isNone_iff_eq_none] at unused
  have added := held_put_new unused.2 ⟨1, v⟩
  constructor
  next =>
    intro q d here
    simp only [Table.get?_set] at here
    simp only [Table.set, added, List.count_append]
    split at here
    next same =>
      subst same
      obtain rfl := Option.some.inj here
      have old := (b.absent _ unused.1 unused.2).resolve_left (Nat.not_lt.2 recent)
      refine ⟨unused.1, by simp, ?_⟩
      simp only [List.count_append, List.count_cons_self] at *
      omega
    next other =>
      have old := b.counted q d here
      refine ⟨old.1, old.2.1, ?_⟩
      simp only [List.count_append, List.count_cons_of_ne other] at *
      omega
  next =>
    intro q big here
    simp only [Table.get?_set] at here
    simp only [Table.set, added, List.count_append]
    split at here
    next => simp at here
    next other =>
      refine (b.absent q big here).imp_right fun none => ?_
      simp only [List.count_append, List.count_cons_of_ne other] at *
      omega

/-- A cell whose last reference goes leaves its own references to whoever frees them. -/
theorem erase (b : Balanced stale (p :: outside) cells) (found : cells.get? p = some c)
    (last : c.refs ≤ 1) : Balanced stale (c.value.children ++ outside) (cells.erase p) := by
  have exchanged := count_held_filter cells.nodup found
  have own := b.counted p c found
  simp only [List.count_cons_self] at own
  constructor
  next =>
    intro q d here
    have := exchanged q
    simp only [Table.get?_erase] at here
    split at here
    next => simp at here
    next other =>
      have old := b.counted q d here
      refine ⟨old.1, old.2.1, ?_⟩
      simp only [Table.erase, List.count_append, List.count_cons_of_ne other] at *
      omega
  next =>
    intro q big here
    have := exchanged q
    simp only [Table.get?_erase] at here
    simp only [Table.erase, List.count_append]
    split at here
    next same =>
      subst same
      exact .inr (by omega)
    next other =>
      refine (b.absent q big here).imp_right fun none => ?_
      simp only [List.count_cons_of_ne other] at none
      omega

theorem drop (b : Balanced stale (p :: outside) cells) (found : cells.get? p = some c)
    (more : 1 < c.refs) : Balanced stale outside (cells.set p { c with refs := c.refs - 1 }) := by
  apply b.replace found (Nat.le_sub_of_add_le more)
  next =>
    simp only [List.count_cons_self]
    omega
  next =>
    intro q other _
    rw [List.count_cons_of_ne other]

theorem skip (b : Balanced stale (p :: outside) cells) (found : cells.get? p = none) :
    Balanced stale outside cells := by
  constructor
  next =>
    intro q d here
    have other : p ≠ q := fun same => by simp [same, here] at found
    simpa [List.count_cons, other] using b.counted q d here
  next =>
    intro q big here
    refine (b.absent q big here).imp_right fun none => ?_
    simp only [List.count_cons] at none
    omega

theorem freeAll (pending : List Ptr) (b : Balanced stale (pending ++ outside) cells) :
    Balanced stale outside (freeAll cells pending) := by
  -- References that are still to be freed belong to no cell, so they count as held outside.
  fun_induction Heap.freeAll cells pending with
  | case1 => exact b
  | case2 cells p rest absent ih => exact ih (b.skip absent)
  | case3 cells p rest c found last ih =>
    apply ih
    rw [List.append_assoc]
    exact b.erase found last
  | case4 cells p rest c found more ih => exact ih (b.drop found (by omega))

end Balanced

end Heap

end ScriptHost
