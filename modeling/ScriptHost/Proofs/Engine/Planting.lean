import Mathlib.Data.List.Nodup
import Mathlib.Data.List.Perm.Subperm
import Mathlib.Logic.Relation
import ScriptHost.Proofs.Engine.Affairs

set_option autoImplicit false

/-!
Trees of new values: what is added to the cells, and how releasing the root takes all of it away again.

A forest lists the cells under its roots in the order in which they are freed. Each of them counts one
reference, from the cell above it or from whoever planted the root.
-/

namespace ScriptHost

namespace Table

variable {κ α : Type} [DecidableEq κ] {t t' : Table κ α} {k j : κ} {ks js : List κ} {a : α}

def without (t : Table κ α) (ks : List κ) : Table κ α :=
  ⟨t.entries.filter (fun e => !decide (e.1 ∈ ks)), (List.filter_sublist.map Prod.fst).nodup t.nodup⟩

theorem find_filter_keys (keep : κ -> Bool) (k : κ) (es : List (κ × α)) :
    find k (es.filter fun e => keep e.1) = if keep k then find k es else none := by
  induction es with
  | nil => simp [find]
  | cons e rest ih =>
    by_cases same : e.1 = k
    next => by_cases kept : keep k <;> simp [find, same, kept, ih]
    next => by_cases kept : keep e.1 <;> simp [find, same, kept, ih]

@[simp] theorem get?_without (t : Table κ α) (ks : List κ) (k : κ) :
    (t.without ks).get? k = if k ∈ ks then none else t.get? k := by
  have filtered := find_filter_keys (fun k => !decide (k ∈ ks)) k t.entries
  simpa [get?, without] using filtered

theorem without_without (t : Table κ α) (ks js : List κ) : (t.without ks).without js = t.without (ks ++ js) := by
  apply ext_entries
  simp only [without, List.filter_filter]
  congr 1
  funext e
  simp [Bool.and_comm]

theorem erase_eq_without (t : Table κ α) (k : κ) : t.erase k = t.without [k] := by
  apply ext_entries
  simp [erase, without]

theorem without_of_absent (absent : ∀ k ∈ ks, t.get? k = none) : t.without ks = t := by
  apply ext_entries
  rw [without, List.filter_eq_self]
  intro e member
  have other : e.1 ∉ ks := fun listed => (get?_eq_none_iff t e.1).1 (absent _ listed) (List.mem_map_of_mem member)
  simp [other]

theorem without_nil (t : Table κ α) : t.without [] = t :=
  without_of_absent (by simp)

theorem filter_put (keep : κ -> Bool) (dropped : keep k = false) (es : List (κ × α)) :
    (put k a es).filter (fun e => keep e.1) = es.filter fun e => keep e.1 := by
  induction es with
  | nil => simp [put, dropped]
  | cons e rest ih =>
    by_cases same : e.1 = k
    next => simp [put, same, dropped]
    next => simp [put, same, List.filter_cons, ih]

theorem set_without (member : k ∈ ks) (t : Table κ α) (a : α) : (t.set k a).without ks = t.without ks := by
  apply ext_entries
  exact filter_put (fun k => !decide (k ∈ ks)) (by simp [member]) t.entries

theorem modify_without (member : k ∈ ks) (t : Table κ α) (f : α -> α) : (t.modify k f).without ks = t.without ks := by
  unfold modify
  split
  next => exact set_without member t _
  next => rfl

theorem modify_without_comm (t : Table κ α) (k : κ) (ks : List κ) (f : α -> α) :
    (t.modify k f).without ks = (t.without ks).modify k f := by
  apply ext_entries
  simp only [entries_modify, without, List.filter_map]
  congr 2
  funext e
  by_cases same : e.1 = k <;> simp [same]

theorem set_modify (other : k ≠ j) (t : Table κ α) (f : α -> α) :
    (t.modify j f).set k a = (t.set k a).modify j f := by
  apply ext_entries
  simp only [entries_modify, set]
  induction t.entries with
  | nil => simp [put, other]
  | cons e rest ih =>
    by_cases same : e.1 = k
    next => simp [put, same, other]
    next => by_cases here : e.1 = j <;> simp_all [put, Ne.symm other]
theorem without_congr (same : ∀ k, k ∈ ks <-> k ∈ js) (t : Table κ α) : t.without ks = t.without js := by
  apply ext_entries
  simp only [without, same]

theorem size_modify (t : Table κ α) (k : κ) (f : α -> α) : (t.modify k f).size = t.size := by
  simp [size, entries_modify]

theorem size_set_new (absent : t.get? k = none) (a : α) : (t.set k a).size = t.size + 1 := by
  have keys := keys_set t k a
  rw [if_neg ((get?_eq_none_iff t k).1 absent)] at keys
  have length := congrArg List.length keys
  simpa [keys, Table.keys, size] using length

theorem size_without_le (t : Table κ α) (ks : List κ) : (t.without ks).size ≤ t.size :=
  List.length_filter_le _ _

end Table

namespace Heap

variable {cells cells' cells'' : Cells} {p q k : Ptr} {ps qs ks js : List Ptr} {c : Cell} {v : Value} {h : Heap}

/-- Cells have the pointers that are counted, and are referred to. -/
def Counted (cells : Cells) : Prop :=
  ∀ p c, cells.get? p = some c -> Ptr.firstCounted ≤ p ∧ 1 ≤ c.refs

section FreeAll

theorem freeAll_nil (cells : Cells) : freeAll cells [] = cells := by
  rw [freeAll]

theorem freeAll_absent (absent : cells.get? p = none) (ps : List Ptr) : freeAll cells (p :: ps) = freeAll cells ps := by
  rw [freeAll]
  split
  next => rfl
  next found => simp [absent] at found

theorem freeAll_last (found : cells.get? p = some c) (last : c.refs ≤ 1) (ps : List Ptr) :
    freeAll cells (p :: ps) = freeAll (cells.erase p) (c.value.children ++ ps) := by
  rw [freeAll]
  split
  next absent => simp [found] at absent
  next here =>
    obtain rfl := Option.some.inj (found.symm.trans here)
    exact if_pos last

theorem freeAll_more (found : cells.get? p = some c) (more : 1 < c.refs) (ps : List Ptr) :
    freeAll cells (p :: ps) = freeAll (cells.set p { c with refs := c.refs - 1 }) ps := by
  rw [freeAll]
  split
  next absent => simp [found] at absent
  next here =>
    obtain rfl := Option.some.inj (found.symm.trans here)
    exact if_neg (Nat.not_le.2 more)

theorem freeAll_append (cells : Cells) (ps qs : List Ptr) :
    freeAll cells (ps ++ qs) = freeAll (freeAll cells ps) qs := by
  fun_induction Heap.freeAll cells ps with
  | case1 => rfl
  | case2 cells p rest absent ih => rw [List.cons_append, freeAll_absent absent, ih]
  | case3 cells p rest c found last ih => rw [List.cons_append, freeAll_last found last, ← List.append_assoc, ih]
  | case4 cells p rest c found more ih => rw [List.cons_append, freeAll_more found (by omega), ih]

theorem freeAll_retained (counted : Counted cells) (p : Ptr) :
    freeAll (cells.modify p fun c => { c with refs := c.refs + 1 }) [p] = cells := by
  cases found : cells.get? p with
  | none =>
    rw [Table.modify_of_absent found, freeAll_absent found, freeAll_nil]
  | some c =>
    have there : (cells.modify p fun c => { c with refs := c.refs + 1 }).get? p = some { c with refs := c.refs + 1 } := by
      simp [found]
    have few := (counted p c found).2
    rw [freeAll_more there (by dsimp only; omega), freeAll_nil]
    simp only [Table.modify_of_found found, Table.set_set, Nat.add_sub_cancel]
    exact Table.set_self found

end FreeAll

theorem Counted.set (counted : Counted cells) (big : Ptr.firstCounted ≤ p) (some : 1 ≤ c.refs) :
    Counted (cells.set p c) := by
  intro q d found
  rw [Table.get?_set] at found
  split at found
  next same =>
    obtain rfl := Option.some.inj found
    exact same ▸ ⟨big, some⟩
  next => exact counted q d found

theorem Counted.modify (counted : Counted cells) {f : Cell -> Cell} (more : ∀ c, c.refs ≤ (f c).refs) (p : Ptr) :
    Counted (cells.modify p f) := by
  intro q d found
  rw [Table.get?_modify] at found
  split at found
  next =>
    obtain ⟨c, here, rfl⟩ := Option.map_eq_some_iff.1 found
    exact (counted q c here).imp_right fun some => Nat.le_trans some (more c)
  next => exact counted q d found

theorem Counted.without (counted : Counted cells) (ks : List Ptr) : Counted (cells.without ks) := by
  intro q d found
  rw [Table.get?_without] at found
  split at found
  next => cases found
  next => exact counted q d found

theorem Counted.absent (counted : Counted cells) (small : p < Ptr.firstCounted) : cells.get? p = none := by
  cases found : cells.get? p with
  | none => rfl
  | some c => exact absurd (counted p c found).1 (UInt32.not_le.2 small)

/-- The cells under these roots, each of which is referred to once. -/
inductive Forest (cells : Cells) : List Ptr -> List Ptr -> Prop
  | nothing : Forest cells [] []
  | constant {p : Ptr} {ps ks : List Ptr} (small : p < Ptr.firstCounted) (rest : Forest cells ps ks) :
      Forest cells (p :: ps) ks
  | cell {p : Ptr} {ps ks : List Ptr} {c : Cell} (found : cells.get? p = some c) (sole : c.refs = 1)
      (rest : Forest cells (c.value.children ++ ps) ks) : Forest cells (p :: ps) (p :: ks)

namespace Forest

theorem present (forest : Forest cells ps ks) : ∀ k ∈ ks, ∃ c, cells.get? k = some c ∧ c.refs = 1 := by
  induction forest with
  | nothing => simp
  | constant _ _ ih => exact ih
  | cell found sole _ ih =>
    intro k member
    rcases List.mem_cons.1 member with rfl | below
    · exact ⟨_, found, sole⟩
    · exact ih k below

theorem congr (forest : Forest cells ps ks) (same : ∀ k ∈ ks, cells'.get? k = cells.get? k) : Forest cells' ps ks := by
  induction forest with
  | nothing => exact .nothing
  | constant small _ ih => exact .constant small (ih same)
  | cell found sole _ ih =>
    refine .cell ((same _ List.mem_cons_self).trans found) sole (ih fun k member => ?_)
    exact same k (List.mem_cons_of_mem _ member)

theorem append (first : Forest cells ps ks) (second : Forest cells qs js) : Forest cells (ps ++ qs) (ks ++ js) := by
  induction first with
  | nothing => exact second
  | constant small _ ih => exact .constant small ih
  | cell found sole _ ih => exact .cell found sole (by rwa [List.append_assoc] at ih)

/-- Releasing the roots of a forest takes away its cells and nothing else. -/
theorem freed (forest : Forest cells ps ks) (counted : Counted cells) (nodup : ks.Nodup) :
    freeAll cells ps = cells.without ks := by
  -- While some cells are gone already, the rest of the forest is still as it was.
  have general : ∀ gone : List Ptr, (∀ k ∈ ks, k ∉ gone) ->
      freeAll (cells.without gone) ps = cells.without (gone ++ ks) := by
    induction forest with
    | nothing =>
      intro gone _
      rw [freeAll_nil, List.append_nil]
    | constant small _ ih =>
      intro gone apart
      have none := (counted.without gone).absent small
      rw [freeAll_absent none, ih nodup gone apart]
    | @cell p ps ks c found sole _ ih =>
      intro gone apart
      obtain ⟨first, others⟩ := List.nodup_cons.1 nodup
      have there : (cells.without gone).get? p = some c := by
        rw [Table.get?_without, if_neg (apart p List.mem_cons_self), found]
      have later := ih others (gone ++ [p]) fun k member => by
        have here := apart k (List.mem_cons_of_mem p member)
        have other : k ≠ p := fun same => first (same ▸ member)
        simp [here, other]
      rw [freeAll_last there (Nat.le_of_eq sole), Table.erase_eq_without, Table.without_without, later,
        List.append_assoc, List.singleton_append]
  simpa [Table.without_nil] using general [] (by simp)

theorem count (forest : Forest cells ps ks) (big : Ptr.firstCounted ≤ q) :
    (ps ++ ks.flatMap fun k => (cells.get? k).elim [] fun c => c.value.children).count q = ks.count q := by
  induction forest with
  | nothing => rfl
  | @constant p ps ks small _ ih =>
    have other : p ≠ q := fun same => absurd big (UInt32.not_le.2 (same ▸ small))
    rw [List.cons_append, List.count_cons_of_ne other]
    exact ih
  | cell found _ _ ih =>
    simp only [List.flatMap_cons, found, Option.elim_some, List.count_append, List.count_cons] at *
    omega

end Forest

def Refers (cells : Cells) (p q : Ptr) : Prop :=
  ∃ c, cells.get? p = some c ∧ q ∈ c.value.children

theorem Forest.reached (forest : Forest cells ps ks) :
    ∀ k ∈ ks, ∃ p ∈ ps, Relation.ReflTransGen (Refers cells) p k := by
  induction forest with
  | nothing => simp
  | constant small _ ih =>
    intro k member
    obtain ⟨p, root, path⟩ := ih k member
    exact ⟨p, List.mem_cons_of_mem _ root, path⟩
  | @cell p ps ks c found _ _ ih =>
    intro k member
    rcases List.mem_cons.1 member with rfl | below
    · exact ⟨k, List.mem_cons_self, .refl⟩
    · obtain ⟨q, root, path⟩ := ih k below
      rcases List.mem_append.1 root with child | other
      · exact ⟨p, List.mem_cons_self, .head ⟨c, found, child⟩ path⟩
      · exact ⟨q, List.mem_cons_of_mem _ other, path⟩

/-- The cells of these pointers are new and referred to once, and the others are as they were. -/
structure Planted (cells cells' : Cells) (ks : List Ptr) : Prop where
  nodup : ks.Nodup
  new : ∀ k ∈ ks, cells.get? k = none
  there : ∀ k ∈ ks, ∃ c, cells'.get? k = some c ∧ c.refs = 1
  old : cells'.without ks = cells

namespace Planted

theorem refl (cells : Cells) : Planted cells cells [] :=
  ⟨List.nodup_nil, by simp, by simp, Table.without_nil cells⟩

theorem get?_old (planted : Planted cells cells' ks) (apart : p ∉ ks) : cells'.get? p = cells.get? p := by
  have same := Table.get?_without cells' ks p
  rw [planted.old, if_neg apart] at same
  exact same.symm

theorem apart (planted : Planted cells cells' ks) (found : cells.get? p = some c) : p ∉ ks := by
  intro member
  simp [planted.new p member] at found

theorem trans (first : Planted cells cells' ks) (second : Planted cells' cells'' js) :
    Planted cells cells'' (ks ++ js) := by
  have disjoint : ∀ k ∈ ks, k ∉ js := fun k member => by
    obtain ⟨c, here, -⟩ := first.there k member
    exact second.apart here
  refine ⟨List.nodup_append.2 ⟨first.nodup, second.nodup, ?_⟩, ?_, ?_, ?_⟩
  · rintro k before j after rfl
    exact disjoint k before after
  · intro k member
    rcases List.mem_append.1 member with before | after
    · exact first.new k before
    · by_cases before : k ∈ ks
      next => exact first.new k before
      next => rw [← first.get?_old before, second.new k after]
  · intro k member
    rcases List.mem_append.1 member with before | after
    · rw [second.get?_old (disjoint k before)]
      exact first.there k before
    · exact second.there k after
  · rw [Table.without_congr (show ∀ k, k ∈ ks ++ js <-> k ∈ js ++ ks by simp [or_comm]), ← Table.without_without,
      second.old, first.old]

theorem set (absent : cells.get? p = none) (v : Value) : Planted cells (cells.set p ⟨1, v⟩) [p] := by
  refine ⟨List.nodup_singleton p, by simpa using absent, by simp, ?_⟩
  rw [Table.set_without List.mem_cons_self, Table.without_of_absent (by simpa using absent)]

theorem perm (planted : Planted cells cells' ks) (same : ks.Perm js) : Planted cells cells' js where
  nodup := same.nodup_iff.1 planted.nodup
  new k member := planted.new k (same.mem_iff.2 member)
  there k member := planted.there k (same.mem_iff.2 member)
  old := (Table.without_congr (fun _ => same.mem_iff.symm) cells').trans planted.old

/-- A new value gets another new value for those of its cells that are freed for it. -/
theorem stored {before old after : List Ptr} (planted : Planted cells cells' (p :: (before ++ old ++ after)))
    (more : Planted cells' cells'' js) (v : Value) :
    Planted cells ((cells''.modify p fun c => { c with value := v }).without old) (p :: (before ++ js ++ after)) ∧
      p ∉ before ++ js ++ after ∧ ∀ k ∈ p :: (before ++ js ++ after), k ∉ old := by
  -- All these pointers are different, in whatever order they are listed.
  have order : (p :: (before ++ old ++ after) ++ js).Perm (old ++ p :: (before ++ js ++ after)) := by
    rw [List.perm_iff_count]
    intro k
    simp only [List.count_append, List.count_cons]
    omega
  have both := (planted.trans more).perm order
  obtain ⟨-, nodup, disjoint⟩ := List.nodup_append.1 both.nodup
  have kept : ∀ k ∈ p :: (before ++ js ++ after), k ∉ old := fun k member gone => disjoint k gone k member rfl
  refine ⟨⟨nodup, fun k member => both.new k (List.mem_append_right _ member), fun k member => ?_, ?_⟩,
    (List.nodup_cons.1 nodup).1, kept⟩
  · obtain ⟨c, found, once⟩ := both.there k (List.mem_append_right _ member)
    by_cases same : p = k
    next => exact ⟨{ c with value := v }, by simp [kept k member, same, found], once⟩
    next => exact ⟨c, by simp [kept k member, same, found], once⟩
  · rw [Table.without_without, Table.modify_without (by simp)]
    exact both.old

end Planted

section Insert

theorem freshFrom_used {tries n : Nat} (used : isUnused cells (UInt32.ofNat (freshFrom cells tries n)) = false) :
    ∀ i < tries, isUnused cells (UInt32.ofNat (n + i)) = false := by
  induction tries generalizing n with
  | zero => simp
  | succ tries ih =>
    unfold freshFrom at used
    split at used
    next unused => simp [unused] at used
    next here =>
      intro i small
      cases i with
      | zero => simpa using here
      | succ i =>
        have later := ih used i (by omega)
        rwa [show n + (i + 1) = n + 1 + i by omega]

/-- Pointers run out only when nearly all of them are in use. -/
theorem size_of_full {tries n : Nat} (few : tries ≤ UInt32.size)
    (full : ∀ i < tries, isUnused cells (UInt32.ofNat (n + i)) = false) :
    tries ≤ Ptr.firstCounted.toNat + cells.size := by
  -- The pointers that were tried are all different, and each is reserved or in use.
  have distinct : ((List.range tries).map fun i => UInt32.ofNat (n + i)).Nodup := by
    refine List.Nodup.map_on ?_ List.nodup_range
    intro i first j second same
    have nats := congrArg UInt32.toNat same
    simp only [UInt32.toNat_ofNat', List.mem_range] at nats first second
    unfold UInt32.size at few
    omega
  have used : ((List.range tries).map fun i => UInt32.ofNat (n + i)) ⊆
      (List.range Ptr.firstCounted.toNat).map UInt32.ofNat ++ cells.keys := by
    intro p member
    obtain ⟨i, small, rfl⟩ := List.mem_map.1 member
    have here := full i (List.mem_range.1 small)
    generalize UInt32.ofNat (n + i) = p at here
    simp only [isUnused, Bool.and_eq_false_iff, decide_eq_false_iff_not, UInt32.not_le, Bool.not_eq_false'] at here
    rcases here with low | known
    · refine List.mem_append_left _ (List.mem_map.2 ⟨p.toNat, List.mem_range.2 ?_, UInt32.ofNat_toNat⟩)
      exact UInt32.lt_iff_toNat_lt.1 low
    · refine List.mem_append_right _ (Decidable.not_not.1 fun absent => ?_)
      simp [Table.contains, (Table.get?_eq_none_iff cells p).2 absent] at known
  have length := (distinct.subperm used).length_le
  simpa [Table.keys, Table.size] using length

theorem size_of_refused {h : Heap} {v : Value} (refused : (h.insert v).1 = 0) : UInt32.size < h.cells.size + 17 := by
  refine Nat.not_le.1 fun room => ?_
  unfold insert at refused
  dsimp only at refused
  split at refused
  next unused =>
    dsimp only at refused
    rw [refused] at unused
    simp [isUnused, Ptr.firstCounted] at unused
  next used =>
    have full := freshFrom_used (by simpa using used)
    have sixteen : Ptr.firstCounted.toNat = 16 := rfl
    have crowded := size_of_full (by omega) full
    omega

theorem insert_plants (h : Heap) (v : Value) :
    (∃ p n, h.next ≤ n ∧ Ptr.firstCounted ≤ p ∧ h.cells.get? p = none ∧
      h.insert v = (p, { h with cells := h.cells.set p ⟨1, v⟩, next := n })) ∨
    (UInt32.size < h.cells.size + 17 ∧ h.insert v = (0, h.releaseAll v.children)) := by
  rcases insert_cases h v with ⟨n, later, big, absent, done⟩ | full
  · exact .inl ⟨_, _, Nat.le_succ_of_le later, big, absent, done⟩
  · exact .inr ⟨size_of_refused (congrArg Prod.fst full), full⟩

theorem insert_same_pointer (h : Heap) (v w : Value) : (h.insert v).1 = (h.insert w).1 := by
  unfold insert
  dsimp only
  split <;> rfl

theorem freeAll_planted (absent : cells.get? p = none) (unheld : v.children = []) :
    freeAll (cells.set p ⟨1, v⟩) [p] = cells := by
  have found : (cells.set p ⟨1, v⟩).get? p = some ⟨1, v⟩ := by simp
  rw [freeAll_last found (Nat.le_refl 1), unheld, List.nil_append, freeAll_nil, Table.erase_eq_without]
  exact (Planted.set absent _).old

theorem freeAll_key (counted : Counted cells) (big : Ptr.firstCounted ≤ k) (absent : cells.get? k = none) (key : String)
    (p : Ptr) : freeAll ((cells.set k ⟨1, .string key⟩).modify p fun c => { c with refs := c.refs + 1 }) [k] =
      if p = k then cells.set k ⟨1, .string key⟩ else cells.modify p fun c => { c with refs := c.refs + 1 } := by
  split
  next same =>
    subst same
    exact freeAll_retained (counted.set big (Nat.le_refl 1)) p
  next other =>
    have here : ((cells.set k ⟨1, .string key⟩).modify p fun c => { c with refs := c.refs + 1 }).get? k =
        some ⟨1, .string key⟩ := by simp [other]
    have children : (Value.string key).children = [] := rfl
    rw [freeAll_last here (Nat.le_refl 1), children, List.nil_append, freeAll_nil, Table.erase_eq_without,
      Table.modify_without_comm, (Planted.set absent _).old]

/-- A property is set, for a moment under a new key: the values that it had are freed, then the key and the
reference of the caller. -/
theorem freeAll_stored {child : Ptr} {olds : List Ptr} (counted : Counted cells) (big : Ptr.firstCounted ≤ k)
    (absent : cells.get? k = none) (key : String) (there : cells.get? p = some c)
    (known : child < Ptr.firstCounted ∨ ∃ d, cells.get? child = some d) (forest : Forest cells olds ks) (nodup : ks.Nodup)
    (apart : p ∉ ks) (apart' : child ∉ ks) (v : Value) :
    freeAll (freeAll (freeAll (((cells.set k ⟨1, .string key⟩).modify p fun c => { c with value := v }).modify child
        fun c => { c with refs := c.refs + 1 }) olds) [k]) [child] =
      (cells.modify p fun c => { c with value := v }).without ks := by
  have other : p ≠ k := by
    rintro rfl
    simp [absent] at there
  have other' : child ≠ k := by
    rintro rfl
    rcases known with small | ⟨d, found⟩
    · exact absurd big (UInt32.not_le.2 small)
    · simp [absent] at found
  have unlisted : k ∉ ks := fun member => by
    obtain ⟨d, found, -⟩ := forest.present k member
    simp [absent] at found
  let stored := (cells.modify p fun c => { c with value := v }).modify child fun c => { c with refs := c.refs + 1 }
  let keyed := ((cells.set k ⟨1, .string key⟩).modify p fun c => { c with value := v }).modify child
    fun c => { c with refs := c.refs + 1 }
  -- The key plays no part in what is stored, so it can be taken out before or after the old values.
  have unkeyed : keyed.without [k] = stored := by
    simp only [keyed, stored, Table.modify_without_comm, (Planted.set absent _).old]
  have counted' : Counted keyed :=
    ((counted.set big (Nat.le_refl 1)).modify (f := fun c => { c with value := v }) (fun _ => Nat.le_refl _) p).modify
      (fun _ => Nat.le_succ _) child
  have forest' : Forest keyed olds ks := forest.congr fun q member => by
    have not (r : Ptr) (out : r ∉ ks) : r ≠ q := fun same => out (same ▸ member)
    simp [keyed, not p apart, not child apart', not k unlisted]
  have here : (keyed.without ks).get? k = some ⟨1, .string key⟩ := by
    simp [keyed, unlisted, other, other']
  have children : (Value.string key).children = [] := rfl
  calc
    _ = freeAll (freeAll (keyed.without ks) [k]) [child] := by rw [forest'.freed counted' nodup]
    _ = freeAll ((keyed.without [k]).without ks) [child] := by
      rw [freeAll_last here (Nat.le_refl 1), children, List.nil_append, freeAll_nil, Table.erase_eq_without,
        Table.without_without, Table.without_without,
        Table.without_congr (show ∀ j, j ∈ ks ++ [k] <-> j ∈ [k] ++ ks by simp [or_comm])]
    _ = freeAll (((cells.modify p fun c => { c with value := v }).without ks).modify child
          fun c => { c with refs := c.refs + 1 }) [child] := by
      rw [unkeyed, Table.modify_without_comm]
    _ = _ := freeAll_retained ((counted.modify (f := fun c => { c with value := v }) (fun _ => Nat.le_refl _) p).without ks) child

def errorValue (text : Ptr) : Value :=
  .object .error (Table.empty.set messageKey text)

def withError (cells : Cells) (p text : Ptr) (message : String) : Cells :=
  (cells.set text ⟨1, .string message⟩).set p ⟨1, errorValue text⟩

theorem newError_plants (counted : Counted h.cells) (message : String) :
    (∃ p text n, h.next ≤ n ∧ Ptr.firstCounted ≤ p ∧ Ptr.firstCounted ≤ text ∧ h.cells.get? text = none ∧
      h.cells.get? p = none ∧ p ≠ text ∧
      h.newError message = (p, { h with cells := withError h.cells p text message, next := n })) ∨
    (UInt32.size < h.cells.size + 18 ∧ ∃ n, h.next ≤ n ∧ h.newError message = (0, { h with next := n })) := by
  unfold newError newString
  rcases insert_plants h (.string message) with ⟨text, n, later, big, absent, made⟩ | ⟨full, made⟩
  · rw [made]
    dsimp only
    rcases insert_plants { h with cells := h.cells.set text ⟨1, .string message⟩, next := n } (errorValue text) with
      ⟨p, n', later', big', absent', made'⟩ | ⟨full, made'⟩
    · have apart : p ≠ text := by
        rintro rfl
        simp at absent'
      refine .inl ⟨p, text, n', Nat.le_trans later later', big', big, absent, ?_, apart, made'⟩
      simpa [Ne.symm apart] using absent'
    · refine .inr ⟨?_, n, later, made'.trans ?_⟩
      · dsimp only at full
        rw [Table.size_set_new absent] at full
        omega
      · have children : (errorValue text).children = [text] := rfl
        simp only [children, releaseAll, freeAll_planted absent (v := .string message) rfl]
  · rw [made]
    -- Without a pointer for the text there is none for the error either.
    have none : (h.insert (errorValue 0)).1 = 0 := (insert_same_pointer h _ _).trans (congrArg Prod.fst made)
    refine .inr ⟨by omega, h.next, Nat.le_refl _, ?_⟩
    rcases insert_plants h (errorValue 0) with ⟨p, n, -, big, -, made'⟩ | ⟨-, made'⟩
    · rw [made'] at none
      obtain rfl : p = 0 := none
      exact absurd big (by decide)
    · have children : (errorValue 0).children = [0] := rfl
      have held : (Value.string message).children = [] := rfl
      have absent := counted.absent zero_small
      simp only [held, releaseAll, freeAll_nil]
      refine made'.trans ?_
      simp only [children, releaseAll, freeAll_absent absent, freeAll_nil]

theorem withError_planted {text : Ptr} (message : String) (absent : cells.get? text = none) (absent' : cells.get? p = none)
    (apart : p ≠ text) : Planted cells (withError cells p text message) [p, text] :=
  ((Planted.set absent _).trans (Planted.set (by simpa [Ne.symm apart] using absent') _)).perm (.swap _ _ _)

theorem withError_get? (cells : Cells) {text : Ptr} (message : String) (apart : p ≠ text) :
    (withError cells p text message).get? p = some ⟨1, errorValue text⟩ ∧
      (withError cells p text message).get? text = some ⟨1, .string message⟩ := by
  simp [withError, apart]

theorem withError_forest (cells : Cells) {text : Ptr} (message : String) (apart : p ≠ text) :
    Forest (withError cells p text message) [p] [p, text] :=
  have found := withError_get? cells message apart
  .cell found.1 rfl (.cell found.2 rfl .nothing)

end Insert

section Strings

def Strings (cells : Cells) (names : List Ptr) (texts : List String) : Prop :=
  List.Forall₂ (fun p s => Ptr.firstCounted ≤ p ∧ cells.get? p = some ⟨1, .string s⟩) names texts

theorem newStrings_plants (counted : Counted h.cells) (texts : List String) :
    ∃ cells n ks, h.next ≤ n ∧ (Engine.newStrings h texts).2 = { h with cells, next := n } ∧
      Counted cells ∧ Planted h.cells cells ks ∧ Forest cells (Engine.newStrings h texts).1 ks ∧
      (h.cells.size + texts.length + 16 ≤ UInt32.size -> Strings cells (Engine.newStrings h texts).1 texts) := by
  induction texts generalizing h with
  | nil => exact ⟨h.cells, h.next, [], Nat.le_refl _, rfl, counted, .refl _, .nothing, fun _ => .nil⟩
  | cons text rest ih =>
    simp only [Engine.newStrings, newString]
    rcases insert_plants h (.string text) with ⟨p, n, later, big, absent, made⟩ | ⟨full, made⟩
    · rw [made]
      have added : Counted (h.cells.set p ⟨1, .string text⟩) := counted.set big (Nat.le_refl 1)
      obtain ⟨cells, n', ks, later', others, counted', planted, forest, strings⟩ :=
        ih (h := { h with cells := h.cells.set p ⟨1, .string text⟩, next := n }) added
      have new := Planted.set absent (.string text)
      have here : cells.get? p = some ⟨1, .string text⟩ := by
        rw [planted.get?_old (planted.apart (by simp : _ = some (⟨1, .string text⟩ : Cell)))]
        simp
      refine ⟨cells, n', p :: ks, Nat.le_trans later later', others, counted', new.trans planted,
        .cell here rfl forest, fun room => .cons ⟨big, here⟩ (strings ?_)⟩
      dsimp only
      rw [Table.size_set_new absent]
      simp only [List.length_cons] at room
      omega
    · have unchanged : h.releaseAll (Value.string text).children = h := by
        simp only [Value.children, releaseAll, freeAll_nil]
      rw [made, unchanged]
      obtain ⟨cells, n, ks, later, others, counted', planted, forest, strings⟩ := ih counted
      refine ⟨cells, n, ks, later, others, counted', planted, .constant zero_small forest, fun room => ?_⟩
      simp only [List.length_cons] at room
      omega

end Strings

end Heap

end ScriptHost
