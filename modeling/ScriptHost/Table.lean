set_option autoImplicit false

/-!
Finite tables that remember the order in which their keys were first set.

`get?_set` and `get?_erase` say what setting and erasing do to every look-up, `keys_set` what setting
does to the order.
-/

namespace ScriptHost

/-- Keys with their values; every key stands once. -/
structure Table (κ α : Type) where
  entries : List (κ × α)
  nodup : (entries.map Prod.fst).Nodup

namespace Table

variable {κ α : Type} [DecidableEq κ]

def put (k : κ) (a : α) : List (κ × α) -> List (κ × α)
  | [] => [(k, a)]
  | e :: rest => if e.1 = k then (k, a) :: rest else e :: put k a rest

theorem map_fst_put (k : κ) (a : α) (es : List (κ × α)) :
    (put k a es).map Prod.fst =
      if k ∈ es.map Prod.fst then es.map Prod.fst else es.map Prod.fst ++ [k] := by
  induction es with
  | nil => simp [put]
  | cons e rest ih =>
    by_cases same : e.1 = k
    next => simp [put, same]
    next =>
      have other : ¬k = e.1 := fun h => same h.symm
      by_cases present : k ∈ rest.map Prod.fst
      next => simp only [put, same, if_false, List.map_cons, ih, present, if_true, List.mem_cons, or_true]
      next =>
        simp only [put, same, if_false, List.map_cons, ih, present, List.mem_cons, other, or_self,
          List.cons_append]

theorem nodup_put {k : κ} {a : α} {es : List (κ × α)} (h : (es.map Prod.fst).Nodup) :
    ((put k a es).map Prod.fst).Nodup := by
  rw [map_fst_put]
  split
  next => exact h
  next absent =>
    rw [List.nodup_append]
    refine ⟨h, by simp, ?_⟩
    intro x hx y hy
    simp only [List.mem_singleton] at hy
    exact fun e => absent (by rw [← hy, ← e]; exact hx)

def find (k : κ) : List (κ × α) -> Option α
  | [] => none
  | e :: rest => if e.1 = k then some e.2 else find k rest

def empty : Table κ α :=
  ⟨[], by simp⟩

instance : Inhabited (Table κ α) :=
  ⟨empty⟩

def get? (t : Table κ α) (k : κ) : Option α :=
  find k t.entries

def contains (t : Table κ α) (k : κ) : Bool :=
  (t.get? k).isSome

def set (t : Table κ α) (k : κ) (a : α) : Table κ α :=
  ⟨put k a t.entries, nodup_put t.nodup⟩

def erase (t : Table κ α) (k : κ) : Table κ α :=
  ⟨t.entries.filter (fun e => !decide (e.1 = k)), (List.filter_sublist.map Prod.fst).nodup t.nodup⟩

def modify (t : Table κ α) (k : κ) (f : α -> α) : Table κ α :=
  match t.get? k with
  | some a => t.set k (f a)
  | none => t

def size (t : Table κ α) : Nat :=
  t.entries.length

def keys (t : Table κ α) : List κ :=
  t.entries.map Prod.fst

def values (t : Table κ α) : List α :=
  t.entries.map Prod.snd

def ofList (es : List (κ × α)) : Table κ α :=
  es.foldl (fun t e => t.set e.1 e.2) empty

theorem find_put (k j : κ) (a : α) (es : List (κ × α)) :
    find j (put k a es) = if k = j then some a else find j es := by
  induction es with
  | nil => simp [put, find]
  | cons e rest ih => grind [put, find]

theorem find_filter (k j : κ) (es : List (κ × α)) :
    find j (es.filter fun e => !decide (e.1 = k)) = if k = j then none else find j es := by
  induction es with
  | nil => simp [find]
  | cons e rest ih => grind [find]

@[simp] theorem get?_empty (k : κ) : (empty : Table κ α).get? k = none :=
  rfl

@[simp] theorem get?_set (t : Table κ α) (k j : κ) (a : α) :
    (t.set k a).get? j = if k = j then some a else t.get? j :=
  find_put k j a t.entries

@[simp] theorem get?_erase (t : Table κ α) (k j : κ) :
    (t.erase k).get? j = if k = j then none else t.get? j :=
  find_filter k j t.entries

theorem keys_set (t : Table κ α) (k : κ) (a : α) :
    (t.set k a).keys = if k ∈ t.keys then t.keys else t.keys ++ [k] :=
  map_fst_put k a t.entries

theorem find_eq_none_iff (k : κ) (es : List (κ × α)) :
    find k es = none ↔ k ∉ es.map Prod.fst := by
  induction es with
  | nil => simp [find]
  | cons e rest ih =>
    by_cases same : e.1 = k
    next => simp [find, same]
    next =>
      have other : ¬k = e.1 := fun h => same h.symm
      simp only [find, same, if_false, ih, List.map_cons, List.mem_cons, other, false_or]

theorem mem_of_find {k : κ} {a : α} {es : List (κ × α)} (found : find k es = some a) : (k, a) ∈ es := by
  induction es with
  | nil => simp [find] at found
  | cons e rest ih =>
    by_cases same : e.1 = k
    next =>
      obtain rfl : e.2 = a := by simpa [find, same] using found
      exact same ▸ List.mem_cons_self
    next => exact List.mem_cons_of_mem e (ih (by simpa [find, same] using found))

theorem find_of_mem {k : κ} {a : α} {es : List (κ × α)} (nodup : (es.map Prod.fst).Nodup) (member : (k, a) ∈ es) :
    find k es = some a := by
  induction es with
  | nil => simp at member
  | cons e rest ih =>
    obtain ⟨first, others⟩ := List.nodup_cons.1 nodup
    rcases List.mem_cons.1 member with rfl | later
    next => simp [find]
    next =>
      have other : e.1 ≠ k := fun same => first (same ▸ List.mem_map_of_mem later)
      simpa [find, other] using ih others later

theorem get?_eq_none_iff (t : Table κ α) (k : κ) : t.get? k = none ↔ k ∉ t.keys :=
  find_eq_none_iff k t.entries

@[simp] theorem get?_modify (t : Table κ α) (k j : κ) (f : α -> α) :
    (t.modify k f).get? j = if k = j then (t.get? j).map f else t.get? j := by
  unfold modify
  cases found : t.get? k with
  | none =>
    by_cases same : k = j
    next => simp [← same, found]
    next => simp [same]
  | some a =>
    by_cases same : k = j
    next => simp [← same, found]
    next => simp [same]

theorem map_at_absent {k : κ} {es : List (κ × α)} (absent : k ∉ es.map Prod.fst) (f : α -> α) :
    (es.map fun e => if e.1 = k then (k, f e.2) else e) = es := by
  have same : (es.map fun e => if e.1 = k then (k, f e.2) else e) = es.map id := by
    apply List.map_congr_left
    intro e member
    have other : e.1 ≠ k := fun h => absent (h ▸ List.mem_map_of_mem member)
    simp [other]
  simpa using same

theorem put_of_find {k : κ} {a : α} {es : List (κ × α)} (nodup : (es.map Prod.fst).Nodup)
    (found : find k es = some a) (f : α -> α) :
    put k (f a) es = es.map fun e => if e.1 = k then (k, f e.2) else e := by
  induction es with
  | nil => simp [find] at found
  | cons e rest ih =>
    obtain ⟨first, others⟩ := List.nodup_cons.1 nodup
    by_cases same : e.1 = k
    next =>
      obtain rfl : e.2 = a := by simpa [find, same] using found
      simp [put, same, map_at_absent (same ▸ first) f]
    next =>
      have later := ih others (by simpa [find, same] using found)
      simp [put, same, later]

theorem entries_modify (t : Table κ α) (k : κ) (f : α -> α) :
    (t.modify k f).entries = t.entries.map fun e => if e.1 = k then (k, f e.2) else e := by
  unfold modify
  cases found : t.get? k with
  | none => exact (map_at_absent ((get?_eq_none_iff t k).1 found) f).symm
  | some a => exact put_of_find t.nodup found f

theorem modify_comm (t : Table κ α) (k j : κ) {f g : α -> α} (comm : ∀ a, f (g a) = g (f a)) :
    (t.modify k f).modify j g = (t.modify j g).modify k f := by
  have same : ((t.modify k f).modify j g).entries = ((t.modify j g).modify k f).entries := by
    simp only [entries_modify, List.map_map]
    apply List.map_congr_left
    intro e _
    by_cases atK : e.1 = k <;> by_cases atJ : e.1 = j <;> simp [atK, atJ, comm] <;> grind
  cases h : (t.modify k f).modify j g
  cases h' : (t.modify j g).modify k f
  simp_all

end Table

end ScriptHost
