import ScriptHost.Engine
import ScriptHost.Proofs.Engine.Promises

set_option autoImplicit false

/-!
Who owns the references that reading, writing and listing properties pass on.
-/

namespace ScriptHost

theorem Table.count_values_put {κ : Type} [DecidableEq κ] (k : κ) (v q : Ptr) (es : List (κ × Ptr)) :
    ((Table.put k v es).map Prod.snd).count q + (Table.find k es).toList.count q =
      (es.map Prod.snd).count q + [v].count q := by
  induction es with
  | nil => simp [Table.put, Table.find]
  | cons e rest ih =>
    by_cases same : e.1 = k
    next =>
      simp only [Table.put, Table.find, same, if_true, List.map_cons, List.count_cons, Option.toList,
        List.count_nil]
      omega
    next =>
      simp only [Table.put, Table.find, same, if_false, List.map_cons, List.count_cons] at *
      omega

namespace Heap

variable {stale : Nat} {outside : List Ptr} {h h' : Heap} {p v : Ptr} {key : String}

theorem names_undefined : Names stale h Ptr.undefined :=
  names_small (by decide)

theorem count_list_set (items : List Ptr) (i : Nat) (v q : Ptr) (inside : i < items.length) :
    (items.set i v).count q + [items[i]].count q = items.count q + [v].count q := by
  induction items generalizing i with
  | nil => simp at inside
  | cons item rest ih =>
    cases i with
    | zero =>
      simp only [List.set_cons_zero, List.getElem_cons_zero, List.count_cons, List.count_nil]
      omega
    | succ i =>
      have later := ih i (by simpa using inside)
      simp only [List.set_cons_succ, List.getElem_cons_succ, List.count_cons] at *
      omega

theorem count_setItem (items : Array Ptr) (i : Nat) (v q : Ptr) (big : Ptr.firstCounted ≤ q) :
    (setItem items i v).toList.count q + items[i]?.toList.count q =
      items.toList.count q + [v].count q := by
  unfold setItem
  split
  next inside =>
    have replaced := count_list_set items.toList i v q inside
    simpa [inside, Array.setIfInBounds] using replaced
  next outside =>
    -- The values that fill the gap are not counted.
    have filler : Ptr.undefined ≠ q := by
      rintro rfl
      exact absurd big (by decide)
    simp [outside, List.count_replicate, filler]

theorem names_existing (a : Accounted stale outside h) (found : h.lookup p key = .ok (.existing v)) :
    Names stale h v := by
  unfold lookup at found
  split at found
  next cls props here =>
    obtain rfl : (props.get? key).getD Ptr.undefined = v := by simpa using found
    cases stored : props.get? key with
    | none => exact names_undefined
    | some v => exact a.names_child here (List.mem_map_of_mem (Table.mem_of_find stored))
  next items here =>
    split at found
    next => simp at found
    next =>
      obtain rfl : ((arrayIndex? key).bind fun i => items[i]?).getD Ptr.undefined = v := by
        simpa using found
      cases stored : (arrayIndex? key).bind fun i => items[i]? with
      | none => exact names_undefined
      | some v =>
        obtain ⟨i, _, item⟩ := Option.bind_eq_some_iff.1 stored
        exact a.names_child here (Array.mem_toList_iff.2 (Array.mem_of_getElem? item))
  all_goals
    repeat' split at found
    all_goals
      cases found
      try exact names_undefined

theorem unheld_computed {value : Value} (found : h.lookup p key = .ok (.computed value)) :
    value.children = [] := by
  unfold lookup at found
  split at found
  all_goals
    repeat' split at found
    all_goals
      cases found
      try rfl

namespace Accounted

theorem getProp {r : Ptr × Heap} (a : Accounted stale outside h) (read : h.getProp p key = .ok r) :
    Accounted stale (r.1 :: outside) r.2 := by
  unfold Heap.getProp at read
  cases found : h.lookup p key with
  | error message => simp [found, Except.map] at read
  | ok property =>
    cases property with
    | existing v =>
      obtain rfl : (v, h.retain v) = r := by simpa [found, Except.map] using read
      exact a.retain (names_existing a found)
    | computed value =>
      obtain rfl : h.insert value = r := by simpa [found, Except.map] using read
      refine insert (a.congr fun q _ => ?_)
      rw [unheld_computed found, List.nil_append]

theorem setProp (a : Accounted stale outside h) (stored : h.setProp p key v = .ok h') :
    Accounted stale outside h' := by
  unfold Heap.setProp at stored
  split at stored
  next => simp at stored
  next known =>
    have names : Names stale h v := names_of_contains (by simpa using known)
    have kept := a.retain names
    split at stored
    next cls props here =>
      obtain rfl := Except.ok.inj stored
      rw [retain_setValue]
      refine releaseAll (kept.setValue ((get?_retain h v p).trans here) fun q _ => ?_)
      have := Table.count_values_put key v q props.entries
      simp only [Value.children, Table.values, Table.set, Table.get?, List.count_append, List.count_cons,
        List.count_nil] at *
      omega
    next items here =>
      split at stored
      next => simp at stored
      next i _ =>
        obtain rfl := Except.ok.inj stored
        rw [retain_setValue]
        refine releaseAll (kept.setValue ((get?_retain h v p).trans here) fun q big => ?_)
        have := count_setItem items i v q big
        simp only [Value.children, List.count_append, List.count_cons, List.count_nil] at *
        omega
    next => simp at stored

theorem newStrings (texts : List String) (a : Accounted stale outside h) :
    Accounted stale ((Engine.newStrings h texts).1 ++ outside) (Engine.newStrings h texts).2 := by
  induction texts generalizing h outside with
  | nil => exact a
  | cons text rest ih =>
    refine (ih (a.newString text)).congr fun q _ => ?_
    simp only [Engine.newStrings, List.count_append, List.count_cons]
    omega

end Accounted

end Heap

end ScriptHost
