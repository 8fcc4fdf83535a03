import Mathlib.Data.Multiset.AddSub
import ScriptHost.Proofs.Engine.Planting

set_option autoImplicit false

/-!
Freeing a reference, in whatever order.

A value whose last reference goes leaves the references that it held, and they are freed as well. A machine that takes
up any of the pending pointers says what freeing may do; it can neither run on for ever nor get stuck, and it always
comes to the same cells.
-/

namespace ScriptHost

namespace Table

variable {κ α : Type} [DecidableEq κ]

theorem erase_comm (t : Table κ α) (k j : κ) : (t.erase k).erase j = (t.erase j).erase k := by
  simp only [erase_eq_without, without_without]
  refine without_congr (fun i => ?_) t
  simp [or_comm]

theorem modify_erase (t : Table κ α) (k j : κ) (f : α -> α) : (t.modify k f).erase j = (t.erase j).modify k f := by
  simp only [erase_eq_without, modify_without_comm]

end Table

/-- With one reference less. -/
def Cell.fewer (c : Cell) : Cell :=
  { c with refs := c.refs - 1 }

namespace Heap

variable {cells cells' : Cells} {p q : Ptr} {ps qs : List Ptr} {c d : Cell}

/-- Frees one reference, and tells which others are to be freed for it. -/
def freeOne (cells : Cells) (p : Ptr) : Cells × List Ptr :=
  match cells.get? p with
  | none => (cells, [])
  | some c => if c.refs ≤ 1 then (cells.erase p, c.value.children) else (cells.modify p Cell.fewer, [])

theorem freeOne_absent (absent : cells.get? p = none) : freeOne cells p = (cells, []) := by
  simp only [freeOne, absent]

theorem freeOne_last (found : cells.get? p = some c) (last : c.refs ≤ 1) :
    freeOne cells p = (cells.erase p, c.value.children) := by
  simp only [freeOne, found, last, if_true]

theorem freeOne_more (found : cells.get? p = some c) (more : 1 < c.refs) :
    freeOne cells p = (cells.modify p Cell.fewer, []) := by
  simp only [freeOne, found, Nat.not_le.2 more, if_false]

theorem freeOne_cases (cells : Cells) (p : Ptr) :
    (cells.get? p = none ∧ freeOne cells p = (cells, [])) ∨
      (∃ c, cells.get? p = some c ∧ c.refs ≤ 1 ∧ freeOne cells p = (cells.erase p, c.value.children)) ∨
      ∃ c, cells.get? p = some c ∧ 1 < c.refs ∧ freeOne cells p = (cells.modify p Cell.fewer, []) := by
  cases found : cells.get? p with
  | none => exact .inl ⟨rfl, freeOne_absent found⟩
  | some c =>
    by_cases last : c.refs ≤ 1
    next => exact .inr (.inl ⟨c, rfl, last, freeOne_last found last⟩)
    next =>
      have more : 1 < c.refs := Nat.not_le.1 last
      exact .inr (.inr ⟨c, rfl, more, freeOne_more found more⟩)

theorem freeAll_cons (cells : Cells) (p : Ptr) (ps : List Ptr) :
    freeAll cells (p :: ps) = freeAll (freeOne cells p).1 ((freeOne cells p).2 ++ ps) := by
  rcases freeOne_cases cells p with ⟨absent, one⟩ | ⟨c, found, last, one⟩ | ⟨c, found, more, one⟩
  next => rw [one, freeAll_absent absent, List.nil_append]
  next => rw [one, freeAll_last found last]
  next => rw [one, freeAll_more found more, Table.modify_of_found found, List.nil_append, Cell.fewer]

theorem get?_freeOne (other : p ≠ q) : (freeOne cells p).1.get? q = cells.get? q := by
  rcases freeOne_cases cells p with ⟨-, one⟩ | ⟨c, -, -, one⟩ | ⟨c, -, -, one⟩ <;> simp [one, other]

theorem spilled_freeOne (other : p ≠ q) : (freeOne (freeOne cells p).1 q).2 = (freeOne cells q).2 := by
  have same : (freeOne cells p).1.get? q = cells.get? q := get?_freeOne other
  simp only [freeOne] at *
  rw [same]
  split
  next => rfl
  next => split <;> rfl

theorem freeOne_comm (other : p ≠ q) :
    (freeOne (freeOne cells p).1 q).1 = (freeOne (freeOne cells q).1 p).1 := by
  have atP : (freeOne cells q).1.get? p = cells.get? p := get?_freeOne (Ne.symm other)
  have atQ : (freeOne cells p).1.get? q = cells.get? q := get?_freeOne other
  rcases freeOne_cases cells p with ⟨absent, one⟩ | ⟨c, found, last, one⟩ | ⟨c, found, more, one⟩
  next => rw [one, freeOne_absent (atP.trans absent)]
  next =>
    rw [one] at atQ ⊢
    rw [freeOne_last (atP.trans found) last]
    rcases freeOne_cases cells q with ⟨absent, two⟩ | ⟨d, found', last', two⟩ | ⟨d, found', more', two⟩
    next => rw [two, freeOne_absent (atQ.trans absent)]
    next => rw [two, freeOne_last (atQ.trans found') last', Table.erase_comm]
    next => rw [two, freeOne_more (atQ.trans found') more', Table.modify_erase]
  next =>
    rw [one] at atQ ⊢
    rw [freeOne_more (atP.trans found) more]
    rcases freeOne_cases cells q with ⟨absent, two⟩ | ⟨d, found', last', two⟩ | ⟨d, found', more', two⟩
    next => rw [two, freeOne_absent (atQ.trans absent)]
    next => rw [two, freeOne_last (atQ.trans found') last', Table.modify_erase]
    next => rw [two, freeOne_more (atQ.trans found') more', Table.modify_comm _ _ _ fun _ => rfl]

/-- Every reference that is freed makes the work less, whatever becomes pending for it. -/
theorem freeOne_lighter (cells : Cells) (p : Ptr) :
    weight (freeOne cells p).1.entries + (freeOne cells p).2.length ≤ weight cells.entries := by
  rcases freeOne_cases cells p with ⟨-, one⟩ | ⟨c, found, -, one⟩ | ⟨c, found, -, one⟩
  next => simp [one]
  next =>
    have lighter := weight_filter_of_find found
    rw [one]
    exact Nat.le_of_lt lighter
  next =>
    have same := weight_put_of_find found (c.refs - 1)
    rw [one, Table.modify_of_found found]
    exact Nat.le_of_eq same

theorem freeAll_perm (same : ps.Perm qs) : freeAll cells ps = freeAll cells qs := by
  induction work : weight cells.entries + ps.length using Nat.strong_induction_on generalizing cells ps qs with
  | _ work ih =>
    subst work
    cases ps with
    | nil => rw [List.nil_perm.1 same]
    | cons p ps =>
      cases qs with
      | nil => exact absurd same.length_eq (by simp)
      | cons q qs =>
        have atP := freeOne_lighter cells p
        have atQ := freeOne_lighter cells q
        have length := same.length_eq
        simp only [List.length_cons] at length
        by_cases alike : p = q
        next =>
          subst alike
          rw [freeAll_cons, freeAll_cons]
          refine ih _ ?_ ((List.perm_cons p).1 same |>.append_left _) rfl
          simp only [List.length_append, List.length_cons]
          omega
        next =>
          -- Either is pending beside the other, so both can come first, one after the other.
          have left : ps.Perm (q :: ps.erase q) :=
            List.perm_cons_erase (((List.mem_cons.1 (same.mem_iff.2 List.mem_cons_self)).resolve_left (Ne.symm alike)))
          have right : qs.Perm (p :: ps.erase q) := by
            have both : (q :: qs).Perm (q :: p :: ps.erase q) :=
              same.symm.trans ((left.cons p).trans (List.Perm.swap q p _))
            exact (List.perm_cons q).1 both
          have few := left.length_eq
          simp only [List.length_cons] at few
          have second := freeOne_lighter (freeOne cells p).1 q
          rw [spilled_freeOne alike] at second
          calc freeAll cells (p :: ps)
              = freeAll (freeOne cells p).1 ((freeOne cells p).2 ++ ps) := freeAll_cons cells p ps
            _ = freeAll (freeOne cells p).1 (q :: ((freeOne cells p).2 ++ ps.erase q)) := by
                refine ih _ ?_ ((left.append_left _).trans List.perm_middle) rfl
                simp only [List.length_append, List.length_cons]
                omega
            _ = freeAll (freeOne (freeOne cells p).1 q).1
                  ((freeOne cells q).2 ++ ((freeOne cells p).2 ++ ps.erase q)) := by
                rw [freeAll_cons, spilled_freeOne alike]
            _ = freeAll (freeOne (freeOne cells q).1 p).1
                  ((freeOne cells p).2 ++ ((freeOne cells q).2 ++ ps.erase q)) := by
                rw [freeOne_comm alike]
                refine ih _ ?_ ?_ rfl
                next =>
                  rw [← freeOne_comm alike]
                  simp only [List.length_append, List.length_cons]
                  omega
                next =>
                  simp only [← List.append_assoc]
                  exact List.perm_append_comm.append_right _
            _ = freeAll (freeOne cells q).1 (p :: ((freeOne cells q).2 ++ ps.erase q)) := by
                rw [freeAll_cons, spilled_freeOne (Ne.symm alike)]
            _ = freeAll (freeOne cells q).1 ((freeOne cells q).2 ++ qs) := by
                refine ih _ ?_ ((right.append_left _).trans List.perm_middle).symm rfl
                simp only [List.length_append, List.length_cons]
                omega
            _ = freeAll cells (q :: qs) := (freeAll_cons cells q qs).symm

/-- Every cell is referred to. -/
def Referred (cells : Cells) : Prop :=
  ∀ p c, cells.get? p = some c -> 1 ≤ c.refs

theorem Referred.freeOne (referred : Referred cells) (p : Ptr) : Referred (freeOne cells p).1 := by
  intro q d found
  by_cases same : p = q
  next =>
    subst same
    rcases freeOne_cases cells p with ⟨absent, one⟩ | ⟨c, -, -, one⟩ | ⟨c, here, more, one⟩
    next => simp [one, absent] at found
    next => simp [one] at found
    next =>
      obtain rfl : c.fewer = d := by simpa [one, here] using found
      exact Nat.le_sub_of_add_le more
  next => exact referred q d (get?_freeOne same ▸ found)

section Machine

/-- Some pointer that is pending is taken up, no matter which. One is taken off the count of its cell, if it has one;
from a count of zero there is nothing to take. -/
inductive Frees : Cells × Multiset Ptr -> Cells × Multiset Ptr -> Prop
  | unknown {cells : Cells} {p : Ptr} {rest : Multiset Ptr} (absent : cells.get? p = none) :
      Frees (cells, p ::ₘ rest) (cells, rest)
  | kept {cells : Cells} {p : Ptr} {rest : Multiset Ptr} {c : Cell} {n : Nat} (found : cells.get? p = some c)
      (more : c.refs = n + 2) : Frees (cells, p ::ₘ rest) (cells.set p { c with refs := n + 1 }, rest)
  | removed {cells : Cells} {p : Ptr} {rest : Multiset Ptr} {c : Cell} (found : cells.get? p = some c)
      (last : c.refs = 1) : Frees (cells, p ::ₘ rest) (cells.erase p, (c.value.children : Multiset Ptr) + rest)

variable {s t : Cells × Multiset Ptr} {rest : Multiset Ptr}

theorem frees_one (referred : Referred cells) (p : Ptr) (rest : Multiset Ptr) :
    Frees (cells, p ::ₘ rest) ((freeOne cells p).1, ((freeOne cells p).2 : Multiset Ptr) + rest) := by
  rcases freeOne_cases cells p with ⟨absent, one⟩ | ⟨c, found, last, one⟩ | ⟨c, found, more, one⟩
  next =>
    rw [one, Multiset.coe_nil, Multiset.zero_add]
    exact .unknown absent
  next =>
    rw [one]
    exact .removed found (Nat.le_antisymm last (referred p c found))
  next =>
    have count : c.refs = c.refs - 2 + 2 := by omega
    have set : cells.modify p Cell.fewer = cells.set p { c with refs := c.refs - 2 + 1 } := by
      have fewer : c.refs - 1 = c.refs - 2 + 1 := by omega
      rw [Table.modify_of_found found, Cell.fewer, fewer]
    rw [one, Multiset.coe_nil, Multiset.zero_add, set]
    exact .kept found count

theorem Frees.one (step : Frees s t) :
    ∃ p rest, s.2 = p ::ₘ rest ∧ t = ((freeOne s.1 p).1, ((freeOne s.1 p).2 : Multiset Ptr) + rest) := by
  cases step with
  | @unknown cells p rest absent =>
    refine ⟨p, rest, rfl, ?_⟩
    rw [freeOne_absent absent, Multiset.coe_nil, Multiset.zero_add]
  | @kept cells p rest c n found more =>
    refine ⟨p, rest, rfl, ?_⟩
    have fewer : c.fewer = { c with refs := n + 1 } := by simp [Cell.fewer, more]
    rw [freeOne_more found (by omega), Multiset.coe_nil, Multiset.zero_add, Table.modify_of_found found, fewer]
  | @removed cells p rest c found last =>
    refine ⟨p, rest, rfl, ?_⟩
    rw [freeOne_last found (Nat.le_of_eq last)]

/-- What all that is pending comes to, in one order or the other. -/
def freeAny (cells : Cells) (pending : Multiset Ptr) : Cells :=
  Quot.liftOn pending (freeAll cells) fun _ _ same => freeAll_perm same

theorem Frees.freeAny_eq (step : Frees s t) : freeAny t.1 t.2 = freeAny s.1 s.2 := by
  obtain ⟨p, rest, pending, rfl⟩ := step.one
  rw [pending]
  induction rest using Quotient.inductionOn with
  | _ ps => exact (freeAll_cons s.1 p ps).symm

theorem Frees.lighter (step : Frees s t) :
    weight t.1.entries + Multiset.card t.2 < weight s.1.entries + Multiset.card s.2 := by
  obtain ⟨p, rest, pending, rfl⟩ := step.one
  have lighter := freeOne_lighter s.1 p
  simp only [pending, Multiset.card_add, Multiset.coe_card, Multiset.card_cons]
  omega

theorem frees_wellFounded : WellFounded fun t s => Frees s t :=
  Subrelation.wf (fun step => step.lighter) (measure fun s : Cells × Multiset Ptr => weight s.1.entries + Multiset.card s.2).wf

theorem Frees.referred (step : Frees s t) (referred : Referred s.1) : Referred t.1 := by
  obtain ⟨p, rest, -, rfl⟩ := step.one
  exact referred.freeOne p

theorem referred_of_run (run : Relation.ReflTransGen Frees s t) (referred : Referred s.1) : Referred t.1 := by
  induction run with
  | refl => exact referred
  | tail _ step ih => exact step.referred ih

theorem freeAny_of_run (run : Relation.ReflTransGen Frees s t) : freeAny t.1 t.2 = freeAny s.1 s.2 := by
  induction run with
  | refl => rfl
  | tail _ step ih => exact step.freeAny_eq.trans ih

/-- As long as every cell is referred to, the machine can go on with any pointer that is pending. -/
theorem run_to_end (referred : Referred cells) (ps : List Ptr) :
    Relation.ReflTransGen Frees (cells, (ps : Multiset Ptr)) (freeAll cells ps, 0) := by
  induction work : weight cells.entries + ps.length using Nat.strong_induction_on generalizing cells ps with
  | _ work ih =>
    subst work
    cases ps with
    | nil =>
      rw [freeAll_nil]
      exact .refl
    | cons p ps =>
      have lighter := freeOne_lighter cells p
      have step : Frees (cells, ((p :: ps : List Ptr) : Multiset Ptr))
          ((freeOne cells p).1, ((freeOne cells p).2 ++ ps : List Ptr)) := frees_one referred p ps
      rw [freeAll_cons]
      refine .head step (ih _ ?_ (referred.freeOne p) _ rfl)
      simp only [List.length_append, List.length_cons]
      omega

end Machine

section Lost

/-- What the values hold that are no longer there. -/
def gone (cells cells' : Cells) : List Ptr :=
  held (cells.entries.filter fun e => !cells'.contains e.1)

theorem held_filter_recounted {es : List (Ptr × Cell)} (found : Table.find p es = some c) (n : Nat) (keep : Ptr -> Bool) :
    held ((Table.put p { c with refs := n } es).filter fun e => keep e.1) = held (es.filter fun e => keep e.1) := by
  induction es with
  | nil => simp [Table.find] at found
  | cons e rest ih =>
    by_cases here : e.1 = p
    next =>
      obtain rfl : e.2 = c := by simpa [Table.find, here] using found
      simp only [Table.put, here, if_true, List.filter_cons]
      split
      next => simp only [held_cons]
      next => rfl
    next =>
      have later := ih (by simpa [Table.find, here] using found)
      simp only [Table.put, here, if_false, List.filter_cons]
      split
      next => simp only [held_cons, later]
      next => exact later

theorem gone_recounted (found : cells.get? p = some c) (n : Nat) :
    gone (cells.set p { c with refs := n }) cells' = gone cells cells' :=
  held_filter_recounted found n fun k => !cells'.contains k

theorem count_gone_erase (found : cells.get? p = some c) (absent : cells'.get? p = none) (q : Ptr) :
    (gone (cells.erase p) cells').count q + c.value.children.count q = (gone cells cells').count q := by
  have listed : Table.find p (cells.entries.filter fun e => !cells'.contains e.1) = some c := by
    rw [Table.find_filter_keys (fun k => !cells'.contains k)]
    simp only [Table.contains, absent, Option.isSome_none, Bool.not_false, if_true]
    exact found
  have nodup := (List.filter_sublist (p := fun e => !cells'.contains e.1) (l := cells.entries)).map Prod.fst |>.nodup cells.nodup
  have once := count_held_filter nodup listed q
  rw [List.filter_filter] at once
  simpa only [gone, Table.erase, List.filter_filter, Bool.and_comm] using once

theorem freeAll_absent_key (absent : cells.get? q = none) (ps : List Ptr) : (freeAll cells ps).get? q = none := by
  fun_induction Heap.freeAll cells ps with
  | case1 => exact absent
  | case2 cells p rest _ ih => exact ih absent
  | case3 cells p rest c found last ih => exact ih (by simp [absent])
  | case4 cells p rest c found more ih =>
    have other : p ≠ q := by
      rintro rfl
      simp [absent] at found
    exact ih (by simp [other, absent])

theorem gone_self (cells : Cells) : gone cells cells = [] := by
  have none : (cells.entries.filter fun e => !cells.contains e.1) = [] := by
    rw [List.filter_eq_nil_iff]
    intro e member
    have there : cells.get? e.1 = some e.2 := Table.find_of_mem cells.nodup member
    simp [Table.contains, there]
  rw [gone, none, held_nil]

/-- A value that is still there has lost one reference for each time that it was pending, and for each time that a
value which is gone held it. -/
theorem freeAll_kept (ps : List Ptr) (there : (freeAll cells ps).get? q = some d) :
    ∃ c, cells.get? q = some c ∧ d.value = c.value ∧
      d.refs + (ps.count q + (gone cells (freeAll cells ps)).count q) = c.refs := by
  fun_induction Heap.freeAll cells ps with
  | case1 cells => exact ⟨d, there, rfl, by simp [gone_self]⟩
  | case2 cells p rest absent ih =>
    obtain ⟨c, found, same, lost⟩ := ih there
    have other : p ≠ q := by
      rintro rfl
      simp [absent] at found
    exact ⟨c, found, same, by rwa [List.count_cons_of_ne other]⟩
  | case3 cells p rest e here last ih =>
    have removed : (freeAll (cells.erase p) (e.value.children ++ rest)).get? p = none :=
      freeAll_absent_key (by simp) _
    have other : p ≠ q := by
      rintro rfl
      simp [removed] at there
    obtain ⟨c, found, same, lost⟩ := ih there
    have more := count_gone_erase here removed q
    refine ⟨c, by simpa [other] using found, same, ?_⟩
    rw [List.count_cons_of_ne other]
    rw [List.count_append] at lost
    omega
  | case4 cells p rest e here more ih =>
    obtain ⟨c, found, same, lost⟩ := ih there
    rw [gone_recounted here] at lost
    by_cases alike : p = q
    next =>
      subst alike
      obtain rfl : { e with refs := e.refs - 1 } = c := by simpa using found
      refine ⟨e, here, same, ?_⟩
      rw [List.count_cons_self]
      dsimp only at lost
      omega
    next =>
      refine ⟨c, by simpa [alike] using found, same, ?_⟩
      rw [List.count_cons_of_ne alike]
      exact lost

/-- A value goes only when all references to it were pending, or held by values that are gone. -/
theorem freeAll_removed (ps : List Ptr) (found : cells.get? q = some c) (removed : (freeAll cells ps).get? q = none) :
    c.refs ≤ ps.count q + (gone cells (freeAll cells ps)).count q := by
  fun_induction Heap.freeAll cells ps generalizing c with
  | case1 cells => simp [found] at removed
  | case2 cells p rest absent ih =>
    have other : p ≠ q := by
      rintro rfl
      simp [absent] at found
    have all := ih found removed
    rwa [List.count_cons_of_ne other]
  | case3 cells p rest e here last ih =>
    by_cases alike : p = q
    next =>
      subst alike
      obtain rfl : e = c := by simpa [here] using found
      rw [List.count_cons_self]
      omega
    next =>
      have all := ih (by simpa [alike] using found) removed
      have gone : (freeAll (cells.erase p) (e.value.children ++ rest)).get? p = none := freeAll_absent_key (by simp) _
      have more := count_gone_erase here gone q
      rw [List.count_append] at all
      rw [List.count_cons_of_ne alike]
      omega
  | case4 cells p rest e here more ih =>
    rw [gone_recounted here] at ih
    by_cases alike : p = q
    next =>
      subst alike
      obtain rfl : e = c := by simpa [here] using found
      have all := @ih { e with refs := e.refs - 1 } (by simp) removed
      rw [List.count_cons_self]
      dsimp only at all
      omega
    next =>
      have all := ih (by simpa [alike] using found) removed
      rwa [List.count_cons_of_ne alike]

end Lost

/-- Freeing a reference does what the machine does with it, whichever pending pointers come first. -/
structure Settled (h : Heap) (p : Ptr) : Prop where
  ends : Acc (fun t s => Frees s t) (h.cells, {p})
  goesOn : ∀ cells q rest, Relation.ReflTransGen Frees (h.cells, {p}) (cells, q ::ₘ rest) ->
    Referred cells ∧ Frees (cells, q ::ₘ rest) ((freeOne cells q).1, ((freeOne cells q).2 : Multiset Ptr) + rest)
  alike : ∀ cells, Relation.ReflTransGen Frees (h.cells, {p}) (cells, 0) <-> cells = (h.free p).2.cells
  referred : Referred (h.free p).2.cells
  /-- One reference is freed directly, the others are those of the values that are gone. -/
  kept : ∀ q d, (h.free p).2.cells.get? q = some d -> ∃ c, h.cells.get? q = some c ∧ d.value = c.value ∧
    d.refs + ([p].count q + (gone h.cells (h.free p).2.cells).count q) = c.refs
  removed : ∀ q c, h.cells.get? q = some c -> (h.free p).2.cells.get? q = none ->
    c.refs ≤ [p].count q + (gone h.cells (h.free p).2.cells).count q
  others : (h.free p).1 = h.contains p ∧ (h.free p).2 = { h with cells := (h.free p).2.cells }

theorem free_settled (h : Heap) (referred : Referred h.cells) (p : Ptr) : Settled h p := by
  have run : Relation.ReflTransGen Frees (h.cells, {p}) ((h.free p).2.cells, 0) := run_to_end referred [p]
  constructor
  case ends => exact frees_wellFounded.apply _
  case goesOn =>
    intro cells q rest reached
    have still : Referred cells := referred_of_run reached referred
    exact ⟨still, frees_one still q rest⟩
  case alike =>
    intro cells
    constructor
    next =>
      intro reached
      have final : freeAny cells 0 = freeAny h.cells {p} := freeAny_of_run reached
      calc cells = freeAny cells 0 := (freeAll_nil cells).symm
        _ = (h.free p).2.cells := final
    next =>
      rintro rfl
      exact run
  case referred => exact referred_of_run run referred
  case kept =>
    intro q d there
    exact freeAll_kept [p] there
  case removed =>
    intro q c found absent
    exact freeAll_removed [p] found absent
  case others => exact ⟨rfl, rfl⟩

/-- Two values that hold each other, one of them also something else twice and something that is not there. -/
def tangled : Heap :=
  { Heap.empty with
    cells := ((Table.empty.set 16 ⟨1, .array #[17, 18, 18, 40]⟩).set 17 ⟨1, .array #[16]⟩).set 18 ⟨3, .string "both"⟩ }

theorem tangled_referred : Referred tangled.cells := by
  intro p c found
  simp only [tangled, Table.get?_set, Table.get?_empty] at found
  split at found
  next => cases found; decide
  next =>
    split at found
    next => cases found; decide
    next =>
      split at found
      next => cases found; decide
      next => cases found

theorem free_settled_tangled :
    Referred tangled.cells ∧ Settled tangled 16 ∧
      (tangled.free 16).2.cells.get? 17 = none ∧ (tangled.free 16).2.cells.get? 18 = some ⟨1, .string "both"⟩ := by
  refine ⟨tangled_referred, free_settled tangled tangled_referred 16, ?_⟩
  simp [tangled, free, release, releaseAll, freeAll_cons, freeOne, freeAll_nil, Value.children, Cell.fewer]

end Heap

end ScriptHost
