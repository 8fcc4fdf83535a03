import ScriptHost.Proofs.Timers.Orderly

set_option autoImplicit false

/-!
Running all timers that are due.

A repeating timer that fires goes back into the queue, but beyond the present instant. So whatever was due
fires once, and then nothing is due any more.
-/

namespace ScriptHost

open Agenda

theorem Agenda.filter_place {α : Type} {x : Appointment α} {keep : Appointment α -> Bool} (unkept : keep x = false)
    (rest : List (Appointment α)) : (place x rest).filter keep = rest.filter keep := by
  induction rest with
  | nil => simp [place, unkept]
  | cons y rest ih =>
    by_cases behind : y.due ≤ x.due
    next => simp only [place_behind behind, List.filter_cons, ih]
    next =>
      have first : place x (y :: rest) = x :: y :: rest := by
        simp only [place, List.orderedInsert, Nat.lt_of_not_le behind, if_true]
      simp only [first, List.filter_cons, unkept, Bool.false_eq_true, if_false]

namespace Timers

variable {α : Type} {t t' : Timers α} {id : TimerId} {e : Timer α} {callback : α} {now : Nat} {ids : List TimerId}

/-- Timers that are due are taken and given back one by one, until there are no more. -/
inductive Fires (now : Nat) : Timers α -> List TimerId -> Timers α -> Prop where
  | settled {t t' : Timers α} (none_due : t.takeDue now = (none, t')) : Fires now t [] t'
  | fire {t t' t'' : Timers α} {id : TimerId} {callback : α} {ids : List TimerId}
      (taken : t.takeDue now = (some (id, callback), t')) (rest : Fires now (t'.restore id callback).2 ids t'') :
      Fires now t (id :: ids) t''

/-- The timers that are due, in order. -/
def dueIds (t : Timers α) (now : Nat) : List TimerId :=
  (t.pending.filter fun x => decide (x.due ≤ now)).map Appointment.id

theorem mem_dueIds (p : t.Placed) : id ∈ t.dueIds now ↔ ∃ e, t.Live id e ∧ e.due ≤ now := by
  simp only [dueIds, List.mem_map, List.mem_filter, decide_eq_true_eq]
  constructor
  next =>
    rintro ⟨x, ⟨member, due⟩, rfl⟩
    obtain ⟨e, live, same⟩ := (mem_pending p).1 member
    exact ⟨e, live, by rw [same] at due; exact due⟩
  next =>
    rintro ⟨e, live, due⟩
    exact ⟨⟨id, e.due, e.period, e.callback⟩, ⟨(mem_pending p).2 ⟨e, live, rfl⟩, due⟩, rfl⟩

theorem Kept.mirrors (k : t.Kept) : Mirrors t ⟨t.pending, 0⟩ :=
  ⟨k, rfl⟩

theorem fire_kept (k : t.Kept) (present : t.Present) (taken : t.takeDue now = (some (id, callback), t')) :
    t'.Kept ∧ (t'.restore id callback).2.Kept := by
  have after : t'.Kept := by
    have kept := use_kept k (.move (.takeDue now)) fun _ _ => present
    simpa only [use, step, taken] using kept
  exact ⟨after, use_kept after (.move (.restore id callback)) (by simp)⟩

theorem fire_present (k : t.Kept) (present : t.Present) (taken : t.takeDue now = (some (id, callback), t')) :
    (t'.restore id callback).2.Present := by
  intro j e live out
  have after := (fire_kept k present taken).1
  rcases use_out after.sound (.move (.restore id callback)) live out with ⟨⟨f, live, out⟩, other⟩ | ⟨_, _, same, -⟩
  next =>
    have live : (t.use (.move (.takeDue now))).Live j f := by simpa only [use, step, taken] using live
    rcases use_out k.sound _ live out with ⟨⟨g, live, out⟩, -⟩ | ⟨at_, back, same, taken'⟩
    next => exact present j g live out
    next =>
      obtain rfl : now = at_ := by simpa using same
      obtain ⟨rfl, rfl⟩ : id = j ∧ callback = back := by simpa [taken] using taken'
      exact other callback rfl
  next => cases same

/-- Whatever fires was the first that was due, and is not due any more. -/
theorem fire_dueIds (k : t.Kept) (present : t.Present) (taken : t.takeDue now = (some (id, callback), t')) :
    t.dueIds now = id :: (t'.restore id callback).2.dueIds now := by
  obtain ⟨answer, moved⟩ := k.mirrors.takeDue present now
  simp only [Timers.reply, Agenda.reply, taken, Reply.taken.injEq] at answer moved
  obtain ⟨x, first, here⟩ := Option.bind_eq_some_iff.1 answer.symm
  obtain ⟨due, here⟩ := Option.ite_none_right_eq_some.1 here
  obtain ⟨c, there, same⟩ := Option.map_eq_some_iff.1 here
  obtain ⟨rfl, rfl⟩ : x.id = id ∧ c = callback := by simpa using same
  obtain ⟨rest, listed⟩ := List.head?_eq_some_iff.1 first
  -- Giving the callback back changes neither ids nor times.
  have given : (t'.restore x.id c).2.dueIds now = t'.dueIds now := by
    have back := ((fire_kept k present taken).1.mirrors.restore x.id c).2
    rw [dueIds, ← back]
    simp only [Agenda.use, List.filter_map, List.map_map, dueIds]
    have kept : ∀ y : Appointment α, (if y.id = x.id then { y with callback := y.callback.or (some c) } else y).due = y.due ∧
        (if y.id = x.id then { y with callback := y.callback.or (some c) } else y).id = y.id := by
      intro y
      split <;> exact ⟨rfl, rfl⟩
    simp only [Function.comp_def, kept]
  rw [given, dueIds, listed, List.filter_cons_of_pos (by simpa using due), List.map_cons]
  simp only [dueIds, ← moved, Agenda.use, listed, due, if_true, again]
  cases period : x.period with
  | none => rfl
  | some period' =>
    have fair : minPeriod ≤ period' := by
      obtain ⟨e, live, equal⟩ := (mem_pending k.placed).1 (listed ▸ List.mem_cons_self : x ∈ t.pending)
      exact (k.fair x.id e live.1).2 period' (by rw [equal] at period; exact period)
    have positive : 0 < minPeriod := by decide
    have late : ¬now + period' ≤ now := by omega
    rw [filter_place (by simpa using late)]

theorem settled_undue (k : t.Kept) (present : t.Present) (none_due : t.takeDue now = (none, t')) :
    t.dueIds now = [] ∧ ∀ id e, t'.Live id e -> now < e.due := by
  have later : ∀ id e, t.Live id e -> now < e.due := fun id e =>
    takeDue_exhausted k.sound k.placed (present.not_misses now) (by rw [none_due])
  constructor
  next =>
    refine List.eq_nil_iff_forall_not_mem.2 fun id member => ?_
    obtain ⟨e, live, due⟩ := (mem_dueIds k.placed).1 member
    exact absurd (later id e live) (Nat.not_lt.2 due)
  next =>
    have trimmed := prune_trimmed t
    cases none_due ▸ k.sound.takeDue_taken now with
    | nothing => exact fun id e live => later id e (trimmed.live_iff.1 live)
    | missed id e rest period queue live due periodic out => exact absurd out (present id e (trimmed.live_iff.1 live))

/-- Each round takes the first of the timers that are due, so their number bounds the rounds. -/
theorem fires_dueIds (now : Nat) (k : t.Kept) (present : t.Present) (due : t.dueIds now = ids) :
    ∃ t', Fires now t ids t' ∧ (∀ fuel, ids.length < fuel -> t.runDue fuel now = (ids, t')) ∧
      ∀ id e, t'.Live id e -> now < e.due := by
  induction ids generalizing t with
  | nil =>
    cases result : t.takeDue now with
    | mk answer next =>
      cases answer with
      | some taken =>
        have first := fire_dueIds k present result
        simp [due] at first
      | none =>
        refine ⟨next, .settled result, fun fuel more => ?_, (settled_undue k present result).2⟩
        obtain ⟨fuel, rfl⟩ := Nat.exists_eq_add_one_of_ne_zero (Nat.ne_of_gt more)
        simp [runDue, result]
  | cons id ids ih =>
    cases result : t.takeDue now with
    | mk answer next =>
      cases answer with
      | none =>
        have nothing := (settled_undue k present result).1
        simp [due] at nothing
      | some taken =>
        obtain ⟨first, callback⟩ := taken
        have split := due.symm.trans (fire_dueIds k present result)
        obtain ⟨rfl, rest⟩ := List.cons.inj split
        obtain ⟨t', fires, run, later⟩ := ih (fire_kept k present result).2 (fire_present k present result) rest.symm
        refine ⟨t', .fire result fires, fun fuel more => ?_, later⟩
        obtain ⟨fuel, rfl⟩ := Nat.exists_eq_add_one_of_ne_zero (Nat.ne_of_gt (Nat.zero_lt_of_lt more))
        simp [runDue, result, run fuel (by simpa using more)]

/-- All timers that were due at an instant have fired. -/
structure Discharged (t : Timers α) (now : Nat) (ids : List TimerId) (t' : Timers α) : Prop where
  fires : Fires now t ids t'
  run : t.runAll now = (ids, t')
  due : ∀ id, id ∈ ids ↔ ∃ e, t.Live id e ∧ e.due ≤ now
  once : ids.Nodup
  -- By time, then by sequence number.
  ordered : ids.Pairwise fun i j => ∃ e f, t.Live i e ∧ t.Live j f ∧ (e.place i).before (f.place j)
  settled : ∀ id e, t'.Live id e -> now < e.due

/-- A repeating timer with no delay that fired before, one that fires once, and one that is cancelled. -/
def rounds : List (Use Unit) :=
  [.move (.schedule 0 () 0 true), .move (.schedule 0 () 1500 false), .move (.takeDue 1000), .move (.restore 1 ()),
    .move (.schedule 1000 () 600 false), .move (.cancel 3)]

example : ((held rounds).runAll 2500).1 = [2, 1] := by rfl

end Timers

end ScriptHost
