import Mathlib.Data.List.Perm.Subperm
import Mathlib.Logic.Function.Iterate
import ScriptHost.Proofs.Timers.Places

set_option autoImplicit false

/-!
Punctual timers.

Operations come in any order, so a repeating timer may be due again while its callback is out. As long as
the queue is never asked for a timer just then, each live timer keeps its one place in it and fires when it
is due. Being asked then takes the timer out of the queue for good.
-/

namespace ScriptHost

namespace Timers

variable {α : Type} {t : Timers α} {id : TimerId} {e : Timer α}

inductive Move (α : Type) where
  | schedule (now : Nat) (callback : α) (delay : Nat) (repeating : Bool)
  | cancel (id : TimerId)
  | takeDue (now : Nat)
  | restore (id : TimerId) (callback : α)
  | nextDeadline

def step (t : Timers α) : Move α -> Timers α
  | .schedule now callback delay repeating => (t.schedule now callback delay repeating).2
  | .cancel id => (t.cancel id).2
  | .takeDue now => (t.takeDue now).2
  | .restore id callback => (t.restore id callback).2
  | .nextDeadline => t.nextDeadline.2

def after (moves : List (Move α)) : Timers α :=
  moves.foldl step empty

/-- A registry in which every id is taken never finishes scheduling another timer. -/
def Roomy (moves : List (Move α)) : Prop :=
  ∀ k now callback delay repeating, moves[k]? = some (.schedule now callback delay repeating) ->
    (after (moves.take k)).entries.size + 1 < UInt32.size

/-- No due timer is asked for while the earliest one is a repeating timer whose callback is out. -/
def Attended (moves : List (Move α)) : Prop :=
  ∀ k now, moves[k]? = some (.takeDue now) -> ¬(after (moves.take k)).Misses now

structure Punctual (moves : List (Move α)) : Prop where
  placed : ∀ k id e, (after (moves.take k)).Live id e -> (after (moves.take k)).places id e.seq = [e.place id]
  earliest : ∀ k now id callback, moves[k]? = some (.takeDue now) ->
    ((after (moves.take k)).takeDue now).1 = some (id, callback) ->
      ∃ e, (after (moves.take k)).First id e ∧ e.due ≤ now ∧ e.callback = some callback
  exhausted : ∀ k now, moves[k]? = some (.takeDue now) -> ((after (moves.take k)).takeDue now).1 = none ->
    ∀ id e, (after (moves.take k)).Live id e -> e.callback ≠ none -> now < e.due
  -- A timer that has its callback fires before its due time is found to be over, unless it is cancelled.
  fires : ∀ j k id e now, (after (moves.take j)).Live id e -> e.callback ≠ none -> e.due ≤ now -> j ≤ k ->
    moves[k]? = some (.takeDue now) -> ((after (moves.take k)).takeDue now).1 = none ->
      ∃ i, j ≤ i ∧ i < k ∧ (moves[i]? = some (.cancel id) ∨
        ∃ at_ callback, moves[i]? = some (.takeDue at_) ∧ e.due ≤ at_ ∧
          ((after (moves.take i)).takeDue at_).1 = some (id, callback))

theorem after_succ {moves : List (Move α)} {k : Nat} {m : Move α} (here : moves[k]? = some m) :
    after (moves.take (k + 1)) = (after (moves.take k)).step m := by
  simp [after, List.take_add_one, here]

theorem after_past {moves : List (Move α)} {k : Nat} (here : moves[k]? = none) :
    after (moves.take (k + 1)) = after (moves.take k) := by
  simp [List.take_add_one, here]

theorem schedule_sound (s : t.Sound) (now : Nat) (callback : α) (delay : Nat) (repeating : Bool) :
    (t.schedule now callback delay repeating).2.Sound := by
  let id := freshId t.entries t.entries.size t.lastId
  let timer : Timer α :=
    ⟨now + delay, if repeating then some (max delay minPeriod) else none, false, some callback, t.nextSeq⟩
  have renewed := s.renew (a := timer) rfl (by simp [timer]) id id
  have found : (t.entries.set id timer).get? id = some timer := by simp
  have new : ∀ d ∈ t.queue, timer.seq ≠ d.seq := fun d member => (Nat.ne_of_lt (s.fresh d member)).symm
  exact renewed.enqueue found new

theorem schedule_placed (p : t.Placed) (now : Nat) (callback : α) (delay : Nat) (repeating : Bool) :
    (t.schedule now callback delay repeating).2.Placed := by
  intro j b here
  obtain ⟨here, alive⟩ := here
  simp only [schedule, Table.get?_set] at here ⊢
  rw [(enqueue_perm _ _).mem_iff]
  split at here
  next same => cases here; simp [Timer.place, ← same]
  next => exact List.mem_cons_of_mem _ (p j b ⟨here, alive⟩)

theorem cancel_sound (s : t.Sound) (id : TimerId) : (t.cancel id).2.Sound := by
  unfold cancel
  split
  next => exact s
  next e found =>
    split
    next => exact s
    next => exact s.change found rfl rfl (by simp)

theorem cancel_placed (p : t.Placed) (id : TimerId) : (t.cancel id).2.Placed := by
  unfold cancel
  split
  next => exact p
  next =>
    split
    next => exact p
    next => exact p.set (by simp)

theorem restore_sound (s : t.Sound) (id : TimerId) (callback : α) : (t.restore id callback).2.Sound := by
  unfold restore
  split
  next => exact s
  next e found =>
    split
    next => exact s.erase id
    next =>
      split
      next => exact s
      next => exact s.change found rfl rfl (by simp)

theorem restore_placed (p : t.Placed) (id : TimerId) (callback : α) : (t.restore id callback).2.Placed := by
  unfold restore
  split
  next => exact p
  next e found =>
    split
    next => exact p.erase id
    next alive =>
      split
      next => exact p
      next => exact p.set fun _ => p id e ⟨found, by simpa using alive⟩

theorem takeDue_sound (s : t.Sound) (now : Nat) : (t.takeDue now).2.Sound := by
  have pruned := (prune_trimmed t).sound s
  have new : ∀ d ∈ t.prune.queue, t.prune.nextSeq ≠ d.seq := fun d member =>
    (Nat.ne_of_lt (pruned.fresh d member)).symm
  cases out : t.takeDue now with
  | mk answer next =>
    cases out ▸ s.takeDue_taken now with
    | nothing => exact pruned
    | once id e rest callback queue => exact (pruned.tail queue).erase id
    | again id e rest callback period queue live due periodic present =>
      let later : Timer α := { e with due := now + period, seq := t.prune.nextSeq, callback := none }
      have renewed := (pruned.tail queue).renew (a := later) rfl (by simp [later, periodic]) id t.prune.lastId
      have found : (t.prune.entries.set id later).get? id = some later := by simp
      exact renewed.enqueue found fun d member => new d (by simp [queue, show d ∈ rest from member])
    | missed id e rest period queue live due periodic out =>
      exact (pruned.tail queue).renew rfl (by simp [periodic]) id t.prune.lastId

theorem step_sound (s : t.Sound) (m : Move α) : (t.step m).Sound := by
  cases m with
  | schedule now callback delay repeating => exact schedule_sound s now callback delay repeating
  | cancel id => exact cancel_sound s id
  | takeDue now => exact takeDue_sound s now
  | restore id callback => exact restore_sound s id callback
  | nextDeadline => exact (prune_trimmed t).sound s

theorem steps_sound (s : t.Sound) (moves : List (Move α)) : (moves.foldl step t).Sound := by
  induction moves generalizing t with
  | nil => exact s
  | cons m rest ih => exact ih (step_sound s m)

theorem after_sound (moves : List (Move α)) : (after moves).Sound :=
  steps_sound empty_sound moves

theorem Sound.misses_of_missed (s : t.Sound) (p : t.Placed) {now : Nat} {rest : List Due}
    (queue : t.prune.queue = e.place id :: rest) (live : t.prune.Live id e) (due : e.due ≤ now)
    (out : e.callback = none) : t.Misses now := by
  have trimmed := prune_trimmed t
  have first := (trimmed.sound s).first_of_head (trimmed.placed p) queue live
  exact ⟨id, e, trimmed.first_iff.1 first, due, out⟩

theorem takeDue_placed (s : t.Sound) (p : t.Placed) {now : Nat} (attended : ¬t.Misses now) :
    (t.takeDue now).2.Placed := by
  have pruned := (prune_trimmed t).placed p
  cases result : t.takeDue now with
  | mk answer next =>
    cases result ▸ s.takeDue_taken now with
    | nothing => exact pruned
    | once id e rest callback queue live due period present =>
      intro j a here
      obtain ⟨here, alive⟩ := here
      simp only [Table.get?_erase] at here
      split at here
      next => simp at here
      next other =>
        have member : a.place j ∈ e.place id :: rest := queue ▸ pruned j a ⟨here, alive⟩
        simpa [Timer.place, Ne.symm other] using member
    | again id e rest callback period queue live due periodic present =>
      intro j a here
      obtain ⟨here, alive⟩ := here
      simp only [Table.get?_set] at here ⊢
      rw [(enqueue_perm _ _).mem_iff]
      split at here
      next same => cases here; simp [Timer.place, same]
      next other =>
        have member : a.place j ∈ e.place id :: rest := queue ▸ pruned j a ⟨here, alive⟩
        simp only [Timer.place, List.mem_cons, Due.mk.injEq, Ne.symm other, and_false, false_or] at member ⊢
        exact member
    | missed id e rest period queue live due periodic out =>
      exact absurd (s.misses_of_missed p queue live due out) attended

theorem step_placed (s : t.Sound) (p : t.Placed) (m : Move α) (attended : ∀ now, m = .takeDue now -> ¬t.Misses now) :
    (t.step m).Placed := by
  cases m with
  | schedule now callback delay repeating => exact schedule_placed p now callback delay repeating
  | cancel id => exact cancel_placed p id
  | takeDue now => exact takeDue_placed s p (attended now rfl)
  | restore id callback => exact restore_placed p id callback
  | nextDeadline => exact (prune_trimmed t).placed p

theorem after_placed {moves : List (Move α)} (attended : Attended moves) (k : Nat) :
    (after (moves.take k)).Placed := by
  induction k with
  | zero => simp [after, empty, Placed, Live]
  | succ k ih =>
    cases here : moves[k]? with
    | none => exact after_past here ▸ ih
    | some m =>
      rw [after_succ here]
      exact step_placed (after_sound _) ih m fun now same => attended k now (same ▸ here)

theorem takeDue_unplaced (s : t.Sound) (p : t.Placed) {now : Nat} (missed : t.Misses now) :
    ¬(t.takeDue now).2.Placed := by
  obtain ⟨id, e, first, due, out⟩ := missed
  have trimmed := prune_trimmed t
  have pruned := trimmed.sound s
  have first' := trimmed.first_iff.2 first
  have queued := trimmed.placed p id e first'.1
  cases result : t.takeDue now with
  | mk answer next =>
    cases result ▸ s.takeDue_taken now with
    | nothing early => exact absurd (early _ queued) (by simp [Timer.place, due])
    | once j a rest callback queue live due' period present =>
      obtain ⟨rfl, rfl⟩ := first'.unique (pruned.first_of_head (trimmed.placed p) queue live)
      simp [out] at present
    | again j a rest callback period queue live due' periodic present =>
      obtain ⟨rfl, rfl⟩ := first'.unique (pruned.first_of_head (trimmed.placed p) queue live)
      simp [out] at present
    | missed j a rest period queue live due' periodic out' =>
      intro placed
      let later : Timer α := { a with due := now + period, seq := t.prune.nextSeq, callback := none }
      have member : later.place j ∈ rest := placed j later ⟨by simp [later], live.2⟩
      have fresh := pruned.fresh (later.place j) (by simp [queue, member])
      simp [later, Timer.place] at fresh

theorem nextId_toNat (id : TimerId) : (nextId id).toNat = if id.toNat = 4294967295 then 1 else id.toNat + 1 := by
  have small := id.toNat_lt
  have wraps : id + 1 = 0 ↔ id.toNat = 4294967295 := by
    rw [← UInt32.toNat_inj, UInt32.toNat_add]
    simp
    omega
  unfold nextId
  split
  next last => simp [wraps.1 last]
  next more =>
    have notLast := mt wraps.2 more
    rw [UInt32.toNat_add, if_neg notLast]
    simp
    omega

theorem toNat_iterate (id : TimerId) (n : Nat) :
    (nextId^[n] (nextId id)).toNat = ((nextId id).toNat - 1 + n) % (4294967295) + 1 := by
  have first := nextId_toNat id
  have small := id.toNat_lt
  induction n with
  | zero => simp; split at first <;> omega
  | succ n ih =>
    rw [Function.iterate_succ_apply', nextId_toNat, ih]
    split <;> omega

theorem freshId_contained (entries : Table TimerId (Timer α)) (tries : Nat) (id : TimerId)
    (taken : entries.contains (freshId entries tries id)) (n : Nat) (within : n ≤ tries) :
    nextId^[n] (nextId id) ∈ entries.keys := by
  have known : ∀ {j}, entries.contains j -> j ∈ entries.keys := by
    intro j there
    by_contra absent
    simp [Table.contains, (Table.get?_eq_none_iff entries j).2 absent] at there
  induction tries generalizing id n with
  | zero =>
    obtain rfl : n = 0 := by omega
    exact known taken
  | succ tries ih =>
    cases here : entries.contains (nextId id) with
    | false => simp [freshId, here] at taken
    | true =>
      cases n with
      | zero => exact known here
      | succ n => exact ih (nextId id) (by simpa [freshId, here] using taken) n (by omega)

theorem freshId_absent {entries : Table TimerId (Timer α)} (room : entries.size + 1 < UInt32.size) (id : TimerId) :
    entries.get? (freshId entries entries.size id) = none := by
  by_contra present
  have taken : entries.contains (freshId entries entries.size id) := by
    simpa [Table.contains, Option.isSome_iff_ne_none] using present
  let tried := (List.range (entries.size + 1)).map fun n => nextId^[n] (nextId id)
  have inside : ∀ j ∈ tried, j ∈ entries.keys := by
    intro j member
    obtain ⟨n, within, rfl⟩ := List.mem_map.1 member
    exact freshId_contained entries entries.size id taken n (by simp at within; omega)
  have different : tried.Nodup := by
    apply List.Nodup.map_on _ List.nodup_range
    intro a hA b hB same
    have values := congrArg UInt32.toNat same
    rw [toNat_iterate, toNat_iterate] at values
    simp only [List.mem_range] at hA hB
    simp only [UInt32.size] at room
    omega
  have bound := (different.subperm inside).length_le
  simp only [tried, Table.keys, Table.size, List.length_map, List.length_range] at bound
  omega

theorem takeDue_live (s : t.Sound) (live : t.Live id e) (present : e.callback ≠ none) (now : Nat)
    (unfired : e.due ≤ now -> ∀ callback, (t.takeDue now).1 ≠ some (id, callback)) :
    (t.takeDue now).2.Live id e := by
  have pruned := (prune_trimmed t).live_iff.2 live
  have same : ∀ {a}, t.prune.Live id a -> a = e := fun there => Option.some.inj (there.1.symm.trans pruned.1)
  cases result : t.takeDue now with
  | mk answer next =>
    rw [result] at unfired
    cases result ▸ s.takeDue_taken now with
    | nothing => exact pruned
    | once j a rest callback queue there due period has =>
      have other : j ≠ id := by
        rintro rfl
        exact unfired (same there ▸ due) callback rfl
      exact ⟨by simpa [other] using pruned.1, pruned.2⟩
    | again j a rest callback period queue there due periodic has =>
      have other : j ≠ id := by
        rintro rfl
        exact unfired (same there ▸ due) callback rfl
      exact ⟨by simpa [other] using pruned.1, pruned.2⟩
    | missed j a rest period queue there due periodic out =>
      have other : j ≠ id := by
        rintro rfl
        exact present (same there ▸ out)
      exact ⟨by simpa [other] using pruned.1, pruned.2⟩

theorem step_live (s : t.Sound) (live : t.Live id e) (present : e.callback ≠ none) (m : Move α)
    (room : ∀ now callback delay repeating, m = .schedule now callback delay repeating ->
      t.entries.size + 1 < UInt32.size)
    (uncancelled : m ≠ .cancel id)
    (unfired : ∀ now, m = .takeDue now -> e.due ≤ now -> ∀ callback, (t.takeDue now).1 ≠ some (id, callback)) :
    (t.step m).Live id e := by
  cases m with
  | schedule now callback delay repeating =>
    have other : freshId t.entries t.entries.size t.lastId ≠ id := by
      rintro rfl
      simp [freshId_absent (room now callback delay repeating rfl) t.lastId, Live] at live
    exact ⟨by simpa [step, schedule, other] using live.1, live.2⟩
  | cancel j =>
    have other : j ≠ id := fun same => uncancelled (by rw [same])
    simp only [step, cancel]
    split
    next => exact live
    next =>
      split
      next => exact live
      next => exact ⟨by simpa [other] using live.1, live.2⟩
  | takeDue now => exact takeDue_live s live present now (unfired now rfl)
  | restore j callback =>
    simp only [step, restore]
    by_cases same : j = id
    next =>
      subst same
      obtain ⟨has, given⟩ := Option.ne_none_iff_exists.1 present
      simpa [live.1, live.2, ← given] using live
    next =>
      split
      next => exact live
      next =>
        split
        next => exact ⟨by simpa [same] using live.1, live.2⟩
        next =>
          split
          next => exact live
          next => exact ⟨by simpa [same] using live.1, live.2⟩
  | nextDeadline => exact (prune_trimmed t).live_iff.2 live

theorem takeDue_first (s : t.Sound) (p : t.Placed) {now : Nat} {callback : α}
    (answer : (t.takeDue now).1 = some (id, callback)) :
    ∃ e, t.First id e ∧ e.due ≤ now ∧ e.callback = some callback := by
  have trimmed := prune_trimmed t
  have first : ∀ {j a rest}, t.prune.queue = Timer.place a j :: rest -> t.prune.Live j a -> t.First j a :=
    fun queue live => trimmed.first_iff.1 ((trimmed.sound s).first_of_head (trimmed.placed p) queue live)
  cases result : t.takeDue now with
  | mk out next =>
    rw [result] at answer
    cases result ▸ s.takeDue_taken now with
    | nothing => simp at answer
    | once j a rest has queue live due period present =>
      simp only [Option.some.injEq, Prod.mk.injEq] at answer
      obtain ⟨rfl, rfl⟩ := answer
      exact ⟨a, first queue live, due, present⟩
    | again j a rest has period queue live due periodic present =>
      simp only [Option.some.injEq, Prod.mk.injEq] at answer
      obtain ⟨rfl, rfl⟩ := answer
      exact ⟨a, first queue live, due, present⟩
    | missed => simp at answer

theorem takeDue_exhausted (s : t.Sound) (p : t.Placed) {now : Nat} (attended : ¬t.Misses now)
    (answer : (t.takeDue now).1 = none) (live : t.Live id e) : now < e.due := by
  have trimmed := prune_trimmed t
  cases result : t.takeDue now with
  | mk out next =>
    rw [result] at answer
    cases result ▸ s.takeDue_taken now with
    | nothing early => exact early (e.place id) (trimmed.placed p id e (trimmed.live_iff.2 live))
    | once => simp at answer
    | again => simp at answer
    | missed j a rest period queue there due periodic out =>
      exact absurd (s.misses_of_missed p queue there due out) attended

/-- While a live timer with its callback is neither cancelled nor taken, its entry stays as it is. -/
theorem after_live {moves : List (Move α)} (room : Roomy moves) {j : Nat}
    (live : (after (moves.take j)).Live id e) (present : e.callback ≠ none) {n : Nat}
    (untouched : ∀ i, j ≤ i -> i < j + n -> moves[i]? ≠ some (.cancel id) ∧
      ∀ now, moves[i]? = some (.takeDue now) -> e.due ≤ now -> ∀ callback,
        ((after (moves.take i)).takeDue now).1 ≠ some (id, callback)) :
    (after (moves.take (j + n))).Live id e := by
  induction n with
  | zero => exact live
  | succ n ih =>
    have still := ih fun i from_ before => untouched i from_ (by omega)
    obtain ⟨uncancelled, unfired⟩ := untouched (j + n) (by omega) (by omega)
    rw [← Nat.add_assoc]
    cases here : moves[j + n]? with
    | none => exact after_past here ▸ still
    | some m =>
      rw [after_succ here]
      rw [here] at uncancelled unfired
      apply step_live (after_sound _) still present
      next =>
        rintro now callback delay repeating rfl
        exact room (j + n) now callback delay repeating here
      next => simpa using uncancelled
      next =>
        rintro now rfl
        exact unfired now rfl

/-- Timers are punctual exactly when nobody asks for one while the earliest is due and its callback out. -/
theorem run_punctual_iff (moves : List (Move α)) (room : Roomy moves) : Punctual moves ↔ Attended moves := by
  constructor
  next =>
    intro punctual k now here missed
    have placed : ∀ n, (after (moves.take n)).Placed := fun n id e live =>
      ((after_sound (moves.take n)).places_eq_iff live.1).1 (punctual.placed n id e live)
    have lost := takeDue_unplaced (after_sound (moves.take k)) (placed k) missed
    have kept := placed (k + 1)
    rw [after_succ here] at kept
    exact lost kept
  next =>
    intro attended
    have placed := after_placed attended
    constructor
    next =>
      intro k id e live
      exact ((after_sound (moves.take k)).places_eq_iff live.1).2 (placed k id e live)
    next =>
      intro k now id callback here answer
      exact takeDue_first (after_sound _) (placed k) answer
    next =>
      intro k now here answer id e live present
      exact takeDue_exhausted (after_sound _) (placed k) (attended k now here) answer live
    next =>
      intro j k id e now live present due order here answer
      by_contra untouched
      push Not at untouched
      obtain ⟨n, rfl⟩ := Nat.exists_eq_add_of_le order
      have still : (after (moves.take (j + n))).Live id e := by
        apply after_live room live present
        intro i from_ before
        obtain ⟨uncancelled, unfired⟩ := untouched i from_ before
        exact ⟨uncancelled, fun at_ asked reached callback => unfired at_ callback asked reached⟩
      have late := takeDue_exhausted (after_sound _) (placed (j + n)) (attended (j + n) now here) answer still
      omega

def ticking : List (Move Unit) :=
  [.schedule 0 () 1000 true, .takeDue 1000, .restore 1 (), .takeDue 2500]

theorem ticking_punctual : Roomy ticking ∧ Attended ticking ∧ Punctual ticking := by
  have room : Roomy ticking := by
    intro k now callback delay repeating here
    match k with
    | 0 => decide
    | 1 | 2 | 3 => simp [ticking] at here
    | n + 4 => simp [ticking] at here
  have attended : Attended ticking := by
    rintro k now here ⟨id, e, ⟨⟨found, -⟩, -⟩, -, out⟩
    match k with
    | 0 | 2 => simp [ticking] at here
    | 1 =>
      have entries : (after (ticking.take 1)).entries = Table.empty.set 1 ⟨1000, some 1000, false, some (), 0⟩ := rfl
      rw [entries, Table.get?_set, Table.get?_empty] at found
      split at found <;> cases found
      simp at out
    | 3 =>
      have entries : (after (ticking.take 3)).entries = Table.empty.set 1 ⟨2000, some 1000, false, some (), 1⟩ := rfl
      rw [entries, Table.get?_set, Table.get?_empty] at found
      split at found <;> cases found
      simp at out
    | n + 4 => simp [ticking] at here
  exact ⟨room, attended, (run_punctual_iff ticking room).2 attended⟩

/-- A timer callback that is out when its timer is due again. -/
def nested : List (Move Unit) :=
  [.schedule 0 () 1000 true, .takeDue 1000, .takeDue 2000, .restore 1 (), .takeDue 5000]

theorem nested_unpunctual : ¬Punctual nested := by
  intro punctual
  have live : (after (nested.take 4)).Live 1 ⟨3000, some 1000, false, some (), 2⟩ := ⟨by rfl, rfl⟩
  have early := punctual.exhausted 4 5000 rfl rfl 1 _ live (by simp)
  simp at early

end Timers

end ScriptHost
