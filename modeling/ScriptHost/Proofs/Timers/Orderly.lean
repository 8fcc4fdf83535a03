import ScriptHost.Proofs.Timers.Agenda

set_option autoImplicit false

/-!
Orderly timers.

As long as the callback of each repeating timer is given back before the next timer is asked for, and no
id had to be used twice, a registry cannot be told from the list of its live timers.
-/

namespace ScriptHost

/-- A timer that was cancelled has given its callback back, and repeating timers leave some time between. -/
def Timer.Fair {α : Type} (e : Timer α) : Prop :=
  (e.cancelled = true -> e.callback = none) ∧ ∀ period ∈ e.period, Timers.minPeriod ≤ period

namespace Timers

open Agenda

variable {α : Type} {t : Timers α} {id : TimerId} {e : Timer α} {a : Agenda α}

/-- No callback is out. -/
def Present (t : Timers α) : Prop :=
  ∀ id e, t.Live id e -> e.callback ≠ none

structure Kept (t : Timers α) : Prop where
  sound : t.Sound
  placed : t.Placed
  fair : ∀ id e, t.entries.get? id = some e -> e.Fair

theorem empty_kept : (empty : Timers α).Kept :=
  ⟨empty_sound, by simp [empty, Placed, Live], by simp [empty]⟩

theorem fair_set {entries : Table TimerId (Timer α)} (fair : ∀ j f, entries.get? j = some f -> f.Fair) (new : e.Fair) :
    ∀ j f, (entries.set id e).get? j = some f -> f.Fair := by
  intro j f there
  rw [Table.get?_set] at there
  split at there
  next => exact Option.some.inj there ▸ new
  next => exact fair j f there

theorem fair_erase {entries : Table TimerId (Timer α)} (fair : ∀ j f, entries.get? j = some f -> f.Fair) :
    ∀ j f, (entries.erase id).get? j = some f -> f.Fair := by
  intro j f there
  rw [Table.get?_erase] at there
  split at there
  next => cases there
  next => exact fair j f there

theorem drain_sound (t : Timers α) : t.drain.2.Sound where
  sorted := List.Pairwise.nil
  distinct := List.nodup_nil
  fresh := by simp [drain]
  numbered := by simp [drain]
  dated := by simp [drain]
  ready := by simp [drain, Live]

theorem use_sound (s : t.Sound) (u : Use α) : (t.use u).Sound := by
  cases u with
  | move m => exact step_sound s m
  | drain => exact drain_sound t

theorem Present.not_misses (present : t.Present) (now : Nat) : ¬t.Misses now := by
  rintro ⟨id, e, first, -, out⟩
  exact present id e first.1 out

theorem use_placed (k : t.Kept) (u : Use α) (present : ∀ now, u = .move (.takeDue now) -> t.Present) :
    (t.use u).Placed := by
  cases u with
  | move m =>
    exact step_placed k.sound k.placed m fun now same => (present now (congrArg Use.move same)).not_misses now
  | drain => simp [use, drain, Placed, Live]

theorem prune_fair (k : t.Kept) : ∀ id e, t.prune.entries.get? id = some e -> e.Fair :=
  fun id e there => k.fair id e ((prune_trimmed t).entries id e there)

theorem takeDue_fair (k : t.Kept) (now : Nat) : ∀ id e, (t.takeDue now).2.entries.get? id = some e -> e.Fair := by
  have pruned := prune_fair k
  cases result : t.takeDue now with
  | mk answer next =>
    cases result ▸ k.sound.takeDue_taken now with
    | nothing => exact pruned
    | once => exact fair_erase pruned
    | again id e rest callback period queue live => exact fair_set pruned ⟨fun _ => rfl, (pruned id e live.1).2⟩
    | missed id e rest period queue live => exact fair_set pruned ⟨fun _ => rfl, (pruned id e live.1).2⟩

theorem use_fair (k : t.Kept) (u : Use α) : ∀ id e, (t.use u).entries.get? id = some e -> e.Fair := by
  cases u with
  | drain => simp [use, drain]
  | move m =>
    cases m with
    | schedule now callback delay repeating =>
      refine fair_set k.fair ⟨by simp, fun period chosen => ?_⟩
      cases repeating with
      | false => simp at chosen
      | true =>
        obtain rfl : max delay minPeriod = period := by simpa using chosen
        exact Nat.le_max_right delay minPeriod
    | takeDue now => exact takeDue_fair k now
    | nextDeadline => exact prune_fair k
    | cancel id =>
      simp only [use, step, cancel]
      split
      next => exact k.fair
      next e found =>
        split
        next => exact k.fair
        next => exact fair_set k.fair ⟨fun _ => rfl, (k.fair id e found).2⟩
    | restore id callback =>
      simp only [use, step, restore]
      split
      next => exact k.fair
      next e found =>
        split
        next => exact fair_erase k.fair
        next alive =>
          split
          next => exact k.fair
          next => exact fair_set k.fair ⟨by simp [alive], (k.fair id e found).2⟩

theorem use_kept (k : t.Kept) (u : Use α) (present : ∀ now, u = .move (.takeDue now) -> t.Present) : (t.use u).Kept :=
  ⟨use_sound k.sound u, use_placed k u present, use_fair k u⟩

/-- A registry and an agenda with the same live timers. -/
structure Mirrors (t : Timers α) (a : Agenda α) : Prop where
  kept : t.Kept
  pending : a.pending = t.pending

namespace Mirrors

theorem find?_eq (m : Mirrors t a) (live : t.Live id e) : a.find? id = some ⟨id, e.due, e.period, e.callback⟩ := by
  have member := (mem_pending m.kept.placed (x := ⟨id, e.due, e.period, e.callback⟩)).2 ⟨e, live, rfl⟩
  cases found : a.find? id with
  | none =>
    have other := List.find?_eq_none.1 found _ (m.pending ▸ member)
    simp at other
  | some x =>
    have same : x.id = id := by simpa using List.find?_some found
    obtain ⟨e', there, equal⟩ := (mem_pending m.kept.placed).1 (m.pending ▸ List.mem_of_find?_eq_some found)
    rw [equal]
    subst same
    obtain rfl := Option.some.inj (there.1.symm.trans live.1)
    rfl

theorem find?_eq_none (m : Mirrors t a) (dead : ∀ e, ¬t.Live id e) : a.find? id = none := by
  refine List.find?_eq_none.2 fun x member same => ?_
  obtain ⟨e, live, -⟩ := (mem_pending m.kept.placed).1 (m.pending ▸ member)
  exact dead e ((beq_iff_eq.1 same) ▸ live)

/-- A timer that takes an id that was free goes into the list. -/
theorem schedule (m : Mirrors t a) (now : Nat) (callback : α) (delay : Nat) (repeating : Bool)
    (next : freshId t.entries t.entries.size t.lastId = UInt32.ofNat (a.made + 1))
    (free : t.entries.get? (UInt32.ofNat (a.made + 1)) = none) :
    t.reply (.move (.schedule now callback delay repeating)) = a.reply (.move (.schedule now callback delay repeating)) ∧
      (a.use (.move (.schedule now callback delay repeating))).pending =
        (t.schedule now callback delay repeating).2.pending := by
  refine ⟨congrArg Reply.id next, ?_⟩
  let period := if repeating then some (max delay minPeriod) else none
  have none_yet : ∀ d ∈ t.queue, d.id = UInt32.ofNat (a.made + 1) -> current t.entries d = none := by
    intro d _ same
    rw [current, same, free, Option.bind_none]
  have placed := pending_renew m.kept.sound _ ⟨now + delay, period, false, some callback, t.nextSeq⟩ none_yet rfl rfl
  simp only [Agenda.use, Timers.schedule, next, m.pending]
  exact placed.symm

theorem cancel (m : Mirrors t a) (id : TimerId) :
    t.reply (.move (.cancel id)) = a.reply (.move (.cancel id)) ∧
      (a.use (.move (.cancel id))).pending = (t.cancel id).2.pending := by
  have unlisted (dead : ∀ e, ¬t.Live id e) : (a.pending.filter fun x => x.id != id) = a.pending := by
    refine List.filter_eq_self.2 fun x member => bne_iff_ne.2 fun same => ?_
    obtain ⟨e, live, -⟩ := (mem_pending m.kept.placed).1 (m.pending ▸ member)
    exact dead e (same ▸ live)
  have same (dead : ∀ e, ¬t.Live id e) (found : t.cancel id = (none, t)) :
      t.reply (.move (.cancel id)) = a.reply (.move (.cancel id)) ∧
        (a.use (.move (.cancel id))).pending = (t.cancel id).2.pending := by
    constructor
    next => simp only [Timers.reply, Agenda.reply, found, m.find?_eq_none dead, Option.map_none]
    next =>
      rw [found, ← m.pending]
      exact unlisted dead
  cases found : t.entries.get? id with
  | none => exact same (by simp [Live, found]) (by simp [Timers.cancel, found])
  | some e =>
    cases gone : e.cancelled with
    | true => exact same (by simp [Live, found, gone]) (by simp [Timers.cancel, found, gone])
    | false =>
      constructor
      next =>
        simp only [Timers.reply, Agenda.reply, m.find?_eq ⟨found, gone⟩, Timers.cancel, found, gone]
        rfl
      next =>
        simp only [Agenda.use, m.pending, Timers.cancel, found, gone, Bool.false_eq_true, if_false]
        exact (pending_remove rfl).symm

theorem restore (m : Mirrors t a) (id : TimerId) (callback : α) :
    t.reply (.move (.restore id callback)) = a.reply (.move (.restore id callback)) ∧
      (a.use (.move (.restore id callback))).pending = (t.restore id callback).2.pending := by
  -- Whoever is not out gets nothing back.
  have refused (there : ∀ e, t.Live id e -> e.callback ≠ none) :
      a.reply (.move (.restore id callback)) = .back (some callback) ∧
        (a.use (.move (.restore id callback))).pending = a.pending := by
    have listed : ∀ x ∈ a.pending, x.id = id -> x.callback ≠ none := by
      rintro x member rfl
      obtain ⟨e, live, same⟩ := (mem_pending m.kept.placed).1 (m.pending ▸ member)
      rw [same]
      exact there e live
    constructor
    next =>
      have none_out : ((a.find? id).any fun x => x.callback.isNone) = false := by
        cases found : a.find? id with
        | none => rfl
        | some x =>
          have present := listed x (List.mem_of_find?_eq_some found) (by simpa using List.find?_some found)
          simpa [Option.isSome_iff_ne_none] using present
      simp only [Agenda.reply, none_out, Bool.false_eq_true, if_false]
    next =>
      conv_rhs => rw [← List.map_id' a.pending]
      refine List.map_congr_left fun x member => ?_
      by_cases same : x.id = id
      next =>
        obtain ⟨c, present⟩ := Option.ne_none_iff_exists'.1 (listed x member same)
        cases x
        simp_all
      next => rw [if_neg same]
  cases found : t.entries.get? id with
  | none =>
    obtain ⟨answer, same⟩ := refused (by simp [Live, found])
    exact ⟨by simp only [Timers.reply, Timers.restore, found, answer], by simp only [same, Timers.restore, found, m.pending]⟩
  | some e =>
    cases gone : e.cancelled with
    | true =>
      obtain ⟨answer, same⟩ := refused (by simp [Live, found, gone])
      have stale : ∀ d ∈ t.queue, d.id = id -> current t.entries d = none := by
        rintro d - rfl
        simp [current, found, gone]
      simp only [Timers.reply, Timers.restore, found, gone, if_true, answer, same, true_and]
      exact m.pending.trans (pending_erase stale).symm
    | false =>
      cases out : e.callback with
      | some c =>
        have there : ∀ e', t.Live id e' -> e'.callback ≠ none := by
          rintro e' ⟨found', -⟩
          obtain rfl := Option.some.inj (found.symm.trans found')
          simp [out]
        obtain ⟨answer, same⟩ := refused there
        exact ⟨by simp [Timers.reply, Timers.restore, found, gone, out, answer],
          by simp [same, Timers.restore, found, gone, out, m.pending]⟩
      | none =>
        have restored : t.restore id callback =
            (none, { t with entries := t.entries.set id { e with callback := some callback } }) := by
          simp [Timers.restore, found, gone, out]
        have changed := pending_change ⟨found, gone⟩ { e with callback := some callback } rfl gone
        constructor
        next => simp [Timers.reply, Agenda.reply, m.find?_eq ⟨found, gone⟩, restored, out]
        next =>
          simp only [Agenda.use, m.pending, restored]
          refine (List.map_congr_left fun x member => ?_).trans changed.symm
          by_cases same : x.id = id
          next =>
            obtain ⟨e', live, equal⟩ := (mem_pending m.kept.placed).1 member
            obtain rfl := Option.some.inj ((same ▸ live.1).symm.trans found)
            rw [if_pos same, if_pos same, equal]
            simp [same, out]
          next => rw [if_neg same, if_neg same]

theorem takeDue (m : Mirrors t a) (present : t.Present) (now : Nat) :
    t.reply (.move (.takeDue now)) = a.reply (.move (.takeDue now)) ∧
      (a.use (.move (.takeDue now))).pending = (t.takeDue now).2.pending := by
  have trimmed := prune_trimmed t
  have pruned := trimmed.sound m.kept.sound
  have pending : a.pending = t.prune.pending := m.pending.trans (pending_prune m.kept.sound).symm
  simp only [Timers.reply]
  cases result : t.takeDue now with
  | mk answer next =>
    cases result ▸ m.kept.sound.takeDue_taken now with
    | nothing early =>
      have later : ∀ x ∈ a.pending, now < x.due := by
        intro x member
        obtain ⟨d, queued, here⟩ := List.mem_filterMap.1 (pending ▸ member)
        exact pruned.current_dated queued here ▸ early d queued
      cases listed : a.pending with
      | nil => simpa [Agenda.reply, Agenda.use, listed] using pending
      | cons x rest =>
        have later := later x (by simp [listed])
        simpa [Agenda.reply, Agenda.use, listed, Nat.not_le.2 later] using pending
    | once id e rest callback queue live due once there =>
      have listed := pending.trans (pending_cons queue live)
      have crossed : a.use (.move (.takeDue now)) = { a with pending := rest.filterMap (current t.prune.entries) } := by
        simp only [Agenda.use, listed, due, if_true, Agenda.again, once]
      rw [crossed]
      refine ⟨by simp [Agenda.reply, listed, due, there], ?_⟩
      exact (pending_erase (stale_rest pruned queue live)).symm
    | again id e rest callback period queue live due periodic there =>
      have listed := pending.trans (pending_cons queue live)
      have renewed := pending_renew (pruned.tail queue) id
        { e with due := now + period, seq := t.prune.nextSeq, callback := none }
        (stale_rest pruned queue live) rfl live.2
      have postponed : a.use (.move (.takeDue now)) =
          { a with pending := place ⟨id, now + period, e.period, none⟩ (rest.filterMap (current t.prune.entries)) } := by
        simp only [Agenda.use, listed, due, if_true, Agenda.again, periodic]
      rw [postponed]
      exact ⟨by simp [Agenda.reply, listed, due, there], renewed.symm⟩
    | missed id e rest period queue live due periodic out => exact absurd out (present id e (trimmed.live_iff.1 live))

theorem nextDeadline (m : Mirrors t a) :
    t.reply (.move .nextDeadline) = a.reply (.move .nextDeadline) ∧
      (a.use (.move .nextDeadline)).pending = t.nextDeadline.2.pending := by
  have pending : a.pending = t.prune.pending := m.pending.trans (pending_prune m.kept.sound).symm
  refine ⟨?_, pending⟩
  simp only [Timers.reply, Timers.nextDeadline, Agenda.reply]
  cases queue : t.prune.queue with
  | nil =>
    have none_left : a.pending = [] := by rw [pending, Timers.pending, queue, List.filterMap_nil]
    simp [none_left]
  | cons d rest =>
    obtain ⟨e, live, same⟩ := (prune_trimmed t).front d rest queue
    have pruned := (prune_trimmed t).sound m.kept.sound
    have time : d.time = e.due := pruned.dated d (by simp [queue]) e live.1 same.symm
    have head : t.prune.queue = e.place d.id :: rest := by simp [queue, Timer.place, ← time, same]
    rw [pending, pending_cons head live]
    simp [time]

theorem drain (m : Mirrors t a) :
    t.reply .drain = a.reply .drain ∧ (a.use .drain).pending = t.drain.2.pending := by
  refine ⟨congrArg Reply.drained (Multiset.coe_eq_coe.2 ?_), rfl⟩
  have callbacks : t.drain.1 = t.live.filterMap Appointment.callback := by
    simp only [Timers.drain, Table.values, List.filterMap_map, live, List.filterMap_filterMap]
    refine List.filterMap_congr fun entry inside => ?_
    cases gone : entry.2.cancelled with
    | false => simp
    | true =>
      have fair := m.kept.fair entry.1 entry.2 (Table.find_of_mem t.entries.nodup inside)
      simpa [gone] using fair.1 gone
  rw [callbacks, m.pending]
  exact (m.kept.sound.live_perm m.kept.placed).filterMap _

end Mirrors

/-- The last id and all others that are in use are among the first ones. -/
structure Numbered (t : Timers α) (made : Nat) : Prop where
  last : t.lastId.toNat = made
  known : ∀ id e, t.entries.get? id = some e -> id.toNat ≤ made

theorem nextId_eq {made : Nat} (last : id.toNat = made) (room : made + 1 < UInt32.size) :
    nextId id = UInt32.ofNat (made + 1) := by
  unfold UInt32.size at room
  apply UInt32.toNat_inj.1
  rw [nextId_toNat, if_neg (by omega), last, UInt32.toNat_ofNat', Nat.mod_eq_of_lt room]

theorem freshId_next {entries : Table TimerId (Timer α)} (free : entries.get? (nextId id) = none) (tries : Nat) :
    freshId entries tries id = nextId id := by
  cases tries with
  | zero => rfl
  | succ tries => simp [freshId, Table.contains, free]

namespace Numbered

variable {made : Nat}

theorem empty : (empty : Timers α).Numbered 0 :=
  ⟨rfl, by simp [Timers.empty]⟩

/-- As long as there are ids that were never used, the next one is free. -/
theorem free (n : t.Numbered made) (room : made + 1 < UInt32.size) :
    freshId t.entries t.entries.size t.lastId = UInt32.ofNat (made + 1) ∧
      t.entries.get? (UInt32.ofNat (made + 1)) = none := by
  have next := nextId_eq n.last room
  have free : t.entries.get? (UInt32.ofNat (made + 1)) = none := by
    by_contra taken
    obtain ⟨e, there⟩ := Option.ne_none_iff_exists.1 taken
    have small := n.known _ e there.symm
    rw [UInt32.toNat_ofNat', Nat.mod_eq_of_lt room] at small
    omega
  exact ⟨(freshId_next (next ▸ free) _).trans next, free⟩

theorem within {t' : Timers α} (n : t.Numbered made) (last : t'.lastId = t.lastId)
    (fewer : ∀ id e, t'.entries.get? id = some e -> ∃ e', t.entries.get? id = some e') : t'.Numbered made where
  last := last ▸ n.last
  known id e there := by
    obtain ⟨e', before⟩ := fewer id e there
    exact n.known id e' before

theorem set (n : t.Numbered made) (found : t.entries.get? id = some e) (e' : Timer α) (queue : List Due) (nextSeq : Nat) :
    Numbered ⟨t.entries.set id e', queue, t.lastId, nextSeq⟩ made := by
  refine n.within rfl fun j f there => ?_
  rw [Table.get?_set] at there
  split at there
  next same => exact ⟨e, same ▸ found⟩
  next => exact ⟨f, there⟩

theorem erase (n : t.Numbered made) (id : TimerId) (queue : List Due) (nextSeq : Nat) :
    Numbered ⟨t.entries.erase id, queue, t.lastId, nextSeq⟩ made := by
  refine n.within rfl fun j f there => ?_
  rw [Table.get?_erase] at there
  split at there
  next => cases there
  next => exact ⟨f, there⟩

theorem prune (n : t.Numbered made) : t.prune.Numbered made :=
  n.within rfl fun id e there => ⟨e, (prune_trimmed t).entries id e there⟩

theorem takeDue (n : t.Numbered made) (s : t.Sound) (now : Nat) : (t.takeDue now).2.Numbered made := by
  have pruned := n.prune
  cases result : t.takeDue now with
  | mk answer next =>
    cases result ▸ s.takeDue_taken now with
    | nothing => exact pruned
    | once => exact pruned.erase ..
    | again id e rest callback period queue live => exact pruned.set live.1 ..
    | missed id e rest period queue live => exact pruned.set live.1 ..

theorem schedule (n : t.Numbered made) (room : made + 1 < UInt32.size) (now : Nat) (callback : α) (delay : Nat)
    (repeating : Bool) : (t.schedule now callback delay repeating).2.Numbered (made + 1) := by
  have number : (UInt32.ofNat (made + 1)).toNat = made + 1 := by rw [UInt32.toNat_ofNat', Nat.mod_eq_of_lt room]
  obtain ⟨next, -⟩ := n.free room
  constructor
  next => simp only [Timers.schedule, next, number]
  next =>
    intro j e there
    simp only [Timers.schedule, next, Table.get?_set] at there
    split at there
    next same => exact same ▸ Nat.le_of_eq number
    next => exact Nat.le_succ_of_le (n.known j e there)

theorem use (n : t.Numbered a.made) (s : t.Sound) (u : Use α) (room : u.isSchedule = true -> a.made + 1 < UInt32.size) :
    (t.use u).Numbered (a.use u).made := by
  cases u with
  | drain => exact n.within rfl (by simp [Timers.use, Timers.drain])
  | move m =>
    cases m with
    | schedule now callback delay repeating => exact n.schedule (room rfl) now callback delay repeating
    | takeDue now =>
      have same : (a.use (.move (.takeDue now))).made = a.made := by
        simp only [Agenda.use]
        split
        next => rfl
        next => split <;> rfl
      exact same ▸ n.takeDue s now
    | nextDeadline => exact n.prune
    | cancel id =>
      simp only [Timers.use, step, Timers.cancel, Agenda.use]
      split
      next => exact n
      next e found =>
        split
        next => exact n
        next => exact n.set found ..
    | restore id callback =>
      simp only [Timers.use, step, Timers.restore, Agenda.use]
      split
      next => exact n
      next e found =>
        split
        next => exact n.erase ..
        next =>
          split
          next => exact n
          next => exact n.set found ..

end Numbered

/-- One use: the answers are the same, and so are the live timers after it. -/
theorem Mirrors.use (m : Mirrors t a) (n : t.Numbered a.made) (u : Use α)
    (room : u.isSchedule = true -> a.made + 1 < UInt32.size) (present : ∀ now, u = .move (.takeDue now) -> t.Present) :
    t.reply u = a.reply u ∧ Mirrors (t.use u) (a.use u) := by
  suffices both : t.reply u = a.reply u ∧ (a.use u).pending = (t.use u).pending from
    ⟨both.1, use_kept m.kept u present, both.2⟩
  cases u with
  | drain => exact m.drain
  | move mv =>
    cases mv with
    | schedule now callback delay repeating =>
      obtain ⟨next, free⟩ := n.free (room rfl)
      exact m.schedule now callback delay repeating next free
    | cancel id => exact m.cancel id
    | takeDue now => exact m.takeDue (present now rfl) now
    | restore id callback => exact m.restore id callback
    | nextDeadline => exact m.nextDeadline

/-- The callback of a repeating timer is given back before the next timer is asked for. -/
def Prompt (uses : List (Use α)) : Prop :=
  ∀ i k at_ now id callback, i < k -> uses[i]? = some (.move (.takeDue at_)) ->
    ((held (uses.take i)).takeDue at_).1 = some (id, callback) -> (held (uses.take (i + 1))).get? id ≠ none ->
      uses[k]? = some (.move (.takeDue now)) -> ∃ j back, i < j ∧ j < k ∧ uses[j]? = some (.move (.restore id back))

theorem held_succ {uses : List (Use α)} {k : Nat} {u : Use α} (here : uses[k]? = some u) :
    held (uses.take (k + 1)) = (held (uses.take k)).use u := by
  simp [held, List.take_add_one, here]

theorem planned_succ {uses : List (Use α)} {k : Nat} {u : Use α} (here : uses[k]? = some u) :
    planned (uses.take (k + 1)) = (planned (uses.take k)).use u := by
  simp [planned, List.take_add_one, here]

theorem take_past {uses : List (Use α)} {k : Nat} (here : uses[k]? = none) : uses.take (k + 1) = uses.take k := by
  simp [List.take_add_one, here]

theorem held_sound (uses : List (Use α)) : (held uses).Sound := by
  suffices steps : ∀ t : Timers α, t.Sound -> (uses.foldl use t).Sound from steps empty empty_sound
  induction uses with
  | nil => exact fun _ s => s
  | cons u rest ih => exact fun t s => ih (t.use u) (use_sound s u)

/-- A callback is out since before, or it was just taken. -/
theorem use_out (s : t.Sound) (u : Use α) (live : (t.use u).Live id e) (out : e.callback = none) :
    ((∃ e', t.Live id e' ∧ e'.callback = none) ∧ ∀ back, u ≠ .move (.restore id back)) ∨
      ∃ now callback, u = .move (.takeDue now) ∧ (t.takeDue now).1 = some (id, callback) := by
  obtain ⟨found, alive⟩ := live
  -- Other timers are as they were.
  have kept {j : TimerId} {f : Timer α} (there : (t.entries.set j f).get? id = some e) (given : f.cancelled = false -> f.callback ≠ none) :
      t.Live id e ∧ j ≠ id := by
    rw [Table.get?_set] at there
    split at there
    next =>
      obtain rfl := Option.some.inj there
      exact absurd out (given alive)
    next other => exact ⟨⟨there, alive⟩, other⟩
  cases u with
  | drain => simp [use, drain] at found
  | move m =>
    cases m with
    | schedule now callback delay repeating =>
      exact .inl ⟨⟨e, (kept found (by simp)).1, out⟩, by simp⟩
    | nextDeadline => exact .inl ⟨⟨e, (prune_trimmed t).live_iff.1 ⟨found, alive⟩, out⟩, by simp⟩
    | cancel j =>
      refine .inl ⟨⟨e, ?_, out⟩, by simp⟩
      simp only [use, step, cancel] at found
      split at found
      next => exact ⟨found, alive⟩
      next f _ =>
        split at found
        next => exact ⟨found, alive⟩
        next => exact (kept found (by simp)).1
    | restore j callback =>
      suffices here : t.Live id e ∧ j ≠ id from .inl ⟨⟨e, here.1, out⟩, by simpa using here.2⟩
      simp only [use, step, restore] at found
      split at found
      next absent =>
        refine ⟨⟨found, alive⟩, ?_⟩
        rintro rfl
        simp [absent] at found
      next f there =>
        split at found
        next gone =>
          rw [Table.get?_erase] at found
          split at found
          next => cases found
          next other => exact ⟨⟨found, alive⟩, other⟩
        next =>
          split at found
          next has =>
            refine ⟨⟨found, alive⟩, ?_⟩
            rintro rfl
            obtain rfl := Option.some.inj (there.symm.trans found)
            simp [out] at has
          next => exact kept found (by simp)
    | takeDue now =>
      have before {f : Timer α} (there : t.prune.Live id f) (given : f.callback = none) :
          (∃ e', t.Live id e' ∧ e'.callback = none) ∧ ∀ back, (Use.move (.takeDue now) : Use α) ≠ .move (.restore id back) :=
        ⟨⟨f, (prune_trimmed t).live_iff.1 there, given⟩, by simp⟩
      simp only [use, step] at found
      cases result : t.takeDue now with
      | mk answer next =>
        rw [result] at found
        cases result ▸ s.takeDue_taken now with
        | nothing => exact .inl (before ⟨found, alive⟩ out)
        | once j f rest callback queue there =>
          rw [Table.get?_erase] at found
          split at found
          next => cases found
          next => exact .inl (before ⟨found, alive⟩ out)
        | again j f rest callback period queue there =>
          rw [Table.get?_set] at found
          split at found
          next same => exact .inr ⟨now, callback, rfl, by rw [result, same]⟩
          next => exact .inl (before ⟨found, alive⟩ out)
        | missed j f rest period queue there due periodic gone =>
          rw [Table.get?_set] at found
          split at found
          next same => exact .inl (before (same ▸ there) gone)
          next => exact .inl (before ⟨found, alive⟩ out)

/-- A callback that is out was taken and not given back since. -/
theorem held_out {uses : List (Use α)} {k : Nat} (live : (held (uses.take k)).Live id e) (out : e.callback = none) :
    ∃ i at_ callback, i < k ∧ uses[i]? = some (.move (.takeDue at_)) ∧
      ((held (uses.take i)).takeDue at_).1 = some (id, callback) ∧ (held (uses.take (i + 1))).get? id ≠ none ∧
        ∀ j back, i < j -> j < k -> uses[j]? ≠ some (.move (.restore id back)) := by
  induction k generalizing e with
  | zero => simp [held, empty, Live] at live
  | succ k ih =>
    cases here : uses[k]? with
    | none =>
      rw [take_past here] at live
      obtain ⟨i, at_, callback, earlier, rest⟩ := ih live out
      obtain ⟨asked, taken, left, unreturned⟩ := rest
      refine ⟨i, at_, callback, by omega, asked, taken, left, fun j back after before => ?_⟩
      rcases Nat.lt_succ_iff_lt_or_eq.1 before with before | rfl
      next => exact unreturned j back after before
      next => simp [here]
    | some u =>
      have later := live
      rw [held_succ here] at later
      rcases use_out (held_sound _) u later out with ⟨⟨e', before, out'⟩, other⟩ | ⟨now, callback, rfl, taken⟩
      next =>
        obtain ⟨i, at_, callback, earlier, asked, taken, left, unreturned⟩ := ih before out'
        refine ⟨i, at_, callback, by omega, asked, taken, left, fun j back after before => ?_⟩
        rcases Nat.lt_succ_iff_lt_or_eq.1 before with before | rfl
        next => exact unreturned j back after before
        next => simpa [here] using other back
      next =>
        refine ⟨k, now, callback, by omega, here, taken, ?_, fun j back after before => by omega⟩
        simp [get?, live.1]

theorem Prompt.present {uses : List (Use α)} (prompt : Prompt uses) {k now : Nat}
    (asked : uses[k]? = some (.move (.takeDue now))) : (held (uses.take k)).Present := by
  intro id e live out
  obtain ⟨i, at_, callback, earlier, before, taken, left, unreturned⟩ := held_out live out
  obtain ⟨j, back, after, inside, returned⟩ := prompt i k at_ now id callback earlier before taken left asked
  exact unreturned j back after inside returned

theorem held_kept {uses : List (Use α)} (prompt : Prompt uses) (k : Nat) : (held (uses.take k)).Kept := by
  induction k with
  | zero => exact empty_kept
  | succ k ih =>
    cases here : uses[k]? with
    | none => exact (take_past here).symm ▸ ih
    | some u => exact held_succ here ▸ use_kept ih u fun now same => prompt.present (same ▸ here)

theorem planned_made {uses : List (Use α)} {k : Nat} : (planned (uses.take k)).made = (uses.take k).countP Use.isSchedule := by
  induction k with
  | zero => rfl
  | succ k ih =>
    cases here : uses[k]? with
    | none => rw [take_past here, ih]
    | some u =>
      rw [planned_succ here, List.take_add_one, here, Option.toList_some, List.countP_append, List.countP_singleton, ← ih]
      cases u with
      | drain => rfl
      | move m =>
        cases m with
        | takeDue now =>
          simp only [Agenda.use]
          split
          next => rfl
          next => split <;> rfl
        | _ => rfl

theorem room_of_few {uses : List (Use α)} (few : uses.countP Use.isSchedule < UInt32.size) {k : Nat} {u : Use α}
    (here : uses[k]? = some u) (schedules : u.isSchedule = true) : (planned (uses.take k)).made + 1 < UInt32.size := by
  have count : (planned (uses.take k)).made + 1 = (uses.take (k + 1)).countP Use.isSchedule := by
    simp [planned_made, List.take_add_one, here, schedules]
  exact count ▸ Nat.lt_of_le_of_lt ((List.take_sublist _ _).countP_le) few

theorem held_mirrors {uses : List (Use α)} (prompt : Prompt uses) (few : uses.countP Use.isSchedule < UInt32.size) (k : Nat) :
    Mirrors (held (uses.take k)) (planned (uses.take k)) ∧
      (held (uses.take k)).Numbered (planned (uses.take k)).made := by
  induction k with
  | zero => exact ⟨⟨empty_kept, rfl⟩, .empty⟩
  | succ k ih =>
    cases here : uses[k]? with
    | none => exact (take_past here).symm ▸ ih
    | some u =>
      rw [held_succ here, planned_succ here]
      have room := room_of_few few here
      exact ⟨(ih.1.use ih.2 u room fun now same => prompt.present (same ▸ here)).2,
        ih.2.use (held_sound _) u room⟩

/-- No timer has the id any more, and none will. -/
def Gone (a : Agenda α) (id : TimerId) : Prop :=
  id.toNat ≤ a.made ∧ ∀ x ∈ a.pending, x.id ≠ id

theorem Gone.use (g : Gone a id) (u : Use α) (room : u.isSchedule = true -> a.made + 1 < UInt32.size) :
    Gone (a.use u) id := by
  obtain ⟨old, absent⟩ := g
  cases u with
  | drain => exact ⟨old, by simp [Agenda.use]⟩
  | move m =>
    cases m with
    | schedule now callback delay repeating =>
      refine ⟨Nat.le_succ_of_le old, fun x member => ?_⟩
      rcases List.mem_cons.1 ((place_perm _ _).mem_iff.1 member) with rfl | member
      next =>
        rintro rfl
        simp only [UInt32.toNat_ofNat', Nat.mod_eq_of_lt (room rfl)] at old
        omega
      next => exact absent x member
    | cancel j => exact ⟨old, fun x member => absent x (List.mem_of_mem_filter member)⟩
    | nextDeadline => exact ⟨old, absent⟩
    | restore j back =>
      refine ⟨old, fun x member => ?_⟩
      obtain ⟨y, inside, rfl⟩ := List.mem_map.1 member
      split <;> exact absent y inside
    | takeDue now =>
      simp only [Agenda.use]
      split
      next => exact ⟨old, absent⟩
      next x rest listed =>
        split
        next =>
          refine ⟨old, fun y member => ?_⟩
          obtain ⟨z, inside, same⟩ := mem_again member
          exact same ▸ absent z (listed ▸ inside)
        next => exact ⟨old, absent⟩

/-- What is cancelled is not taken again. -/
theorem cancelled_untaken {uses : List (Use α)} (prompt : Prompt uses) (few : uses.countP Use.isSchedule < UInt32.size)
    {i k now : Nat} {callback : Option α} (order : i < k) (asked : uses[i]? = some (.move (.cancel id)))
    (cancelled : ((held (uses.take i)).cancel id).1 = some callback) (late : uses[k]? = some (.move (.takeDue now))) (back : α) :
    ((held (uses.take k)).takeDue now).1 ≠ some (id, back) := by
  have mirrored := held_mirrors prompt few
  have start : Gone (planned (uses.take (i + 1))) id := by
    obtain ⟨m, n⟩ := mirrored i
    rw [planned_succ asked]
    refine ⟨?_, fun x member => by simpa using (List.mem_filter.1 member).2⟩
    cases found : (held (uses.take i)).entries.get? id with
    | none => simp [cancel, found] at cancelled
    | some e => exact n.known id e found
  have still : ∀ n, Gone (planned (uses.take (i + 1 + n))) id := by
    intro n
    induction n with
    | zero => exact start
    | succ n ih =>
      rw [← Nat.add_assoc]
      cases here : uses[i + 1 + n]? with
      | none => exact (take_past here).symm ▸ ih
      | some u => exact planned_succ here ▸ ih.use u (room_of_few few here)
  intro taken
  obtain ⟨n, rfl⟩ := Nat.exists_eq_add_of_le (show i + 1 ≤ k from order)
  have answer := ((mirrored (i + 1 + n)).1.takeDue (prompt.present late) now).1
  simp only [Timers.reply, Agenda.reply, taken, Reply.taken.injEq] at answer
  obtain ⟨x, first, here⟩ := Option.bind_eq_some_iff.1 answer.symm
  have same : x.id = id := by
    split at here
    next =>
      obtain ⟨c, -, equal⟩ := Option.map_eq_some_iff.1 here
      exact congrArg Prod.fst equal
    next => cases here
  exact (still n).2 x (List.mem_of_head? first) same

structure Orderly (uses : List (Use α)) : Prop where
  replies : ∀ k u, uses[k]? = some u -> (held (uses.take k)).reply u = (planned (uses.take k)).reply u
  live : ∀ k x, x ∈ (planned (uses.take k)).pending ↔
    ∃ e, (held (uses.take k)).Live x.id e ∧ x = ⟨x.id, e.due, e.period, e.callback⟩
  -- By time, then by sequence number.
  ordered : ∀ k, (planned (uses.take k)).pending.Pairwise fun x y => ∃ e f,
    (held (uses.take k)).Live x.id e ∧ (held (uses.take k)).Live y.id f ∧ (e.place x.id).before (f.place y.id)
  size : ∀ k, (held (uses.take k)).size = (planned (uses.take k)).pending.length
  -- Whoever asks for a timer that is due gets it.
  present : ∀ k now, uses[k]? = some (.move (.takeDue now)) -> ∀ x ∈ (planned (uses.take k)).pending, x.callback ≠ none
  cancelled : ∀ i k id callback now back, i < k -> uses[i]? = some (.move (.cancel id)) ->
    ((held (uses.take i)).cancel id).1 = some callback -> uses[k]? = some (.move (.takeDue now)) ->
      ((held (uses.take k)).takeDue now).1 ≠ some (id, back)

/-- Two timers are due at once; one is cancelled while the callback of the other is out. -/
def errands : List (Use Unit) :=
  [.move (.schedule 0 () 1000 true), .move (.schedule 0 () 1000 false), .move (.takeDue 1000), .move (.cancel 2),
    .move (.restore 1 ()), .move (.takeDue 2000), .move .nextDeadline]

end Timers

end ScriptHost
