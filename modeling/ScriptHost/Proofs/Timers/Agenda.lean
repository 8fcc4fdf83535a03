import Mathlib.Data.List.Sort
import Mathlib.Data.Multiset.Basic
import ScriptHost.Proofs.Timers.Punctual

set_option autoImplicit false

/-!
Timers as a list.

An agenda lists the live timers, earliest first, and those due at the same instant in the order in which
they were put there. A registry keeps more than that: what was cancelled or put off leaves stale elements in
its queue. As long as the callback of every timer is back when the next timer is asked for, a registry answers
as its agenda does.
-/

namespace ScriptHost

theorem Due.before_iff {a b : Due} : a.before b ↔ a.time < b.time ∨ a.time = b.time ∧ a.seq < b.seq := by
  simp only [Due.before, Bool.or_eq_true, Bool.and_eq_true, decide_eq_true_eq, beq_iff_eq]

structure Appointment (α : Type) where
  id : TimerId
  due : Nat
  period : Option Nat
  -- Absent while the callback is out.
  callback : Option α

structure Agenda (α : Type) where
  -- Earliest first.
  pending : List (Appointment α)
  -- How many timers were ever scheduled.
  made : Nat

namespace Timers

inductive Use (α : Type) where
  | move (m : Move α)
  | drain

/-- Whether it takes an id. -/
def Use.isSchedule {α : Type} : Use α -> Bool
  | .move (.schedule ..) => true
  | _ => false

inductive Reply (α : Type) where
  | id (id : TimerId)
  | cancelled (callback : Option (Option α))
  | taken (due : Option (TimerId × α))
  | back (callback : Option α)
  | deadline (time : Option Nat)
  -- In no order.
  | drained (callbacks : Multiset α)

variable {α : Type}

def reply (t : Timers α) : Use α -> Reply α
  | .move (.schedule now callback delay repeating) => .id (t.schedule now callback delay repeating).1
  | .move (.cancel id) => .cancelled (t.cancel id).1
  | .move (.takeDue now) => .taken (t.takeDue now).1
  | .move (.restore id callback) => .back (t.restore id callback).1
  | .move .nextDeadline => .deadline t.nextDeadline.1
  | .drain => .drained t.drain.1

def use (t : Timers α) : Use α -> Timers α
  | .move m => t.step m
  | .drain => t.drain.2

def held (uses : List (Use α)) : Timers α :=
  uses.foldl use empty

end Timers

namespace Agenda

open Timers

variable {α : Type} {a : Agenda α} {x y : Appointment α} {id : TimerId}

def empty : Agenda α :=
  ⟨[], 0⟩

/-- Goes behind all that is due no later. -/
def place (x : Appointment α) (rest : List (Appointment α)) : List (Appointment α) :=
  rest.orderedInsert (fun x y => x.due < y.due) x

def find? (a : Agenda α) (id : TimerId) : Option (Appointment α) :=
  a.pending.find? fun x => x.id == id

/-- Where a timer goes when it fires. -/
def again (x : Appointment α) (now : Nat) (rest : List (Appointment α)) : List (Appointment α) :=
  match x.period with
  | none => rest
  | some period => place { x with due := now + period, callback := none } rest

def reply (a : Agenda α) : Use α -> Timers.Reply α
  | .move (.schedule ..) => .id (UInt32.ofNat (a.made + 1))
  | .move (.cancel id) => .cancelled ((a.find? id).map Appointment.callback)
  | .move (.takeDue now) =>
      .taken (a.pending.head?.bind fun x => if x.due ≤ now then x.callback.map fun callback => (x.id, callback) else none)
  | .move (.restore id callback) =>
      .back (if (a.find? id).any fun x => x.callback.isNone then none else some callback)
  | .move .nextDeadline => .deadline (a.pending.head?.map Appointment.due)
  | .drain => .drained (a.pending.filterMap Appointment.callback)

def use (a : Agenda α) : Use α -> Agenda α
  | .move (.schedule now callback delay repeating) =>
      let period := if repeating then some (max delay minPeriod) else none
      ⟨place ⟨UInt32.ofNat (a.made + 1), now + delay, period, some callback⟩ a.pending, a.made + 1⟩
  | .move (.cancel id) => { a with pending := a.pending.filter fun x => x.id != id }
  | .move (.takeDue now) =>
      match a.pending with
      | [] => a
      | x :: rest => if x.due ≤ now then { a with pending := again x now rest } else a
  | .move (.restore id callback) =>
      { a with pending := a.pending.map fun x => if x.id = id then { x with callback := x.callback.or (some callback) } else x }
  | .move .nextDeadline => a
  | .drain => { a with pending := [] }

def planned (uses : List (Use α)) : Agenda α :=
  uses.foldl use empty

/-- No callback is out. -/
def Complete (a : Agenda α) : Prop :=
  ∀ x ∈ a.pending, x.callback ≠ none

theorem place_perm (x : Appointment α) (rest : List (Appointment α)) : (place x rest).Perm (x :: rest) :=
  List.perm_orderedInsert _ x rest

theorem place_behind {rest : List (Appointment α)} (earlier : y.due ≤ x.due) : place x (y :: rest) = y :: place x rest := by
  simp only [place, List.orderedInsert, Nat.not_lt.2 earlier, if_false]

theorem place_first {rest : List (Appointment α)} (earlier : ∀ y ∈ rest, x.due < y.due) : place x rest = x :: rest := by
  cases rest with
  | nil => rfl
  | cons y rest => simp only [place, List.orderedInsert, earlier y List.mem_cons_self, if_true]

theorem mem_again {now : Nat} {rest : List (Appointment α)} (member : y ∈ again x now rest) :
    ∃ z ∈ x :: rest, z.id = y.id := by
  cases period : x.period with
  | none =>
    simp only [again, period] at member
    exact ⟨y, List.mem_cons_of_mem x member, rfl⟩
  | some period' =>
    simp only [again, period] at member
    rcases List.mem_cons.1 ((place_perm _ rest).mem_iff.1 member) with rfl | member
    next => exact ⟨x, List.mem_cons_self, rfl⟩
    next => exact ⟨y, List.mem_cons_of_mem x member, rfl⟩

end Agenda

namespace Timers

open Agenda

variable {α : Type} {t : Timers α} {id : TimerId} {e : Timer α}

/-- What a place in the queue stands for, if it is current. -/
def current (entries : Table TimerId (Timer α)) (d : Due) : Option (Appointment α) :=
  (entries.get? d.id).bind fun e =>
    if e.seq = d.seq ∧ e.cancelled = false then some ⟨d.id, e.due, e.period, e.callback⟩ else none

def pending (t : Timers α) : List (Appointment α) :=
  t.queue.filterMap (current t.entries)

theorem current_eq_some {entries : Table TimerId (Timer α)} {d : Due} {x : Appointment α} :
    current entries d = some x ↔
      ∃ e, entries.get? d.id = some e ∧ e.seq = d.seq ∧ e.cancelled = false ∧ ⟨d.id, e.due, e.period, e.callback⟩ = x := by
  simp only [current, Option.bind_eq_some_iff, Option.ite_none_right_eq_some, Option.some.injEq, and_assoc]

theorem current_id {entries : Table TimerId (Timer α)} {d : Due} {x : Appointment α} (here : current entries d = some x) :
    x.id = d.id := by
  obtain ⟨e, -, -, -, rfl⟩ := current_eq_some.1 here
  rfl

theorem current_live (live : t.Live id e) : current t.entries (e.place id) = some ⟨id, e.due, e.period, e.callback⟩ :=
  current_eq_some.2 ⟨e, live.1, rfl, live.2, rfl⟩

theorem mem_pending (p : t.Placed) {x : Appointment α} :
    x ∈ t.pending ↔ ∃ e, t.Live x.id e ∧ x = ⟨x.id, e.due, e.period, e.callback⟩ := by
  constructor
  next =>
    intro member
    obtain ⟨d, -, here⟩ := List.mem_filterMap.1 member
    obtain ⟨e, found, -, alive, rfl⟩ := current_eq_some.1 here
    exact ⟨e, ⟨found, alive⟩, rfl⟩
  next =>
    rintro ⟨e, live, same⟩
    exact List.mem_filterMap.2 ⟨e.place x.id, p x.id e live, (current_live live).trans (congrArg some same.symm)⟩

/-- Changes of entries that do not show in the queue do not show in the list. -/
theorem filterMap_current_congr {entries entries' : Table TimerId (Timer α)} {queue : List Due}
    (same : ∀ d ∈ queue, current entries' d = current entries d) :
    queue.filterMap (current entries') = queue.filterMap (current entries) :=
  List.filterMap_congr same

theorem Sound.current_dated (s : t.Sound) {d : Due} {x : Appointment α} (queued : d ∈ t.queue)
    (here : current t.entries d = some x) : x.due = d.time := by
  obtain ⟨e, found, same, -, rfl⟩ := current_eq_some.1 here
  exact (s.dated d queued e found same.symm).symm

theorem Sound.pending_ordered (s : t.Sound) : t.pending.Pairwise fun x y => ∃ e f,
    t.Live x.id e ∧ t.Live y.id f ∧ (e.place x.id).before (f.place y.id) := by
  refine List.pairwise_filterMap.2 (s.sorted.imp_of_mem ?_)
  intro a b inA inB before x hereA y hereB
  obtain ⟨e, found, same, alive, rfl⟩ := current_eq_some.1 hereA
  obtain ⟨f, found', same', alive', rfl⟩ := current_eq_some.1 hereB
  have placeA : e.place a.id = a := by
    simp [Timer.place, ← s.dated a inA e found same.symm, same]
  have placeB : f.place b.id = b := by
    simp [Timer.place, ← s.dated b inB f found' same'.symm, same']
  exact ⟨e, f, ⟨found, alive⟩, ⟨found', alive'⟩, by rw [placeA, placeB]; exact before⟩

theorem Sound.pending_nodup (s : t.Sound) : (t.pending.map Appointment.id).Nodup := by
  rw [List.Nodup, List.pairwise_map, pending, List.pairwise_filterMap]
  refine (List.pairwise_map.1 s.distinct).imp ?_
  intro a b apart x hereA y hereB same
  obtain ⟨e, found, seqA, -, rfl⟩ := current_eq_some.1 hereA
  obtain ⟨e', found', seqB, -, rfl⟩ := current_eq_some.1 hereB
  have same : a.id = b.id := same
  rw [same] at found
  obtain rfl := Option.some.inj (found.symm.trans found')
  exact apart (seqA.symm.trans seqB)

/-- A new place goes into the queue where its appointment goes into the list. -/
theorem filterMap_enqueue {entries : Table TimerId (Timer α)} {queue : List Due} {d : Due} {x : Appointment α}
    (sorted : queue.Pairwise fun a b => a.before b) (last : ∀ a ∈ queue, a.seq < d.seq)
    (dated : ∀ a ∈ queue, ∀ y, current entries a = some y -> y.due = a.time) (here : current entries d = some x)
    (due : x.due = d.time) :
    (enqueue d queue).filterMap (current entries) = place x (queue.filterMap (current entries)) := by
  induction queue with
  | nil => simp [enqueue, here, place]
  | cons a rest ih =>
    obtain ⟨front, later⟩ := List.pairwise_cons.1 sorted
    have order := last a List.mem_cons_self
    by_cases sooner : d.before a
    next =>
      have earlier : ∀ y ∈ (a :: rest).filterMap (current entries), x.due < y.due := by
        intro y member
        obtain ⟨b, inside, found⟩ := List.mem_filterMap.1 member
        have before : d.before b := by
          rcases List.mem_cons.1 inside with rfl | inside
          next => exact sooner
          next => exact before_trans sooner (front b inside)
        have order := last b inside
        rw [dated b inside y found, due]
        have := Due.before_iff.1 before
        omega
      simp only [enqueue, sooner, if_true]
      rw [List.filterMap_cons_some here, place_first earlier]
    next =>
      have next := ih later (fun b member => last b (List.mem_cons_of_mem a member))
        fun b member => dated b (List.mem_cons_of_mem a member)
      simp only [enqueue, sooner, Bool.false_eq_true, if_false, List.filterMap_cons, next]
      cases found : current entries a with
      | none => rfl
      | some y =>
        have behind : y.due ≤ x.due := by
          rw [dated a List.mem_cons_self y found, due]
          have := mt Due.before_iff.2 sooner
          omega
        exact (place_behind behind).symm

theorem current_set (entries : Table TimerId (Timer α)) (id : TimerId) (e : Timer α) (d : Due) :
    current (entries.set id e) d =
      if d.id = id then
        if e.seq = d.seq ∧ e.cancelled = false then some ⟨id, e.due, e.period, e.callback⟩ else none
      else current entries d := by
  by_cases same : d.id = id
  next => simp [current, same]
  next => simp [current, same, Ne.symm same]

theorem current_erase (entries : Table TimerId (Timer α)) (id : TimerId) (d : Due) :
    current (entries.erase id) d = if d.id = id then none else current entries d := by
  by_cases same : d.id = id
  next => simp [current, same]
  next => simp [current, same, Ne.symm same]

theorem pending_change (found : t.Live id e) (e' : Timer α) (seq : e'.seq = e.seq) (alive : e'.cancelled = false) :
    Timers.pending { t with entries := t.entries.set id e' } =
      t.pending.map fun x => if x.id = id then ⟨id, e'.due, e'.period, e'.callback⟩ else x := by
  simp only [Timers.pending, List.map_filterMap]
  refine List.filterMap_congr fun d _ => ?_
  rw [current_set]
  by_cases same : d.id = id
  next =>
    subst same
    by_cases here : e.seq = d.seq
    next => simp [current, found.1, found.2, here, seq, alive]
    next => simp [current, found.1, here, seq]
  next =>
    rw [if_neg same]
    cases here : current t.entries d with
    | none => rfl
    | some x => simp [current_id here, same]

theorem pending_remove {e' : Timer α} (gone : e'.cancelled = true) :
    Timers.pending { t with entries := t.entries.set id e' } = t.pending.filter fun x => x.id != id := by
  simp only [Timers.pending, List.filter_filterMap]
  refine List.filterMap_congr fun d _ => ?_
  rw [current_set]
  cases here : current t.entries d with
  | none => simp [gone]
  | some x =>
    by_cases same : d.id = id
    next => simp [gone, current_id here, same, Option.filter]
    next => simp [current_id here, same, Option.filter]

theorem pending_erase {queue : List Due} (stale : ∀ d ∈ queue, d.id = id -> current t.entries d = none) :
    queue.filterMap (current (t.entries.erase id)) = queue.filterMap (current t.entries) := by
  refine List.filterMap_congr fun d queued => ?_
  rw [current_erase]
  by_cases same : d.id = id
  next => rw [if_pos same, stale d queued same]
  next => rw [if_neg same]

/-- A timer that takes the next number goes into the list where it goes into the queue. -/
theorem pending_renew (s : t.Sound) (id : TimerId) (e : Timer α) (stale : ∀ d ∈ t.queue, d.id = id -> current t.entries d = none)
    (last : e.seq = t.nextSeq) (alive : e.cancelled = false) :
    (enqueue (e.place id) t.queue).filterMap (current (t.entries.set id e)) =
      place ⟨id, e.due, e.period, e.callback⟩ t.pending := by
  have others : ∀ d ∈ t.queue, current (t.entries.set id e) d = current t.entries d := by
    intro d queued
    by_cases same : id = d.id
    next =>
      have older : e.seq ≠ d.seq := last ▸ Nat.ne_of_gt (s.fresh d queued)
      rw [stale d queued same.symm]
      simp [current, same, older]
    next => simp [current, same]
  have dated : ∀ d ∈ t.queue, ∀ x, current (t.entries.set id e) d = some x -> x.due = d.time :=
    fun d queued x found => s.current_dated queued (others d queued ▸ found)
  have here : current (t.entries.set id e) (e.place id) = some ⟨id, e.due, e.period, e.callback⟩ := by
    simp [current, Timer.place, alive]
  have placed := filterMap_enqueue s.sorted (fun d queued => (last ▸ s.fresh d queued : d.seq < e.seq)) dated here rfl
  rw [filterMap_current_congr others] at placed
  exact placed

/-- The other places of the first timer in the queue are stale. -/
theorem stale_rest (s : t.Sound) {rest : List Due} (queue : t.queue = e.place id :: rest) (live : t.Live id e) :
    ∀ d ∈ rest, d.id = id -> current t.entries d = none := by
  rintro d member rfl
  by_contra here
  obtain ⟨x, here⟩ := Option.ne_none_iff_exists.1 here
  obtain ⟨e', found, same, -, -⟩ := current_eq_some.1 here.symm
  obtain rfl := Option.some.inj (found.symm.trans live.1)
  have apart := (List.nodup_cons.1 (queue ▸ s.distinct :)).1
  exact apart (List.mem_map.2 ⟨d, member, same.symm⟩)

theorem pending_cons {rest : List Due} (queue : t.queue = e.place id :: rest) (live : t.Live id e) :
    t.pending = ⟨id, e.due, e.period, e.callback⟩ :: rest.filterMap (current t.entries) := by
  rw [Timers.pending, queue, List.filterMap_cons_some (current_live live)]

theorem pending_prune (s : t.Sound) : t.prune.pending = t.pending := by
  have trimmed := prune_trimmed t
  obtain ⟨dropped, split⟩ := trimmed.suffix
  -- Only stale places go, and only timers that were cancelled.
  have gone : dropped.filterMap (current t.entries) = [] := by
    refine List.filterMap_eq_nil_iff.2 fun d member => ?_
    by_contra here
    obtain ⟨x, here⟩ := Option.ne_none_iff_exists.1 here
    obtain ⟨e, found, same, alive, -⟩ := current_eq_some.1 here.symm
    have queued : d ∈ t.queue := split ▸ List.mem_append_left _ member
    have kept := trimmed.current d queued e ⟨found, alive⟩ same
    have apart := (List.nodup_append.1 (split ▸ List.Nodup.of_map Due.seq s.distinct)).2.2
    exact apart d member d kept rfl
  have same : ∀ d ∈ t.prune.queue, current t.prune.entries d = current t.entries d := by
    intro d _
    refine Option.ext fun x => ?_
    simp only [current_eq_some]
    constructor
    next =>
      rintro ⟨e, found, rest⟩
      exact ⟨e, trimmed.entries d.id e found, rest⟩
    next =>
      rintro ⟨e, found, same, alive, equal⟩
      exact ⟨e, trimmed.live d.id e ⟨found, alive⟩, same, alive, equal⟩
  rw [Timers.pending, Timers.pending, filterMap_current_congr same, ← split, List.filterMap_append, gone, List.nil_append]

/-- The live timers, in the order of their entries. -/
def live (t : Timers α) : List (Appointment α) :=
  t.entries.entries.filterMap fun entry =>
    if entry.2.cancelled then none else some ⟨entry.1, entry.2.due, entry.2.period, entry.2.callback⟩

theorem mem_live {x : Appointment α} :
    x ∈ t.live ↔ ∃ e, t.Live x.id e ∧ x = ⟨x.id, e.due, e.period, e.callback⟩ := by
  constructor
  next =>
    intro member
    obtain ⟨⟨id, e⟩, inside, kept⟩ := List.mem_filterMap.1 member
    obtain ⟨alive, same⟩ := Option.ite_none_left_eq_some.1 kept
    obtain rfl := Option.some.inj same
    exact ⟨e, ⟨Table.find_of_mem t.entries.nodup inside, by simpa using alive⟩, rfl⟩
  next =>
    rintro ⟨e, ⟨found, alive⟩, same⟩
    refine List.mem_filterMap.2 ⟨(x.id, e), Table.mem_of_find found, ?_⟩
    simp only [alive, Bool.false_eq_true, if_false]
    exact congrArg some same.symm

theorem live_nodup (t : Timers α) : t.live.Nodup := by
  rw [List.Nodup, live, List.pairwise_filterMap]
  refine (List.pairwise_map.1 t.entries.nodup).imp fun apart x hereA y hereB same => ?_
  obtain ⟨-, first⟩ := Option.ite_none_left_eq_some.1 hereA
  obtain ⟨-, second⟩ := Option.ite_none_left_eq_some.1 hereB
  exact apart (congrArg Appointment.id (Option.some.inj (first.trans ((congrArg some same).trans second.symm))))

theorem Sound.live_perm (s : t.Sound) (p : t.Placed) : t.live.Perm t.pending :=
  (List.perm_ext_iff_of_nodup t.live_nodup (List.Nodup.of_map Appointment.id s.pending_nodup)).2 fun _ =>
    mem_live.trans (mem_pending p).symm

theorem size_eq (t : Timers α) : t.size = t.live.length := by
  rw [size, Table.values, List.countP_map, live, List.length_filterMap_eq_countP]
  refine List.countP_congr fun entry _ => ?_
  cases gone : entry.2.cancelled <;> simp [gone]

end Timers

end ScriptHost
