import Mathlib.Data.List.Nodup
import ScriptHost.Timers

set_option autoImplicit false

/-!
Timers and their places in the queue.

`Sound` holds of every registry that its own operations make. `Placed` says that each live timer also stands
in the queue, and taking a due timer gives that up in one case: when the earliest live timer is due, but its
callback is still out.
-/

namespace ScriptHost

def Timer.place {α : Type} (e : Timer α) (id : TimerId) : Due :=
  ⟨e.due, e.seq, id⟩

namespace Timers

variable {α : Type} {t : Timers α} {id : TimerId} {e : Timer α}

def Live (t : Timers α) (id : TimerId) (e : Timer α) : Prop :=
  t.entries.get? id = some e ∧ e.cancelled = false

/-- The live timer that comes before all others. -/
def First (t : Timers α) (id : TimerId) (e : Timer α) : Prop :=
  t.Live id e ∧ ∀ id' e', t.Live id' e' -> id' = id ∨ (e.place id).before (e'.place id')

def Misses (t : Timers α) (now : Nat) : Prop :=
  ∃ id e, t.First id e ∧ e.due ≤ now ∧ e.callback = none

/-- The current elements of a timer in the queue. -/
def places (t : Timers α) (id : TimerId) (seq : Nat) : List Due :=
  t.queue.filter fun d => d.id == id && d.seq == seq

def Placed (t : Timers α) : Prop :=
  ∀ id e, t.Live id e -> e.place id ∈ t.queue

structure Sound (t : Timers α) : Prop where
  sorted : t.queue.Pairwise fun a b => a.before b
  distinct : (t.queue.map Due.seq).Nodup
  fresh : ∀ d ∈ t.queue, d.seq < t.nextSeq
  numbered : ∀ id e, t.entries.get? id = some e -> e.seq < t.nextSeq
  dated : ∀ d ∈ t.queue, ∀ e, t.entries.get? d.id = some e -> d.seq = e.seq -> d.time = e.due
  ready : ∀ id e, t.Live id e -> e.period = none -> e.callback ≠ none

theorem empty_sound : (empty : Timers α).Sound := by
  constructor <;> simp [empty, Live]

theorem before_irrefl (a : Due) : a.before a = false := by
  simp [Due.before]

theorem before_trans {a b c : Due} (first : a.before b) (second : b.before c) : a.before c := by
  simp only [Due.before, Bool.or_eq_true, Bool.and_eq_true, decide_eq_true_eq, beq_iff_eq] at *
  omega

theorem before_asymm {a b : Due} (first : a.before b) : b.before a = false := by
  by_contra other
  have loop := before_trans first (by simpa using other)
  simp [before_irrefl] at loop

theorem before_of_not_before {a b : Due} (other : a.seq ≠ b.seq) (h : a.before b = false) : b.before a := by
  simp only [Due.before, Bool.or_eq_true, Bool.or_eq_false_iff, Bool.and_eq_true, Bool.and_eq_false_iff,
    decide_eq_true_eq, decide_eq_false_iff_not, beq_iff_eq, beq_eq_false_iff_ne] at *
  omega

theorem enqueue_perm (d : Due) (queue : List Due) : (enqueue d queue).Perm (d :: queue) := by
  induction queue with
  | nil => simp [enqueue]
  | cons a rest ih =>
    by_cases sooner : d.before a
    next => simp [enqueue, sooner]
    next =>
      simp only [enqueue, sooner, Bool.false_eq_true, if_false]
      exact (ih.cons a).trans (List.Perm.swap d a rest)

theorem enqueue_sorted {d : Due} {queue : List Due} (sorted : queue.Pairwise fun a b => a.before b)
    (new : ∀ a ∈ queue, d.seq ≠ a.seq) : (enqueue d queue).Pairwise fun a b => a.before b := by
  induction queue with
  | nil => simp [enqueue]
  | cons a rest ih =>
    obtain ⟨front, later⟩ := List.pairwise_cons.1 sorted
    by_cases sooner : d.before a
    next =>
      have beforeAll : ∀ b ∈ a :: rest, d.before b := by
        intro b member
        rcases List.mem_cons.1 member with rfl | member
        next => exact sooner
        next => exact before_trans sooner (front b member)
      simp only [enqueue, sooner, if_true]
      exact List.pairwise_cons.2 ⟨beforeAll, sorted⟩
    next =>
      have here : a.before d := before_of_not_before (new a (by simp)) (by simpa using sooner)
      simp only [enqueue, sooner, Bool.false_eq_true, if_false]
      refine List.pairwise_cons.2 ⟨?_, ih later fun b member => new b (List.mem_cons_of_mem a member)⟩
      intro b member
      rcases List.mem_cons.1 ((enqueue_perm d rest).mem_iff.1 member) with rfl | member
      next => exact here
      next => exact front b member

theorem Sound.places_eq_iff (s : t.Sound) (found : t.entries.get? id = some e) :
    t.places id e.seq = [e.place id] ↔ e.place id ∈ t.queue := by
  constructor
  next =>
    intro only
    have member : e.place id ∈ t.places id e.seq := by simp [only]
    exact (List.mem_filter.1 member).1
  next =>
    intro member
    have nodup : (t.places id e.seq).Nodup := (List.Nodup.of_map Due.seq s.distinct).filter _
    have same : ∀ d, d ∈ t.places id e.seq ↔ d = e.place id := by
      intro d
      constructor
      next =>
        intro inside
        obtain ⟨queued, matching⟩ := List.mem_filter.1 inside
        simp only [Bool.and_eq_true, beq_iff_eq] at matching
        obtain ⟨rfl, here⟩ := matching
        have time := s.dated d queued e found here
        cases d
        simp_all [Timer.place]
      next =>
        rintro rfl
        simpa [places, Timer.place] using member
    have one : (t.places id e.seq).Perm [e.place id] :=
      (List.perm_ext_iff_of_nodup nodup (List.nodup_singleton (e.place id))).2 (by simpa using same)
    exact List.perm_singleton.1 one

/-- What pruning leaves of entries and queue. -/
structure Trimmed (t t' : Timers α) : Prop where
  nextSeq : t'.nextSeq = t.nextSeq
  suffix : t'.queue <:+ t.queue
  entries : ∀ id e, t'.entries.get? id = some e -> t.entries.get? id = some e
  live : ∀ id e, t.Live id e -> t'.entries.get? id = some e
  front : ∀ d rest, t'.queue = d :: rest -> ∃ e, t'.Live d.id e ∧ e.seq = d.seq
  current : ∀ d ∈ t.queue, ∀ e, t.Live d.id e -> e.seq = d.seq -> d ∈ t'.queue

theorem pruneQueue_trimmed (entries : Table TimerId (Timer α)) (queue : List Due) (lastId : TimerId)
    (nextSeq : Nat) :
    Trimmed ⟨entries, queue, lastId, nextSeq⟩
      ⟨(pruneQueue entries queue).1, (pruneQueue entries queue).2, lastId, nextSeq⟩ := by
  induction queue generalizing entries with
  | nil => constructor <;> simp +contextual [pruneQueue, Live]
  | cons d rest ih =>
    have skipped : (∀ e, entries.get? d.id = some e -> e.seq ≠ d.seq) ->
        Trimmed ⟨entries, d :: rest, lastId, nextSeq⟩
          ⟨(pruneQueue entries rest).1, (pruneQueue entries rest).2, lastId, nextSeq⟩ := by
      intro stale
      refine { ih entries with suffix := ?_, current := ?_ }
      next => exact (ih entries).suffix.trans (List.suffix_cons d rest)
      next =>
        intro a member e here same
        rcases List.mem_cons.1 member with rfl | member
        next => exact absurd same (stale e here.1)
        next => exact (ih entries).current a member e here same
    cases found : entries.get? d.id with
    | none => simpa only [pruneQueue, found] using skipped (by simp [found])
    | some e =>
      by_cases same : e.seq = d.seq
      next =>
        cases gone : e.cancelled with
        | false =>
          simp only [pruneQueue, found, same, if_true, gone, Bool.false_eq_true, if_false]
          constructor <;> simp +contextual [Live]
          exact ⟨e, ⟨found, gone⟩, same⟩
        | true =>
          have later := ih (entries.erase d.id)
          have others : ∀ id e', entries.get? id = some e' -> e'.cancelled = false -> d.id ≠ id := by
            rintro id e' here alive rfl
            simp_all
          simp only [pruneQueue, found, same, if_true, gone]
          refine ⟨rfl, later.suffix.trans (List.suffix_cons d rest), ?_, ?_, later.front, ?_⟩
          next =>
            intro id e' here
            have inside := later.entries id e' here
            simp only [Table.get?_erase] at inside
            split at inside
            next => simp at inside
            next => exact inside
          next =>
            intro id e' here
            exact later.live id e' ⟨by simpa [others id e' here.1 here.2] using here.1, here.2⟩
          next =>
            intro a member e' here same'
            have other := others a.id e' here.1 here.2
            rcases List.mem_cons.1 member with rfl | member
            next => exact absurd rfl other
            next => exact later.current a member e' ⟨by simpa [other] using here.1, here.2⟩ same'
      next =>
        simp only [pruneQueue, found, same, if_false]
        exact skipped (by simpa [found] using same)

theorem prune_trimmed (t : Timers α) : Trimmed t t.prune :=
  pruneQueue_trimmed t.entries t.queue t.lastId t.nextSeq

namespace Trimmed

variable {t' : Timers α}

theorem live_iff (h : Trimmed t t') : t'.Live id e ↔ t.Live id e :=
  ⟨fun here => ⟨h.entries id e here.1, here.2⟩, fun here => ⟨h.live id e here, here.2⟩⟩

theorem first_iff (h : Trimmed t t') : t'.First id e ↔ t.First id e := by
  simp only [First, h.live_iff]

theorem sound (h : Trimmed t t') (s : t.Sound) : t'.Sound where
  sorted := s.sorted.sublist h.suffix.sublist
  distinct := (h.suffix.sublist.map Due.seq).nodup s.distinct
  fresh d member := h.nextSeq ▸ s.fresh d (h.suffix.subset member)
  numbered id e here := h.nextSeq ▸ s.numbered id e (h.entries id e here)
  dated d member e here := s.dated d (h.suffix.subset member) e (h.entries d.id e here)
  ready id e here := s.ready id e (h.live_iff.1 here)

theorem placed (h : Trimmed t t') (p : t.Placed) : t'.Placed := by
  intro id e here
  have before := h.live_iff.1 here
  exact h.current (e.place id) (p id e before) e before rfl

end Trimmed

namespace Sound

theorem tail (s : t.Sound) {d : Due} {rest : List Due} (queue : t.queue = d :: rest) :
    Sound { t with queue := rest } where
  sorted := (List.pairwise_cons.1 (queue ▸ s.sorted)).2
  distinct := (List.nodup_cons.1 (queue ▸ s.distinct :)).2
  fresh a member := s.fresh a (by simp [queue, member])
  numbered := s.numbered
  dated a member := s.dated a (by simp [queue, member])
  ready := s.ready

theorem erase (s : t.Sound) (id : TimerId) : Sound { t with entries := t.entries.erase id } where
  sorted := s.sorted
  distinct := s.distinct
  fresh := s.fresh
  numbered j a here := by
    simp only [Table.get?_erase] at here
    split at here <;> simp_all [s.numbered j a]
  dated d member a here := by
    simp only [Table.get?_erase] at here
    split at here <;> simp_all [s.dated d member a]
  ready j a here := by
    obtain ⟨here, alive⟩ := here
    simp only [Table.get?_erase] at here
    split at here
    next => simp at here
    next => exact s.ready j a ⟨here, alive⟩

theorem change (s : t.Sound) (found : t.entries.get? id = some e) {a : Timer α} (due : a.due = e.due)
    (seq : a.seq = e.seq) (ready : a.cancelled = false -> a.period = none -> a.callback ≠ none) :
    Sound { t with entries := t.entries.set id a } where
  sorted := s.sorted
  distinct := s.distinct
  fresh := s.fresh
  numbered j b here := by
    simp only [Table.get?_set] at here
    split at here
    next => cases here; exact seq ▸ s.numbered id e found
    next => exact s.numbered j b here
  dated d member b here same := by
    simp only [Table.get?_set] at here
    split at here
    next at_ =>
      cases here
      exact due ▸ s.dated d member e (at_ ▸ found) (seq ▸ same)
    next => exact s.dated d member b here same
  ready j b here := by
    obtain ⟨here, alive⟩ := here
    simp only [Table.get?_set] at here
    split at here
    next => cases here; exact ready alive
    next => exact s.ready j b ⟨here, alive⟩

theorem renew (s : t.Sound) {a : Timer α} (seq : a.seq = t.nextSeq) (ready : a.period = none -> a.callback ≠ none)
    (id lastId : TimerId) : Sound ⟨t.entries.set id a, t.queue, lastId, t.nextSeq + 1⟩ where
  sorted := s.sorted
  distinct := s.distinct
  fresh d member := Nat.lt_succ_of_lt (s.fresh d member)
  numbered j b here := by
    simp only [Table.get?_set] at here
    split at here
    next => cases here; simp [seq]
    next => exact Nat.lt_succ_of_lt (s.numbered j b here)
  dated d member b here same := by
    simp only [Table.get?_set] at here
    split at here
    next =>
      cases here
      exact absurd (s.fresh d member) (by simp [same, seq])
    next => exact s.dated d member b here same
  ready j b here := by
    obtain ⟨here, alive⟩ := here
    simp only [Table.get?_set] at here
    split at here
    next => cases here; exact ready
    next => exact s.ready j b ⟨here, alive⟩

theorem enqueue (s : t.Sound) (found : t.entries.get? id = some e) (new : ∀ d ∈ t.queue, e.seq ≠ d.seq) :
    Sound { t with queue := enqueue (e.place id) t.queue } where
  sorted := enqueue_sorted s.sorted new
  distinct := by
    have fresh : e.seq ∉ t.queue.map Due.seq := by
      intro member
      obtain ⟨d, queued, same⟩ := List.mem_map.1 member
      exact new d queued same.symm
    exact ((enqueue_perm (e.place id) t.queue).map Due.seq).nodup_iff.2 (List.nodup_cons.2 ⟨fresh, s.distinct⟩)
  fresh d member := by
    rcases List.mem_cons.1 ((enqueue_perm _ _).mem_iff.1 member) with rfl | member
    next => exact s.numbered id e found
    next => exact s.fresh d member
  numbered := s.numbered
  dated d member b here same := by
    rcases List.mem_cons.1 ((enqueue_perm _ _).mem_iff.1 member) with rfl | member
    next =>
      have equal : e = b := Option.some.inj (found.symm.trans here)
      simp [Timer.place, equal]
    next => exact s.dated d member b here same
  ready := s.ready

end Sound

namespace Placed

theorem erase (p : t.Placed) (id : TimerId) : Placed { t with entries := t.entries.erase id } := by
  intro j a here
  obtain ⟨here, alive⟩ := here
  simp only [Table.get?_erase] at here
  split at here
  next => simp at here
  next => exact p j a ⟨here, alive⟩

theorem set (p : t.Placed) {a : Timer α} (queued : a.cancelled = false -> a.place id ∈ t.queue) :
    Placed { t with entries := t.entries.set id a } := by
  intro j b here
  obtain ⟨here, alive⟩ := here
  simp only [Table.get?_set] at here
  split at here
  next same => cases here; exact same ▸ queued alive
  next => exact p j b ⟨here, alive⟩

end Placed

/-- What taking a due timer from a pruned registry answers and leaves. -/
inductive Taken (t : Timers α) (now : Nat) : Option (TimerId × α) × Timers α -> Prop where
  | nothing (early : ∀ d ∈ t.queue, now < d.time) : Taken t now (none, t)
  | once (id : TimerId) (e : Timer α) (rest : List Due) (callback : α) (queue : t.queue = e.place id :: rest)
      (live : t.Live id e) (due : e.due ≤ now) (period : e.period = none) (present : e.callback = some callback) :
      Taken t now (some (id, callback), { t with entries := t.entries.erase id, queue := rest })
  | again (id : TimerId) (e : Timer α) (rest : List Due) (callback : α) (period : Nat)
      (queue : t.queue = e.place id :: rest) (live : t.Live id e) (due : e.due ≤ now)
      (periodic : e.period = some period) (present : e.callback = some callback) :
      Taken t now (some (id, callback),
        { t with
            entries := t.entries.set id { e with due := now + period, seq := t.nextSeq, callback := none }
            queue := enqueue ⟨now + period, t.nextSeq, id⟩ rest
            nextSeq := t.nextSeq + 1 })
  | missed (id : TimerId) (e : Timer α) (rest : List Due) (period : Nat) (queue : t.queue = e.place id :: rest)
      (live : t.Live id e) (due : e.due ≤ now) (periodic : e.period = some period) (out : e.callback = none) :
      Taken t now (none,
        { t with
            entries := t.entries.set id { e with due := now + period, seq := t.nextSeq, callback := none }
            queue := rest
            nextSeq := t.nextSeq + 1 })

theorem Sound.takeDue_taken (s : t.Sound) (now : Nat) : Taken t.prune now (t.takeDue now) := by
  have pruned := (prune_trimmed t).sound s
  cases queue : t.prune.queue with
  | nil =>
    have answer : t.takeDue now = (none, t.prune) := by simp [takeDue, queue]
    exact answer ▸ .nothing (by simp [queue])
  | cons d rest =>
    obtain ⟨e, live, same⟩ := (prune_trimmed t).front d rest queue
    have time : d.time = e.due := pruned.dated d (by simp [queue]) e live.1 same.symm
    have head : t.prune.queue = e.place d.id :: rest := by simp [queue, Timer.place, ← time, same]
    by_cases early : now < d.time
    next =>
      have answer : t.takeDue now = (none, t.prune) := by simp [takeDue, queue, early]
      have all : ∀ a ∈ t.prune.queue, now < a.time := by
        intro a member
        rcases List.mem_cons.1 (queue ▸ member) with rfl | member
        next => exact early
        next =>
          have later := (List.pairwise_cons.1 (queue ▸ pruned.sorted)).1 a member
          simp only [Due.before, Bool.or_eq_true, Bool.and_eq_true, decide_eq_true_eq, beq_iff_eq] at later
          omega
      exact answer ▸ .nothing all
    next =>
      have due : e.due ≤ now := by omega
      cases period : e.period with
      | none =>
        cases present : e.callback with
        | none => exact absurd present (pruned.ready d.id e live period)
        | some callback =>
          have answer : t.takeDue now =
              (some (d.id, callback), { t.prune with entries := t.prune.entries.erase d.id, queue := rest }) := by
            simp [takeDue, queue, early, live.1, period, present]
          exact answer ▸ .once d.id e rest callback head live due period present
      | some period' =>
        cases present : e.callback with
        | none =>
          have step := Taken.missed d.id e rest period' head live due period present
          simpa [takeDue, queue, early, live.1, period, present] using step
        | some callback =>
          have step := Taken.again d.id e rest callback period' head live due period present
          simpa [takeDue, queue, early, live.1, period, present] using step

theorem Sound.first_of_head (s : t.Sound) (p : t.Placed) {rest : List Due} (queue : t.queue = e.place id :: rest)
    (live : t.Live id e) : t.First id e := by
  refine ⟨live, ?_⟩
  intro j a here
  rcases List.mem_cons.1 (queue ▸ p j a here) with same | later
  next => exact .inl (congrArg Due.id same)
  next =>
    have sorted : (e.place id :: rest).Pairwise fun a b => a.before b := queue ▸ s.sorted
    exact .inr ((List.pairwise_cons.1 sorted).1 _ later)

theorem First.unique {j : TimerId} {a : Timer α} (first : t.First id e) (other : t.First j a) : j = id ∧ a = e := by
  have same : j = id := by
    rcases first.2 j a other.1 with same | before
    next => exact same
    next =>
      rcases other.2 id e first.1 with same | after
      next => exact same.symm
      next => simp [before_asymm before] at after
  subst same
  exact ⟨rfl, Option.some.inj (other.1.1.symm.trans first.1.1)⟩

end Timers

end ScriptHost
