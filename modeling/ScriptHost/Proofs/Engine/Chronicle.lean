import ScriptHost.Proofs.Engine.Openings

set_option autoImplicit false

/-!
What the engine records of rejections, against all that has happened to promises.

An event is recorded for a promise that is rejected before any reaction was attached, and another one for
the first reaction attached to it afterwards. So the events follow from the history, and each promise has at
most one of either kind.
-/

namespace ScriptHost

namespace Happening

def promise : Happening -> Ptr
  | settled p _ _ => p
  | reacted p => p

def settled? : Happening -> Option Ptr
  | settled p _ _ => some p
  | reacted _ => none

def rejected? : Happening -> Option Ptr
  | settled p _ true => some p
  | _ => none

/-- The event that is recorded when this happens: its promise, and whether that has a reaction now. -/
def event? (x : Happening) (older : List Happening) : Option (Ptr × Bool) :=
  match x with
  | settled p _ rejected => if rejected ∧ .reacted p ∉ older then some (p, false) else none
  | reacted p => if .reacted p ∉ older ∧ p ∈ older.filterMap rejected? then some (p, true) else none

end Happening

/-- The events of a history, oldest first. -/
def recordedEvents : List Happening -> List (Ptr × Bool)
  | [] => []
  | x :: older => recordedEvents older ++ (x.event? older).toList

/-- The events of what has happened after the past, oldest first. -/
def eventsAfter (past : List Happening) : List Happening -> List (Ptr × Bool)
  | [] => []
  | x :: older => eventsAfter past older ++ (x.event? (older ++ past)).toList

def Rejection.event (e : Rejection) : Ptr × Bool :=
  (e.promise, e.handled)

variable {p v : Ptr} {rejected : Bool} {history : List Happening}

theorem recordedEvents_append (recent past : List Happening) :
    recordedEvents (recent ++ past) = recordedEvents past ++ eventsAfter past recent := by
  induction recent with
  | nil => exact (List.append_nil _).symm
  | cons x older ih => simp only [List.cons_append, recordedEvents, eventsAfter, ih, List.append_assoc]

/-- Every event is about a promise to which something has happened, and there are no more events than that. -/
theorem mem_eventsAfter {past recent : List Happening} {e : Ptr × Bool} (member : e ∈ eventsAfter past recent) :
    ∃ x ∈ recent, x.promise = e.1 := by
  induction recent with
  | nil => cases member
  | cons x older ih =>
    rcases List.mem_append.1 member with before | now
    next =>
      obtain ⟨y, happened, same⟩ := ih before
      exact ⟨y, List.mem_cons_of_mem x happened, same⟩
    next =>
      refine ⟨x, List.mem_cons_self .., ?_⟩
      cases x <;> simp [Happening.event?] at now <;> simp [← now.2, Happening.promise]

theorem length_eventsAfter (past recent : List Happening) : (eventsAfter past recent).length ≤ recent.length := by
  induction recent with
  | nil => exact Nat.le_refl 0
  | cons x older ih =>
    have few := Option.length_toList_le (o := x.event? (older ++ past))
    simp only [eventsAfter, List.length_append, List.length_cons]
    omega

theorem rejected_sublist (history : List Happening) :
    (history.filterMap Happening.rejected?).Sublist (history.filterMap Happening.settled?) := by
  induction history with
  | nil => exact .slnil
  | cons x older ih =>
    cases x with
    | reacted p => exact ih
    | settled p v rejected =>
      cases rejected with
      | true => exact ih.cons_cons p
      | false => exact ih.cons p

theorem mem_rejected : p ∈ history.filterMap Happening.rejected? <-> ∃ v, .settled p v true ∈ history := by
  constructor
  next =>
    intro member
    obtain ⟨x, present, same⟩ := List.mem_filterMap.1 member
    cases x with
    | reacted q => cases same
    | settled q v rejected =>
      cases rejected with
      | false => cases same
      | true =>
        cases same
        exact ⟨v, present⟩
  next =>
    rintro ⟨v, present⟩
    exact List.mem_filterMap.2 ⟨_, present, rfl⟩

theorem mem_settled : p ∈ history.filterMap Happening.settled? <-> ∃ v rejected, .settled p v rejected ∈ history := by
  constructor
  next =>
    intro member
    obtain ⟨x, present, same⟩ := List.mem_filterMap.1 member
    cases x with
    | reacted q => cases same
    | settled q v rejected =>
      cases same
      exact ⟨v, rejected, present⟩
  next =>
    rintro ⟨v, rejected, present⟩
    exact List.mem_filterMap.2 ⟨_, present, rfl⟩

/-- Promises and what is told of them agree, no pointer is given twice, and what is recorded by now adds up to
the events of the history. -/
structure Affairs.Chronicled (past : List (Ptr × Bool)) (a : Affairs) : Prop where
  known : ∀ p r, a.promises.get? p = some r -> p.toNat < a.next ∧ a.literal p = false
  told : ∀ x ∈ a.history, x.promise.toNat < a.next ∧ a.literal x.promise = false
  literals : ∀ p, a.literal p = true -> p.toNat < a.next
  handled : ∀ p r, a.promises.get? p = some r -> (r.handled = true <-> .reacted p ∈ a.history)
  settled : ∀ p r v rejected, a.promises.get? p = some r ->
    (r.settlement = .ofPayload rejected v <-> .settled p v rejected ∈ a.history)
  once : (a.history.filterMap Happening.settled?).Nodup
  events : recordedEvents a.history = past ++ a.rejections.map Rejection.event

namespace Affairs

variable {past : List (Ptr × Bool)} {a b : Affairs} {r : PromiseRecord}

theorem Forgets.plain (less : a.Forgets b) (room : b.next ≤ UInt32.size) (small : p.toNat < a.next)
    (plain : a.literal p = false) : b.literal p = false := by
  rw [← Bool.not_eq_true]
  intro literal
  rcases less.literal p literal with before | ⟨n, later, below, rfl⟩
  next => exact absurd (plain.symm.trans before) Bool.false_ne_true
  next =>
    rw [UInt32.toNat_ofNat_of_lt' (Nat.lt_of_lt_of_le below room)] at small
    omega

theorem Forgets.chronicled (less : a.Forgets b) (room : b.next ≤ UInt32.size) (ok : a.Chronicled past) :
    b.Chronicled past where
  known p r found := by
    obtain ⟨small, plain⟩ := ok.known p r (less.promise found)
    exact ⟨Nat.lt_of_lt_of_le small less.next, less.plain room small plain⟩
  told x happened := by
    obtain ⟨small, plain⟩ := ok.told x (less.history ▸ happened)
    exact ⟨Nat.lt_of_lt_of_le small less.next, less.plain room small plain⟩
  literals p literal := by
    rcases less.literal p literal with before | ⟨n, -, below, rfl⟩
    next => exact Nat.lt_of_lt_of_le (ok.literals p before) less.next
    next => rwa [UInt32.toNat_ofNat_of_lt' (Nat.lt_of_lt_of_le below room)]
  handled p r found := by
    rw [less.history]
    exact ok.handled p r (less.promise found)
  settled p r v rejected found := by
    rw [less.history]
    exact ok.settled p r v rejected (less.promise found)
  once := less.history ▸ ok.once
  events := by
    rw [less.history, less.rejections]
    exact ok.events

theorem Chronicled.unsettled (ok : a.Chronicled past) (here : a.promises.get? p = some r)
    (pending : r.settlement = .pending) (v : Ptr) (rejected : Bool) : .settled p v rejected ∉ a.history := by
  intro told
  have settled := (ok.settled p r v rejected here).2 told
  cases rejected <;> simp [pending, Settlement.ofPayload] at settled

theorem Chronicled.settle (ok : a.Chronicled past) (here : a.promises.get? p = some r)
    (pending : r.settlement = .pending) : (a.settle p r v rejected).Chronicled past where
  known q r' found := by
    simp only [Affairs.settle, Table.get?_set] at found
    split at found
    next same => exact same ▸ ok.known p r here
    next => exact ok.known q r' found
  told x happened := by
    rcases List.mem_cons.1 happened with rfl | before
    next => exact ok.known p r here
    next => exact ok.told x before
  literals := ok.literals
  handled q r' found := by
    simp only [Affairs.settle, Table.get?_set, List.mem_cons, reduceCtorEq, false_or] at found ⊢
    split at found
    next same =>
      cases found
      exact same ▸ ok.handled p r here
    next => exact ok.handled q r' found
  settled q r' w b found := by
    simp only [Affairs.settle, Table.get?_set, List.mem_cons] at found ⊢
    split at found
    next same =>
      subst same
      cases found
      have fresh := ok.unsettled here pending w b
      constructor
      next =>
        intro settled
        cases rejected <;> cases b <;> simp_all [Settlement.ofPayload]
      next => simp_all
    next other =>
      have apart : (.settled q w b : Happening) ≠ .settled p v rejected := by simp [Ne.symm other]
      simpa [apart] using ok.settled q r' w b found
  once := by
    refine List.nodup_cons.2 ⟨fun before => ?_, ok.once⟩
    obtain ⟨w, b, told⟩ := mem_settled.1 before
    exact ok.unsettled here pending w b told
  events := by
    have handled := ok.handled p r here
    simp only [Affairs.settle, recordedEvents, ok.events, Happening.event?, ← handled, List.map_append, List.append_assoc]
    cases rejected <;> cases r.handled <;> rfl

theorem Chronicled.reacts {events : List Rejection} {r' : PromiseRecord} (ok : a.Chronicled past)
    (here : a.promises.get? p = some r) (settlement : r'.settlement = r.settlement)
    (recorded : (Happening.event? (.reacted p) a.history).toList = events.map Rejection.event) :
    (a.react p r' events).Chronicled past where
  known q x found := by
    simp only [Affairs.react, Table.get?_set] at found
    split at found
    next same => exact same ▸ ok.known p r here
    next => exact ok.known q x found
  told x happened := by
    rcases List.mem_cons.1 happened with rfl | before
    next => exact ok.known p r here
    next => exact ok.told x before
  literals := ok.literals
  handled q x found := by
    simp only [Affairs.react, Table.get?_set, List.mem_cons] at found ⊢
    split at found
    next same =>
      cases found
      simp [same]
    next other =>
      have apart : (.reacted q : Happening) ≠ .reacted p := by simp [Ne.symm other]
      simpa [apart] using ok.handled q x found
  settled q x w b found := by
    simp only [Affairs.react, Table.get?_set, List.mem_cons, reduceCtorEq, false_or] at found ⊢
    split at found
    next same =>
      subst same
      cases found
      rw [settlement]
      exact ok.settled p r w b here
    next => exact ok.settled q x w b found
  once := ok.once
  events := by
    simp only [Affairs.react, recordedEvents, ok.events, recorded, List.map_append, List.append_assoc]

end Affairs

variable {s s' : List Task × Affairs} {past : List (Ptr × Bool)} {exact : Prop}

theorem Turn.chronicled (step : Turn s s') (room : s'.2.next ≤ UInt32.size) (ok : s.2.Chronicled past) :
    s'.2.Chronicled past := by
  cases step with
  | forget less => exact less.chronicled room ok
  | settle here pending plain => exact ok.settle here pending
  | @store p x r o a here pending =>
    refine ok.reacts here rfl ?_
    have none : p ∉ a.history.filterMap Happening.rejected? := fun before => by
      obtain ⟨v, told⟩ := mem_rejected.1 before
      exact ok.unsettled here pending v true told
    simp [Happening.event?, none]
  | @react p v x rejected r o a here settled =>
    refine ok.reacts here rfl ?_
    have told : p ∈ a.history.filterMap Happening.rejected? <-> rejected = true := by
      rw [mem_rejected]
      constructor
      next =>
        rintro ⟨w, told⟩
        have before := settled.symm.trans ((ok.settled p r w true here).2 told)
        cases rejected with
        | true => rfl
        | false => cases before
      next =>
        rintro rfl
        exact ⟨v, (ok.settled p r v true here).1 settled⟩
    have event : Happening.event? (.reacted p) a.history =
        if ¬ r.handled = true ∧ rejected = true then some (p, true) else none := by
      simp only [Happening.event?, ok.handled p r here, told]
    rw [event]
    cases rejected <;> cases r.handled <;> rfl
  | enqueue => exact ⟨ok.known, ok.told, ok.literals, ok.handled, ok.settled, ok.once, ok.events⟩
  | _ => exact ok

theorem Turns.chronicled (steps : Turns s s') (room : s'.2.next ≤ UInt32.size) (ok : s.2.Chronicled past) :
    s'.2.Chronicled past := by
  induction steps with
  | refl => exact ok
  | tail _ step ih => exact step.chronicled room (ih (Nat.le_trans step.next_le room))

namespace Affairs.Chronicled

variable {a b : Affairs} {r : PromiseRecord} {n : Nat}

/-- New promises have pointers of their own, as long as these do not run out. -/
theorem begin (ok : a.Chronicled past) (later : a.next ≤ n) (room : n + 1 ≤ UInt32.size) :
    (a.begin n).Chronicled past := by
  have address : (UInt32.ofNat n).toNat = n := UInt32.toNat_ofNat_of_lt' room
  have untold (x : Happening) (happened : x ∈ a.history) : x.promise ≠ UInt32.ofNat n := fun same => by
    have small := (ok.told x happened).1
    rw [same, address] at small
    omega
  have plain : a.literal (UInt32.ofNat n) = false := by
    rw [← Bool.not_eq_true]
    intro literal
    have small := ok.literals _ literal
    rw [address] at small
    omega
  have grown (p : Ptr) (small : p.toNat < a.next) : p.toNat < n + 1 := by omega
  constructor
  case known =>
    intro p r found
    simp only [Affairs.begin, Table.get?_set] at found ⊢
    split at found
    next same => exact ⟨by rw [← same, address]; exact Nat.lt_succ_self n, same ▸ plain⟩
    next => exact (ok.known p r found).imp_left (grown p)
  case told => exact fun x happened => (ok.told x happened).imp_left (grown x.promise)
  case literals => exact fun p literal => grown p (ok.literals p literal)
  case handled =>
    intro p r found
    simp only [Affairs.begin, Table.get?_set] at found ⊢
    split at found
    next same =>
      cases found
      exact ⟨fun handled => absurd handled (by decide), fun happened => absurd same.symm (untold _ happened)⟩
    next => exact ok.handled p r found
  case settled =>
    intro p r v rejected found
    simp only [Affairs.begin, Table.get?_set] at found ⊢
    split at found
    next same =>
      cases found
      refine ⟨fun settled => ?_, fun happened => absurd same.symm (untold _ happened)⟩
      cases rejected <;> cases settled
    next => exact ok.settled p r v rejected found
  case once => exact ok.once
  case events => exact ok.events

/-- Resolving functions do not matter. -/
theorem empower (ok : a.Chronicled past) (able : Ptr -> Option (Ptr × Bool)) :
    { a with resolver? := able }.Chronicled past :=
  ⟨ok.known, ok.told, ok.literals, ok.handled, ok.settled, ok.once, ok.events⟩

theorem mark (ok : a.Chronicled past) (here : a.promises.get? p = some r) : (a.mark p r).Chronicled past where
  known q x found := by
    simp only [Affairs.mark, Table.get?_set] at found
    split at found
    next same => exact same ▸ ok.known p r here
    next => exact ok.known q x found
  told := ok.told
  literals := ok.literals
  handled q x found := by
    simp only [Affairs.mark, Table.get?_set] at found
    split at found
    next same =>
      cases found
      exact same ▸ ok.handled p r here
    next => exact ok.handled q x found
  settled q x w b found := by
    simp only [Affairs.mark, Table.get?_set] at found
    split at found
    next same =>
      subst same
      cases found
      exact ok.settled p r w b here
    next => exact ok.settled q x w b found
  once := ok.once
  events := ok.events

/-- What has been recorded by now is taken. -/
theorem take (ok : a.Chronicled past) :
    { a with rejections := [] }.Chronicled (recordedEvents a.history) :=
  ⟨ok.known, ok.told, ok.literals, ok.handled, ok.settled, ok.once, (List.append_nil _).symm⟩

end Affairs.Chronicled

theorem Opening.chronicled (opening : Opening exact s s') (kept : s'.2.rejections = s.2.rejections)
    (room : s'.2.next ≤ UInt32.size) (ok : s.2.Chronicled past) : s'.2.Chronicled past := by
  cases opening with
  | rest => exact ok
  | take => exact ⟨ok.known, ok.told, ok.literals, ok.handled, ok.settled, ok.once, ok.events⟩
  | capability n later => exact (ok.begin later room).empower _
  | derive n later => exact ok.begin later room
  | barren => exact ok.empower _
  | sterile => exact ok
  | @collect o a =>
    have events := ok.events
    rw [← kept] at events
    exact ⟨ok.known, ok.told, ok.literals, ok.handled, ok.settled, ok.once, events⟩
  | @clear o a =>
    have events := ok.events
    rw [← kept] at events
    exact {
      known := fun p r found => by simp [Affairs.clear] at found
      told := fun x happened => ⟨(ok.told x happened).1, rfl⟩
      literals := nofun
      handled := fun p r found => by simp [Affairs.clear] at found
      settled := fun p r v rejected found => by simp [Affairs.clear] at found
      once := ok.once
      events := events }

end ScriptHost
