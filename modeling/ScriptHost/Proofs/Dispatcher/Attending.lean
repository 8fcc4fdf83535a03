import ScriptHost.Proofs.Dispatcher.Sessions

set_option autoImplicit false

/-!
What becomes of watchers in the course of a session: each one is answered or dropped once at most, and while it is
neither, the worker does not go to sleep on a promise that has settled.
-/

namespace ScriptHost

open LoopM

namespace Mark

def watched? : Mark -> Option Watcher
  | watching x => some x
  | _ => none

def attended? : Mark -> Option Watcher
  | answered x _ _ => some x
  | dropped x _ => some x
  | _ => none

/-- How watchers are attended to. One is answered with what is told of its promise, and with an error only if nothing
can be told; it is dropped only if nobody is left to answer. When the worker blocks, nobody is left waiting for a promise
that has settled. -/
def Attentive : Mark -> List Mark -> Prop
  | answered _ result told, earlier => fault ∉ earlier -> Conveys result told
  | dropped _ gone, _ => gone = true
  | blocking overdue, earlier => scripted ∉ earlier -> fault ∉ earlier -> overdue = []
  | _, _ => True

def Unattending : Mark -> Prop
  | watching _ | answered _ _ _ | dropped _ _ | blocking _ => False
  | _ => True

variable {m : Mark}

theorem Unattending.attentive (other : m.Unattending) (earlier : List Mark) : m.Attentive earlier := by
  cases m <;> first | exact other.elim | trivial

theorem Unattending.unwatched (other : m.Unattending) : m.watched? = none := by
  cases m <;> first | rfl | exact other.elim

theorem Unattending.unattended (other : m.Unattending) : m.attended? = none := by
  cases m <;> first | rfl | exact other.elim

end Mark

/-- Newest first, like the journal. -/
def watchedIn (journal : List Mark) : List Watcher :=
  journal.filterMap Mark.watched?

def attendedIn (journal : List Mark) : List Watcher :=
  journal.filterMap Mark.attended?

namespace World

variable {w w' : World}

/-- Every watcher that came in was answered or dropped, or is still there. -/
structure Attending (w : World) : Prop where
  attentive : Throughout Mark.Attentive w.journal
  present : (watchedIn w.journal).Perm (attendedIn w.journal ++ w.worker.watchers)
  faultless : .fault ∉ w.journal -> w.worker.vault.link.faults = Table.empty

/-- The worker has left its loop, and those that were still there are let go. -/
structure Dismissing (w : World) : Prop where
  attentive : Throughout Mark.Attentive w.journal
  once : (attendedIn w.journal).Subperm (watchedIn w.journal)
  left : .left ∈ w.journal

/-- What happens beside the watchers. -/
structure Alongside (w w' : World) : Prop where
  journal : ∃ marks, w'.journal = marks ++ w.journal ∧ ∀ m ∈ marks, m.Unattending
  watchers : w'.worker.watchers = w.worker.watchers
  faults : .fault ∉ w'.journal -> w.worker.vault.link.faults = Table.empty -> w'.worker.vault.link.faults = Table.empty

theorem Alongside.of_same (journal : w'.journal = w.journal) (watchers : w'.worker.watchers = w.worker.watchers)
    (faults : w.worker.vault.link.faults = Table.empty -> w'.worker.vault.link.faults = Table.empty) :
    w.Alongside w' :=
  ⟨⟨[], journal, List.forall_mem_nil _⟩, watchers, fun _ => faults⟩

theorem Alongside.of_note {m : Mark} (journal : w'.journal = m :: w.journal) (other : m.Unattending)
    (watchers : w'.worker.watchers = w.worker.watchers)
    (faults : m ≠ .fault -> w.worker.vault.link.faults = Table.empty -> w'.worker.vault.link.faults = Table.empty) :
    w.Alongside w' := by
  refine ⟨⟨[m], journal, fun _ member => List.mem_singleton.1 member ▸ other⟩, watchers, fun none_set => faults ?_⟩
  rintro rfl
  exact none_set (journal ▸ List.mem_cons_self)

section Journal

variable {marks : List Mark} (grown : w'.journal = marks ++ w.journal) (other : ∀ m ∈ marks, m.Unattending)
include grown other

theorem attentive_grown (ok : Throughout Mark.Attentive w.journal) : Throughout Mark.Attentive w'.journal :=
  grown ▸ ok.append fun m member => (other m member).attentive

theorem watchedIn_grown : watchedIn w'.journal = watchedIn w.journal :=
  grown ▸ filterMap_grown fun m member => (other m member).unwatched

theorem attendedIn_grown : attendedIn w'.journal = attendedIn w.journal :=
  grown ▸ filterMap_grown fun m member => (other m member).unattended

end Journal

theorem Attending.alongside (ok : w.Attending) (alongside : w.Alongside w') : w'.Attending := by
  obtain ⟨⟨marks, grown, other⟩, watchers, faults⟩ := alongside
  refine ⟨attentive_grown grown other ok.attentive, ?_, fun none_set => faults none_set (ok.faultless fun member => ?_)⟩
  next =>
    rw [watchedIn_grown grown other, attendedIn_grown grown other, watchers]
    exact ok.present
  next => exact none_set (grown ▸ List.mem_append_right marks member)

theorem Dismissing.alongside (ok : w.Dismissing) (alongside : w.Alongside w') : w'.Dismissing := by
  obtain ⟨⟨marks, grown, other⟩, -, -⟩ := alongside
  refine ⟨attentive_grown grown other ok.attentive, ?_, grown ▸ List.mem_append_right marks ok.left⟩
  rw [watchedIn_grown grown other, attendedIn_grown grown other]
  exact ok.once

theorem alongside_setPhase (w : World) (p : Phase) : w.Alongside (w.setPhase p) := by
  unfold setPhase
  split
  next => exact .of_same rfl rfl id
  next => exact .of_note rfl trivial rfl fun _ => id

theorem alongside_meet (w : World) (d : Demand) : w.Alongside (w.meet d) := by
  cases d with
  | send port item =>
    simp only [meet]
    split <;> exact .of_note rfl trivial rfl fun _ => id
  | announce => exact w.alongside_setPhase _
  | close =>
    simp only [meet]
    split
    next => exact .of_note rfl trivial rfl fun _ => id
    next => exact .of_same rfl rfl id
  | hold => exact .of_same rfl rfl id
  | letGo => exact .of_same rfl rfl id
  | desert reply => exact .of_same rfl rfl id

theorem alongside_change (c : Change) (w : World) : w.Alongside (c.apply w) := by
  cases c with
  | demand d => exact w.alongside_meet d
  | queueMicrotask c => exact .of_note rfl trivial rfl fun _ => id
  | fault name f => exact .of_note rfl trivial rfl fun other => absurd rfl other
  | stand => exact .of_note rfl trivial rfl fun _ => id
  | script => exact .of_note rfl trivial rfl fun _ => id
  | _ => exact .of_same rfl rfl id

theorem alongside_ask (q : Ask) (w : World) : w.Alongside (w.onLink fun l => (q.perform.run l).2) :=
  .of_same rfl rfl q.perform_faultless.2

/-- A watcher is answered or dropped. -/
theorem Attending.attend {m : Mark} {x : Watcher} (ok : w.Attending) (member : x ∈ w.worker.watchers)
    (journal : w'.journal = m :: w.journal) (attends : m.attended? = some x) (comes : m.watched? = none)
    (law : m.Attentive w.journal) (gone : w'.worker.watchers = w.worker.watchers.erase x)
    (link : w'.worker.vault.link = w.worker.vault.link) : w'.Attending where
  attentive := journal ▸ ⟨law, ok.attentive⟩
  present := by
    have left : (attendedIn w.journal ++ w.worker.watchers).Perm (x :: attendedIn w.journal ++ w.worker.watchers.erase x) :=
      ((List.perm_cons_erase member).append_left _).trans List.perm_middle
    simp only [watchedIn, attendedIn, journal, gone, List.filterMap_cons, attends, comes]
    exact ok.present.trans left
  faultless none_set := link ▸ ok.faultless fun member => none_set (journal ▸ List.mem_cons_of_mem m member)

theorem Attending.once (ok : w.Attending) : (attendedIn w.journal).Subperm (watchedIn w.journal) :=
  (List.sublist_append_left ..).subperm.trans ok.present.symm.subperm

theorem Attending.duty {d : Duty} (ok : w.Attending) (allowed : d.Allowed w) : (d.apply w).Attending := by
  cases d with
  | phase p => exact ok.alongside (w.alongside_setPhase p)
  | receive =>
    simp only [Duty.apply]
    split
    next => exact ok
    next => exact ok.alongside (.of_same rfl rfl id)
  | take =>
    simp only [Duty.apply]
    split
    next => exact ok
    next => exact ok.alongside (.of_note rfl trivial rfl fun _ => id)
    next => exact ok.alongside (.of_note rfl trivial rfl fun _ => id)
  | takeMicrotask =>
    simp only [Duty.apply]
    split
    next => exact ok
    next => exact ok.alongside (.of_note rfl trivial rfl fun _ => id)
  | beginCycle => exact ok.alongside (.of_note rfl trivial rfl fun _ => id)
  | delayed n => exact ok.alongside (.of_note rfl trivial rfl fun _ => id)
  | watch x =>
    have more := List.perm_append_singleton x (attendedIn w.journal ++ w.worker.watchers)
    rw [List.append_assoc] at more
    refine ⟨⟨trivial, ok.attentive⟩, (ok.present.cons x).trans more.symm, fun none_set => ok.faultless fun member => ?_⟩
    exact none_set (List.mem_cons_of_mem _ member)
  | answer x result =>
    exact ok.attend allowed.1 rfl rfl rfl (fun none_set => allowed.2 (ok.faultless none_set)) rfl rfl
  | forsake x => exact ok.attend allowed.1 rfl rfl rfl allowed.2 rfl rfl
  | block =>
    have vigilant (unscripted : .scripted ∉ w.journal) (none_set : .fault ∉ w.journal) : w.overdue = [] :=
      allowed ⟨unscripted, none_set, ok.faultless none_set⟩
    refine ⟨⟨vigilant, ok.attentive⟩, ok.present, fun none_set => ok.faultless fun member => ?_⟩
    exact none_set (List.mem_cons_of_mem _ member)
  | flush => exact allowed.elim
  | report p reason => exact allowed.elim
  | leave => exact allowed.elim
  | dropCommands => exact allowed.elim
  | dropWork => exact allowed.elim
  | dropFunctions => exact allowed.elim
  | closeVault => exact allowed.elim
  | stop => exact allowed.elim
  | _ => exact ok.alongside (.of_same rfl rfl id)

theorem Attending.leave (ok : w.Attending) : (Duty.leave.apply w).Dismissing where
  attentive := ⟨trivial, (ok.alongside (w.alongside_setPhase .shuttingDown)).attentive⟩
  once := (ok.alongside (w.alongside_setPhase .shuttingDown)).once
  left := List.mem_cons_self

end World

theorem attending_still : Still World.Attending where
  schedule _ _ ok := ok.alongside (.of_same rfl rfl id)
  change c w ok := ok.alongside (w.alongside_change c)
  ask q w ok := ok.alongside (w.alongside_ask q)
  book _ _ _ ok := ok.alongside (.of_same rfl rfl id)

theorem attending_stable : Stable World.Attending where
  toStill := attending_still
  duty _ _ _ allowed ok := ok.duty allowed
  flush w _ _ _ ok := by
    have reports (p : Ptr) (reason : Snapshot) (w : World) (ok : w.Attending) :
        ((Duty.report p reason).apply w).Attending :=
      ok.alongside (.of_note rfl trivial rfl fun _ => id)
    have take (w : World) (ok : w.Attending) : (w.onLink fun l => (outcome OwnerM.takeRejections l).2).Attending :=
      ok.alongside (.of_same rfl rfl (OwnerM.law_faultless.takeRejections _).2)
    have flushed (ok : w.arrive.Attending) : (Duty.flush.apply w.arrive).Attending :=
      ok.alongside (.of_note rfl trivial rfl fun _ => id)
    exact (attending_still.grows_flushRejections reports take flushed (Nat.zero_le _)).kept ok

theorem dismissing_abiding : Abiding World.Dismissing where
  schedule _ _ ok := ok.alongside (.of_same rfl rfl id)
  change c w ok := ok.alongside (w.alongside_change c)
  ask q w ok := ok.alongside (w.alongside_ask q)
  book _ _ _ ok := ok.alongside (.of_same rfl rfl id)
  close _ ok := ok.alongside (.of_same rfl rfl (OwnerM.law_faultless.closeEngine _).2)
  duty d w lets ok := by
    cases d with
    | stop => exact ok.alongside (.of_note rfl trivial rfl fun _ => id)
    | dropCommands => exact ⟨ok.attentive, ok.once, ok.left⟩
    | dropWork => exact ⟨ok.attentive, ok.once, ok.left⟩
    | dropFunctions => exact ⟨ok.attentive, ok.once, ok.left⟩
    | closeVault => exact ⟨ok.attentive, ok.once, ok.left⟩
    | _ => exact lets.elim

theorem World.New.attending {w : World} (new : w.New) : w.Attending where
  attentive := new.throughout fun _ => trivial
  present := by
    rw [watchedIn, attendedIn, new.filterMap rfl, new.filterMap rfl, new.watchers]
    exact .refl _
  faultless := new.faultless

/-- Watchers are attended to as they should be. Each one is so once at most, and as long as the worker is in its loop
it still has all the others. -/
structure World.Attended (w : World) : Prop where
  attentive : Throughout Mark.Attentive w.journal
  once : (attendedIn w.journal).Subperm (watchedIn w.journal)
  present : .left ∉ w.journal -> (watchedIn w.journal).Perm (attendedIn w.journal ++ w.worker.watchers)

theorem World.Attending.attended {w : World} (ok : w.Attending) : w.Attended where
  attentive := ok.attentive
  once := ok.once
  present _ := ok.present

theorem World.Dismissing.attended {w : World} (ok : w.Dismissing) : w.Attended where
  attentive := ok.attentive
  once := ok.once
  present staying := absurd ok.left staying

/-- The worker leaves nobody waiting for a promise that has settled when it blocks. Whoever waits is answered once at
most, with just what the promise has settled with, or not at all if nobody is left to answer or the worker leaves. -/
theorem SessionReport.run_attended {s : SessionStart} {steps : List CallerStep} {arrivals : List (List Demand)}
    {fuel : Nat} {report : Option SessionReport} {w : World} (ran : run s steps arrivals fuel = .ok (report, w)) :
    w.Attended := by
  have leave (w : World) (_ : w.Open) (_ : w.worker.stopping = true) (ok : w.Attending) :
      (Duty.leave.apply w).Dismissing := ok.leave
  rcases run_keeps attending_stable dismissing_abiding leave (fun _ new => new.attending) ran with ok | ok
  next => exact ok.attended
  next => exact ok.attended

/-- The caller waits for a promise that a program resolves in the meantime. -/
def waitingSteps (during : List Op) : List CallerStep :=
  [.createDeferred (some "d"), .invoke [.deferred (.promise "d" (some "p"))],
    .await "p" none (some "o") (some (during ++ [.worker (.settleValue "d" true .undefined)])) none false]

namespace Mark

/-- Whether a watcher was answered with an outcome, and what could be told of its promise. -/
def answer? : Mark -> Option (Bool × Option PromiseState)
  | answered _ result told => some (result.toBool, told.map Settlement.state)
  | _ => none

theorem answer?_eq_some {m : Mark} {told : PromiseState} (shown : m.answer? = some (false, some told)) :
    ∃ x result found, m = answered x result found ∧ ¬ Conveys result found := by
  cases m with
  | answered x result found =>
    cases result with
    | ok o => cases shown
    | error e =>
      cases found with
      | none => cases shown
      | some found => exact ⟨x, .error e, some found, rfl, id⟩
  | _ => cases shown

end Mark

theorem waiting_attended : ∃ report w, SessionReport.run ⟨{}, [], none⟩ (waitingSteps []) [] 5 = .ok (report, w) ∧
    w.journal.filterMap Mark.answer? = [(true, some .fulfilled)] ∧ w.Attended := by
  obtain ⟨report, w, ran, shown⟩ :=
    SessionReport.run_shows ⟨{}, [], none⟩ (waitingSteps []) [] 5 (fun w => w.journal.filterMap Mark.answer?)
      [(true, some .fulfilled)] (by decide +kernel)
  exact ⟨report, w, ran, shown, SessionReport.run_attended ran⟩

/-- From then on the engine does not say what a promise has come to. -/
def hushing : Op :=
  .worker (.fault "promise_state" (some ⟨0, none, .error "boom"⟩))

/-- What the engine fails with when it is asked for the settlement goes to the caller in place of it. -/
theorem hushed_misinformed : ∃ report w, SessionReport.run ⟨{}, [], none⟩ (waitingSteps [hushing]) [] 5 = .ok (report, w) ∧
    ∃ x result told, .answered x result told ∈ w.journal ∧ ¬ Conveys result told := by
  obtain ⟨report, w, ran, shown⟩ :=
    SessionReport.run_shows ⟨{}, [], none⟩ (waitingSteps [hushing]) [] 5 (fun w => w.journal.filterMap Mark.answer?)
      [(false, some .fulfilled)] (by decide +kernel)
  have member : (false, some PromiseState.fulfilled) ∈ w.journal.filterMap Mark.answer? := shown ▸ List.mem_singleton.2 rfl
  obtain ⟨m, member, answer⟩ := List.mem_filterMap.1 member
  obtain ⟨x, result, told, rfl, other⟩ := Mark.answer?_eq_some answer
  exact ⟨report, w, ran, x, result, told, member, other⟩

end ScriptHost
