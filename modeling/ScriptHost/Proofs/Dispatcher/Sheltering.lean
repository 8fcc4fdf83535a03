import ScriptHost.Proofs.Dispatcher.Faithful

set_option autoImplicit false

/-!
Which waits keep a rejection from being reported.

Before rejections are reported, everybody who watches a promise that has settled is answered, and watches it no more. So
whether a promise is watched makes no difference. A wait of the worker itself does, if it still goes on at the flush that
follows the rejection.
-/

namespace ScriptHost

open LoopM

/-- Nobody watches a promise that has settled when rejections are reported. -/
def Mark.Relieved : Mark -> List Mark -> Prop
  | flush m, _ => ∀ p ∈ m.watched, p ∉ m.history.filterMap Happening.settled?
  | _, _ => True

theorem Mark.relieved_of_unflushed {m : Mark} (other : m.flush? = none) (earlier : List Mark) : m.Relieved earlier := by
  cases m <;> trivial

section Told

variable {later earlier : List Mark} {ps : List Ptr} {p : Ptr} {m : Moment}

/-- Of the promises that were rejected since the flush before, those are reported that are due at this one. -/
theorem Told.flushed (told : Told ps (later ++ .flush m :: earlier))
    (once : ((lastHistory (later ++ .flush m :: earlier)).filterMap Happening.settled?).Nodup) :
    ∃ recent, m.history = recent ++ lastHistory earlier ∧ ∀ p ∈ recent.filterMap Happening.rejected?,
      (p ∈ ps ++ reportedPromises (later ++ .flush m :: earlier) <->
        p ∈ unhandled (m.awaited ++ m.watched) (lastHistory earlier) recent) := by
  induction later generalizing ps with
  | nil =>
    obtain ⟨⟨recent, split, rfl⟩, before⟩ := told
    refine ⟨recent, split, fun p rejected => ?_⟩
    have fresh : p ∉ reportedPromises earlier := by
      intro reported
      have old := (rejected_sublist _).mem (before.sublist.mem reported)
      rw [List.nil_append, lastHistory, split, List.filterMap_append] at once
      exact (List.nodup_append.1 once).2.2 p ((rejected_sublist _).mem rejected) p old rfl
    exact List.mem_append.trans (or_iff_left fresh)
  | cons mark rest ih =>
    cases mark with
    | reported q =>
      obtain ⟨recent, split, due⟩ := ih told once
      refine ⟨recent, split, fun p rejected => (due p rejected).symm.trans ?_ |>.symm⟩
      simp only [List.cons_append, reportedPromises, List.filterMap_cons, Mark.reported?, List.mem_append, List.mem_cons]
      tauto
    | flush n =>
      obtain ⟨⟨newer, newer_split, rfl⟩, before⟩ := told
      have known := before.suppressed.1
      rw [List.cons_append, lastHistory, newer_split, List.filterMap_append] at once
      obtain ⟨-, once, apart⟩ := List.nodup_append.1 once
      obtain ⟨recent, split, due⟩ := ih before once
      refine ⟨recent, split, fun p rejected => ?_⟩
      -- The promise had settled by then, so it is not among those of the later flush.
      have settled : p ∈ (lastHistory (rest ++ .flush m :: earlier)).filterMap Happening.settled? := by
        refine (known.sublist.filterMap _).mem ?_
        rw [split, List.filterMap_append]
        exact List.mem_append_left _ ((rejected_sublist _).mem rejected)
      have old : p ∉ unhandled (n.awaited ++ n.watched) (lastHistory (rest ++ .flush m :: earlier)) newer := by
        intro new
        have new := (rejected_sublist newer).mem ((unhandled_sublist _ _ newer).mem (List.mem_reverse.2 new))
        exact apart p new p settled rfl
      exact (List.mem_append.trans (or_iff_right old)).trans (due p rejected)
    | _ => exact ih told once

end Told

/-- The waits of the worker that go on at a flush keep rejections from being reported, and no others do. -/
structure Sheltering (journal : List Mark) : Prop where
  -- Whoever watched a promise that has settled by a flush was answered or dropped before.
  relieved : ∀ {later earlier : List Mark} {m : Moment} {p : Ptr}, journal = later ++ .flush m :: earlier ->
    p ∈ m.watched -> p ∉ m.history.filterMap Happening.settled?
  -- What becomes of the rejections between a flush and the one before.
  flushed : ∀ {later earlier : List Mark} {m : Moment}, journal = later ++ .flush m :: earlier ->
    ∃ recent, m.history = recent ++ lastHistory earlier ∧ ∀ p ∈ recent.filterMap Happening.rejected?,
      (.reported p ∈ journal <-> p ∉ m.awaited ∧ .reacted p ∉ m.history)
  -- After the last flush, no rejection is reported.
  known : ∀ {p : Ptr}, .reported p ∈ journal -> p ∈ (lastHistory journal).filterMap Happening.rejected?

namespace World

variable {w w' : World} {ps : List Ptr}

theorem Hush.fits (hush : Hush w w') (fits : w'.Fits) : w.Fits where
  faultless member := fits.faultless (hush.journal member)
  pointers := Nat.le_trans hush.grown.heap fits.pointers
  space := by
    have space := fits.space
    have memory : w.engine.memory.next ≤ w'.engine.memory.next := hush.grown.memory
    have history : w'.engine.heap.history = w.engine.heap.history := hush.history
    rw [history] at space
    omega

/-- The reports are those that were due, and whoever watches has been answered when they are made. -/
structure Relieving (w : World) : Prop where
  reporting : w.Reporting
  relieved : w.Fits -> Throughout Mark.Relieved w.journal

theorem Notes.throughout (notes : Notes ps w w') (ok : Throughout Mark.Relieved w.journal) :
    Throughout Mark.Relieved w'.journal := by
  obtain ⟨marks, grown, -, unflushed⟩ := notes.journal
  rw [grown]
  exact ok.append fun m member => Mark.relieved_of_unflushed (List.filterMap_eq_nil_iff.1 unflushed m member)

theorem Tells.relieving (tells : Tells [] w w') (ok : w.Relieving) : w'.Relieving where
  reporting := tells.reporting ok.reporting
  relieved fits := tells.throughout (ok.relieved (tells.fits fits))

/-- What was found pending, and to which nothing has happened since, is not among the promises that have settled. -/
theorem Checked.unsettled (checked : w.Checked Relieving) (fits : w.Fits) (clear : w.worker.vault.link.faults = Table.empty)
    {p : Ptr} (watched : p ∈ w.worker.watchedPromises) : p ∉ w.heap.history.filterMap Happening.settled? := by
  obtain ⟨x, member, rfl⟩ := List.mem_map.1 watched
  obtain ⟨seen, ok, told, hush⟩ := checked ⟨fits.faultless, clear⟩ x member
  obtain ⟨recording, -⟩ := ok.reporting (hush.fits fits)
  obtain ⟨-, record, found, pending, -⟩ := Vault.told_eq_some.1 told
  rw [← Heap.get?_promises] at found
  intro settled
  obtain ⟨v, rejected, happened⟩ := mem_settled.1 settled
  rw [hush.history] at happened
  exact recording.records.chronicle.unsettled found pending v rejected happened

theorem relieving_flush (opened : w.Open) (checked : w.Checked Relieving) (ok : w.Relieving) :
    (final flushRejections w).Relieving := by
  refine ⟨reporting_flush opened ok.reporting, fun fits => ?_⟩
  obtain ⟨ps, tells, -⟩ := w.flushRejections_tells
  have arrived := w.tells_arrive.relieving ok
  have checked := w.lull_arrive.checked checked
  have grown : w.arrive.engine.Grown (final takeUnhandled (Duty.flush.apply w.arrive)).engine :=
    grown_takeUnhandled _ w.arrive.worker.vault
  have fits : w.arrive.Fits := (tells.fits fits).before (List.suffix_cons _ _) grown
  obtain ⟨recording, -⟩ := arrived.reporting fits
  have noted : Throughout Mark.Relieved (.flush w.arrive.moment :: w.arrive.journal) :=
    ⟨fun _ watched => checked.unsettled fits recording.clear watched, arrived.relieved fits⟩
  exact tells.throughout noted

theorem stable_relieving : Stable Relieving where
  schedule w a ok := ((still_tells [] w).schedule w a (.refl w)).relieving ok
  change c w ok := (tells_change c w).relieving ok
  ask q w ok := (w.tells_ask q).relieving ok
  book w alive next ok := ((still_tells [] w).book w alive next (.refl w)).relieving ok
  duty d _ _ allowed ok := (tells_duty d allowed).relieving ok
  flush _ opened _ checked ok := relieving_flush opened checked ok

/-- What stays when nothing is reported any more. -/
structure Relieved (w : World) : Prop where
  reported : w.Reported
  once : w.Fits -> ((lastHistory w.journal).filterMap Happening.settled?).Nodup
  relieved : w.Fits -> Throughout Mark.Relieved w.journal

theorem Relieving.done (ok : w.Relieving) : w.Relieved where
  reported := ok.reporting.reported
  once fits := by
    obtain ⟨recording, -⟩ := ok.reporting fits
    obtain ⟨recent, split⟩ := recording.records.recent
    have once := recording.records.chronicle.once
    rw [show w.engine.heap.affairs.history = recent ++ lastHistory w.journal from split.symm, List.filterMap_append] at once
    exact (List.nodup_append.1 once).2.1
  relieved := ok.relieved

theorem Notes.relieved (notes : Notes [] w w') (ok : w.Relieved) : w'.Relieved where
  reported := notes.reported ok.reported
  once fits := by
    obtain ⟨marks, journal, -, unflushed⟩ := notes.journal
    rw [journal, lastHistory_append unflushed]
    exact ok.once (notes.fits fits)
  relieved fits := notes.throughout (ok.relieved (notes.fits fits))

theorem abiding_relieved : Abiding Relieved where
  schedule w a ok := ((still_tells [] w).schedule w a (.refl w)).relieved ok
  change c w ok := (tells_change c w).relieved ok
  ask q w ok := (w.tells_ask q).relieved ok
  book w alive next ok := ((still_tells [] w).book w alive next (.refl w)).relieved ok
  close _ ok := Notes.relieved ⟨⟨[], rfl, rfl, rfl⟩, OwnerM.law_grown.closeEngine _⟩ ok
  duty d _ lets ok := (tells_letsGo d lets).relieved ok

theorem Relieved.sheltering (ok : w.Relieved) (fits : w.Fits) : Sheltering w.journal := by
  obtain ⟨told, -⟩ := ok.reported fits
  have once := ok.once fits
  have relieved := ok.relieved fits
  generalize w.journal = journal at told once relieved
  constructor
  case relieved =>
    rintro later earlier m p rfl
    exact relieved.earlier.1 p
  case known => exact fun reported => told.sublist.mem (mem_reportedPromises.2 reported)
  case flushed =>
    rintro later earlier m rfl
    obtain ⟨recent, split, due⟩ := told.flushed once
    refine ⟨recent, split, fun p rejected => ?_⟩
    have unwatched : p ∉ m.watched := by
      intro watched
      refine relieved.earlier.1 p watched ?_
      rw [split, List.filterMap_append]
      exact List.mem_append_left _ ((rejected_sublist _).mem rejected)
    rw [← mem_reportedPromises, ← List.nil_append (reportedPromises _), due p rejected, unhandled, List.mem_filter,
      decide_eq_true_eq, split, List.mem_append, not_or]
    simp [List.filterMap_reverse, rejected, unwatched]

end World

/-- In a session without a memory limit, it depends on the waits of the worker itself whether a rejection without a
reaction is reported, and only on those that go on at the next flush. Whoever waits elsewhere does not count. -/
theorem SessionReport.run_sheltering {s : SessionStart} {steps : List CallerStep} {arrivals : List (List Demand)}
    {fuel : Nat} {report : Option SessionReport} {w : World} (unlimited : s.config.memoryLimit = none)
    (ran : run s steps arrivals fuel = .ok (report, w)) (fits : w.Fits) : Sheltering w.journal := by
  have relieved : w.Relieved :=
    (run_telling World.stable_relieving World.abiding_relieved (fun w ok => w.tells_leave.relieved ok.done)
      (fun _ new ok => ⟨ok, fun _ => new.throughout fun _ => trivial⟩) unlimited ran).elim World.Relieving.done id
  exact relieved.sheltering fits

/-- Rejects a promise in a while. -/
def rejectingLater (d : String) : Op :=
  .timer "reject" [.worker (.settleValue d false (.text "no"))] 1 false none

/-- A program waits for a promise that is rejected meanwhile, and so does the caller for another one. -/
def shelteringSteps : List CallerStep :=
  [.invoke [
    .worker (.deferred (some "d")), .deferred (.promise "d" (some "p")), rejectingLater "d",
    .worker (.await "p" none (some "o")), .worker (.deferred (some "e")), .deferred (.promise "e" (some "q"))],
    .await "q" none (some "r") (some [rejectingLater "e"]) none false]

/-- Both promises are rejected, and one of them is reported. -/
theorem awaiting_sheltering : ∃ report w, SessionReport.run ⟨{}, [], none⟩ shelteringSteps [] 9 = .ok (report, w) ∧
    ((lastHistory w.journal).filterMap Happening.rejected? = [20, 16] ∧ reportedPromises w.journal = [20] ∧ w.Fits) ∧
      Sheltering w.journal := by
  obtain ⟨report, w, ran, shown⟩ := SessionReport.run_shows ⟨{}, [], none⟩ shelteringSteps [] 9
    (fun w => ((lastHistory w.journal).filterMap Happening.rejected?, reportedPromises w.journal, decide w.Fits))
    ([20, 16], [20], true) (by decide +kernel)
  obtain ⟨rejected, shown⟩ := Prod.mk.inj shown
  obtain ⟨reported, fits⟩ := Prod.mk.inj shown
  have fits := of_decide_eq_true fits
  exact ⟨report, w, ran, ⟨rejected, reported, fits⟩, SessionReport.run_sheltering rfl ran fits⟩

/-- The promise of a watcher who is told of its rejection. -/
def Mark.letDown? : Mark -> Option Ptr
  | answered x (.ok (.failure _)) _ => some x.promise.ptr
  | _ => none

/-- A promise is rejected while the caller watches it. The caller is told of the rejection, and the hook as well. -/
theorem watching_unsheltered : ∃ report w, SessionReport.run ⟨{}, [], none⟩ shelteringSteps [] 9 = .ok (report, w) ∧
    ∃ later earlier m, w.journal = later ++ .flush m :: earlier ∧
      m.watched = [20] ∧ m.history.filterMap Happening.settled? = [16] ∧
      later.filterMap Mark.letDown? = [20] ∧ reportedPromises later = [20] := by
  obtain ⟨report, w, ran, shown⟩ := SessionReport.run_shows ⟨{}, [], none⟩ shelteringSteps [] 9
    (fun w => ((w.journal[29]?.bind Mark.flush?).map fun m => (m.watched, m.history.filterMap Happening.settled?),
      (w.journal.take 29).filterMap Mark.letDown?, reportedPromises (w.journal.take 29)))
    (some ([20], [16]), [20], [20]) (by decide +kernel)
  obtain ⟨flushed, shown⟩ := Prod.mk.inj shown
  obtain ⟨told, reported⟩ := Prod.mk.inj shown
  obtain ⟨m, found, shown⟩ := Option.map_eq_some_iff.1 flushed
  obtain ⟨watched, settled⟩ := Prod.mk.inj shown
  obtain ⟨mark, here, same⟩ := Option.bind_eq_some_iff.1 found
  obtain ⟨small, there⟩ := List.getElem?_eq_some_iff.1 here
  have split : w.journal = w.journal.take 29 ++ mark :: w.journal.drop 30 := by
    rw [← there, ← List.drop_eq_getElem_cons small, List.take_append_drop]
  cases mark with
  | flush n =>
    cases same
    exact ⟨report, w, ran, _, _, m, split, watched, settled, told, reported⟩
  | _ => cases same

end ScriptHost
