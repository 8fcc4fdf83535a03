import ScriptHost.Proofs.Dispatcher.Sessions
import ScriptHost.Proofs.Dispatcher.Unhandled

set_option autoImplicit false

/-!
Reports of rejections over a whole session: each flush tells of what is unhandled then, and of nothing else.

Pointers tell promises apart until the engine runs out of them, and a flush needs memory for what it takes. Both
are said of the world that a session comes to.
-/

namespace ScriptHost

open LoopM

namespace Mark

def reported? : Mark -> Option Ptr
  | reported p => some p
  | _ => none

def flush? : Mark -> Option Moment
  | flush m => some m
  | _ => none

def isFault : Mark -> Bool
  | fault => true
  | _ => false

end Mark

/-- The promises of whose rejections the hook was told, newest first. -/
def reportedPromises (journal : List Mark) : List Ptr :=
  journal.filterMap Mark.reported?

/-- What had happened to promises by the last flush. -/
def lastHistory : List Mark -> List Happening
  | [] => []
  | .flush m :: _ => m.history
  | _ :: earlier => lastHistory earlier

/-- Between a flush and the next one, the hook is told of the promises that were rejected since the flush before,
have no reaction by now, and are neither awaited nor watched. It is told of them in the order of their rejections,
and of nothing else. The reports of the latest flush that are not in the journal any more are `later`. -/
def Told : List Ptr -> List Mark -> Prop
  | later, [] => later = []
  | later, .reported p :: earlier => Told (p :: later) earlier
  | later, .flush m :: earlier =>
      (∃ recent, m.history = recent ++ lastHistory earlier ∧
        later = unhandled (m.awaited ++ m.watched) (lastHistory earlier) recent) ∧ Told [] earlier
  | later, _ :: earlier => Told later earlier

section Told

variable {marks journal later earlier : List Mark} {ps : List Ptr} {p : Ptr} {m : Moment}

theorem told_append (unflushed : marks.filterMap Mark.flush? = []) :
    Told ps (marks ++ journal) <-> Told ((reportedPromises marks).reverse ++ ps) journal := by
  induction marks generalizing ps with
  | nil => rfl
  | cons mark rest ih =>
    cases mark with
    | flush m => cases unflushed
    | reported p =>
      rw [List.cons_append, Told, ih unflushed]
      simp [reportedPromises, Mark.reported?]
    | _ => exact ih unflushed

theorem lastHistory_append (unflushed : marks.filterMap Mark.flush? = []) :
    lastHistory (marks ++ journal) = lastHistory journal := by
  induction marks with
  | nil => rfl
  | cons mark rest ih =>
    cases mark with
    | flush m => cases unflushed
    | _ => exact ih unflushed

theorem Told.before (told : Told ps (later ++ .flush m :: earlier)) : Told [] earlier := by
  induction later generalizing ps with
  | nil => exact told.2
  | cons mark rest ih =>
    cases mark with
    | flush n => exact ih told.2
    | _ => exact ih told

/-- Later flushes know all that earlier ones knew, and tell of no promise that had a reaction then. -/
theorem Told.suppressed (told : Told ps (later ++ .flush m :: earlier)) :
    m.history <:+ lastHistory (later ++ .flush m :: earlier) ∧
      ∀ p, .reacted p ∈ m.history -> p ∉ ps ++ reportedPromises later := by
  induction later generalizing ps with
  | nil =>
    refine ⟨List.suffix_refl _, fun p reacted member => ?_⟩
    obtain ⟨⟨recent, split, due⟩, -⟩ := told
    rw [reportedPromises, List.filterMap_nil, List.append_nil, due] at member
    have free := (List.mem_filter.1 member).2
    rw [decide_eq_true_eq, ← split] at free
    exact free.2 reacted
  | cons mark rest ih =>
    cases mark with
    | reported p =>
      obtain ⟨known, silent⟩ := ih told
      refine ⟨known, fun q reacted member => silent q reacted ?_⟩
      simp only [reportedPromises, List.filterMap_cons, Mark.reported?, List.mem_append, List.mem_cons] at member ⊢
      tauto
    | flush n =>
      obtain ⟨⟨recent, split, due⟩, before⟩ := told
      obtain ⟨known, silent⟩ := ih before
      have more : m.history <:+ n.history := split ▸ known.trans (List.suffix_append _ _)
      refine ⟨more, fun q reacted member => ?_⟩
      rcases List.mem_append.1 member with now | before
      next =>
        have free := (List.mem_filter.1 (due ▸ now)).2
        rw [decide_eq_true_eq] at free
        exact free.2 (split ▸ more.mem reacted)
      next => exact silent q reacted before
    | _ => exact ih told

/-- What has been told are rejections, each one once. -/
theorem Told.sublist (told : Told ps journal) :
    (ps.reverse ++ reportedPromises journal).Sublist ((lastHistory journal).filterMap Happening.rejected?) := by
  induction journal generalizing ps with
  | nil =>
    obtain rfl : ps = [] := told
    exact .slnil
  | cons mark earlier ih =>
    cases mark with
    | reported p =>
      have before := ih told
      rwa [List.reverse_cons, List.append_assoc] at before
    | flush m =>
      obtain ⟨⟨recent, split, due⟩, before⟩ := told
      rw [lastHistory, split, List.filterMap_append, due]
      exact (unhandled_sublist _ _ recent).append (ih before)
    | _ => exact ih told

end Told

namespace World

variable {w w' w'' : World} {ps qs : List Ptr} {past : List Happening}

def engine (w : World) : Engine :=
  w.worker.vault.link.engine

/-- No fault was in the way, there are pointers left, and memory for a flush. -/
structure Fits (w : World) : Prop where
  faultless : .fault ∉ w.journal
  pointers : w.engine.heap.next ≤ UInt32.size
  space : w.engine.memory.next + 12 * w.engine.heap.history.length + 24 ≤ Memory.lastAddress

structure Recording (past : List Happening) (w : World) : Prop where
  clear : w.worker.vault.link.faults = Table.empty
  records : w.engine.Records past

/-- The hook is told of these promises, and nothing is flushed. -/
structure Notes (ps : List Ptr) (w w' : World) : Prop where
  journal : ∃ marks, w'.journal = marks ++ w.journal ∧ reportedPromises marks = ps.reverse ∧
    marks.filterMap Mark.flush? = []
  grown : w.engine.Grown w'.engine

/-- Recording goes on meanwhile. -/
structure Tells (ps : List Ptr) (w w' : World) : Prop extends Notes ps w w' where
  recording : ∀ past, w'.Fits -> w.Recording past -> w'.Recording past

/-- What does not fit later on cannot be made to fit. -/
theorem Fits.before (fits : w'.Fits) (journal : w.journal <:+ w'.journal) (grown : w.engine.Grown w'.engine) :
    w.Fits where
  faultless member := fits.faultless (journal.mem member)
  pointers := Nat.le_trans grown.heap fits.pointers
  space := by
    have space := fits.space
    have memory := grown.memory
    have history := grown.history.length_le
    omega

theorem Notes.fits (notes : Notes ps w w') (fits : w'.Fits) : w.Fits := by
  obtain ⟨marks, journal, -⟩ := notes.journal
  exact fits.before (journal ▸ List.suffix_append _ _) notes.grown

theorem Notes.trans (first : Notes ps w w') (second : Notes qs w' w'') : Notes (ps ++ qs) w w'' where
  journal := by
    obtain ⟨marks, grown, told, unflushed⟩ := first.journal
    obtain ⟨marks', grown', told', unflushed'⟩ := second.journal
    refine ⟨marks' ++ marks, by rw [grown', grown, List.append_assoc], ?_, ?_⟩
    next => rw [reportedPromises, List.filterMap_append, List.reverse_append, ← told, ← told']; rfl
    next => rw [List.filterMap_append, unflushed, unflushed', List.nil_append]
  grown := first.grown.trans second.grown

theorem Tells.refl (w : World) : Tells [] w w :=
  ⟨⟨⟨[], rfl, rfl, rfl⟩, .refl _⟩, fun _ _ ok => ok⟩

theorem Tells.trans (first : Tells ps w w') (second : Tells qs w' w'') : Tells (ps ++ qs) w w'' :=
  ⟨first.toNotes.trans second.toNotes,
    fun past fits ok => second.recording past fits (first.recording past (second.fits fits) ok)⟩

theorem Tells.of_same (link : w'.worker.vault.link = w.worker.vault.link) (journal : w'.journal = w.journal) :
    Tells [] w w' where
  journal := ⟨[], journal, rfl, rfl⟩
  grown := by
    rw [engine, engine, link]
    exact .refl _
  recording _ _ ok := ⟨link ▸ ok.clear, by rw [engine, link]; exact ok.records⟩

theorem Tells.of_note {m : Mark} (link : w'.worker.vault.link = w.worker.vault.link)
    (journal : w'.journal = m :: w.journal) (silent : m.reported?.toList = ps) (unflushed : m.flush? = none) :
    Tells ps w w' where
  journal := by
    refine ⟨[m], journal, ?_, by simp [unflushed]⟩
    rw [← silent]
    cases told : m.reported? <;> simp [reportedPromises, told]
  grown := by
    rw [engine, engine, link]
    exact .refl _
  recording _ _ ok := ⟨link ▸ ok.clear, by rw [engine, link]; exact ok.records⟩

theorem tells_ask (q : Ask) (w : World) : Tells [] w (w.onLink fun l => (q.perform.run l).2) where
  journal := ⟨[], rfl, rfl, rfl⟩
  grown := (q.perform_onward _).toGrown
  recording past fits ok :=
    ⟨q.perform_faultless.2 ok.clear, (q.perform_onward _).records past fits.pointers ok.records⟩

theorem tells_setPhase (w : World) (p : Phase) : Tells [] w (w.setPhase p) := by
  unfold setPhase
  split
  next => exact .refl w
  next => exact .of_note rfl rfl rfl rfl

theorem tells_meet (w : World) (d : Demand) : Tells [] w (w.meet d) := by
  cases d with
  | send port item =>
    simp only [meet]
    split <;> exact .of_note rfl rfl rfl rfl
  | announce => exact w.tells_setPhase _
  | close =>
    simp only [meet]
    split
    next => exact .of_note rfl rfl rfl rfl
    next => exact .refl w
  | hold => exact .of_same rfl rfl
  | letGo => exact .of_same rfl rfl
  | desert reply => exact .of_same rfl rfl

theorem tells_change (c : Change) (w : World) : Tells [] w (c.apply w) := by
  cases c with
  | demand d => exact w.tells_meet d
  | queueMicrotask c => exact .of_note rfl rfl rfl rfl
  | patience polls => exact ⟨⟨⟨[], rfl, rfl, rfl⟩, .refl _⟩, fun _ _ ok => ⟨ok.clear, ok.records⟩⟩
  | fault name f =>
    refine ⟨⟨⟨[.fault], rfl, rfl, rfl⟩, ?_⟩, fun _ fits => absurd (List.mem_cons_self ..) fits.faultless⟩
    cases f <;> exact .refl _
  | stand => exact .of_note rfl rfl rfl rfl
  | script => exact .of_note rfl rfl rfl rfl
  | _ => exact .of_same rfl rfl

/-- What has been told so far stays told. -/
theorem still_tells (ps : List Ptr) (w : World) : Still (Tells ps w) where
  schedule w' a told := by
    have kept : Tells [] w' { w' with arrivals := a } := .of_same rfl rfl
    exact List.append_nil ps ▸ told.trans kept
  change c w' told := List.append_nil ps ▸ told.trans (tells_change c w')
  ask q w' told := List.append_nil ps ▸ told.trans (w'.tells_ask q)
  book w' alive nextReference told := by
    have kept : Tells [] w' (w'.onVault fun v => { v with alive, nextReference }) := .of_same rfl rfl
    exact List.append_nil ps ▸ told.trans kept

theorem tells_arrive (w : World) : Tells [] w w.arrive :=
  ((still_tells [] w).arrive (b := 0) w).kept (.refl w)

theorem tells_ran {α : Type} (act : WorldM α) (w : World) : Tells [] w (final (Runner.flat.act act) w) :=
  ((still_tells [] w).ran Runner.flat_sound act (Nat.zero_le _)).kept (.refl w)

theorem report_ends (e : Handle × Handle) (w : World) :
    result (report e) w = some () ∧ Tells [e.1.ptr] w (final (report e) w) := by
  obtain ⟨reason, read⟩ := Runner.plain_ends (r := .flat) (t := .worker) (Attempt.plain_reasonOf e.2) w
  have came : result (Runner.flat.act (Attempt.reasonOf e.2).run) w = some reason := read
  unfold report
  simp only [final_bind, result_bind, came, result_step]
  have asked := tells_ran (Attempt.reasonOf e.2).run w
  generalize final (Runner.flat.act (Attempt.reasonOf e.2).run) w = w' at *
  have told : Tells [e.1.ptr] w' (final (step (.report e.1.ptr (toldReason reason))) w') :=
    w'.tells_arrive.trans (.of_note rfl rfl rfl rfl)
  generalize final (step (.report e.1.ptr (toldReason reason))) w' = w'' at *
  exact ⟨Runner.plain_ends (WorldM.plain_discardHandles [e.1, e.2]) w'' |>.elim fun _ ended => ended,
    (asked.trans told).trans (tells_ran _ _)⟩

/-- The hook is told of one promise after the other. -/
theorem reportAll_ends (pairs : List (Handle × Handle)) (w : World) :
    result (reportAll pairs) w = some () ∧ Tells (promisesOf pairs) w (final (reportAll pairs) w) := by
  induction pairs generalizing w with
  | nil => exact ⟨rfl, .refl w⟩
  | cons e rest ih =>
    obtain ⟨ended, told⟩ := report_ends e w
    obtain ⟨rest_ended, rest_told⟩ := ih (final (report e) w)
    simp only [reportAll, result_bind, final_bind, ended]
    exact ⟨rest_ended, told.trans rest_told⟩

/-- Recording goes on since the last flush, and the reports are those that were due. -/
def Reporting (w : World) : Prop :=
  w.Fits -> w.Recording (lastHistory w.journal) ∧ Told [] w.journal

theorem Tells.reporting (tells : Tells [] w w') (ok : w.Reporting) : w'.Reporting := by
  intro fits
  obtain ⟨recording, told⟩ := ok (tells.fits fits)
  obtain ⟨marks, journal, silent, unflushed⟩ := tells.journal
  rw [journal, lastHistory_append unflushed, told_append unflushed, silent]
  exact ⟨tells.recording _ fits recording, told⟩

theorem grown_takeUnhandled (held : List Ptr) (v : Vault) :
    v.link.engine.Grown (outcome (Vault.takeUnhandled held) v).2.link.engine := by
  have law : Vault.Custodial fun v v' => v.link.engine.Grown v'.link.engine :=
    .of_asks ⟨fun v => .refl _, .trans⟩ (fun q _ v => (q.perform_onward v.link).toGrown) fun _ _ _ => .refl _
  exact law.leads_takeUnhandled (fun v => OwnerM.law_grown.takeRejections v.link) held v

theorem flushRejections_tells (w : World) :
    ∃ ps, Tells ps (final takeUnhandled (Duty.flush.apply w.arrive)) (final flushRejections w) ∧
      ∀ pairs, result takeUnhandled (Duty.flush.apply w.arrive) = some (.ok pairs) -> ps = promisesOf pairs := by
  unfold flushRejections
  rw [final_bind, result_step, final_step]
  dsimp only
  rw [final_bind]
  cases result takeUnhandled (Duty.flush.apply w.arrive) with
  | none => exact ⟨[], .refl _, nofun⟩
  | some answer =>
    cases answer with
    | ok pairs =>
      refine ⟨_, (reportAll_ends pairs _).2, fun _ same => ?_⟩
      cases same
      rfl
    | error e => exact ⟨[], .refl _, nofun⟩

/-- A flush tells of what is unhandled, and what happened before does not count for the next one. -/
theorem reporting_flush (opened : w.Open) (ok : w.Reporting) : (final flushRejections w).Reporting := by
  obtain ⟨ps, tells, told⟩ := w.flushRejections_tells
  have arrived := w.tells_arrive.reporting ok
  have opened : w.arrive.Open := (frame_arrive (b := 0) w).open opened
  generalize final flushRejections w = w' at *
  generalize w.arrive = u at *
  let held := u.worker.awaitedPromises ++ u.worker.watchedPromises
  have grown : u.engine.Grown (final takeUnhandled (Duty.flush.apply u)).engine :=
    grown_takeUnhandled held u.worker.vault
  intro fits
  have fits_taken := tells.fits fits
  have fits_before := fits_taken.before (List.suffix_cons _ _) grown
  obtain ⟨recording, before⟩ := arrived fits_before
  have taken := @Vault.takeUnhandled_takes u.worker.vault held _ ⟨opened, recording.clear⟩ recording.records
  obtain ⟨ready, records, recent, pairs, split, came, due⟩ := taken fits_taken.pointers fits_before.space
  obtain ⟨marks, journal, reported, unflushed⟩ := tells.journal
  obtain rfl : ps = promisesOf pairs := told pairs (congrArg some came)
  have journal : w'.journal = marks ++ .flush u.moment :: u.journal := journal
  rw [journal, lastHistory_append unflushed, told_append unflushed, reported, List.reverse_reverse, List.append_nil]
  exact ⟨tells.recording _ fits ⟨ready.clear, records⟩, ⟨recent, split, due⟩, before⟩

theorem tells_duty (d : Duty) (allowed : d.Allowed w) : Tells [] w (d.apply w) := by
  cases d with
  | phase p => exact w.tells_setPhase p
  | receive =>
    simp only [Duty.apply]
    split
    next => exact .refl w
    next => exact .of_same rfl rfl
  | take =>
    simp only [Duty.apply]
    split
    next => exact .refl w
    next => exact .of_note rfl rfl rfl rfl
    next => exact .of_note rfl rfl rfl rfl
  | takeMicrotask =>
    simp only [Duty.apply]
    split
    next => exact .refl w
    next => exact .of_note rfl rfl rfl rfl
  | beginCycle => exact .of_note rfl rfl rfl rfl
  | delayed n => exact .of_note rfl rfl rfl rfl
  | watch x => exact .of_note rfl rfl rfl rfl
  | answer x result => exact .of_note rfl rfl rfl rfl
  | forsake x => exact .of_note rfl rfl rfl rfl
  | block => exact .of_note rfl rfl rfl rfl
  | flush => exact allowed.elim
  | report p reason => exact allowed.elim
  | leave => exact allowed.elim
  | closeVault => exact allowed.elim
  | stop => exact allowed.elim
  | _ => exact .of_same rfl rfl

theorem tells_letsGo (d : Duty) (lets : d.LetsGo) : Tells [] w (d.apply w) := by
  cases d with
  | stop => exact .of_note rfl rfl rfl rfl
  | dropCommands => exact .of_same rfl rfl
  | dropWork => exact .of_same rfl rfl
  | dropFunctions => exact .of_same rfl rfl
  | closeVault => exact .of_same rfl rfl
  | _ => exact lets.elim

theorem stable_reporting : Stable Reporting where
  schedule w a ok := ((still_tells [] w).schedule w a (.refl w)).reporting ok
  change c w ok := (tells_change c w).reporting ok
  ask q w ok := (w.tells_ask q).reporting ok
  book w alive next ok := ((still_tells [] w).book w alive next (.refl w)).reporting ok
  duty d _ _ allowed ok := (tells_duty d allowed).reporting ok
  flush _ opened _ _ ok := reporting_flush opened ok

/-- The reports are those that were due, and no promise is reported twice. -/
def Reported (w : World) : Prop :=
  w.Fits -> Told [] w.journal ∧ (reportedPromises w.journal).Nodup

theorem Reporting.reported (ok : w.Reporting) : w.Reported := by
  intro fits
  obtain ⟨recording, told⟩ := ok fits
  obtain ⟨recent, split⟩ := recording.records.recent
  have once := recording.records.chronicle.once
  rw [show w.engine.heap.affairs.history = recent ++ lastHistory w.journal from split.symm, List.filterMap_append] at once
  have few := told.sublist.trans (rejected_sublist _)
  exact ⟨told, few.nodup (List.nodup_append.1 once).2.1⟩

theorem Notes.reported (notes : Notes [] w w') (ok : w.Reported) : w'.Reported := by
  intro fits
  obtain ⟨told, once⟩ := ok (notes.fits fits)
  obtain ⟨marks, journal, silent, unflushed⟩ := notes.journal
  have same : reportedPromises w'.journal = reportedPromises w.journal := by
    rw [journal, reportedPromises, List.filterMap_append]
    exact (congrArg (· ++ _) silent).trans (List.nil_append _)
  rw [same, journal, told_append unflushed, silent]
  exact ⟨told, once⟩

theorem abiding_reported : Abiding Reported where
  schedule w a ok := ((still_tells [] w).schedule w a (.refl w)).reported ok
  change c w ok := (tells_change c w).reported ok
  ask q w ok := (w.tells_ask q).reported ok
  book w alive next ok := ((still_tells [] w).book w alive next (.refl w)).reported ok
  close _ ok := Notes.reported ⟨⟨[], rfl, rfl, rfl⟩, OwnerM.law_grown.closeEngine _⟩ ok
  duty d _ lets ok := (tells_letsGo d lets).reported ok

theorem tells_leave (w : World) : Tells [] w (Duty.leave.apply w) :=
  (w.tells_setPhase .shuttingDown).trans (.of_note rfl rfl rfl rfl)

theorem fault_mem {journal : List Mark} : .fault ∈ journal <-> journal.any Mark.isFault = true := by
  rw [List.any_eq_true]
  constructor
  next => exact fun member => ⟨.fault, member, rfl⟩
  next =>
    rintro ⟨m, member, is_fault⟩
    cases m <;> first | exact member | cases is_fault

instance (w : World) : Decidable w.Fits :=
  decidable_of_iff (w.journal.any Mark.isFault = false ∧ w.engine.heap.next ≤ UInt32.size ∧
      w.engine.memory.next + 12 * w.engine.heap.history.length + 24 ≤ Memory.lastAddress)
    ⟨fun fits => ⟨fun member => by simp [fault_mem.1 member] at fits, fits.2.1, fits.2.2⟩,
      fun fits => ⟨by simpa [fault_mem] using fits.faultless, fits.pointers, fits.space⟩⟩

end World

/-- Without a memory limit, a dispatcher that starts records rejections from the start. -/
theorem SessionStart.start_recording {s : SessionStart} {w : World} (unlimited : s.config.memoryLimit = none)
    (started : s.start = .ok w) (fits : w.Fits) : w.Recording [] := by
  refine ⟨(start_new started).faultless fits.faultless, ?_⟩
  have onward := OwnerM.openEngine_onward s.link
  rw [link_engine] at onward
  unfold outcome at onward
  simp only [start, unlimited] at started
  split at started
  next => cases started
  next =>
    split at started
    next => cases started
    next =>
      generalize (OwnerM.openEngine none).run.run s.link = r at *
      obtain ⟨_ | _, link⟩ := r
      next => cases started
      next =>
        cases started
        have records := onward.records [] fits.pointers Engine.records_empty
        exact ⟨records.memory, records.unlimited, records.chronicle, records.recent⟩

/-- The hook is told of the rejections that are due and of nothing else. -/
structure Faithful (journal : List Mark) : Prop where
  told : Told [] journal
  once : (reportedPromises journal).Nodup
  -- A reaction attached before the flush that follows the rejection keeps the promise from ever being reported.
  suppressed : ∀ {later earlier : List Mark} {m : Moment} {p : Ptr}, journal = later ++ .flush m :: earlier ->
    .reacted p ∈ m.history -> p ∉ (lastHistory earlier).filterMap Happening.rejected? -> .reported p ∉ journal

theorem mem_reportedPromises {journal : List Mark} {p : Ptr} :
    p ∈ reportedPromises journal <-> .reported p ∈ journal := by
  constructor
  next =>
    intro told
    obtain ⟨m, member, same⟩ := List.mem_filterMap.1 told
    cases m <;> cases same
    exact member
  next => exact fun member => List.mem_filterMap.2 ⟨_, member, rfl⟩

theorem Told.faithful {journal : List Mark} (told : Told [] journal) (once : (reportedPromises journal).Nodup) :
    Faithful journal := by
  refine ⟨told, once, ?_⟩
  rintro later earlier m p rfl reacted fresh reported
  rcases List.mem_append.1 reported with later | earlier
  next =>
    have silent := told.suppressed.2 p reacted
    exact silent (mem_reportedPromises.2 later)
  next =>
    rcases List.mem_cons.1 earlier with same | earlier
    next => cases same
    next =>
      have few := told.before.sublist
      exact fresh (few.mem (mem_reportedPromises.2 earlier))

/-- What a session keeps that records rejections from the start. -/
theorem SessionReport.run_telling {I I' : World -> Prop} (stable : Stable I) (abiding : Abiding I')
    (leave : ∀ w, I w -> I' (Duty.leave.apply w)) (start : ∀ w : World, w.New -> w.Reporting -> I w) {s : SessionStart}
    {steps : List CallerStep} {arrivals : List (List Demand)} {fuel : Nat} {report : Option SessionReport} {w : World}
    (unlimited : s.config.memoryLimit = none) (ran : run s steps arrivals fuel = .ok (report, w)) : I w ∨ I' w := by
  obtain ⟨begun, started, rfl⟩ := run_begins ran
  have new := (SessionStart.start_new started).scheduled steps arrivals
  have reporting : World.Reporting { begun with caller := { begun.caller with steps }, arrivals } := fun fits => by
    have nothing : begun.journal = [] :=
      List.eq_nil_iff_forall_not_mem.2 fun m member => fits.faultless (new.journal m member ▸ member)
    obtain ⟨clear, records⟩ := SessionStart.start_recording unlimited started ⟨fits.faultless, fits.pointers, fits.space⟩
    dsimp only
    rw [nothing]
    exact ⟨⟨clear, records⟩, rfl⟩
  exact session_keeps stable abiding (fun w _ _ => leave w) new.opened (start _ new reporting) fuel

/-- A program rejects two promises, the second one with a reaction. -/
def rejectingSteps : List CallerStep :=
  [.invoke [
    .worker (.deferred (some "d")), .deferred (.promise "d" (some "p")),
    .worker (.deferred (some "e")), .deferred (.promise "e" (some "q")),
    .worker (.settleValue "d" false (.text "no")), .worker (.settleValue "e" false (.text "no")),
    .worker (.andThen "q" none none (some "r"))], .shutdown]

end ScriptHost
