import ScriptHost.Proofs.Dispatcher.ComposedPrograms
import ScriptHost.Proofs.Dispatcher.Sessions
import ScriptHost.Proofs.Link.Blame

set_option autoImplicit false

/-!
No exception is pending when a program goes on, in a whole session.

The loop does nothing by itself that could leave one behind, apart from jobs that are interrupted, and those it clears
up after. So what an operation fails with has come up in that operation.
-/

namespace ScriptHost

open LoopM WorldM

namespace World

variable {w w' : World}

theorem beside_duty (d : Duty) (allowed : d.Allowed w) : w.Beside (d.apply w) := by
  cases d with
  | phase p => exact w.beside_setPhase p
  | receive =>
    simp only [Duty.apply]
    split
    next => exact .refl w
    next => exact .of_same rfl rfl
  | take =>
    simp only [Duty.apply]
    split
    next => exact .refl w
    next => exact .of_note rfl rfl fun _ => trivial
    next => exact .of_note rfl rfl fun _ => trivial
  | takeMicrotask =>
    simp only [Duty.apply]
    split
    next => exact .refl w
    next => exact .of_note rfl rfl fun _ => trivial
  | beginCycle => exact .of_note rfl rfl fun _ => trivial
  | delayed n => exact .of_note rfl rfl fun _ => trivial
  | watch x => exact .of_note rfl rfl fun _ => trivial
  | answer x result => exact .of_note rfl rfl fun _ => trivial
  | forsake x => exact .of_note rfl rfl fun _ => trivial
  | block => exact .of_note rfl rfl fun _ => trivial
  | flush => exact allowed.elim
  | report p reason => exact allowed.elim
  | leave => exact allowed.elim
  | dropCommands => exact allowed.elim
  | dropWork => exact allowed.elim
  | dropFunctions => exact allowed.elim
  | closeVault => exact allowed.elim
  | stop => exact allowed.elim
  | _ => exact .of_same rfl rfl

end World

section Reports

variable {w : World}

theorem flat_loyal : Runner.flat.Loyal composure :=
  ⟨fun _ _ _ _ => .exhausted, fun _ _ _ _ => .exhausted, Runner.ofFuel_aloof 0⟩

theorem comes_step (d : Duty) (beside : ∀ w : World, w.Beside (d.apply w)) (poised : w.Poised) :
    Comes (step d) w fun _ w' => w'.Poised ∧ w.Returned w' := by
  have done := w.beside_arrive.trans (beside w.arrive)
  exact ⟨⟨fun _ _ => ⟨done.poised poised, done.returned⟩⟩, nofun⟩

theorem comes_after {α β : Type} {act : LoopM α} {f : α -> LoopM β}
    (first : Comes act w fun _ w' => w'.Poised ∧ w.Returned w')
    (rest : ∀ a w', w'.Poised -> Comes (f a) w' fun _ w'' => w''.Poised ∧ w'.Returned w'') :
    Comes (act >>= f) w fun _ w' => w'.Poised ∧ w.Returned w' := by
  refine comes_bind first ?_
  rintro a w' ⟨poised, returned⟩
  exact (rest a w' poised).imp fun _ _ post => ⟨post.1, returned.trans post.2⟩

theorem comes_reportAll (pairs : List (Handle × Handle)) (poised : w.Poised) :
    Comes (reportAll pairs) w fun _ w' => w'.Poised ∧ w.Returned w' := by
  have one (e : Handle × Handle) (w : World) (poised : w.Poised) :
      Comes (report e) w fun _ w' => w'.Poised ∧ w.Returned w' := by
    refine comes_after (Attempt.composed_reasonOf e.2 .flat .worker flat_loyal w poised) fun reason w poised => ?_
    refine comes_after (comes_step (.report e.1.ptr (toldReason reason)) (fun w => ?_) poised) fun _ w poised => ?_
    next => exact .of_note rfl rfl fun _ => trivial
    next => exact composed_discardHandles [e.1, e.2] .flat .worker flat_loyal w poised
  induction pairs generalizing w with
  | nil => exact comes_pure ⟨poised, .refl w⟩
  | cons e rest ih => exact comes_after (one e w poised) fun _ w poised => ih poised

theorem comes_flushRejections (poised : w.Poised) : Comes flushRejections w fun _ w' => w'.Poised ∧ w.Returned w' := by
  have flushed (w : World) : w.Beside (Duty.flush.apply w) := .of_note rfl rfl fun _ => trivial
  have taken (w : World) (poised : w.Poised) : Comes LoopM.takeUnhandled w fun _ w' => w'.Poised ∧ w.Returned w' := by
    have moves := Vault.custodial_moves.leads_takeUnhandled (fun v => Link.takeRejections_moves v.link)
      (w.worker.awaitedPromises ++ w.worker.watchedPromises) w.worker.vault
    have onwards : w.Onwards (final LoopM.takeUnhandled w) := .of_moves rfl moves
    exact ⟨⟨fun _ _ => onwards poised⟩, nofun⟩
  refine comes_after (comes_step .flush flushed poised) fun _ w poised =>
    comes_after (taken w poised) fun answer w poised => ?_
  split
  next pairs => exact comes_reportAll pairs poised
  next => exact comes_pure ⟨poised, .refl w⟩

end Reports

theorem composure_routine : Routine composure where
  arrive w poised := w.beside_arrive.onwards poised
  duty d w _ allowed poised := ((World.beside_duty d allowed).onwards poised).imp_right fun across _ => across
  wait h w w' _ across :=
    .trans (World.beside_duty (.beginWait h) trivial).returned (across.trans (World.beside_duty .endWait trivial).returned)
  flush w _ _ _ poised := by
    have comes := comes_flushRejections poised
    refine ⟨?_, fun a came => (comes.post a came).2⟩
    cases came : result flushRejections w with
    | none => exact comes.cut came
    | some a => exact (comes.post a came).1

theorem composure_chores {r : Runner} (loyal : r.Loyal composure) : r.Chores composure where
  loyal := loyal
  stand := (composed_alter .stand).does loyal .worker
  work item := (composed_runWork item).does loyal .worker
  task t := (composed_pollTask t).does loyal .worker
  microtask c := (composed_runMicrotask c).does loyal .worker
  job early := honours_runJob loyal early
  reply id reply := (composed_putReply id reply).does loyal .worker
  alarm a := (composed_runAlarm a).does loyal .worker
  discardAlarms alarms := (composed_discardAlarms alarms).does loyal .worker
  pending := (Attempt.composed_withLink _ Link.composed_isJobPending.anyhow).does loyal .worker
  cancelled token := (composed_isCancelled token).does loyal .worker
  turn gone quiet := (composed_callerTurn gone quiet).does loyal .other
  settlement p := (Attempt.composed_settlement p).does loyal .worker
  settled p := (composed_hasSettled p).does loyal .worker
  duplicate t p := (Attempt.composed_duplicate p).does loyal t
  discard h := (composed_discardHandle h).does loyal .worker

theorem composure_loyal (fuel : Nat) : (Runner.ofFuel fuel).Loyal composure :=
  Runner.ofFuel_loyal composure_routine (fun _ => composure_chores)
    (fun _ loyal t operands ops => (Op.composed_runAll operands ops).does loyal t) fuel

/-- The worker has left its loop, and until then nobody has found an exception pending. -/
structure World.Parted (w : World) : Prop where
  law : Throughout Mark.Calm w.journal
  left : .left ∈ w.journal

namespace World

variable {w w' : World}

theorem Parted.grown (parted : w.Parted) (marks : List Mark) (grown : w'.journal = marks ++ w.journal) : w'.Parted := by
  refine ⟨?_, grown ▸ List.mem_append_right _ parted.left⟩
  rw [grown]
  clear grown
  induction marks with
  | nil => exact parted.law
  | cons m marks ih =>
    refine ⟨?_, ih⟩
    cases m with
    | standing g => exact fun staying => absurd (List.mem_append_right _ parted.left) staying
    | _ => trivial

theorem Parted.same (parted : w.Parted) (same : w'.journal = w.journal) : w'.Parted :=
  parted.grown [] same

theorem Poised.leave (poised : w.Poised) : (Duty.leave.apply w).Parted :=
  ⟨⟨trivial, ((w.beside_setPhase .shuttingDown).sane poised.toSane).law⟩, List.mem_cons_self ..⟩

end World

theorem parted_abiding : Abiding World.Parted where
  schedule w a parted := parted.same rfl
  change c w parted := by
    obtain ⟨marks, grown, -⟩ := (c.frame (b := 0) w).journal
    exact parted.grown marks grown
  ask q w parted := parted.same rfl
  book w alive next parted := parted.same rfl
  close w parted := parted.same rfl
  duty d w lets parted := by
    cases d with
    | stop => exact parted.grown [.phase .stopped] rfl
    | dropCommands => exact parted.same rfl
    | dropWork => exact parted.same rfl
    | dropFunctions => exact parted.same rfl
    | closeVault => exact parted.same rfl
    | _ => exact lets.elim

section Start

variable {s : SessionStart} {w : World}

/-- Making an engine raises nothing. -/
theorem OwnerM.openEngine_calm (memoryLimit : Option Nat) (l : Link) :
    (l.memory.WellFormed -> (outcome (openEngine memoryLimit) l).2.memory.WellFormed) ∧
      (outcome (openEngine memoryLimit) l).2.engine.heap.exception = l.engine.heap.exception := by
  let R (s s' : Engine) : Prop := (s.memory.WellFormed -> s'.memory.WellFormed) ∧ s'.heap.exception = s.heap.exception
  have refl (s : Engine) : R s s := ⟨id, rfl⟩
  have way : Way fun l l' : Link => R l.engine l'.engine :=
    ⟨fun l => refl l.engine, fun first second => ⟨second.1 ∘ first.1, second.2.trans first.2⟩⟩
  have asked (r : Request) (step : ∀ s, R s (outcome (Engine.perform r) s).2) :
      Leads (fun l l' : Link => R l.engine l'.engine) (OwnerM.request r) :=
    fun l => Link.unlessFaulty_leads refl step
  have sole (r : Request) (step : ∀ s, R s (outcome (Engine.perform r) s).2) :
      Leads (fun l l' : Link => R l.engine l'.engine) (openEngine.sole r) := by
    refine way.bind (asked r step) fun s => ?_
    split
    next => exact way.pure ()
    next => exact way.throw _
  have limited (limit : Nat) : Leads (fun l l' : Link => R l.engine l'.engine) (do
      let _ <- OwnerM.request (.setMemoryLimit (Int64.ofNat limit))
      openEngine.sole .newContext) :=
    way.bind (asked _ fun s => ⟨fun ok => ⟨ok.apart, ok.below, ok.first, ok.last, ok.used⟩, rfl⟩) fun _ => sole _ refl
  have opened : Leads (fun l l' : Link => R l.engine l'.engine) (openEngine memoryLimit) := by
    refine way.bind (sole _ refl) fun _ => ?_
    split
    next => exact sole _ refl
    next limit => exact limited limit
  exact opened l

theorem SessionStart.start_calm (started : s.start = .ok w) : w.link.memory.WellFormed ∧ w.link.Calm := by
  have made := OwnerM.openEngine_calm s.config.memoryLimit s.link
  rw [Link.memory, link_engine] at made
  unfold outcome at made
  unfold start at started
  split at started
  next => cases started
  next =>
    split at started
    next => cases started
    next =>
      generalize (OwnerM.openEngine s.config.memoryLimit).run.run s.link = r at *
      obtain ⟨_ | _, link⟩ := r
      next => cases started
      next =>
        cases started
        exact ⟨made.1 Memory.wellFormed_empty, made.2⟩

theorem SessionStart.start_poised (started : s.start = .ok w) (steps : List CallerStep)
    (arrivals : List (List Demand)) : ({ w with caller := { w.caller with steps }, arrivals } : World).Poised := by
  have new := start_new started
  obtain ⟨memory, calm⟩ := start_calm started
  exact ⟨⟨new.throughout fun _ => trivial, memory, new.faultless⟩, fun _ _ => calm⟩

end Start

/-- Requests that fail tell of what they have raised themselves. -/
structure Link.Honest (l : Link) : Prop where
  value : ∀ (r : Request) (c : r.isReserved = false) (e : Error), (answered (value r c) l).1 = .error e -> l.Blames r e
  confirm : ∀ (r : Request) (c : r.isReserved = false) (expected : Int32) (e : Error),
    (answered (confirm r expected c) l).1 = .error e -> l.Blames r e
  setProp : ∀ (object v : Ptr) (key : String) (e : Error), (answered (setProp object key v) l).1 = .error e ->
    (answered (newString key) l).1 = .error e ∨
      ∃ k l', answered (newString key) l = (.ok k, l') ∧ l'.Blames (.setProp object k v) e

/-- Nothing was pending when a call began that has failed, and what it failed with was so later on. -/
def Runner.Honest (r : Runner) : Prop :=
  ∀ (t : Thread) (function : Handle) (this : Option Handle) (args : List Handle) (w : World), w.Poised ->
    Ends (r.on t (Attempt.call function this args).run) w fun a w' =>
      ∀ h, a = .ok (.failure (.live h)) -> Unhampered w'.journal -> w'.link.Spare (some 29) ->
        w.link.Calm ∧ ∃ mid : World, w.Past mid ∧ mid.Past w' ∧ mid.link.engine.heap.exception = some h.ptr

theorem Link.honest {l : Link} (usable : l.Usable) (calm : l.Calm) : l.Honest where
  value _ _ _ failed := blames_value usable calm failed
  confirm _ _ _ _ failed := blames_confirm usable calm failed
  setProp _ _ _ _ failed := blames_setProp usable calm failed

namespace Attempt

variable {α β : Type}

/-- Off the thread of the worker it never comes to anything but an error. -/
def Refused (act : Attempt α) : Prop :=
  ∀ (r : Runner) (w : World), Ends (r.on .other act.run) w fun a _ => ∃ e, a = .error e

theorem refused_checkAccess (operation : String) : Refused (checkAccess operation) := by
  intro r w
  constructor
  intro a came
  change result (r.on .other (ofExcept (w.arrive.worker.vault.access .other operation)).run) w.arrive = some a at came
  rw [Vault.access_refused operation (.inr rfl)] at came
  exact ⟨_, (Option.some.inj came).symm⟩

theorem refused_first {act : Attempt α} {f : α -> Attempt β} (first : Refused act) : Refused (act >>= f) := by
  intro r w
  rw [ExceptT.run_bind]
  refine Runner.ends_bindOn (first r w) ?_
  rintro _ w' ⟨e, rfl⟩
  exact ends_pure ⟨e, rfl⟩

theorem refused_then {act : Attempt α} {f : α -> Attempt β} (rest : ∀ a, Refused (f a)) : Refused (act >>= f) := by
  intro r w
  rw [ExceptT.run_bind]
  refine Runner.ends_bindOn ends_any fun a w' _ => ?_
  cases a with
  | ok a => exact rest a r w'
  | error e => exact ends_pure ⟨e, rfl⟩

theorem refused_call (function : Handle) (this : Option Handle) (args : List Handle) : Refused (call function this args) := by
  refine refused_then fun f => ?_
  cases this with
  | some h => exact refused_then fun this => refused_then fun args => refused_first (refused_checkAccess _)
  | none => exact refused_then fun this => refused_then fun args => refused_first (refused_checkAccess _)

end Attempt

theorem Runner.honest {r : Runner} (loyal : r.Loyal composure) : r.Honest := by
  intro t function this args w poised
  cases t with
  | worker =>
    refine (Attempt.comes_call loyal poised function this args).toEnds.imp ?_
    rintro a w' ⟨⟨-, returned⟩, pending⟩ h failed fine spare
    have before := spare.before ⟨returned.later, fun _ => returned.extents fine.faultless⟩ poised.memory
    exact ⟨poised.calm (returned.unhampered fine) before, pending h failed fine.faultless⟩
  | other =>
    refine (Attempt.refused_call function this args r w).imp ?_
    rintro _ _ ⟨e, rfl⟩ h failed
    cases failed

/-- As long as there is room for the texts of errors, no exception is ever pending when a program goes on. So what an
operation fails with has come up in that operation. -/
theorem SessionReport.run_calm {s : SessionStart} {steps : List CallerStep} {arrivals : List (List Demand)} {fuel : Nat}
    {report : Option SessionReport} {w : World} (ran : run s steps arrivals fuel = .ok (report, w)) :
    Throughout Mark.Calm w.journal ∧ (∀ l : Link, l.Usable -> l.Calm -> l.Honest) ∧
      ∀ depth : Nat, (Runner.ofFuel depth).Honest := by
  refine ⟨?_, fun l => Link.honest, fun depth => Runner.honest (composure_loyal depth)⟩
  obtain ⟨begun, started, rfl⟩ := run_begins ran
  have poised := SessionStart.start_poised started steps arrivals
  have fresh := (SessionStart.start_new started).scheduled steps arrivals
  rcases session_honours composure_routine parted_abiding (fun _ _ _ poised => World.Poised.leave poised)
    (composure_chores (composure_loyal fuel)) fresh.opened poised with poised | parted
  next => exact (World.Poised.toSane poised).law
  next => exact parted.law

/-- A program calls what is not a function. -/
def failingSteps : List CallerStep :=
  [.invoke [.worker (.undefined (some "u")), .worker (.call "u" none [] (some "o"))]]

def Mark.ground? : Mark -> Option Ground
  | .standing g => some g
  | _ => none

theorem failing_calm : ∃ report w, SessionReport.run ⟨{}, [], none⟩ failingSteps [] 5 = .ok (report, w) ∧
    (w.journal.filterMap Mark.ground?).map Ground.exception = [none, none, none, none] ∧
    Throughout Mark.Calm w.journal ∧ (∀ l : Link, l.Usable -> l.Calm -> l.Honest) ∧
      ∀ depth : Nat, (Runner.ofFuel depth).Honest := by
  obtain ⟨report, w, ran, shown⟩ :=
    SessionReport.run_shows ⟨{}, [], none⟩ failingSteps [] 5
      (fun w => (w.journal.filterMap Mark.ground?).map Ground.exception) [none, none, none, none] (by decide +kernel)
  exact ⟨report, w, ran, shown, SessionReport.run_calm ran⟩

end ScriptHost
