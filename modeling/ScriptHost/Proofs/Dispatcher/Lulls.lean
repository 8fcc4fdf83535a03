import ScriptHost.Dispatcher.Cycle
import ScriptHost.Proofs.Conversion.Quiet
import ScriptHost.Proofs.Dispatcher.Glimpses
import ScriptHost.Proofs.Dispatcher.Reports

set_option autoImplicit false

/-!
Lulls, in which no promise settles and no watcher comes or goes.

A worker that leaves nobody waiting for a promise that has settled still does so after a lull. All that it does between
its last look at the watchers and the moment at which it blocks is one, with the turns of the caller: off the thread of
the worker nobody can ask the engine for anything.
-/

namespace ScriptHost

open Dialogue LoopM

namespace World

variable {w w' w'' : World} {x : Watcher}

/-- Nothing happens to promises, though some may go. -/
structure Hush (w w' : World) : Prop where
  promises : ∀ p record, w'.heap.promise? p = some record -> w.heap.promise? p = some record
  history : w'.heap.history = w.heap.history
  grown : w.worker.vault.link.engine.Grown w'.worker.vault.link.engine
  journal : w.journal ⊆ w'.journal
  faults : .fault ∉ w'.journal -> w'.worker.vault.link.faults = Table.empty -> w.worker.vault.link.faults = Table.empty

structure Lull (w w' : World) : Prop extends Hush w w' where
  watchers : w'.worker.watchers = w.worker.watchers
  gone : ∀ x, w.isGone x = true -> w'.isGone x = true

theorem Hush.refl (w : World) : Hush w w :=
  ⟨fun _ _ found => found, rfl, .refl _, fun _ member => member, fun _ clear => clear⟩

theorem Hush.trans (first : Hush w w') (second : Hush w' w'') : Hush w w'' where
  promises p record found := first.promises p record (second.promises p record found)
  history := second.history.trans first.history
  grown := first.grown.trans second.grown
  journal _ member := second.journal (first.journal member)
  faults none_set clear := first.faults (fun member => none_set (second.journal member)) (second.faults none_set clear)

theorem Hush.of_same (marks : List Mark) (link : w'.worker.vault.link = w.worker.vault.link)
    (journal : w'.journal = marks ++ w.journal) : Hush w w' where
  promises p record found := by rwa [heap, link] at found
  history := by rw [heap, heap, link]
  grown := link ▸ .refl _
  journal := journal ▸ List.subset_append_right marks w.journal
  faults _ clear := link ▸ clear

theorem Hush.undeterred (hush : Hush w w') (clear : w'.Undeterred) : w.Undeterred :=
  ⟨fun member => clear.faultless (hush.journal member), hush.faults clear.faultless clear.direct⟩

theorem Lull.refl (w : World) : Lull w w :=
  ⟨.refl w, rfl, fun _ gone => gone⟩

theorem Lull.trans (first : Lull w w') (second : Lull w' w'') : Lull w w'' where
  toHush := first.toHush.trans second.toHush
  watchers := second.watchers.trans first.watchers
  gone x gone := second.gone x (first.gone x gone)

theorem Lull.isOverdue (lull : Lull w w') (overdue : w'.isOverdue x = true) : w.isOverdue x = true := by
  simp only [World.isOverdue, Bool.and_eq_true, Bool.not_eq_true', Option.any_eq_true] at overdue ⊢
  obtain ⟨waiting, record, found, settled⟩ := overdue
  refine ⟨?_, record, lull.promises _ record found, settled⟩
  rw [← Bool.not_eq_true] at waiting ⊢
  exact fun gone => waiting (lull.gone x gone)

theorem Lull.unhindered (lull : Lull w w') (clear : w'.Unhindered) : w.Unhindered :=
  ⟨fun member => clear.unscripted (lull.journal member), fun member => clear.faultless (lull.journal member),
    lull.faults clear.faultless clear.direct⟩

theorem Lull.vigilant (lull : Lull w w') (vigilant : w.Vigilant) : w'.Vigilant := by
  intro clear
  have nobody := List.filter_eq_nil_iff.1 (vigilant (lull.unhindered clear))
  apply List.filter_eq_nil_iff.2
  rw [lull.watchers]
  exact fun x member overdue => nobody x member (lull.isOverdue overdue)

theorem Lull.of_same (marks : List Mark) (link : w'.worker.vault.link = w.worker.vault.link)
    (watchers : w'.worker.watchers = w.worker.watchers) (gone : w'.isGone = w.isGone)
    (journal : w'.journal = marks ++ w.journal) : Lull w w' where
  toHush := .of_same marks link journal
  watchers := watchers
  gone _ there := gone ▸ there

theorem lull_setPhase (w : World) (p : Phase) : w.Lull (w.setPhase p) := by
  unfold setPhase
  split
  next => exact .refl w
  next => exact .of_same [_] rfl rfl rfl rfl

theorem lull_meet (w : World) (d : Demand) : w.Lull (w.meet d) := by
  cases d with
  | send port item =>
    simp only [meet]
    split <;> exact .of_same [_] rfl rfl rfl rfl
  | announce => exact lull_setPhase w _
  | close =>
    simp only [meet]
    split
    next => exact .of_same [_] rfl rfl rfl rfl
    next => exact .refl w
  | hold => exact .of_same [] rfl rfl rfl rfl
  | letGo => exact .of_same [] rfl rfl rfl rfl
  | desert reply =>
    refine ⟨.of_same [] rfl rfl, rfl, fun x gone => ?_⟩
    simp only [isGone, isCancelled, meet, List.contains_cons, Bool.or_eq_true] at gone ⊢
    exact gone.imp_right .inr

theorem lull_law : Quieting Lull where
  refl := .refl
  trans := .trans
  schedule _ _ := .of_same [] rfl rfl rfl rfl
  meet := lull_meet
  caller _ _ := .of_same [] rfl rfl rfl rfl
  ask q quiet w := by
    have forgets := quiet w.worker.vault.link
    refine ⟨⟨fun p record found => ?_, forgets.history, (q.perform_onward _).toGrown, fun _ member => member,
      fun _ => q.perform_faultless.1⟩, rfl, fun _ gone => gone⟩
    rw [← Heap.get?_promises] at found ⊢
    exact forgets.promise found
  book _ _ _ := .of_same [] rfl rfl rfl rfl

theorem lull_arrive (w : World) : w.Lull w.arrive :=
  lull_law.arrive w

end World

theorem Change.lull (c : Change) (w : World) : w.Lull (c.apply w) := by
  cases c with
  | demand d => exact w.lull_meet d
  | cancelToken id =>
    refine ⟨.of_same [] rfl rfl, rfl, fun x gone => ?_⟩
    rw [World.isGone, Bool.or_eq_true] at gone ⊢
    refine gone.imp_left fun cancelled => ?_
    obtain ⟨id', token, cancelled⟩ := (Option.any_eq_true _ _).1 cancelled
    refine (Option.any_eq_true _ _).2 ⟨id', token, ?_⟩
    change ((w.tokens.set id true).get? id').getD false = true
    rw [Table.get?_set]
    split
    next => rfl
    next => exact cancelled
  | patience polls =>
    exact ⟨⟨fun _ _ found => found, rfl, .refl _, fun _ member => member, fun _ clear => clear⟩, rfl, fun _ gone => gone⟩
  | fault name f =>
    have same : ((Change.fault name f).apply w).worker.vault.link.engine = w.worker.vault.link.engine :=
      Link.setFault_engine _ name f
    refine ⟨⟨fun p record found => ?_, ?_, same ▸ .refl _, fun _ member => List.mem_cons_of_mem _ member, fun none_set => ?_⟩,
      rfl, fun _ gone => gone⟩
    next => rwa [World.heap, same] at found
    next => rw [World.heap, World.heap, same]
    next => exact absurd List.mem_cons_self none_set
  | script => exact .of_same [_] rfl rfl rfl rfl
  | queueMicrotask c => exact .of_same [_] rfl rfl rfl rfl
  | stand => exact .of_same [_] rfl rfl rfl rfl
  | _ => exact .of_same [] rfl rfl rfl rfl

namespace Runner

variable {α : Type} {r : Runner} {t : Thread} {w : World}

theorem lull {act : WorldM α} (quiet : act.Only Act.Quiet) (w : World) : w.Lull (final (r.on t act) w) :=
  World.lull_law.ran quiet w

theorem lull_act {a : Act} (plain : a.Plain .other) (w : World) : w.Lull (final (a.perform r t) w) := by
  cases a with
  | look => exact w.lull_arrive
  | thread => exact .refl w
  | alter c => exact c.lull w
  | ask q => cases plain
  | handle c => exact (World.lull_law.custodial w).perform t c w.worker.vault
  | program operands ops => exact plain.elim
  | await p token => exact plain.elim

/-- Host code that asks the engine nothing. -/
theorem lull_plain {act : WorldM α} (plain : act.Only (Act.Plain .other)) (w : World) : w.Lull (final (r.on t act) w) :=
  on_leads World.lull_law.toWay (fun _ => lull_act) plain w

/-- Off the thread of the worker, programs and waits are lulls. -/
structure Aloof (r : Runner) : Prop where
  program : ∀ operands ops (w : World), w.Lull (final (r.program .other operands ops) w)
  await : ∀ p token (w : World), w.Lull (final (r.await .other p token) w)

theorem Aloof.ran (aloof : r.Aloof) (act : WorldM α) (w : World) : w.Lull (final (r.on .other act) w) := by
  refine on_leads World.lull_law.toWay (fun a _ w => ?_) (only_any act) w
  cases a with
  | look => exact w.lull_arrive
  | thread => exact .refl w
  | alter c => exact c.lull w
  | ask q => exact .refl w
  | handle c => exact lull_act (a := .handle c) trivial w
  | program operands ops => exact aloof.program operands ops w
  | await p token => exact aloof.await p token w

/-- Only the thread of the worker duplicates a handle, and only as long as the engine is open. -/
theorem duplicate_barred (p : Handle) (barred : w.worker.vault.closed = true ∨ t = .other) :
    ∃ e, result (r.on t (Attempt.duplicate p).run) w = some (.error e) := by
  change ∃ e, some (outcome (p.duplicate t) w.worker.vault).1 = some (.error e)
  cases alive : p.isAlive w.worker.vault with
  | true => exact ⟨_, by rw [Handle.duplicate_refused alive barred]⟩
  | false => exact ⟨_, by rw [Handle.duplicate_dead alive]⟩

theorem ofFuel_aloof (fuel : Nat) : (ofFuel fuel).Aloof := by
  induction fuel with
  | zero => exact ⟨fun _ _ => .refl, fun _ _ => .refl⟩
  | succ fuel ih =>
    constructor
    next => exact fun operands ops w => ih.ran (Op.runAll operands ops) w
    next =>
      intro p token w
      change w.Lull (final (awaitSettlement (ofFuel fuel) .other p token) w)
      unfold awaitSettlement
      rw [final_bind, result_getWorker, final_getWorker]
      refine w.lull_arrive.trans ?_
      generalize w.arrive = w
      dsimp only
      split
      next => exact .refl w
      next =>
        -- The promise cannot be held on to, so the wait is not begun.
        obtain ⟨e, refused⟩ := duplicate_barred (r := ofFuel fuel) (w := w) p (.inr rfl)
        rw [final_bind, refused]
        have refusing := ih.ran (Attempt.duplicate p).run w
        exact refusing

end Runner

namespace Attempt

theorem quiet_reasonOf (h : Handle) : Quiet (reasonOf h) := by
  have snapshot : Quiet (toSnapshot h) := by
    refine quiet_bind (quiet_raw h) fun p => quiet_bind (quiet_lift (only_question trivial)) fun w => ?_
    exact quiet_withLink _ (Conversion.quiet_fromEngine _ _ p)
  have text : Quiet (toText h) := quiet_bind (quiet_raw h) fun p => quiet_withLink _ (Link.quiet_toText p)
  refine quiet_bind (quiet_lift snapshot) fun read => ?_
  cases read with
  | ok v => exact quiet_pure v
  | error e => exact quiet_bind text fun _ => quiet_pure _

end Attempt

namespace LoopM

variable {α : Type} {w : World}

theorem lull_step {d : Duty} (lull : ∀ w : World, w.Lull (d.apply w)) (w : World) : w.Lull (final (step d) w) :=
  w.lull_arrive.trans (lull w.arrive)

theorem lull_bind {β : Type} {act : LoopM α} {f : α -> LoopM β} (first : ∀ w : World, w.Lull (final act w))
    (rest : ∀ a (w : World), w.Lull (final (f a) w)) (w : World) : w.Lull (final (act >>= f) w) := by
  rw [final_bind]
  split
  next => exact first w
  next a _ => exact (first w).trans (rest a _)

theorem lull_reportAll (pairs : List (Handle × Handle)) (w : World) : w.Lull (final (reportAll pairs) w) := by
  induction pairs generalizing w with
  | nil => exact .refl w
  | cons e rest ih =>
    refine lull_bind (fun w => ?_) (fun _ => ih) w
    refine lull_bind (Runner.lull (Attempt.quiet_reasonOf e.2)) (fun reason w => ?_) w
    refine lull_bind (lull_step fun w => .of_same [_] rfl rfl rfl rfl) (fun _ w => ?_) w
    exact Runner.lull_plain (WorldM.plain_discardHandles _) w

/-- A report of rejections. -/
theorem lull_flushRejections (w : World) : w.Lull (final flushRejections w) := by
  refine lull_bind (lull_step fun w => .of_same [_] rfl rfl rfl rfl) (fun _ w => ?_) w
  refine lull_bind (fun w => ?_) (fun answer w => ?_) w
  next =>
    rw [final_takeUnhandled]
    refine (World.lull_law.custodial w).leads_takeUnhandled (fun v => ?_) _ w.worker.vault
    exact ⟨⟨fun _ _ => OwnerM.takeRejections_promises, OwnerM.takeRejections_history v.link,
      OwnerM.law_grown.takeRejections v.link, fun _ member => member, fun _ => (OwnerM.law_faultless.takeRejections _).1⟩,
      rfl, fun _ gone => gone⟩
  next =>
    cases answer with
    | ok pairs => exact lull_reportAll pairs w
    | error e => exact .refl w

end LoopM

namespace Runner

variable {α : Type} {r : Runner} {w : World}

/-- Once a task has run a program of its own, nothing is promised any more. -/
theorem vigilant_runTaskScript (sound : r.Sound fun _ => True) (label : String) (ops : List Op) (next : Unit -> WorldM α)
    (w : World) : (final (r.act (WorldM.runTaskScript label (some ops) >>= next)) w).Vigilant := by
  obtain ⟨act, noted⟩ : ∃ act : WorldM α,
      final (r.act (WorldM.runTaskScript label (some ops) >>= next)) w = final (r.act act) (w.note .scripted) := ⟨_, rfl⟩
  obtain ⟨marks, grown, -, -⟩ := (still_anything.ran (t := .worker) sound act (Nat.zero_le (w.note .scripted).cycles)).frame.journal
  rw [noted]
  intro clear
  refine absurd ?_ clear.unscripted
  rw [show (final (r.act act) (w.note .scripted)).journal = _ from grown]
  exact List.mem_append_right _ List.mem_cons_self

theorem vigilant_pollTask (sound : r.Sound fun _ => True) (t : HostTask) (vigilant : w.Vigilant) :
    (final (r.act (WorldM.pollTask t)) w).Vigilant := by
  unfold WorldM.pollTask
  split
  next => exact vigilant
  next =>
    have looks : WorldM.look.Only (Act.Plain .other) := only_question trivial
    exact (lull_plain (only_bind looks fun _ => only_pure _) w).vigilant vigilant
  next =>
    cases t.plan.script with
    | none =>
      refine (lull_plain (only_bind (only_pure _) fun _ => ?_) w).vigilant vigilant
      split
      next => exact only_bind (WorldM.plain_letGoDeferred _) fun _ => only_pure _
      next => exact only_bind (WorldM.plain_submitBy .back _) fun _ => only_pure _
    | some ops => exact vigilant_runTaskScript sound t.label ops _ w

end Runner

/-- What is found in a look at a promise of which this can be told. -/
def Finds : Except Error (Option Settled) -> Option Settlement -> Prop
  | .ok none, told => told = some .pending
  | .ok (some o), told => Conveys (.ok o) told
  | .error e, told => Conveys (.error e) told

theorem Vault.told_eq_some {v : Vault} {p : Handle} {s : Settlement} :
    v.told p = some s <-> p.isAlive v = true ∧ ∃ record, v.link.engine.heap.promise? p.ptr = some record ∧
      record.settlement = s ∧ s.payload? ≠ some 0 := by
  unfold told
  split
  next alive =>
    simp only [Option.filter_eq_some_iff, Option.map_eq_some_iff, decide_eq_true_eq, alive, true_and]
    constructor
    next => exact fun ⟨⟨record, found, same⟩, payload⟩ => ⟨record, found, same, payload⟩
    next => exact fun ⟨record, found, same, payload⟩ => ⟨⟨record, found, same⟩, payload⟩
  next dead => simp only [dead, Bool.false_eq_true, false_and, reduceCtorEq]

theorem Vault.told_eq_none {v : Vault} {p : Handle} (alive : p.isAlive v = true) (untold : v.told p = none)
    {record : PromiseRecord} (found : v.link.engine.heap.promise? p.ptr = some record) :
    record.settlement.payload? = some 0 := by
  by_contra payload
  cases untold.symm.trans (told_eq_some.2 ⟨alive, record, found, rfl, payload⟩)

namespace Link

variable {l : Link} {p : Ptr}

theorem answered_promiseState_unknown (clear : l.faults = Table.empty) (unknown : l.engine.heap.promise? p = none) :
    ∃ e, answered (promiseState p) l = (.error e, l) := by
  have done : outcome (Engine.perform (.promiseState p)) l.engine = (.ok (.i32 (-1)), l.engine) := by
    simp only [Engine.perform, outcome_bind, Engine.outcome_readHeap, Heap.promiseState, unknown, Option.map_none, outcome_pure]
  have asked : answered (int (.promiseState p)) l = (.ok (-1), l) := answered_int clear done
  have tag : PromiseState.ofTag? (-1) = none := by decide
  simp only [promiseState, answered_bind, asked, tag]
  exact ⟨_, rfl⟩

theorem answered_promiseResult_null {record : PromiseRecord} (clear : l.faults = Table.empty)
    (found : l.engine.heap.promise? p = some record) (payload : record.settlement.payload? = some 0) :
    ∃ e, (answered (promiseResult p) l).1 = .error e := by
  have done : outcome (Engine.perform (.promiseResult p)) l.engine =
      (.ok (.ofWord 0), { l.engine with heap := l.engine.heap.retain 0 }) := by
    simp only [Engine.perform, Engine.promiseResult, outcome_bind, outcome_get, Heap.promiseResult, found, Option.map_some,
      payload, Option.getD_some, outcome_modify, outcome_pure]
  have null := answered_value_zero (c := rfl) clear done
  change ∃ e, (answered (value (.promiseResult p)) l).1 = .error e
  rw [null]
  split <;> exact ⟨_, rfl⟩

/-- The engine does not tell what it does not know. -/
theorem refused_settled (clear : l.faults = Table.empty)
    (null : ∀ record, l.engine.heap.promise? p = some record -> record.settlement.payload? = some 0) :
    ∃ e, (answered (settled p) l).1 = .error e := by
  cases known : l.engine.heap.promise? p with
  | none =>
    obtain ⟨e, failed⟩ := answered_promiseState_unknown clear known
    simp only [settled, answered_bind, failed]
    exact ⟨_, rfl⟩
  | some record =>
    have payload := null record known
    have state := answered_promiseState clear known
    obtain ⟨e, failed⟩ := answered_promiseResult_null clear known payload
    obtain ⟨settlement, _, _, _⟩ := record
    generalize result : answered (promiseResult p) l = x at failed
    obtain ⟨_, l'⟩ := x
    obtain rfl := failed
    cases settlement with
    | pending => cases payload
    | fulfilled v =>
      simp only [settled, answered_bind, state, Settlement.state, result]
      exact ⟨_, rfl⟩
    | rejected v =>
      simp only [settled, answered_bind, state, Settlement.state, result]
      exact ⟨_, rfl⟩

end Link

namespace Desk

variable {s t : Desk} {p x : Handle} {n : ReferenceId}

theorem Kept.isAlive (kept : s.Kept t) : p.isAlive t.vault = p.isAlive s.vault := by
  simp only [Handle.isAlive, kept.alive]

theorem Gained.isAlive (gained : s.Gained t x n) (alive : p.isAlive s.vault = true) : p.isAlive t.vault = true := by
  unfold Handle.isAlive at alive ⊢
  split
  next => rfl
  next m named =>
    simp only [named, List.contains_iff_mem] at alive
    simpa only [gained.alive, List.contains_iff_mem] using List.mem_cons_of_mem n alive

end Desk

namespace Runner

variable {r : Runner} {w : World}

theorem brings_untold {s : Desk} {p : Handle} (opened : s.vault.closed = false) (clear : s.link.faults = Table.empty)
    (untold : s.vault.told p = none) :
    r.Brings (Attempt.settlement p).run s fun found _ => ∃ e, found = .error e := by
  cases alive : p.isAlive s.vault with
  | false => exact brings_failed (yields_raw_dead alive) ⟨_, rfl⟩
  | true =>
    refine brings_after (yields_raw_alive alive) ?_
    have asked := yields_withLink (r := r) opened "promise settlement" (Link.settled p.ptr)
    obtain ⟨e, refused⟩ := Link.refused_settled clear fun record => Vault.told_eq_none alive untold
    rw [refused] at asked
    exact brings_failed asked ⟨_, rfl⟩

/-- A look tells what can be told, and if nothing can be told, it fails. -/
theorem ends_look (opened : w.Open) (p : Handle) :
    Ends (r.act (Attempt.settlement p).run) w fun found w' =>
      w.Lull w' ∧ (w.worker.vault.link.faults = Table.empty -> Finds found (w'.worker.vault.told p)) := by
  constructor
  intro found came
  have lull : w.Lull (final (r.act (Attempt.settlement p).run) w) := Runner.lull (Attempt.quiet_settlement p) w
  refine ⟨lull, fun clear => ?_⟩
  have looked := (ends_settlement opened p).post found came
  obtain ⟨leaves, -, exact⟩ := (ends_brings (brings_settlement (r := r) (s := w.desk) opened p)).post found came
  generalize final (r.act (Attempt.settlement p).run) w = w' at *
  cases told : w.worker.vault.told p with
  | none =>
    obtain ⟨e, rfl⟩ := (ends_brings (brings_untold (r := r) (s := w.desk) opened clear told)).post found came
    change Conveys _ _
    cases told' : w'.worker.vault.told p with
    | none => exact trivial
    | some s =>
      obtain ⟨alive, record, known, same, payload⟩ := Vault.told_eq_some.1 told'
      have alive : p.isAlive w.worker.vault = true := Eq.trans (Desk.Kept.isAlive leaves).symm alive
      cases told.symm.trans (Vault.told_eq_some.2 ⟨alive, record, lull.promises _ record known, same, payload⟩)
  | some s =>
    obtain ⟨alive, record, known, rfl, payload⟩ := Vault.told_eq_some.1 told
    obtain ⟨rfl, link⟩ := exact record clear alive known payload
    have kept : w'.worker.vault.link.engine.heap.promise? p.ptr = some record := by
      rw [show w'.worker.vault.link = _ from link]
      cases record.settlement.payload? with
      | none => exact known
      | some v =>
        have same : (w.heap.retain v).promises = w.heap.promises := congrArg Affairs.promises (Heap.affairs_retain _ v)
        change (w.heap.retain v).promise? p.ptr = some record
        rwa [← Heap.get?_promises, same, Heap.get?_promises]
    have told' (alive : p.isAlive w'.worker.vault = true) : w'.worker.vault.told p = some record.settlement :=
      Vault.told_eq_some.2 ⟨alive, record, kept, rfl, payload⟩
    obtain ⟨settlement, _, _, _⟩ := record
    cases settlement with
    | pending => exact told' (Eq.trans (Desk.Kept.isAlive leaves) alive)
    | fulfilled v =>
      obtain ⟨x, n, -, gained⟩ := leaves
      rw [told' (gained.isAlive alive)]
      rfl
    | rejected v =>
      obtain ⟨x, n, -, gained⟩ := leaves
      rw [told' (gained.isAlive alive)]
      rfl

end Runner

end ScriptHost
