import ScriptHost.Dispatcher.Work
import ScriptHost.Proofs.Dispatcher.Deferring
import ScriptHost.Proofs.Dispatcher.Leisure
import ScriptHost.Proofs.Dispatcher.Sessions
import ScriptHost.Proofs.Dispatcher.Submit
import ScriptHost.Proofs.Dispatcher.Trials

set_option autoImplicit false

/-!
Tasks that complete.

A call of an asynchronous host function starts a task with a deferred of its own. When the task completes it sends an
item that settles the promise. The item lets the deferred go whether or not it has settled it: a result that cannot be
made a value of the engine leaves a promise that nobody can settle any more.
-/

namespace ScriptHost

open LoopM

/-- Whether a snapshot keeps to the limits of conversions. -/
def Config.Admits (c : Config) (v : Snapshot) : Prop :=
  (v.need 0).depth ≤ c.maxDepth ∧ (v.need 0).bytes ≤ c.maxBytes

namespace Desk

variable {s t u : Desk} {p : Ptr} {others outside before : List Ptr} {id : DeferredId} {d : Deferred} {h c : Handle}
variable {hs : List Handle} {n : ReferenceId}

theorem Sound.discardingAll (sound : s.Sound (before ++ (hs.map Handle.ptr ++ outside))) :
    ∃ more, (s.discardingAll hs).Sound (more ++ outside) ∧ s.heap.Sheds (s.discardingAll hs).heap := by
  induction hs generalizing s before with
  | nil => exact ⟨before, sound, .refl _⟩
  | cons h rest ih =>
    have listed : s.Sound (before ++ h.ptr :: (rest.map Handle.ptr ++ outside)) := sound
    obtain ⟨more, sound', sheds⟩ := listed.discarding
    obtain ⟨more', sound'', sheds'⟩ := ih sound'
    exact ⟨more', sound'', sheds.trans sheds'⟩

theorem next_discardingAll (s : Desk) (hs : List Handle) : s.link.memory.next ≤ (s.discardingAll hs).link.memory.next := by
  induction hs generalizing s with
  | nil => exact Nat.le_refl _
  | cons h rest ih => exact Nat.le_trans (s.next_discarding h) (ih (s.discarding h))

section Alive

variable (opened : s.vault.closed = false) (clear : s.link.faults = Table.empty)
include opened clear

theorem discarding_access (h : Handle) :
    (s.discarding h).vault.closed = false ∧ (s.discarding h).link.faults = Table.empty := by
  rcases discarding_cases opened clear h with same | gone
  · rw [same]
    exact ⟨opened, clear⟩
  · rw [gone]
    exact ⟨opened, clear⟩

theorem alive_discardingAll (hs : List Handle) (member : n ∈ (s.discardingAll hs).vault.alive) : n ∈ s.vault.alive := by
  induction hs generalizing s with
  | nil => exact member
  | cons h rest ih =>
    obtain ⟨opened', clear'⟩ := discarding_access opened clear h
    have later : n ∈ (s.discarding h).vault.alive := ih opened' clear' member
    rcases discarding_cases opened clear h with same | gone
    · rwa [same] at later
    · rw [gone] at later
      exact (List.mem_filter.1 later).1

/-- A handle with a reference of its own is dead when it has been discarded. -/
theorem dead_discardingAll (owned : c.ownership = .owned) (reference : c.reference = some n) (member : c ∈ hs) :
    c.isAlive (s.discardingAll hs).vault = false := by
  rw [Handle.isAlive, reference]
  dsimp only
  rw [List.contains_eq_mem, decide_eq_false_iff_not]
  induction hs generalizing s with
  | nil => cases member
  | cons h rest ih =>
    obtain ⟨opened', clear'⟩ := discarding_access opened clear h
    rcases List.mem_cons.1 member with rfl | later
    · intro alive
      have still : n ∈ (s.discarding c).vault.alive := alive_discardingAll opened' clear' rest alive
      obtain ⟨l, gone⟩ := discarding_without opened owned
      rw [gone] at still
      simpa [reference] using (List.mem_filter.1 still).2
    · exact ih opened' clear' later

end Alive

/-- The desk when the last one that held a deferred has let it go. -/
def without (s : Desk) (id : DeferredId) (d : Deferred) : Desk :=
  Desk.discardingAll { s with deferreds := s.deferreds.erase id } d.handles

theorem deferreds_discardingAll (s : Desk) (hs : List Handle) : (s.discardingAll hs).deferreds = s.deferreds := by
  induction hs generalizing s with
  | nil => rfl
  | cons h rest ih => exact ih (s.discarding h)

theorem get?_without (s : Desk) (id : DeferredId) (d : Deferred) : (s.without id d).deferreds.get? id = none := by
  rw [without, deferreds_discardingAll]
  simp

theorem Sound.without (sound : s.Sound (before ++ (d.handles.map Handle.ptr ++ outside))) (id : DeferredId) :
    ∃ more, (s.without id d).Sound (more ++ outside) ∧ s.heap.Sheds (s.without id d).heap := by
  have erased : Desk.Sound (before ++ (d.handles.map Handle.ptr ++ outside)) { s with deferreds := s.deferreds.erase id } :=
    ⟨⟨sound.opened, sound.ready, sound.fresh⟩, sound.accounted⟩
  exact erased.discardingAll

/-- Whoever asked for the promise has a handle of their own. -/
theorem Pending.calling (pending : s.Pending id h.ptr outside d) : (s.calling h).Pending id h.ptr (h.ptr :: outside) d := by
  have still (q : Ptr) : (s.calling h).heap.get? q = s.heap.get? q := Heap.get?_retain s.heap h.ptr q
  obtain ⟨record, found, rest⟩ := pending.unresolved
  have big := Heap.big_of_found pending.sound.ready.counted (Heap.promise?_eq_some.1 found)
  obtain ⟨c, same, listed⟩ := Option.map_eq_some_iff.1 pending.promise
  have member : h.ptr ∈ d.handles.map Handle.ptr ++ outside := by simp [Deferred.handles, same, listed]
  refine ⟨pending.found, pending.held, pending.unsettled, pending.promise, fun fulfil => ?_, ⟨record, ?_, rest⟩,
    Runner.usable_calling pending.sound.toUsable (Heap.promise?_eq_some.1 found), ?_⟩
  · obtain ⟨c, n, held, owns, able⟩ := pending.capable fulfil
    exact ⟨c, n, held, ⟨owns.owned, owns.reference, List.mem_cons_of_mem _ owns.alive⟩, by rwa [Heap.resolver?, still]⟩
  · rwa [Heap.promise?, still]
  · refine (pending.sound.accounted.retain (pending.sound.accounted.names member)).congr fun q _ => ?_
    simp only [List.count_append, List.count_cons]
    omega

end Desk

/-- A promise was returned, and a task waits for its turn to settle it, unless none could be made and nothing has
changed. -/
def HostTask.Begun (label : String) (plan : TaskPlan (List Op)) (outside : List Ptr) (s : Desk) (a : Except Error Handle)
    (w : World) : Prop :=
  (∃ e, a = .error e ∧ w.desk = s) ∨ ∃ h t d, a = .ok h ∧ t ∈ w.worker.tasks.ready ∧ t.label = label ∧ t.plan = plan ∧
    w.desk.Pending t.deferred h.ptr (h.ptr :: outside) d ∧ d.holders = 1

namespace Runner

open Desk

variable {r : Runner} {s : Desk} {id : DeferredId} {d : Deferred}

theorem yields_letGoDeferred (found : s.deferreds.get? id = some d) (last : d.holders ≤ 1) :
    r.Yields (WorldM.letGoDeferred id) s () (s.without id d) := by
  refine brings_bind brings_look ?_
  rintro w _ ⟨here, rfl⟩
  have slot : w.deferreds.get? id = some d := (congrArg (fun s => s.deferreds.get? id) here).trans found
  rw [slot]
  dsimp only
  rw [if_pos last]
  refine brings_then (yields_deferreds _) (brings_then yields_thread ?_)
  have looked {s : Desk} : r.Brings WorldM.getWorker s fun _ t => t = s :=
    brings_bind brings_look fun _ _ seen => brings_pure seen.2
  refine brings_bind looked ?_
  rintro k _ rfl
  exact yields_discardHandles _

theorem gives_startTask {w : World} {outside : List Ptr} (sound : w.desk.Sound outside)
    (few : w.desk.heap.cells.size + 20 ≤ UInt32.size) (label : String) (plan : TaskPlan (List Op)) :
    r.Gives (Attempt.startTask label plan).run w (HostTask.Begun label plan outside w.desk) := by
  rw [Attempt.startTask, ExceptT.run_bind]
  refine gives_bind ((brings_createDeferred sound few).gives rfl) ?_
  rintro a w' (⟨e, rfl, same⟩ | ⟨id, h, n, d, rfl, pending, promise, owns, sole⟩)
  · exact ⟨_, rfl, .inl ⟨e, rfl, same⟩⟩
  · obtain ⟨record, found, -⟩ := pending.unresolved
    have promised : r.Yields (Attempt.promiseOf id).run w'.desk (.ok (w'.desk.fresh h.ptr)) (w'.desk.calling h) := by
      refine brings_looking fun v here => ?_
      have slot : v.deferreds.get? id = some d := (congrArg (fun s => s.deferreds.get? id) here).trans pending.found
      simp only [slot, Option.bind_some, promise]
      exact yields_duplicated pending.sound.toUsable owns (Heap.promise?_eq_some.1 found)
    refine gives_lifted (promised.gives rfl) ?_
    rintro _ v ⟨rfl, there⟩
    have pending' : v.desk.Pending id h.ptr (h.ptr :: outside) d := there ▸ pending.calling
    have ready : (⟨label, plan, id⟩ : HostTask) ∈ v.worker.tasks.ready ++ [⟨label, plan, id⟩] := by simp
    exact ⟨_, rfl, .inr ⟨_, ⟨label, plan, id⟩, d, rfl, ready, rfl, rfl, pending', sole⟩⟩

end Runner

namespace HostTask

/-- The item by which a task that has completed settles its promise. -/
def completion (t : HostTask) : Work :=
  .settle t.deferred t.plan.result none

def succeeds (t : HostTask) : Bool :=
  t.plan.result.isOk

/-- What the promise is to be resolved with or rejected for. -/
def answer (t : HostTask) : Snapshot :=
  match t.plan.result with
  | .ok v => v
  | .error reason => reason

/-- The promise has been settled with a value that shows the answer. -/
structure Honoured (t : HostTask) (p : Ptr) (others : List Ptr) (s u : Desk) : Prop where
  kept : p ∈ others -> ∃ value, u.heap.get? p = some value
  settles : s.heap.SettlesWith p (!t.succeeds) t.answer.engraved u.heap

/-- Nothing has happened to the promise, and the functions that could settle it are gone. -/
structure Forsaken (p : Ptr) (others : List Ptr) (d : Deferred) (s u : Desk) : Prop where
  kept : p ∈ others -> ∃ value, u.heap.get? p = some value
  pending : ∀ value, u.heap.get? p = some value ->
    ∃ record, value = .promise record ∧ record.settlement = .pending ∧ record.resolved = false
  sheds : s.heap.Sheds u.heap
  functions : ∀ fulfil c, d.capability fulfil = some c -> c.isAlive u.vault = false

/-- What is left when the item has run. -/
inductive Leaves (t : HostTask) (p : Ptr) (others : List Ptr) (d : Deferred) (s : Desk) : Except Error Unit -> Desk -> Prop
  | honoured {u : Desk} (gone : u.deferreds.get? t.deferred = none) (honoured : t.Honoured p others s u) :
      Leaves t p others d s (.ok ()) u
  | forsaken {e : Error} {u : Desk} (gone : u.deferreds.get? t.deferred = none)
      (forsaken : Link.Legible s.link u.link -> Forsaken p others d s u) : Leaves t p others d s (.error e) u

open Desk

variable {r : Runner} {t : HostTask} {s u : Desk} {w : World} {p : Ptr} {others : List Ptr} {d : Deferred}

theorem settleResult_eq (t : HostTask) :
    Attempt.settleResult t.deferred t.plan.result = Attempt.settleValue t.deferred t.succeeds t.answer := by
  unfold succeeds answer
  cases t.plan.result <;> rfl

theorem leaves_delivered (pending : s.Pending t.deferred p others d)
    (delivered : s.Delivered t.deferred p others d t.succeeds t.answer u) (sole : d.holders = 1) :
    ∃ e, u.deferreds.get? t.deferred = some e ∧ e.holders ≤ 1 ∧
      t.Leaves p others d s (.ok ()) (u.without t.deferred e) := by
  let e : Deferred := { d with settled := true, resolve := none, reject := none }
  obtain ⟨h, promise, same⟩ := Option.map_eq_some_iff.1 pending.promise
  have handles : e.handles.map Handle.ptr = [p] := by simp [e, Deferred.handles, promise, same]
  obtain ⟨more, sound⟩ := delivered.sound
  have held : u.Sound (more ++ (e.handles.map Handle.ptr ++ others)) := handles ▸ sound
  obtain ⟨more', sound', sheds⟩ := held.without t.deferred
  refine ⟨e, by simp [delivered.deferreds, e], sole.le, .honoured (u.get?_without _ _) ⟨fun member => ?_, ?_⟩⟩
  · exact pending.kept sound' (List.mem_append_right more' member)
  · exact delivered.settles sheds sound'

theorem leaves_failed {e : Error} (pending : s.Pending t.deferred p others d)
    (restored : Link.Legible s.link u.link -> s.Restored u) : t.Leaves p others d s (.error e) (u.without t.deferred d) := by
  refine .forsaken (u.get?_without _ _) fun legible => ?_
  have next : u.link.memory.next ≤ (u.without t.deferred d).link.memory.next :=
    next_discardingAll { u with deferreds := u.deferreds.erase t.deferred } d.handles
  have restored := restored ⟨legible.spare, Nat.le_trans (Nat.add_le_add_right next 24) legible.last⟩
  have pending' := restored.pending pending
  have held : u.Sound ([] ++ (d.handles.map Handle.ptr ++ others)) := pending'.sound
  obtain ⟨more, sound, sheds⟩ := held.without t.deferred
  obtain ⟨polls, same⟩ := restored.link
  have still : s.heap.Sheds u.heap := .of_cells same.2 same.1.jobs same.1.history
  refine ⟨fun member => pending.kept sound (List.mem_append_right more member), fun value there => ?_, still.trans sheds,
    fun fulfil c held => ?_⟩
  · obtain ⟨record, found, rest⟩ := pending'.unresolved
    have before := sheds.values p value there
    rw [Heap.promise?_eq_some.1 found] at before
    exact ⟨record, (Option.some.inj before).symm, rest⟩
  · obtain ⟨c', n, held', owns, -⟩ := pending'.capable fulfil
    obtain rfl := Option.some.inj (held.symm.trans held')
    have member : c ∈ d.handles := by cases fulfil <;> simp_all [Deferred.handles, Deferred.capability]
    exact dead_discardingAll (s := { u with deferreds := u.deferreds.erase t.deferred }) pending'.sound.opened
      pending'.sound.ready.clear owns.owned owns.reference member

theorem gives_completion {P : Except Error Unit -> Prop} (pending : s.Pending t.deferred p others d) (sole : d.holders = 1)
    (word : s.config.maxBytes < UInt64.size) (here : w.desk = s)
    (answers : r.Gives (Attempt.settleValue t.deferred t.succeeds t.answer).run (Change.stand.apply w) fun a _ => P a) :
    r.Gives (WorldM.runWork t.completion) w fun _ w' => ∃ a, P a ∧ t.Leaves p others d s a w'.desk := by
  refine Runner.gives_bind (P := fun _ w' => w' = Change.stand.apply w) ⟨(), rfl, rfl⟩ ?_
  rintro _ _ rfl
  have offered := (Runner.brings_settleValue (r := r) pending word t.succeeds t.answer).gives (w := Change.stand.apply w) here
  refine Runner.gives_bind (settleResult_eq t ▸ answers.and offered) ?_
  rintro a w' ⟨answer, offered⟩
  generalize there : w'.desk = u at offered
  cases offered with
  | failed deferreds restored =>
    have letGo := Runner.yields_letGoDeferred (r := r) (deferreds ▸ pending.found) sole.le
    refine Runner.gives_bind (letGo.gives there) ?_
    rintro _ w'' ⟨-, last⟩
    exact ⟨(), rfl, _, answer, last ▸ leaves_failed pending restored⟩
  | delivered delivered =>
    obtain ⟨e, found, last, leaves⟩ := leaves_delivered pending delivered sole
    refine Runner.gives_bind ((Runner.yields_letGoDeferred (r := r) found last).gives there) ?_
    rintro _ w'' ⟨-, last⟩
    exact ⟨(), rfl, _, answer, last ▸ leaves⟩

theorem brings_refused {e : DeferredId} {fulfil : Bool} {v : Snapshot} (opened : s.vault.closed = false)
    (refused : ¬s.config.Admits v) :
    r.Brings (Attempt.settleValue e fulfil v).run s fun a _ => ∃ error, a = .error error := by
  generalize answered : Link.answered (Conversion.toEngine s.config.maxDepth s.config.maxBytes v) s.link = answer
  obtain ⟨_ | q, l⟩ := answer
  · exact Runner.brings_failed (Runner.yields_fromSnapshot_error opened answered) ⟨_, rfl⟩
  · exact absurd (Conversion.toEngine_affords answered) refused

/-- The next poll is the last one. -/
structure Due (t : HostTask) : Prop where
  yields : t.plan.yields = 0
  sleep : t.plan.sleep = none
  panic : t.plan.panic = none

theorem gives_pollTask {v : World} (due : t.Due)
    (ran : r.Gives (WorldM.runTaskScript t.label t.plan.script) w fun _ u => u = v) (opened : v.arrive.isOpen .back = true) :
    r.Gives (WorldM.pollTask t) w fun step u => step = .over ∧ u = v.arrive.accept .back (.work t.completion) := by
  rw [WorldM.pollTask, due.yields, due.sleep, due.panic]
  refine Runner.gives_bind ran ?_
  rintro _ _ rfl
  obtain ⟨came, last⟩ := submit_accepted (r := r) (t := .worker) t.completion opened
  refine Runner.gives_bind (P := fun _ u => u = _) ⟨_, came, last⟩ ?_
  rintro _ _ rfl
  exact ⟨_, rfl, rfl, rfl⟩

/-- What becomes of the promise. -/
structure Concluded (t : HostTask) (p : Ptr) (others : List Ptr) (d : Deferred) (w : World) (u : Desk) : Prop where
  gone : u.deferreds.get? t.deferred = none
  either : Link.Legible w.desk.link u.link -> t.Honoured p others w.desk u ∨ Forsaken p others d w.desk u
  refused : ¬w.desk.config.Admits t.answer -> Link.Legible w.desk.link u.link -> Forsaken p others d w.desk u
  honoured : w.desk.config.Admits t.answer -> w.Leisurely w.desk ->
    w.desk.link.Roomy ((t.answer.need 0).space + Memory.span 4) (t.answer.need 0).space -> t.Honoured p others w.desk u

theorem gives_concluded (pending : w.desk.Pending t.deferred p others d) (sole : d.holders = 1)
    (word : w.desk.config.maxBytes < UInt64.size) :
    r.Gives (WorldM.runWork t.completion) w fun _ u => t.Concluded p others d w u.desk := by
  let act := (Attempt.settleValue t.deferred t.succeeds t.answer).run
  let Fit := w.desk.config.Admits t.answer ∧ w.Leisurely w.desk ∧
    w.desk.link.Roomy ((t.answer.need 0).space + Memory.span 4) (t.answer.need 0).space
  have ends := (Runner.brings_settleValue (r := r) pending word t.succeeds t.answer).gives (w := Change.stand.apply w) rfl
  have given : r.Gives act (Change.stand.apply w) fun a _ => Fit -> a = .ok () := by
    by_cases fit : Fit
    · obtain ⟨⟨depth, bytes⟩, leisurely, room⟩ := fit
      have later : (Change.stand.apply w).Leisurely w.desk := leisurely.later rfl rfl rfl
      exact (Runner.gives_settleValue later pending word depth bytes room t.succeeds).imp fun _ _ done _ => done
    · exact ends.imp fun _ _ _ suits => absurd suits fit
  have denied : r.Gives act (Change.stand.apply w) fun a _ => ¬w.desk.config.Admits t.answer -> ∃ e, a = .error e := by
    by_cases admits : w.desk.config.Admits t.answer
    · exact ends.imp fun _ _ _ refused => absurd admits refused
    · have failed : r.Brings act w.desk fun a _ => ∃ e, a = .error e := brings_refused pending.sound.opened admits
      exact (failed.gives (w := Change.stand.apply w) rfl).imp fun _ _ failed _ => failed
  refine (gives_completion pending sole word rfl ((given.and denied).imp fun _ _ => id)).imp ?_
  rintro _ u ⟨a, ⟨fits, refused⟩, leaves⟩
  cases leaves with
  | honoured gone honoured =>
    refine ⟨gone, fun _ => .inl honoured, fun unfit => ?_, fun _ _ _ => honoured⟩
    obtain ⟨e, same⟩ := refused unfit
    cases same
  | forsaken gone forsaken =>
    refine ⟨gone, fun legible => .inr (forsaken legible), fun _ => forsaken, fun admits leisurely room => ?_⟩
    cases fits ⟨admits, leisurely, room⟩

/-- A call of an asynchronous function returns a pending promise. The last poll of its task only queues an item, and the item
settles the promise with what the task came to. If the limits are in the way of that, the promise stays pending, and
nobody can settle it any more. -/
theorem completes (r : Runner) :
    (∀ label plan (w : World) outside, w.desk.Sound outside -> w.desk.heap.cells.size + 20 ≤ UInt32.size ->
      r.Gives (Attempt.startTask label plan).run w (Begun label plan outside w.desk)) ∧
    (∀ (t : HostTask) w (v : World), t.Due -> r.Gives (WorldM.runTaskScript t.label t.plan.script) w (fun _ u => u = v) ->
      v.arrive.isOpen .back = true ->
      r.Gives (WorldM.pollTask t) w fun step u => step = .over ∧ u = v.arrive.accept .back (.work t.completion)) ∧
    ∀ (t : HostTask) (w : World) p others d, w.desk.Pending t.deferred p others d -> d.holders = 1 ->
      w.desk.config.maxBytes < UInt64.size ->
      r.Gives (WorldM.runWork t.completion) w fun _ u => t.Concluded p others d w u.desk :=
  ⟨fun label plan _ _ sound few => Runner.gives_startTask sound few label plan,
    fun _ _ _ due ran opened => gives_pollTask due ran opened,
    fun _ _ _ _ _ pending sole word => gives_concluded pending sole word⟩

/-- A task that completes with a list, and the deferred of which is the only one. -/
def waitingTask : HostTask :=
  ⟨"task", ⟨0, none, none, none, .ok (.list [.text "done"])⟩, 0⟩

theorem waitingTask_completes :
    Runner.flat.Gives (Attempt.startTask "other" waitingTask.plan).run waitingWorld
        (Begun "other" waitingTask.plan [16, 17, 18] waitingWorld.desk) ∧
      (Runner.flat.Gives (WorldM.pollTask waitingTask) waitingWorld fun step u =>
        step = .over ∧ u = waitingWorld.arrive.accept .back (.work waitingTask.completion)) ∧
      Runner.flat.Gives (WorldM.runWork waitingTask.completion) waitingWorld fun _ u =>
        waitingTask.Honoured 16 [] waitingWorld.desk u.desk := by
  obtain ⟨starts, polled, concluded⟩ := completes Runner.flat
  refine ⟨starts "other" _ waitingWorld _ pending_waiting.sound (by decide +kernel), ?_, ?_⟩
  · exact polled waitingTask waitingWorld waitingWorld ⟨rfl, rfl, rfl⟩ ⟨(), rfl, rfl⟩ rfl
  · refine (concluded waitingTask waitingWorld 16 [] waitingDeferred pending_waiting rfl (by decide)).imp fun _ _ done => ?_
    exact done.honoured ⟨by decide, by decide⟩ ⟨rfl, by decide, nofun⟩ ⟨⟨rfl, by decide⟩, by decide⟩

/-- An asynchronous function comes to a list that is nested too deep, and its promise has a reaction. -/
def nestedSteps : List CallerStep :=
  let nested := Snapshot.list [.list [.list [.list [.list [.null]]]]]
  [.invoke [
    .function "caught" [] (some "g"), .asyncFunction "deep" [] ⟨0, none, none, none, .ok nested⟩ (some "f"),
    .worker (.callChecked "f" none [] (some "q")), .worker (.andThen "q" none (some "g") (some "c"))],
    .invoke [.worker (.promiseState "q")]]

end HostTask

/-- The deferred that is settled by an item which the worker takes. -/
def Mark.concluding? : Mark -> Option DeferredId
  | taken (.work (.settle id _ none)) => some id
  | _ => none

def StepReport.texts (s : StepReport) : List String :=
  match s.answer with
  | .list answers => answers.filterMap fun
      | .text s => some s
      | _ => none
  | _ => []

namespace HostTask

/-- The task completes and the worker takes its item. Then the promise is pending, and nothing was ever settled. -/
theorem nested_forsaken :
    ∃ report w, SessionReport.run ⟨{ maxDepth := 3 }, [], none⟩ nestedSteps [] 9 = .ok (report, w) ∧
      w.journal.filterMap Mark.concluding? = [0] ∧ w.caller.reports.map StepReport.texts = [["Pending"], []] ∧
        w.heap.history.filterMap Happening.settled? = [] := by
  obtain ⟨report, w, ran, shown⟩ := SessionReport.run_shows ⟨{ maxDepth := 3 }, [], none⟩ nestedSteps [] 9
    (fun w => (w.journal.filterMap Mark.concluding?, w.caller.reports.map StepReport.texts,
      w.heap.history.filterMap Happening.settled?))
    ([0], [["Pending"], []], []) (by decide +kernel)
  obtain ⟨concluding, shown⟩ := Prod.mk.inj shown
  obtain ⟨texts, history⟩ := Prod.mk.inj shown
  exact ⟨report, w, ran, concluding, texts, history⟩

end HostTask

end ScriptHost
