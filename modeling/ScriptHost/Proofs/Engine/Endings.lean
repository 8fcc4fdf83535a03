import ScriptHost.Proofs.Engine.Interrupts
import ScriptHost.Proofs.Engine.Planting
import ScriptHost.Proofs.Engine.Posting

set_option autoImplicit false

/-!
How jobs call their handlers, how they end, and what is told of the derived promise then.

A job has one handler at most. It ends when that has returned or thrown, or cannot be called, and at once if there
is none.
-/

namespace ScriptHost

namespace Heap

variable {h : Heap} {p q v : Ptr} {r : PromiseRecord} {x : Reaction} {rejected : Bool} {value : Value}

theorem settle_tells (found : h.promise? p = some r) (pending : r.settlement = .pending) (v : Ptr) (rejected : Bool) :
    News h.history (h.settle p v rejected).history (.settled p v rejected) := by
  obtain ⟨m, settled, told⟩ := settle_enqueues found pending v rejected
  have kept : (h.settle p v rejected).history = m.history := by
    rw [settled]
    exact (enqueueAll_forgets m r.reactions v rejected).history
  have before : m.history = .settled p v rejected :: h.history := congrArg Affairs.history told
  rw [kept, before]
  exact .of_cons (List.suffix_refl _)

theorem history_attach (found : h.promise? p = some r) (x : Reaction) : (h.attach p x).history = .reacted p :: h.history := by
  rcases attach_enqueues found x with ⟨-, stored⟩ | ⟨v, rejected, m, -, attached, reacted⟩
  next => exact congrArg Affairs.history stored
  next =>
    rw [attached]
    exact (enqueue_forgets m x v rejected).history.trans (congrArg Affairs.history reacted)

theorem newError_keeps (counted : Counted h.cells) (message : String) (found : h.get? q = some value) :
    (h.newError message).2.get? q = some value := by
  obtain ⟨c, here, same⟩ := get?_eq_some.1 found
  rcases newError_plants counted message with ⟨p, text, n, -, -, -, absent, absent', apart, made⟩ | ⟨-, n, -, made⟩
  next =>
    have planted := withError_planted message absent absent' apart
    rw [made]
    exact get?_eq_some.2 ⟨c, (planted.get?_old (planted.apart here)).trans here, same⟩
  next =>
    rw [made]
    exact found

theorem suffix_newError (h : Heap) (message : String) : h.history <:+ (h.newError message).2.history := by
  have same : (h.newError message).2.history = h.history := (forgets_newError h message).history
  rw [same]

/-- What is told of a promise that is resolved with `v`. Another promise is adopted, and hears of it instead. -/
def resolution (h : Heap) (p v : Ptr) : Happening :=
  if v = p then .settled p (h.newError selfResolution).1 true
  else if h.isPromise v then .reacted v
  else .settled p v false

theorem resolveWith_plain (found : h.promise? p = some r) (absent : h.promise? v = none) :
    h.resolveWith p v = h.settle p v false ∧ h.resolution p v = .settled p v false := by
  have other : v ≠ p := fun same => by simp [same, found] at absent
  simp [resolveWith, resolution, other, isPromise, absent]

theorem resolveWith_tells (counted : Counted h.cells) (found : h.promise? p = some r) (pending : r.settlement = .pending)
    (v : Ptr) : News h.history (h.resolveWith p v).history (h.resolution p v) := by
  unfold resolveWith resolution
  split
  next =>
    have there := promise?_eq_some.2 (newError_keeps counted selfResolution (promise?_eq_some.1 found))
    exact (settle_tells there pending _ true).earlier (suffix_newError h selfResolution)
  next =>
    split
    next promise =>
      obtain ⟨y, there⟩ := Option.isSome_iff_exists.1 promise
      have here : (h.retain p).promise? v = some y := by simpa [promise?_eq_some] using there
      rw [history_attach here ⟨p, none, none⟩]
      exact .of_cons (List.suffix_refl _)
    next => exact settle_tells found pending v false

end Heap

/-- What is told of the promise `p` when a function that was called for it has completed. -/
def Completion.told (h : Heap) (p : Ptr) : Completion -> Happening
  | returned v => h.resolution p v
  | threw exception => .settled p exception true

namespace Engine

open Heap

variable {s : Engine} {job : Job} {r : PromiseRecord} {f : Ptr}

theorem endJob_tells (counted : Counted s.heap.cells) (found : s.heap.promise? job.derived = some r)
    (pending : r.settlement = .pending) (c : Completion) :
    News s.heap.history (s.endJob job c).2.heap.history (c.told s.heap job.derived) := by
  cases c with
  | returned v => exact resolveWith_tells counted found pending v
  | threw exception => exact settle_tells found pending exception true

theorem passThrough_tells (found : s.heap.promise? job.derived = some r) (pending : r.settlement = .pending)
    (plain : job.rejected = false -> s.heap.promise? job.argument = none) :
    News s.heap.history (s.passThrough job).2.heap.history (.settled job.derived job.argument job.rejected) := by
  simp only [passThrough]
  cases rejected : job.rejected with
  | true => exact settle_tells found pending job.argument true
  | false =>
    simp only [Bool.false_eq_true, if_false, (resolveWith_plain found (plain rejected)).1]
    exact settle_tells found pending job.argument false

/-- The function is one that the host runs, and there is room for the table of its arguments. -/
structure Runs (s : Engine) (f : Ptr) : Prop where
  function : ∃ name id, s.heap.get? f = some (.function name (.host id))
  hosted : s.hosted = true
  room : (s.memory.allocate 4).1 ≠ 0

theorem writeTable_none {m m' : Memory} {w : UInt32} {a : Addr} (written : m.writeTable [w] = .ok (a, m'))
    (room : (m.allocate 4).1 ≠ 0) : a ≠ 0 := by
  have size : max ([w].length * 4) 4 = 4 := rfl
  unfold Memory.writeTable at written
  rw [size] at written
  dsimp only at written
  rw [if_neg room] at written
  cases put : (m.allocate 4).2.write (m.allocate 4).1 (Memory.encodeWords [w]) with
  | error e => simp [put, Except.map] at written
  | ok t =>
    simp only [put, Except.map] at written
    cases written
    exact room

/-- A request for a reaction, on a promise, attaches one. -/
theorem history_promiseThen {p : Ptr} (promise : s.heap.isPromise p = true) (onFulfilled onRejected : Option Ptr) :
    (outcome (promiseThen p onFulfilled onRejected) s).2.heap.history = .reacted p :: s.heap.history := by
  obtain ⟨r, found⟩ := Option.isSome_iff_exists.1 promise
  have unheld : (Value.promise .fresh).children = [] := rfl
  have here : (s.heap.newPromise.2.retain s.heap.newPromise.1).promise? p = some r := by
    rw [promise?_eq_some, get?_retain]
    exact get?_insert_of_found unheld (promise?_eq_some.1 found)
  have kept : s.heap.newPromise.2.history = s.heap.history := by
    rcases newPromise_cases s.heap with ⟨n, -, -, -, -, begun⟩ | full
    next => exact congrArg Affairs.history begun
    next => rw [full]
  rw [promiseThen_andThen promise]
  exact (history_attach here _).trans (congrArg _ kept)

/-- The handler of a job is run by the host, or it is a function of a promise, or it cannot be called. -/
theorem runHandler_cases (fine : s.memory.WellFormed) (job : Job) (f : Ptr) :
    (∃ name id table memory, s.heap.get? f = some (.function name (.host id)) ∧
      s.runHandler false job f = (.calling ⟨id, Ptr.undefined, 1, table⟩ (.handler job table), { s with memory }) ∧
      memory.readWords table 1 = .ok [job.argument]) ∨
    (∃ p reject, s.heap.resolver? f = some (p, reject) ∧
      s.runHandler false job f =
        finished (({ s with heap := s.heap.callResolving p job.argument reject } : Engine).endJob job (.returned Ptr.undefined))) ∨
    (s.heap.resolver? f = none ∧ ¬ s.Runs f ∧ ∃ message memory,
      s.runHandler false job f = finished (({ s with memory, heap := (s.heap.newError message).2 } : Engine).endJob job
        (.threw (s.heap.newError message).1))) := by
  have refused (message : String) (unable : s.heap.resolver? f = none) (unfit : ¬ s.Runs f)
      (started : s.start false f [job.argument] = (.ended (s.throwing message).1, (s.throwing message).2)) :
      s.heap.resolver? f = none ∧ ¬ s.Runs f ∧ ∃ message memory,
        s.runHandler false job f = finished (({ s with memory, heap := (s.heap.newError message).2 } : Engine).endJob job
          (.threw (s.heap.newError message).1)) := by
    refine ⟨unable, unfit, message, s.memory, ?_⟩
    simp only [runHandler, started]
    rfl
  by_cases hostly : ∃ name id, s.heap.get? f = some (.function name (.host id))
  next =>
    obtain ⟨name, id, found⟩ := hostly
    have unable : s.heap.resolver? f = none := by simp [resolver?, found, Value.resolver?]
    by_cases hosted : s.hosted = true
    next =>
      have started : s.start false f [job.argument] = (.host id, s) := by simp [start, found, hosted]
      obtain ⟨table, memory, written, tabled⟩ := Memory.writeTable_spec fine [job.argument]
      by_cases none : table = 0
      next =>
        refine .inr (.inr ⟨unable, fun runs => writeTable_none written runs.room none, outOfMemory, memory, ?_⟩)
        simp only [runHandler, started, written, none, if_true]
        rfl
      next =>
        obtain ⟨-, inside, stored, -⟩ := tabled.stored none
        refine .inl ⟨name, id, table, memory, found, ?_, Memory.readWords_stores tabled.wellFormed inside stored⟩
        simp only [runHandler, started, written, none, if_false]
    next =>
      have started : s.start false f [job.argument] =
          (.ended (s.throwing "no host trampoline installed").1, (s.throwing "no host trampoline installed").2) := by
        simp [start, found, hosted]
      exact .inr (.inr (refused _ unable (fun runs => hosted runs.hosted) started))
  next =>
    have unfit : ¬ s.Runs f := fun runs => hostly runs.function
    cases able : s.heap.resolver? f with
    | some t =>
      obtain ⟨p, reject⟩ := t
      obtain ⟨value, found, selected⟩ := Option.bind_eq_some_iff.1 able
      refine .inr (.inl ⟨p, reject, rfl, ?_⟩)
      cases value with
      | function name kind =>
        cases kind <;> simp [Value.resolver?] at selected <;> obtain ⟨rfl, rfl⟩ := selected <;>
          simp [runHandler, start, found]
      | _ => simp [Value.resolver?] at selected
    | none =>
      refine .inr (.inr (able ▸ refused (s.heap.display f ++ " is not a function") able unfit ?_))
      simp only [start, Bool.false_eq_true, if_false]
      split
      next name id found => exact absurd ⟨name, id, found⟩ hostly
      next name p found => simp [resolver?, found, Value.resolver?] at able
      next name p found => simp [resolver?, found, Value.resolver?] at able
      next => rfl

end Engine

/-- How a job ended. -/
inductive Upshot where
  -- It had no handler.
  | passed
  | handled (c : Completion)

/-- What is told of the derived promise of a job when that has ended. -/
def Upshot.told (h : Heap) (j : Job) : Upshot -> Happening
  | passed => .settled j.derived j.argument j.rejected
  | handled c => c.told h j.derived

namespace Hosting

open Heap

variable {d : Discipline} {s : Hosting} {m : Move} {j : Job} {f : Ptr} {i : Invocation} {rest : List Waiting}

/-- The move makes the host run its function for the handler of the job, which finds the argument of the job and
nothing else in its table. -/
structure Invokes (s : Hosting) (m : Move) (j : Job) (i : Invocation) : Prop where
  move : m = .poll false
  handler : ∃ f name, j.handler = some f ∧ s.engine.heap.get? f = some (.function name (.host i.function))
  this : i.this = Ptr.undefined
  count : i.count = 1
  arguments : (s.step m).engine.memory.readWords i.arguments 1 = .ok [j.argument]

/-- The move ends the job, for which the host has run its function at most once. -/
inductive Ended (s : Hosting) (m : Move) (j : Job) : Option Invocation -> Upshot -> Prop
  | passed (move : m = .poll false) (missing : j.handler = none) : Ended s m j none .passed
  -- The handler is a function of a promise.
  | resolved (f p : Ptr) (reject : Bool) (handler : j.handler = some f) (move : m = .poll false)
      (target : s.resolving m = some (p, j.argument, reject)) : Ended s m j none (.handled (.returned Ptr.undefined))
  | refused (f : Ptr) (message : String) (handler : j.handler = some f) (move : m = .poll false)
      (unable : s.engine.heap.resolver? f = none) (unfit : ¬ s.engine.Runs f) :
      Ended s m j none (.handled (.threw (s.engine.heap.newError message).1))
  | returned (f v : Ptr) (i : Invocation) (handler : j.handler = some f) (move : m = .answer v) (nonzero : v ≠ 0) :
      Ended s m j (some i) (.handled (.returned v))
  | threw (f exception : Ptr) (i : Invocation) (handler : j.handler = some f) (move : m = .answer 0)
      (raised : s.engine.heap.exception = some exception) : Ended s m j (some i) (.handled (.threw exception))
  | failed (f : Ptr) (i : Invocation) (handler : j.handler = some f) (move : m = .answer 0)
      (calm : s.engine.heap.exception = none) :
      Ended s m j (some i) (.handled (.threw (s.engine.heap.newError "host function failed").1))

/-- The derived promise of the job, if it is there when the handler has run, is told how that ended. -/
def Concludes (s : Hosting) (m : Move) (j : Job) (e : Upshot) : Prop :=
  ∀ r, (s.called m).2.promises.get? j.derived = some r ->
    News s.engine.heap.history (s.step m).engine.heap.history (e.told s.engine.heap j)

theorem Fit.counted (fit : Fit d s m) : Counted s.engine.heap.cells := by
  have numbered := fit.numbered.of_le (step_next s m)
  exact fun p c found => ((fit.sound.heap.balanced numbered).counted p c found).imp_right And.left

theorem targets_of_job {w : Waiting} (waiting : s.waiting = w :: rest) (mine : w.job? = some j) (a : Affairs) :
    j.derived ∈ targets (s.tasks, a) := by
  have first : ∃ t ∈ s.tasks, t.target = j.derived := by
    cases w with
    | checking c =>
      cases c <;> cases mine <;> simp [tasks, waiting, Waiting.tasks, Check.tasks, Task.target]
    | calling i f =>
      cases f with
      | call => cases mine
      | handler j' table =>
        cases mine
        simp [tasks, waiting, Waiting.tasks, Frame.tasks, Task.target]
  obtain ⟨t, member, same⟩ := first
  exact List.mem_append_left _ (same ▸ List.mem_map_of_mem member)

theorem Fit.pending {w : Waiting} {r : PromiseRecord} (fit : Fit d s m) (waiting : s.waiting = w :: rest) (mine : w.job? = some j)
    (found : (s.called m).2.promises.get? j.derived = some r) : r.settlement = .pending :=
  Steady.pending (called_steady m fit.steady) (targets_of_job waiting mine _) found

theorem step_checking {c : Check} (waiting : s.waiting = .checking c :: rest) :
    s.step (.poll false) = { s with waiting := rest }.enter c.handedOver (s.engine.afterCheck false c) := by
  simp [step, poll, waiting]

theorem step_calling {p : Ptr} {frame : Frame} (waiting : s.waiting = .calling i frame :: rest) :
    (s.step (.answer p)).waiting = rest ∧ (s.step (.answer p)).engine = (s.engine.afterHost p frame).2 := by
  simp [step, answer, waiting]

/-- Without a handler a job ends at once. -/
theorem pass_ended (fit : Fit d s (.poll false)) (waiting : s.waiting = .checking (.job j) :: rest) (missing : j.handler = none) :
    (s.step (.poll false)).waiting = rest ∧ Ended s (.poll false) j none .passed ∧ Concludes s (.poll false) j .passed := by
  have passed : s.engine.afterCheck false (.job j) = Engine.finished (s.engine.passThrough j) := by
    simp [Engine.afterCheck, missing]
  have called : s.called (.poll false) = s.state := by
    rw [called, afterCall_checking waiting]
    rfl
  refine ⟨?_, .passed rfl missing, fun r found => ?_⟩
  next =>
    rw [step_checking waiting, enter_waiting, passed]
    rfl
  next =>
    have pending := fit.pending waiting rfl found
    rw [called] at found
    rw [step_checking waiting, enter_engine, passed]
    refine Engine.passThrough_tells ((get?_promises _ _).symm.trans found) pending fun fulfilled => ?_
    have queued : Task.job j ∈ s.tasks := by simp [tasks, waiting, Waiting.tasks, Check.tasks]
    exact (get?_promises _ _).symm.trans (fit.steady.argument j (.inr queued) fulfilled)

/-- When the handler of a job is called, the host runs it, or the job ends. -/
theorem handler_called (fit : Fit d s (.poll false)) (waiting : s.waiting = .checking (.handler j f) :: rest)
    (handler : j.handler = some f) :
    (∃ i table, (s.step (.poll false)).waiting = .calling i (.handler j table) :: rest ∧ Invokes s (.poll false) j i) ∨
    (s.step (.poll false)).waiting = rest ∧ ∃ e, Ended s (.poll false) j none e ∧ Concludes s (.poll false) j e := by
  have stepped := step_checking waiting
  have called : (s.called (.poll false)).2 = ((Check.handler j f).afterCall false s.engine.heap).affairs := by
    rw [called, afterCall_checking waiting]
  have engine : s.engine.afterCheck false (.handler j f) = s.engine.runHandler false j f := rfl
  rcases Engine.runHandler_cases fit.sound.memory j f with
    ⟨name, id, table, memory, found, runs, stored⟩ | ⟨p, reject, able, ends⟩ | ⟨unable, unfit, message, memory, ends⟩
  next =>
    refine .inl ⟨⟨id, Ptr.undefined, 1, table⟩, table, ?_, rfl, ⟨f, name, handler, found⟩, rfl, rfl, ?_⟩
    next =>
      rw [stepped, enter_waiting, engine, runs]
      rfl
    next =>
      rw [stepped, enter_engine, engine, runs]
      exact stored
  next =>
    have target : (Check.handler j f).resolving s.engine.heap = some (p, j.argument, reject) := by
      simp [Check.resolving, Check.called, able]
    refine .inr ⟨?_, .handled (.returned Ptr.undefined), .resolved f p reject handler rfl ?_, fun r found => ?_⟩
    next =>
      rw [stepped, enter_waiting, engine, ends]
      rfl
    next => simpa only [resolving, waiting] using target
    next =>
      have pending := fit.pending waiting rfl found
      obtain ⟨y, before, -⟩ := called_moved (.poll false) fit.steady found
      have absent : (s.called (.poll false)).2.promises.get? Ptr.undefined = none := by
        cases there : (s.called (.poll false)).2.promises.get? Ptr.undefined with
        | none => rfl
        | some x =>
          obtain ⟨z, here, -⟩ := called_moved (.poll false) fit.steady there
          cases ((get?_promises _ _).trans fit.undefined_absent).symm.trans here
      have same : (Check.handler j f).afterCall false s.engine.heap = s.engine.heap.callResolving p j.argument reject := by
        simp [Check.afterCall, target]
      have told := called_history s (.poll false)
      rw [called, same] at found absent told
      replace found := (get?_promises _ _).symm.trans found
      obtain ⟨settles, -⟩ := resolveWith_plain found ((get?_promises _ _).symm.trans absent)
      have plain := resolveWith_plain ((get?_promises _ _).symm.trans before) fit.undefined_absent
      rw [stepped, enter_engine, engine, ends, Upshot.told, Completion.told, plain.2]
      have news := settle_tells found pending Ptr.undefined false
      rw [← settles] at news
      exact news.earlier told
  next =>
    refine .inr ⟨?_, .handled (.threw _), .refused f message handler rfl unable unfit, fun r found => ?_⟩
    next =>
      rw [stepped, enter_waiting, engine, ends]
      rfl
    next =>
      have pending := fit.pending waiting rfl found
      have same : (Check.handler j f).afterCall false s.engine.heap = s.engine.heap := by
        simp [Check.afterCall, Check.resolving, Check.called, unable]
      rw [called, same] at found
      have there := newError_keeps fit.counted message (promise?_eq_some.1 ((get?_promises _ _).symm.trans found))
      rw [stepped, enter_engine, engine, ends]
      exact (settle_tells (promise?_eq_some.2 there) pending _ true).earlier (suffix_newError _ message)

/-- Only what the host answers with is adopted. -/
theorem Ended.told_ne {e : Upshot} {v : Ptr} (ended : Ended s m j none e) (fit : Fit d s m) : e.told s.engine.heap j ≠ .reacted v := by
  cases ended with
  | passed => simp [Upshot.told]
  | resolved =>
    have plain : s.engine.heap.isPromise Ptr.undefined = false := by simp [isPromise, fit.undefined_absent]
    simp only [Upshot.told, Completion.told, resolution, plain]
    split <;> simp
  | refused => simp [Upshot.told, Completion.told]

/-- When the host has answered for the handler of a job, the job ends. -/
theorem handler_answered {v : Ptr} {table : Addr} (fit : Fit d s (.answer v)) (waiting : s.waiting = .calling i (.handler j table) :: rest)
    (handler : j.handler = some f) :
    (s.step (.answer v)).waiting = rest ∧ ∃ e, Ended s (.answer v) j (some i) e ∧ Concludes s (.answer v) j e := by
  obtain ⟨popped, stepped⟩ := step_calling (p := v) waiting
  refine ⟨popped, ?_⟩
  let freed : Engine := { s.engine with memory := s.engine.memory.free table }
  have engine : (s.step (.answer v)).engine = ((freed.completion v).2.endJob j (freed.completion v).1).2 := stepped
  have known (r : PromiseRecord) (found : (s.called (.answer v)).2.promises.get? j.derived = some r) :
      s.engine.heap.promise? j.derived = some r ∧ r.settlement = .pending :=
    ⟨(get?_promises _ _).symm.trans found, fit.pending waiting rfl found⟩
  by_cases nonzero : v = 0
  next =>
    subst nonzero
    cases raised : s.engine.heap.exception with
    | some exception =>
      have completed : freed.completion 0 = (.threw exception, { freed with heap := s.engine.heap.takeException.2 }) := by
        simp [Engine.completion, freed, raised]
      refine ⟨_, .threw f exception i handler rfl raised, fun r found => ?_⟩
      obtain ⟨here, pending⟩ := known r found
      rw [engine, completed]
      exact settle_tells (h := s.engine.heap.takeException.2) here pending exception true
    | none =>
      have completed : freed.completion 0 = freed.throwing "host function failed" := by
        simp [Engine.completion, freed, raised]
      refine ⟨_, .failed f i handler rfl raised, fun r found => ?_⟩
      obtain ⟨here, pending⟩ := known r found
      have there := newError_keeps fit.counted "host function failed" (promise?_eq_some.1 here)
      rw [engine, completed]
      exact (settle_tells (promise?_eq_some.2 there) pending _ true).earlier (suffix_newError _ _)
  next =>
    have completed : freed.completion v = (.returned v, freed) := by simp [Engine.completion, nonzero]
    refine ⟨_, .returned f v i handler rfl nonzero, fun r found => ?_⟩
    obtain ⟨here, pending⟩ := known r found
    rw [engine, completed]
    exact Engine.endJob_tells (s := freed) fit.counted here pending (.returned v)

end Hosting

end ScriptHost
