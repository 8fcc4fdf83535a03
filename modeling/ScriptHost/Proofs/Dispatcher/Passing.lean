import ScriptHost.Proofs.Dispatcher.Callings
import ScriptHost.Proofs.Dispatcher.Registering
import ScriptHost.Proofs.Link.Balance

set_option autoImplicit false

/-!
Lists of pointers that cross the link in tables.

The host writes a table of arguments for a call, the engine one for the handler of a job, and the host function reads
either. The engine writes tables of names and of rejections as well, which the host reads.
-/

namespace ScriptHost

/-- A call of a host function, as the host makes it out. -/
structure Heard where
  function : FunctionId
  this : Ptr
  args : Except Error (List Ptr)

namespace Link

variable {l : Link} {f this : Ptr} {args : List Ptr} {id : FunctionId} {name : String} {job : Job} {rest : List Job}

/-- There is room for a table of these pointers, or no need of one. -/
def Holds (l : Link) (ps : List Ptr) : Prop :=
  ps = [] ∨ l.memory.Fits (4 * ps.length)

/-- The link with a table of these pointers on top of its memory. -/
def tabled (l : Link) (ps : List Ptr) : Link :=
  if ps = [] then l else l.withMemory (l.memory.topped (4 * ps.length) (Memory.encodeWords ps))

theorem answered_table (usable : l.Usable) (room : l.Holds args) :
    answered (if args.isEmpty then pure 0 else writeTable args) l =
      (.ok (if args = [] then 0 else UInt32.ofNat l.memory.next), l.tabled args) := by
  by_cases none : args = []
  next => simp [none, tabled]
  next =>
    have size := size_table none
    have fits := room.resolve_left none
    have empty : args.isEmpty = false := by simpa using none
    simp only [empty, Bool.false_eq_true, if_false, none, tabled, writeTable]
    rw [answered_writeBlock_fits usable.clear usable.memory (Nat.le_max_left _ _) (size ▸ fits), size]

theorem answered_table_refused (usable : l.Usable) (full : ¬l.Holds args) :
    answered (if args.isEmpty then pure 0 else writeTable args) l = (.error (.allocation (4 * args.length)), l) := by
  obtain ⟨none, unfit⟩ := not_or.1 full
  have size := size_table none
  have empty : args.isEmpty = false := by simpa using none
  simp only [empty, Bool.false_eq_true, if_false, writeTable]
  rw [answered_writeBlock_refused usable.clear (size ▸ unfit), size]

theorem readWords_tabled (usable : l.Usable) (room : l.Holds args) :
    (l.tabled args).memory.readWords (if args = [] then 0 else UInt32.ofNat l.memory.next) args.length = .ok args := by
  by_cases none : args = []
  next =>
    subst none
    rfl
  next =>
    simp only [none, if_false, tabled]
    exact readWords_topped usable.memory (room.resolve_left none)

theorem tabled_usable (usable : l.Usable) (room : l.Holds args) : (l.tabled args).Usable := by
  unfold tabled
  split
  next => exact usable
  next some => exact ⟨usable.clear, Memory.topped_wellFormed usable.memory (room.resolve_left some).2 _⟩

theorem length_of_holds (room : l.Holds args) : (UInt32.ofNat args.length).toNat = args.length := by
  rcases room with rfl | fits
  next => rfl
  next =>
    have few := Memory.le_span (4 * args.length)
    have last := fits.2
    exact Memory.toNat_address (by omega)

end Link

namespace AroundM

open Link

variable {σ : Type} {l l' : Link} {s : σ} {f this : Ptr} {args : List Ptr} {id : FunctionId} {name : String} {job : Job}
variable {rest : List Job} {answer : Invocation -> AroundM σ Ptr} {inv : Invocation} {frame : Frame} {n : Nat}

/-- What a host keeps for itself. -/
def Aside (x x' : Link × σ) : Prop :=
  x'.2 = x.2

theorem aside : Way (Aside (σ := σ)) :=
  ⟨fun _ => rfl, fun first second => second.trans first⟩

theorem aside_onLink {α : Type} {interrupted : AroundM σ Bool} (act : LinkM α) :
    Leads Aside ((host interrupted answer).onLink act) := by
  intro x
  rw [Aside, outcome_onLink]

/-- Whatever the host does about the call, nothing comes after it but the engine's own work. -/
theorem runStages_calling (x : Link × σ) :
    (((host (pure false) answer).runStages (n + 1) (.calling inv frame)).run x).2.2 =
      ((answer inv).run x).2.2 :=
  rfl

theorem runStages_checking {check : Check} {stage : Stage} {e : Engine}
    (checked : l.engine.afterCheck false check = (stage, e)) :
    ((host (pure false) answer).runStages (n + 1) (.checking check)).run (l, s) =
      ((host (pure false) answer).runStages n stage).run (l.withEngine e, s) := by
  have asked : ((host (pure false) answer).runStages (n + 1) (.checking check)).run (l, s) =
      ((host (pure false) answer).runStages n (l.engine.afterCheck false check).1).run
        (l.withEngine (l.engine.afterCheck false check).2, s) := rfl
  rw [asked, checked]

theorem runExport_starts {c : Calling} {stage : Stage} {e : Engine} (clear : l.faults = Table.empty)
    (begun : c.first l.engine = (stage, e)) :
    ((host (pure false) answer).runExport c).run (l, s) =
      ((host (pure false) answer).runStages Host.mostStages stage).run (l.withEngine e, s) := by
  let start : AroundM σ (Except Error Scalar) := do
    let stage <- (host (pure false) answer).ask (.start c)
    (host (pure false) answer).runStages Host.mostStages stage
  have intercepted : ((host (pure false) answer).ask (.intercept c.name)).run (l, s) = (none, (l, s)) := by
    change ((l.intercept c.name).1, ((l.intercept c.name).2, s)) = _
    rw [intercept_of_faultless clear]
  have started : start.run (l, s) = ((host (pure false) answer).runStages Host.mostStages (c.first l.engine).1).run
      (l.withEngine (c.first l.engine).2, s) := rfl
  simp only [Host.runExport, StateT.run_bind, intercepted]
  exact started.trans (by rw [begun])

theorem runTyped_aside {α : Type} (c : Calling) (take : Scalar -> Option α) (unfit : String) (x : Link × σ) :
    (outcome ((host (pure false) answer).runTyped c take unfit) x).2 =
      (((host (pure false) answer).runExport c).run x).2 := by
  simp only [Host.runTyped, outcome_mk, StateT.run_bind]
  generalize ((host (pure false) answer).runExport c).run x = r
  obtain ⟨_ | a, x'⟩ := r
  next => rfl
  next =>
    change (StateT.run (_ : AroundM σ (Except Error α)) x').2 = x'
    dsimp only
    split <;> rfl

/-- After the call of the engine, the host only cleans up. -/
theorem call_aside {table : Addr}
    (made : answered (if args.isEmpty then pure 0 else writeTable args) l = (.ok table, l')) :
    (outcome ((host (pure false) answer).call f this args) (l, s)).2.2 =
      (((host (pure false) answer).runExport (.call f this (UInt32.ofNat args.length) table)).run (l', s)).2.2 := by
  rw [Host.call, outcome_bind, outcome_onLink, made]
  dsimp only
  rw [outcome_lifted, ← runTyped_aside _ Scalar.word? "export returned a non-pointer value"]
  generalize outcome ((host (pure false) answer).runTyped _ _ _) (l', s) = r
  refine aside.bind (aside_onLink _) (fun _ => ?_) r.2
  split
  next => exact aside.throw _
  next =>
    split
    next =>
      refine aside.bind (aside_onLink _) fun exception => ?_
      split
      next => exact aside.pure _
      next => exact aside.throw _
    next => exact aside.pure _

variable (s this answer) in
/-- The host function is called with a table from which the arguments can be read. -/
theorem call_reaches (usable : l.Usable) (there : l.engine.heap.get? f = some (.function name (.host id)))
    (hosted : l.engine.hosted = true) (room : l.Holds args) :
    ∃ inv l', (inv.function = id ∧ inv.this = this ∧ answered (readTable inv.arguments inv.count) l' = (.ok args, l')) ∧
      (outcome ((host (pure false) answer).call f this args) (l, s)).2.2 = ((answer inv).run (l', s)).2.2 := by
  let table : Addr := if args = [] then 0 else UInt32.ofNat l.memory.next
  have usable' := tabled_usable usable room
  have words : (l.tabled args).memory.readWords table args.length = .ok args := readWords_tabled usable room
  have same : (l.tabled args).engine.heap = l.engine.heap ∧ (l.tabled args).engine.hosted = l.engine.hosted := by
    unfold tabled
    split <;> exact ⟨rfl, rfl⟩
  have begun : (Calling.call f this (UInt32.ofNat args.length) table).first (l.tabled args).engine =
      (.checking (.call f this args table), (l.tabled args).engine) := by
    simp only [Calling.first, Engine.beginCall, length_of_holds room, words]
  have checked : (l.tabled args).engine.afterCheck false (.call f this args table) =
      (.calling ⟨id, this, args.length, if args.isEmpty then 0 else table⟩ .call, (l.tabled args).engine) :=
    Engine.afterCheck_host (by rw [same.1, there]) (by rw [same.2, hosted])
  refine ⟨⟨id, this, args.length, if args.isEmpty then 0 else table⟩, l.tabled args, ⟨rfl, rfl, ?_⟩, ?_⟩
  rotate_left
  next =>
    rw [call_aside (answered_table usable room), runExport_starts usable'.clear begun]
    exact congrArg (·.2.2) (runStages_checking (n := 2) checked)
  next =>
    rw [answered_readTable usable'.clear]
    by_cases none : args = []
    next =>
      subst none
      rfl
    next =>
      have empty : args.isEmpty = false := by simpa using none
      simp only [empty, Bool.false_eq_true, if_false, words]

theorem call_refused (usable : l.Usable) (full : ¬l.Holds args) :
    outcome ((host (pure false) answer).call f this args) (l, s) =
      (.error (.allocation (4 * args.length)), (l, s)) := by
  rw [Host.call, outcome_bind, outcome_onLink, answered_table_refused usable full]

section Jobs

variable (usable : l.Usable) (queued : l.engine.heap.jobs = job :: rest) (handled : job.handler = some f)
variable (there : l.engine.heap.get? f = some (.function name (.host id))) (hosted : l.engine.hosted = true)

/-- The link without the first of its jobs. -/
def unqueued (l : Link) : Link :=
  l.withEngine { l.engine with heap := l.engine.heap.takeJob.2 }

include usable queued handled in
theorem job_starts {stage : Stage} {e : Engine}
    (ran : (unqueued l).engine.afterCheck false (.handler job f) = (stage, e)) :
    (outcome ((host (pure false) answer).executePendingJob) (l, s)).2 =
      (((host (pure false) answer).runStages 1 stage).run (l.withEngine e, s)).2 := by
  have begun : Calling.job.first l.engine = (.checking (.job job), (unqueued l).engine) := by
    simp only [Calling.first, Engine.beginJob, unqueued, withEngine, Heap.takeJob, queued]
  have checked : (unqueued l).engine.afterCheck false (.job job) = (.checking (.handler job f), (unqueued l).engine) := by
    simp only [Engine.afterCheck, handled, Bool.false_eq_true, if_false]
  have same : (outcome ((host (pure false) answer).executePendingJob) (l, s)).2 =
      (((host (pure false) answer).runExport .job).run (l, s)).2 := by
    rw [← runTyped_aside .job Scalar.i32? "export returned a non-integer value", Host.executePendingJob, outcome_bind]
    split
    next done =>
      rw [done]
      rfl
    next failed => rw [failed]
  have started : ((host (pure false) answer).runExport .job).run (l, s) = _ := runExport_starts usable.clear begun
  have first : ((host (pure false) answer).runStages 3 (.checking (.job job))).run (l.withEngine (unqueued l).engine, s) = _ :=
    runStages_checking (n := 2) checked
  have second : ((host (pure false) answer).runStages 2 (.checking (.handler job f))).run
      (l.withEngine (unqueued l).engine, s) = _ := runStages_checking (n := 1) ran
  rw [same, started, Host.mostStages]
  exact congrArg Prod.snd (first.trans second)

include usable queued handled there hosted

variable (s answer) in
/-- The handler of a job is called with a table that the engine has made for it. -/
theorem job_reaches (fits : l.memory.Fits 4) :
    ∃ inv l', (inv.function = id ∧ inv.this = Ptr.undefined ∧
        answered (readTable inv.arguments inv.count) l' = (.ok [job.argument], l')) ∧
      (outcome ((host (pure false) answer).executePendingJob) (l, s)).2.2 = ((answer inv).run (l', s)).2.2 := by
  have written : (unqueued l).engine.memory.writeTable [job.argument] = _ := Memory.writeTable_fits usable.memory fits
  have there' : (unqueued l).engine.heap.get? f = some (.function name (.host id)) := by
    simp only [unqueued, withEngine, Heap.takeJob, queued]
    exact there
  have hosted' : (unqueued l).engine.hosted = true := hosted
  have ran : (unqueued l).engine.afterCheck false (.handler job f) =
      (.calling ⟨id, Ptr.undefined, 1, UInt32.ofNat l.memory.next⟩ (.handler job (UInt32.ofNat l.memory.next)),
        { (unqueued l).engine with memory := l.memory.topped 4 (Memory.encodeWords [job.argument]) }) := by
    simp only [Engine.afterCheck, Engine.runHandler, Engine.start_host there' hosted', written]
    exact if_neg (Memory.next_nonzero usable.memory)
  let filled : Link := l.withEngine
    { (unqueued l).engine with memory := l.memory.topped 4 (Memory.encodeWords [job.argument]) }
  have started : (outcome ((host (pure false) answer).executePendingJob) (l, s)).2 = _ :=
    job_starts usable queued handled ran
  have called := (congrArg Prod.snd started).trans (runStages_calling _)
  refine ⟨_, filled, ⟨rfl, rfl, ?_⟩, called⟩
  have room : l.memory.Fits (4 * [job.argument].length) := fits
  have words : filled.engine.memory.readWords (UInt32.ofNat l.memory.next) 1 = .ok [job.argument] :=
    readWords_topped usable.memory room
  have read := answered_readTable (l := filled) usable.clear (UInt32.ofNat l.memory.next) 1
  rwa [words] at read

/-- Without room for the table, the job ends without a call. -/
theorem job_refused (unfit : ¬l.memory.Fits 4) :
    (outcome ((host (pure false) answer).executePendingJob) (l, s)).2.2 = s := by
  have written : (unqueued l).engine.memory.writeTable [job.argument] = _ := Memory.writeTable_refused unfit
  have there' : (unqueued l).engine.heap.get? f = some (.function name (.host id)) := by
    simp only [unqueued, withEngine, Heap.takeJob, queued]
    exact there
  have hosted' : (unqueued l).engine.hosted = true := hosted
  have ended : ∃ r e, (unqueued l).engine.afterCheck false (.handler job f) = (.done (.ok r), e) := by
    simp only [Engine.afterCheck, Engine.runHandler, Engine.start_host there' hosted', written, if_true, Engine.finished]
    exact ⟨_, _, rfl⟩
  obtain ⟨r, e, ran⟩ := ended
  exact congrArg Prod.snd (job_starts usable queued handled ran)

end Jobs

end AroundM

namespace Link

variable {l : Link} {object : Ptr} {keys : List String}

/-- There is one string for every key, in the same order. -/
theorem ownPropertyNames_lists (usable : l.Usable) (counted : Heap.Counted l.cells)
    (found : l.engine.heap.ownKeys object = .ok keys) (room : l.Roomy (4 * keys.length + 19) keys.length) :
    ∃ names l', answered (ownPropertyNames object) l = (.ok names, l') ∧
      List.Forall₂ (fun p key => l'.engine.heap.get? p = some (.string key) ∧ l'.engine.heap.display p = key) names keys := by
  have span : Memory.span 8 = 8 := rfl
  have length := length_newStrings l.engine.heap keys
  have few := Memory.span_le (max (keys.length * 4) 4)
  have small : l.memory.Fits 8 := room.toSpacious.fits (by omega)
  have spacious : l.Spacious (Memory.span 8 + (4 * keys.length + 11)) := room.toSpacious.mono (by omega)
  have fits : (l.placed 8).memory.Fits (max (keys.length * 4) 4) := spacious.placed.fits (by omega)
  obtain ⟨cells, n, ks, later, others, counted', planted, forest, strings⟩ := Heap.newStrings_plants counted keys
  obtain ⟨m, done, listed⟩ := getOwnPropertyNames_fits usable.memory small found (Prod.eta _).symm (length.symm ▸ fits)
  rw [others] at done
  refine ⟨_, _, ownPropertyNames_fits usable.clear usable.memory small done listed, ?_⟩
  refine (strings room.cells).imp fun p key here => ?_
  have held : Heap.get? { l.engine.heap with cells, next := n } p = some (.string key) :=
    Heap.get?_eq_some.2 ⟨_, here.2, rfl⟩
  exact ⟨held, Heap.display_string here.1 held⟩

end Link

namespace Attempt

/-- Answers a call of a host function whose arguments have been read. -/
def answerWith (f : HostFunction Handler) (this : Ptr) (args : List Ptr) : Attempt Ptr := do
  let callback := f.handler.callback.called
  WorldM.alter (.countCall f.id)
  let ran <- ExceptT.lift (WorldM.runCallback callback (operandsOf this args callback.calls) args.length)
  let h <- resultOf f.handler.plan f.name ran
  match <- ExceptT.lift (handOver h).run with
  | .ok p => pure p
  | .error e =>
      WorldM.discardHandle h
      throw e

theorem runFunction_eq (inv : Invocation) (f : HostFunction Handler) :
    runFunction inv f =
      (withLink "read host arguments" (Link.readTable inv.arguments inv.count) >>= answerWith f inv.this) :=
  rfl

end Attempt

namespace Runner

variable {α : Type} {r : Runner} {w : World} {inv : Invocation} {args : List Ptr}

theorem run_asking (act : Asking α) (w : World) :
    (r.act (WorldM.asking act)).run.run w =
      (some (act.perform.run w.worker.vault.link).1, w.onLink fun l => (act.perform.run l).2) := by
  induction act generalizing w with
  | done a => rfl
  | ask q next ih => exact ih _ _

theorem run_withLink (r : Runner) (operation : String) (act : LinkM α) (opened : w.worker.vault.closed = false) :
    (r.act (Attempt.withLink operation act).run).run.run w =
      (some (Link.answered act w.worker.vault.link).1,
        w.arrive.onLink fun _ => (Link.answered act w.worker.vault.link).2) := by
  have same : w.arrive.worker.vault = w.worker.vault := congrArg Desk.vault w.desk_arrive
  have granted : w.arrive.worker.vault.access .worker operation = .ok () :=
    Vault.access_granted _ (same.symm ▸ opened)
  have looked : (r.act (Attempt.withLink operation act).run).run.run w =
      (r.act (Attempt.ofExcept (w.arrive.worker.vault.access .worker operation) >>= fun _ =>
        ExceptT.mk (WorldM.asking act.run) : Attempt α).run).run.run w.arrive := rfl
  rw [looked, granted, ← same]
  exact run_asking act.run w.arrive

/-- The program of a host function finds under its names what is in the table. -/
theorem runFunction_reads (r : Runner) (f : HostFunction Handler) (opened : w.worker.vault.closed = false)
    (read : Link.answered (Link.readTable inv.arguments inv.count) w.worker.vault.link = (.ok args, w.worker.vault.link)) :
    (r.act (Attempt.runFunction inv f).run).run.run w =
      (r.act (Attempt.answerWith f inv.this args).run).run.run w.arrive := by
  have same : w.arrive.worker.vault = w.worker.vault := congrArg Desk.vault w.desk_arrive
  have first := run_withLink r "read host arguments" (Link.readTable inv.arguments inv.count) opened
  rw [read, ← same] at first
  have bound : r.act (Attempt.withLink "read host arguments" (Link.readTable inv.arguments inv.count) >>=
        Attempt.answerWith f inv.this).run =
      r.act (Attempt.withLink "read host arguments" (Link.readTable inv.arguments inv.count)).run >>= fun a =>
        r.act (ExceptT.bindCont (Attempt.answerWith f inv.this) a) := on_bind _ _
  rw [Attempt.runFunction_eq, bound, LoopM.run_bind, LoopM.result, LoopM.final, first]
  rfl

end Runner

namespace AroundM

open Link

variable {l : Link} {body : Heard -> StateM Link Ptr} {inv : Invocation} {args : List Ptr} {log : List Heard}

/-- Makes out a call of a host function, notes it down after those before, and leaves the rest to `body`. -/
def hearing (body : Heard -> StateM Link Ptr) (inv : Invocation) : AroundM (List Heard) Ptr := do
  let args <- onLink (readTable inv.arguments inv.count).run.perform
  let heard : Heard := ⟨inv.function, inv.this, args⟩
  modify fun x => (x.1, x.2 ++ [heard])
  onLink (body heard)

theorem hearing_heard (read : answered (readTable inv.arguments inv.count) l = (.ok args, l)) :
    ((hearing body inv).run (l, log)).2.2 = log ++ [⟨inv.function, inv.this, .ok args⟩] := by
  have heard : ((hearing body inv).run (l, log)).2.2 =
      log ++ [⟨inv.function, inv.this, (answered (readTable inv.arguments inv.count) l).1⟩] := rfl
  rw [heard, read]

end AroundM

open AroundM Link in
/-- Tables of pointers cross this link as they were written, or are refused. -/
structure Link.Passes (l : Link) : Prop where
  called : ∀ (body : Heard -> StateM Link Ptr) (f this : Ptr) (args : List Ptr) (name : String) (id : FunctionId)
    (log : List Heard), l.engine.heap.get? f = some (.function name (.host id)) -> l.engine.hosted = true ->
    (l.Holds args -> (outcome ((host (pure false) (hearing body)).call f this args) (l, log)).2.2 =
      log ++ [⟨id, this, .ok args⟩]) ∧
    (¬l.Holds args -> outcome ((host (pure false) (hearing body)).call f this args) (l, log) =
      (.error (.allocation (4 * args.length)), (l, log)))
  handling : ∀ (body : Heard -> StateM Link Ptr) (f : Ptr) (job : Job) (rest : List Job) (name : String) (id : FunctionId)
    (log : List Heard), l.engine.heap.jobs = job :: rest -> job.handler = some f ->
    l.engine.heap.get? f = some (.function name (.host id)) -> l.engine.hosted = true ->
    (l.memory.Fits 4 -> (outcome ((host (pure false) (hearing body)).executePendingJob) (l, log)).2.2 =
      log ++ [⟨id, Ptr.undefined, .ok [job.argument]⟩]) ∧
    (¬l.memory.Fits 4 -> (outcome ((host (pure false) (hearing body)).executePendingJob) (l, log)).2.2 = log)
  named : ∀ object keys, l.engine.heap.ownKeys object = .ok keys -> l.Roomy (4 * keys.length + 19) keys.length ->
    ∃ names l', answered (ownPropertyNames object) l = (.ok names, l') ∧
      List.Forall₂ (fun p key => l'.engine.heap.get? p = some (.string key) ∧ l'.engine.heap.display p = key) names keys
  taken : l.Spacious (12 * l.engine.heap.rejections.length + 24) ->
    ∃ m, outcome OwnerM.takeRejections l = (.ok l.engine.heap.rejections,
      l.withEngine { l.engine with memory := m, heap := { l.engine.heap with rejections := [] } })
  /-- The dispatcher makes out calls in the same way. -/
  served : ∀ (r : Runner) (w : World) (f : HostFunction Handler) (inv : Invocation) (args : List Ptr),
    w.worker.vault.link = l -> w.worker.vault.closed = false ->
    answered (readTable inv.arguments inv.count) l = (.ok args, l) ->
    (r.act (Attempt.runFunction inv f).run).run.run w = (r.act (Attempt.answerWith f inv.this args).run).run.run w.arrive

namespace Link

open AroundM

variable {l : Link}

/-- An engine with one function, which calls the host. -/
def answering : Link :=
  { Link.empty with engine :=
      { Engine.empty with heap := (Heap.empty.insert (.function "f" (.host 7))).2, hosted := true } }

end Link

end ScriptHost
