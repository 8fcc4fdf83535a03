import ScriptHost.Proofs.Dispatcher.Attempts
import ScriptHost.Proofs.Dispatcher.ComposedAccess
import ScriptHost.Proofs.Engine.Staging

set_option autoImplicit false

/-!
Calls into the engine that run host functions.

While the host has its turn, the engine's memory holds what the call has put there, on top of what was there before.
A host function starts with no exception pending. If it fails it leaves one for the call, which the host takes as soon
as the call has answered.
-/

namespace ScriptHost

open LoopM

namespace World

variable {w w' w'' : World} {scratch : List (Nat × Nat)} {a : Addr} {n : Nat}

/-- In the middle of a call that began in one world, with these blocks on top of those that were there. -/
structure Amid (scratch : List (Nat × Nat)) (w w' : World) : Prop extends Sane w', Past w w' where
  extents : .fault ∉ w'.journal -> w'.link.memory.extents = scratch ++ w.link.memory.extents

/-- No exception is pending, given room for the text of an error beside what was there when the call began. -/
def Serene (w w' : World) : Prop :=
  Unhampered w'.journal -> (∀ limit, w'.link.memory.limit = some limit -> w.link.memory.used + 29 ≤ limit) ->
    w'.link.memory.next + 24 ≤ Memory.lastAddress -> w'.link.Calm

/-- A program has found as much of the memory in use as there is now. -/
def Marked (w : World) : Prop :=
  .fault ∉ w.journal -> ∃ g, .standing g ∈ w.journal ∧ g.used = w.link.memory.used ∧ g.limit = w.link.memory.limit

theorem used_of_extents (scratch : List (Nat × Nat)) (ok : w.link.memory.WellFormed) (ok' : w'.link.memory.WellFormed)
    (extents : w'.link.memory.extents = scratch ++ w.link.memory.extents) :
    w'.link.memory.used = (scratch.map Prod.snd).sum + w.link.memory.used := by
  rw [ok'.used, ok.used, extents, List.map_append, List.sum_append]

theorem Poised.amid (poised : w.Poised) : Amid [] w w :=
  { poised.toSane, Past.refl w with extents := fun _ => rfl }

theorem Poised.serene (poised : w.Poised) : Serene w w :=
  fun fine room last => poised.calm fine ⟨room, last⟩

theorem Amid.poised (amid : Amid scratch w w') (sane : w.Sane) (serene : Serene w w') : w'.Poised := by
  refine ⟨amid.toSane, fun fine spare => serene fine (fun limit set => ?_) spare.2⟩
  have used := used_of_extents scratch sane.memory amid.memory (amid.extents fine.faultless)
  have enough := spare.1 limit set
  omega

theorem Amid.ended (amid : Amid [] w w') (sane : w.Sane) (serene : Serene w w') : w'.Poised ∧ w.Returned w' :=
  ⟨amid.poised sane serene, amid.toPast, amid.extents⟩

theorem Amid.returned (amid : Amid scratch w w') (sane : w''.Sane) (returned : w'.Returned w'') :
    Amid scratch w w'' where
  toSane := sane
  toPast := amid.toPast.trans returned.toPast
  extents clear := (returned.extents clear).trans (amid.extents (returned.faultless clear))

/-- The room that is there later was there before. -/
theorem Serene.before (serene : Serene w w') (past : w'.Past w'') (fine : Unhampered w''.journal)
    (room : ∀ limit, w''.link.memory.limit = some limit -> w.link.memory.used + 29 ≤ limit)
    (last : w''.link.memory.next + 24 ≤ Memory.lastAddress) : w'.link.Calm := by
  have next := past.later.next
  exact serene (past.unhampered fine) (fun limit set => room limit (past.later.limit.trans set)) (by omega)

theorem Serene.still (serene : Serene w w') (past : w'.Past w'') (calm : w'.link.Calm -> w''.link.Calm) :
    Serene w w'' :=
  fun fine room last => calm (serene.before past fine room last)

theorem marked_stand (w : World) : (Change.stand.apply w).Marked :=
  fun _ => ⟨w.ground, List.mem_cons_self .., rfl, rfl⟩

theorem Marked.returned (marked : w.Marked) (sane : w.Sane) (sane' : w'.Sane) (returned : w.Returned w') :
    w'.Marked := by
  intro clear
  obtain ⟨g, member, used, limit⟩ := marked (returned.faultless clear)
  obtain ⟨marks, grown⟩ := returned.journal
  refine ⟨g, grown ▸ List.mem_append_right _ member, used.trans ?_, limit.trans returned.later.limit.symm⟩
  exact ((used_of_extents [] sane.memory sane'.memory (returned.extents clear)).trans (Nat.zero_add _)).symm

/-- A program that ran meanwhile has made sure of the room that there is. -/
theorem Marked.serene (marked : w'.Marked) (poised : w'.Poised) : Serene w w' := by
  intro fine room last
  obtain ⟨g, member, used, limit⟩ := marked fine.faultless
  obtain ⟨enough, -⟩ := fine.roomy g member
  exact poised.calm fine ⟨fun bytes set => used ▸ enough bytes (limit.trans set), last⟩

/-- The engine is asked, beside whatever else goes on. -/
def asked {α : Type} (w : World) (act : LinkM α) : World :=
  w.onLink fun _ => (Link.answered act w.link).2

theorem Past.asked {α : Type} (w : World) (act : LinkM α) : w.Past (w.asked act) :=
  ⟨⟨[], rfl⟩, Link.answered_later act w.link⟩

theorem Sane.asked {α : Type} (sane : w.Sane) (act : LinkM α) : (w.asked act).Sane :=
  ⟨sane.law, (Link.answered_later act w.link).wellFormed sane.memory, fun clear =>
    Link.answered_faultless act (sane.clear clear)⟩

theorem Sane.neat {α : Type} {act : LinkM α} (neat : Link.Neat act) (sane : w.Sane) : w.Returned (w.asked act) :=
  ⟨.asked w act, fun clear => neat w.link (sane.usable clear)⟩

end World

open WorldM

namespace Attempt

theorem composed_undefined : Composed undefined.run :=
  composed_bindExcept (composed_withLink _ Link.composed_undefined.anyhow) fun _ => composed_pure _

theorem composed_createDeferred : Composed createDeferred.run := by
  refine composed_bindExcept (composed_withLink _ Link.composed_newPromiseCapability.anyhow) fun made => ?_
  refine composed_bindExcept (composed_own _) fun _ => composed_bindExcept (composed_own _) fun _ => ?_
  refine composed_bindExcept (composed_own _) fun _ => composed_bindExcept (composed_lift composed_look) fun _ => ?_
  exact composed_bindExcept (composed_lift (composed_alter _)) fun _ => composed_pure _

theorem composed_startTask (label : String) (plan : TaskPlan (List Op)) : Composed (startTask label plan).run := by
  refine composed_bindExcept composed_createDeferred fun d => ?_
  refine composed_bindExcept (composed_lift (composed_promiseOf d)) fun promise => ?_
  cases promise with
  | error e => exact composed_bindExcept (composed_lift (composed_letGoDeferred d)) fun _ => composed_pure _
  | ok h => exact composed_bindExcept (composed_lift (composed_alter _)) fun _ => composed_pure _

theorem composed_resultOf (plan : Option (TaskPlan (List Op))) (label : String) (ran : Ran) :
    Composed (resultOf plan label ran).run := by
  unfold resultOf
  split
  next => exact composed_pure _
  next => exact composed_pure _
  next => exact composed_pure _
  next => exact composed_undefined
  next h plan _ =>
    exact composed_bindExcept (composed_lift (composed_discardHandle h)) fun _ => composed_startTask label plan
  next plan _ => exact composed_startTask label plan

end Attempt

namespace WorldM

theorem composed_runCallback (c : Callback) (operands : Operands) (args : Nat) :
    Composed (runCallback c operands args) := by
  refine composed_bind (composed_emit _) fun _ => composed_bind (composed_program _ _) fun ran => ?_
  split
  next => exact composed_bind (composed_pure _) fun _ => composed_pure _
  next => exact composed_bind (composed_emit _) fun _ => composed_pure _

end WorldM

theorem Attempt.composed_runFunction (inv : Invocation) (f : HostFunction Handler) :
    Composed (runFunction inv f).run := by
  refine composed_bindExcept (composed_withLink _ (Link.composed_readTable _ _).anyhow) fun args => ?_
  refine composed_bindExcept (composed_lift (composed_alter _)) fun _ => ?_
  refine composed_bindExcept (composed_lift (composed_runCallback _ _ _)) fun ran => ?_
  refine composed_bindExcept (composed_resultOf _ _ ran) fun h => ?_
  refine composed_bindExcept (composed_lift (composed_handOver h)) fun given => ?_
  cases given with
  | ok p => exact composed_pure _
  | error e => exact composed_bindExcept (composed_lift (composed_discardHandle h)) fun _ => composed_pure _

section Host

open World

variable {r : Runner} {w w' : World} {scratch : List (Nat × Nat)}

theorem comes_raiseError (loyal : r.Loyal composure) (poised : w.Poised) (message : String) :
    Comes (r.on .worker (raiseError message)) w fun _ w' => w'.Sane ∧ w.Returned w' := by
  have asked :
      Comes (r.on .worker (Attempt.withLink "throw" (Link.raiseError message)).run) w fun _ w' =>
        w'.Sane ∧ w.Returned w' := by
    have accessed := Attempt.composed_checkAccess "throw" r .worker loyal w poised
    change Comes (r.on .worker ((Attempt.checkAccess "throw").run >>= _)) w _
    rw [Runner.on_bind]
    refine comes_bind accessed ?_
    rintro (_ | _) w' ⟨poised', returned⟩
    next => exact comes_pure ⟨poised'.toSane, returned⟩
    next =>
      refine (comes_asking r (Link.raiseError message).run w').imp ?_
      rintro _ _ ⟨-, rfl⟩
      exact ⟨poised'.toSane.asked _, returned.trans (poised'.toSane.neat (Link.neat_raiseError message))⟩
  unfold raiseError
  rw [Runner.on_bind]
  exact comes_bind asked fun _ _ post => comes_pure post

/-- A host function that does not fail leaves nothing. -/
theorem comes_answerCall (loyal : r.Loyal composure) (sane : w.Sane) (amid : Amid scratch w w') (serene : Serene w w')
    (inv : Invocation) :
    Comes (r.on .worker (answerCall inv)) w' fun answer w'' => Amid scratch w w'' ∧ (answer ≠ 0 -> Serene w w'') := by
  have poised := amid.poised sane serene
  have stood : Comes (r.on .worker (alter .stand)) w' fun _ w'' => w''.Poised ∧ w'.Returned w'' ∧ w''.Marked := by
    rw [alter, Runner.on_question]
    obtain ⟨poised', returned⟩ := w'.onwards_stand poised
    exact ⟨⟨fun _ _ => ⟨poised', returned, marked_stand w'⟩⟩, fun stopped => by cases stopped⟩
  have composed {α : Type} {act : WorldM α} (composed : Composed act) {w₁ : World}
      (before : w₁.Poised ∧ w'.Returned w₁ ∧ w₁.Marked) :
      Comes (r.on .worker act) w₁ fun _ w₂ => w₂.Poised ∧ w'.Returned w₂ ∧ w₂.Marked := by
    obtain ⟨poised₁, returned₁, marked₁⟩ := before
    refine (composed r .worker loyal w₁ poised₁).imp ?_
    rintro _ w₂ ⟨poised₂, returned₂⟩
    exact ⟨poised₂, returned₁.trans returned₂, marked₁.returned poised₁.toSane poised₂.toSane returned₂⟩
  have refused (message : String) {w₁ : World} (before : w₁.Poised ∧ w'.Returned w₁ ∧ w₁.Marked) :
      Comes (r.on .worker (raiseError message >>= fun _ => pure (0 : Ptr))) w₁ fun answer w'' =>
        Amid scratch w w'' ∧ (answer ≠ 0 -> Serene w w'') := by
    rw [Runner.on_bind]
    refine comes_bind (comes_raiseError loyal before.1 message) ?_
    rintro _ w₂ ⟨sane₂, returned₂⟩
    exact comes_pure ⟨amid.returned sane₂ (before.2.1.trans returned₂), fun some => absurd rfl some⟩
  unfold answerCall
  rw [Runner.on_bind]
  refine comes_bind stood fun _ w₁ before => ?_
  rw [Runner.on_bind]
  refine comes_bind (composed composed_getWorker before) fun k w₂ before => ?_
  split
  next => exact refused _ before
  next f _ =>
    rw [serve, Runner.on_bind]
    refine comes_bind (composed (Attempt.composed_runFunction inv f) before) fun result w₃ before => ?_
    cases result with
    | error e => exact refused _ before
    | ok p => exact comes_pure ⟨amid.returned before.1.toSane before.2.1, fun _ => before.2.2.serene before.1⟩

theorem comes_interrupted (poised : w.Poised) :
    Comes (r.on .worker interrupted) w fun _ w' => w'.Poised ∧ w.Returned w' ∧ (w.link.Calm -> w'.link.Calm) := by
  have engine : w.link.poll.2.engine = w.link.engine := by
    unfold Link.poll
    split <;> rfl
  have faults : w.link.poll.2.faults = w.link.faults := by
    unfold Link.poll
    split <;> rfl
  let polled := w.onLink fun l => l.poll.2
  have onwards : w.Onwards polled := .of_moves rfl (.of_engine engine faults)
  obtain ⟨poised', returned⟩ := onwards poised
  have calm (still : w.link.Calm) : polled.link.Calm :=
    (congrArg (fun s : Engine => s.heap.exception) engine).trans still
  have looked := polled.beside_arrive
  have answered : Comes (r.on .worker (asking (.question Ask.poll))) w fun _ w' => w' = polled := ⟨⟨fun _ _ => rfl⟩, nofun⟩
  have arrived : Comes (r.on .worker look) polled fun _ w' => w' = polled.arrive := ⟨⟨fun _ _ => rfl⟩, nofun⟩
  unfold interrupted
  rw [Runner.on_bind]
  refine comes_bind answered ?_
  rintro yes _ rfl
  split
  next => exact comes_pure ⟨poised', returned, calm⟩
  next =>
    rw [Runner.on_bind]
    refine comes_bind arrived ?_
    rintro seen _ rfl
    have after : polled.arrive.Poised ∧ w.Returned polled.arrive ∧ (w.link.Calm -> polled.arrive.link.Calm) :=
      ⟨looked.poised poised', returned.trans looked.returned, fun still => by rw [looked.link]; exact calm still⟩
    split <;> exact comes_pure after

/-- A stage of a call that began in one world and would answer with this failure, with as many waits for the host
left. -/
def StageAt (scratch : List (Nat × Nat)) (refused : Scalar) (left : Nat) (w w' : World) : Stage -> Prop
  | .done result => Amid scratch w w' ∧ (result = .ok refused ∨ Serene w w')
  | .checking check => Amid scratch w w' ∧ Serene w w' ∧ check.refused = refused ∧ check.turns ≤ left
  | .calling _ frame => Amid (frame.blocks ++ scratch) w w' ∧ Serene w w' ∧ frame.refused = refused ∧ 1 ≤ left

/-- The engine goes on by itself, with these blocks in the end. -/
theorem World.Amid.advanced {scratch' : List (Nat × Nat)} {s : Engine} (amid : Amid scratch w w')
    (later : w'.link.memory.Later s.memory)
    (extents : .fault ∉ w'.journal -> s.memory.extents = scratch' ++ w.link.memory.extents) :
    Amid scratch' w (w'.onLink fun l => { l with engine := s }) where
  law := amid.law
  memory := later.wellFormed amid.memory
  clear := amid.clear
  journal := amid.journal
  later := amid.later.trans later
  extents := extents

theorem World.Serene.advanced {s : Engine} (serene : Serene w w') (later : w'.link.memory.Later s.memory)
    (calm : w'.link.Calm -> s.heap.exception = none) : Serene w (w'.onLink fun l => { l with engine := s }) :=
  serene.still ⟨⟨[], rfl⟩, later⟩ calm

theorem World.Amid.staged {s : Engine} {stage : Stage} {refused : Scalar} {turns left : Nat} (amid : Amid scratch w w')
    (serene : Serene w w') (follows : w'.link.engine.Follows refused turns stage s)
    (later : w'.link.memory.Later s.memory) (some : 2 ≤ turns) (few : turns ≤ left + 1) :
    StageAt scratch refused left w (w'.onLink fun l => { l with engine := s }) stage := by
  have same {memory : Memory} (unmoved : memory = w'.link.memory) (clear : .fault ∉ w'.journal) :
      memory.extents = scratch ++ w.link.memory.extents :=
    unmoved ▸ amid.extents clear
  have still (unraised : s.heap.exception = w'.link.engine.heap.exception) :
      Serene w (w'.onLink fun l => { l with engine := s }) :=
    serene.advanced later fun calm => unraised.trans calm
  cases stage with
  | done result =>
    obtain ⟨memory, told⟩ := follows
    exact ⟨amid.advanced later (same memory), told.imp_right still⟩
  | checking check =>
    obtain ⟨silent, refuses, fewer⟩ := follows
    exact ⟨amid.advanced later (same silent.memory), still silent.exception, refuses, by omega⟩
  | calling inv frame =>
    obtain ⟨extents, exception, refuses⟩ := follows
    refine ⟨amid.advanced later fun clear => ?_, still exception, refuses, by omega⟩
    rw [extents, amid.extents clear, List.append_assoc]

theorem comes_stages (loyal : r.Loyal composure) (sane : w.Sane) {refused : Scalar} {left : Nat} {stage : Stage}
    (here : StageAt scratch refused left w w' stage) :
    Comes (r.on .worker (host.runStages left stage)) w' fun result w'' =>
      Amid scratch w w'' ∧ (result = .ok refused ∨ Serene w w'') := by
  induction left generalizing stage w' with
  | zero =>
    cases stage with
    | done result => exact comes_pure here
    | checking check =>
      obtain ⟨amid, serene, -⟩ := here
      exact comes_pure ⟨amid, .inr serene⟩
    | calling inv frame =>
      exact absurd here.2.2.2 (by decide)
  | succ left ih =>
    cases stage with
    | done result => exact comes_pure here
    | checking check =>
      obtain ⟨amid, serene, rfl, few⟩ := here
      simp only [Host.runStages]
      rw [Runner.on_bind]
      refine comes_bind (comes_interrupted (amid.poised sane serene)) ?_
      rintro interrupted w₁ ⟨poised₁, returned₁, calm₁⟩
      rw [Runner.on_bind]
      refine comes_bind (comes_ask r (.check interrupted check) w₁) ?_
      rintro _ _ ⟨rfl, rfl⟩
      refine ih ((amid.returned poised₁.toSane returned₁).staged (serene.still returned₁.toPast calm₁)
        (Engine.afterCheck_follows poised₁.memory interrupted check) ?_ ?_ few)
      next => exact Ask.perform_later (.check interrupted check) w₁.link
      next => cases check <;> exact Nat.le_of_ble_eq_true rfl
    | calling inv frame =>
      obtain ⟨amid, serene, rfl, -⟩ := here
      simp only [Host.runStages]
      rw [Runner.on_bind]
      refine comes_bind (comes_answerCall loyal sane amid serene inv) ?_
      rintro answer w₁ ⟨amid₁, serene₁⟩
      rw [Runner.on_bind]
      refine comes_bind (comes_ask r (.resume answer frame) w₁) ?_
      rintro _ _ ⟨rfl, rfl⟩
      have later := Ask.perform_later (.resume answer frame) w₁.link
      refine comes_pure ⟨amid₁.advanced later fun clear => ?_, ?_⟩
      next =>
        refine Engine.afterHost_extents _ answer frame amid₁.memory ?_
        rw [amid₁.extents clear, List.append_assoc]
      next =>
        by_cases told : (w₁.link.engine.afterHost answer frame).1 = frame.refused
        next => exact .inl (congrArg Except.ok told)
        refine .inr fun fine room last => ?_
        have past : w₁.Past (w₁.onLink fun l => { l with engine := (l.engine.afterHost answer frame).2 }) :=
          ⟨⟨[], rfl⟩, later⟩
        have quiet (some : answer ≠ 0) : w₁.link.Calm := (serene₁ some).before past fine room last
        exact (Engine.afterHost_calm _ quiet frame).resolve_left told

theorem comes_export (loyal : r.Loyal composure) (sane : w.Sane) (amid : Amid scratch w w') (serene : Serene w w')
    (c : Calling) :
    Comes (r.on .worker (host.runExport c)) w' fun result w'' =>
      Amid scratch w w'' ∧ (result = .ok c.refused ∨ Serene w w'') := by
  let asked := w'.onLink fun l => (l.intercept c.name).2
  have engine : asked.link.engine = w'.link.engine := Link.intercept_engine w'.link c.name
  have memory : asked.link.memory = w'.link.memory := congrArg Engine.memory engine
  have later : w'.link.memory.Later asked.link.memory := memory ▸ .refl w'.link.memory
  have returned : w'.Returned asked := ⟨⟨⟨[], rfl⟩, later⟩, fun _ => congrArg Memory.extents memory⟩
  have sane' : asked.Sane := ⟨amid.law, later.wellFormed amid.memory, fun clear =>
    (Link.intercept_faultless w'.link c.name).2 (amid.clear clear)⟩
  have amid' := amid.returned sane' returned
  have serene' : Serene w asked := serene.still returned.toPast fun calm =>
    (congrArg (fun s : Engine => s.heap.exception) engine).trans calm
  unfold Host.runExport
  rw [Runner.on_bind]
  refine comes_bind (comes_ask r (.intercept c.name) w') ?_
  rintro _ _ ⟨rfl, rfl⟩
  change Comes _ asked _
  change Amid scratch w asked at amid'
  split
  next replacement told =>
    refine comes_pure ⟨amid', .inr fun fine => ?_⟩
    have clear : w'.link.faults = Table.empty := amid.clear fine.faultless
    cases (congrArg Prod.fst (Link.intercept_of_faultless clear)).symm.trans told
  next =>
    rw [Runner.on_bind]
    refine comes_bind (comes_ask r (.start c) asked) ?_
    rintro _ _ ⟨rfl, rfl⟩
    exact comes_stages loyal sane (amid'.staged serene' (Engine.first_follows _ c)
      (Ask.perform_later (.start c) asked.link) (by decide) (Nat.le_refl _))

theorem comes_typed {α : Type} (loyal : r.Loyal composure) (sane : w.Sane) (amid : Amid scratch w w')
    (serene : Serene w w') (c : Calling) {take : Scalar -> Option α} {a : α} (takes : take c.refused = some a)
    (unfit : String) :
    Comes (r.on .worker (host.runTyped c take unfit).run) w' fun result w'' =>
      Amid scratch w w'' ∧ (result = .ok a ∨ Serene w w'') := by
  change Comes (r.on .worker (host.runExport c >>= _)) w' _
  rw [Runner.on_bind]
  refine comes_bind (comes_export loyal sane amid serene c) ?_
  rintro (e | s) w'' ⟨amid', told⟩
  next => exact comes_pure ⟨amid', .inr (told.resolve_left nofun)⟩
  next =>
    dsimp only
    split
    next b taken =>
      refine comes_pure ⟨amid', told.imp_left ?_⟩
      intro refused
      cases refused
      exact congrArg Except.ok (Option.some.inj (taken.symm.trans takes))
    next unfit =>
      refine comes_pure ⟨amid', .inr (told.resolve_left ?_)⟩
      intro refused
      cases refused
      cases unfit.symm.trans takes

theorem comes_table (poised : w.Poised) (args : List Ptr) :
    Comes (r.on .worker (asking (if args.isEmpty then pure 0 else Link.writeTable args : LinkM Addr).run)) w fun a w' =>
      ∃ size, Amid (Link.tableBlocks size a) w w' ∧ Serene w w' := by
  split
  next => exact comes_pure ⟨0, poised.amid, poised.serene⟩
  next =>
    refine (comes_asking r (Link.writeTable args).run w).imp ?_
    rintro _ _ ⟨rfl, rfl⟩
    have past := Past.asked w (Link.writeTable args)
    by_cases clear : .fault ∈ w.journal
    next =>
      have serene : Serene w (w.asked (Link.writeTable args)) := fun fine => absurd clear fine.faultless
      exact ⟨0, ⟨poised.toSane.asked _, past, fun absent => absurd clear absent⟩, serene⟩
    next =>
      obtain ⟨size, extents, heap⟩ := Link.writeTable_blocks (poised.toSane.usable clear) args
      have calm (still : w.link.Calm) : (w.asked (Link.writeTable args)).link.Calm :=
        (congrArg Heap.exception heap).trans still
      exact ⟨size, ⟨poised.toSane.asked _, past, fun _ => extents⟩, poised.serene.still past calm⟩

theorem comes_freeTable {table : Addr} {size : Nat} (amid : Amid (Link.tableBlocks size (.ok table)) w w') :
    Comes (r.on .worker (asking (if table = 0 then pure () else Link.free table : LinkM Unit).run)) w' fun a w'' =>
      a = .ok () ∧ Amid [] w w'' ∧ (Serene w w' -> Serene w w'') := by
  by_cases zero : table = 0
  next =>
    simp only [Link.tableBlocks, zero, if_true] at amid ⊢
    exact comes_pure ⟨rfl, amid, id⟩
  next =>
    simp only [Link.tableBlocks, zero, if_false] at amid ⊢
    refine (comes_asking r (Link.free table).run w').imp ?_
    rintro _ _ ⟨rfl, rfl⟩
    have later := Link.answered_later (Link.free table) w'.link
    have past := Past.asked w' (Link.free table)
    refine ⟨rfl, ⟨amid.toSane.asked _, amid.toPast.trans past, fun clear => ?_⟩, fun serene => serene.still past id⟩
    exact Memory.extents_free_top amid.memory (amid.extents clear)

theorem comes_takeLastError (amid : Amid [] w w') :
    Comes (r.on .worker (asking Link.takeLastError.run)) w' fun a w'' => Amid [] w w'' ∧ Serene w w'' ∧
      ∀ p, a = .ok (some p) -> .fault ∉ w''.journal -> w'.Past w'' ∧ w'.link.engine.heap.exception = some p := by
  refine (comes_asking r Link.takeLastError.run w').imp ?_
  rintro _ _ ⟨rfl, rfl⟩
  have sane := amid.toSane.asked Link.takeLastError
  have neat := amid.toSane.neat Link.settles_takeLastError.extents
  refine ⟨amid.returned sane neat, fun fine _ _ => ?_, fun p taken clear => ⟨neat.toPast, ?_⟩⟩
  next => exact Link.settles_takeLastError.calm w'.link (amid.toSane.usable fine.faultless) trivial
  next =>
    have asked := Link.answered_takeLastError (amid.clear clear)
    exact Link.pending_of_nonzero (Except.ok.inj ((congrArg Prod.fst asked).symm.trans taken))

/-- What the call failed with was pending before it was over. -/
def Within (w w' : World) (p : Ptr) : Prop :=
  .fault ∉ w'.journal -> ∃ mid : World, w.Past mid ∧ mid.Past w' ∧ mid.link.engine.heap.exception = some p

/-- A call takes the exception that it ends with, so none is left, whatever host functions have done meanwhile. -/
theorem comes_hostCall (loyal : r.Loyal composure) (poised : w.Poised) (function this : Ptr) (args : List Ptr) :
    Comes (r.on .worker (host.call function this args).run) w fun a w' =>
      (w'.Poised ∧ w.Returned w') ∧ ∀ p, a = .ok (.threw p) -> Within w w' p := by
  have sane := poised.toSane
  change Comes (r.on .worker (asking _ >>= _)) w _
  rw [Runner.on_bind]
  refine comes_bind (comes_table poised args) ?_
  rintro (e | table) w₁ ⟨size, amid₁, serene₁⟩
  next => exact comes_pure ⟨amid₁.ended sane serene₁, nofun⟩
  next =>
    change Comes (r.on .worker ((ExceptT.lift (host.runTyped _ _ _).run).run >>= _)) w₁ _
    rw [Runner.on_bind]
    refine comes_bind (comes_lift (comes_typed loyal sane amid₁ serene₁ _ (a := 0) rfl _)) ?_
    rintro _ w₂ ⟨result, rfl, amid₂, told⟩
    change Comes (r.on .worker (asking _ >>= _)) w₂ _
    rw [Runner.on_bind]
    refine comes_bind (comes_freeTable amid₂) ?_
    rintro _ w₃ ⟨rfl, amid₃, still⟩
    have serene (other : result ≠ .ok 0) : Serene w w₃ := still (told.resolve_left other)
    cases result with
    | error e => exact comes_pure ⟨amid₃.ended sane (serene nofun), nofun⟩
    | ok v =>
      by_cases zero : v = 0
      next =>
        simp only [zero, if_true]
        change Comes (r.on .worker (asking _ >>= _)) w₃ _
        rw [Runner.on_bind]
        refine comes_bind (comes_takeLastError amid₃) ?_
        rintro (e | exception) w₄ ⟨amid₄, serene₄, pending⟩
        next => exact comes_pure ⟨amid₄.ended sane serene₄, nofun⟩
        next =>
          cases exception with
          | none => exact comes_pure ⟨amid₄.ended sane serene₄, nofun⟩
          | some p =>
            refine comes_pure ⟨amid₄.ended sane serene₄, ?_⟩
            rintro _ ⟨⟩ clear
            exact ⟨w₃, amid₃.toPast, pending p rfl clear⟩
      next =>
        simp only [zero, if_false]
        exact comes_pure ⟨amid₃.ended sane (serene fun same => zero (Except.ok.inj same)), nofun⟩

/-- Only an open engine grants access. -/
theorem comes_grant (loyal : r.Loyal composure) (operation : String) (poised : w.Poised) :
    Comes (r.act (Attempt.checkAccess operation).run) w fun a w' =>
      w'.Poised ∧ w.Returned w' ∧ (a = .ok () -> w.Open) := by
  have comes := Attempt.composed_checkAccess operation r .worker loyal w poised
  refine ⟨⟨fun a came => ⟨(comes.post a came).1, (comes.post a came).2, ?_⟩⟩, comes.cut⟩
  rintro rfl
  change result (r.act (Attempt.ofExcept (w.arrive.worker.vault.access .worker operation)).run) w.arrive = _ at came
  have arrived : w.arrive.worker.vault.closed = w.worker.vault.closed := (frame_arrive (b := 0) w).closed
  cases closed : w.worker.vault.closed with
  | false => exact closed
  | true =>
    rw [closed] at arrived
    simp only [Vault.access, arrived, if_true] at came
    cases came

/-- A job that is interrupted leaves its exception to the loop. -/
theorem comes_executeJob (loyal : r.Loyal composure) (poised : w.Poised) :
    Comes (r.act executeJob.run) w fun status w' =>
      w'.Sane ∧ w.Returned w' ∧ (status = .ok .failed -> w.Open) ∧ (status ≠ .ok .failed -> w'.Poised) := by
  change Comes (r.on .worker ((Attempt.checkAccess _).run >>= _)) w _
  rw [Runner.on_bind]
  refine comes_bind (comes_grant loyal _ poised) ?_
  rintro (e | _) w₁ ⟨poised₁, returned₁, granted⟩
  next => exact comes_pure ⟨poised₁.toSane, returned₁, nofun, fun _ => poised₁⟩
  next =>
    change Comes (r.on .worker ((host.runTyped _ _ _).run >>= _)) w₁ _
    rw [Runner.on_bind]
    refine comes_bind (comes_typed loyal poised₁.toSane poised₁.amid poised₁.serene .job (a := -1) rfl _) ?_
    rintro result w₂ ⟨amid₂, told⟩
    have returned : w.Returned w₂ := returned₁.trans ⟨amid₂.toPast, amid₂.extents⟩
    have quiet (other : result ≠ .ok (-1)) : w₂.Poised := amid₂.poised poised₁.toSane (told.resolve_left other)
    cases result with
    | error e => exact comes_pure ⟨amid₂.toSane, returned, nofun, fun _ => quiet nofun⟩
    | ok n =>
      refine comes_pure ⟨amid₂.toSane, returned, fun _ => granted rfl, fun other => quiet ?_⟩
      rintro ⟨⟩
      exact other rfl

theorem comes_granted (opened : w.Open) (operation : String) :
    Comes (r.act (Attempt.checkAccess operation).run) w fun a w' => a = .ok () ∧ w' = w.arrive := by
  refine ⟨Runner.ends_checkAccess operation opened, fun stopped => ?_⟩
  change result (r.act (Attempt.ofExcept (w.arrive.worker.vault.access .worker operation)).run) w.arrive = _ at stopped
  generalize w.arrive.worker.vault.access .worker operation = granted at *
  cases granted <;> cases stopped

theorem comes_dropJobError (loyal : r.Loyal composure) (opened : w.Open) (sane : w.Sane) :
    Comes (r.act dropJobError) w fun _ w' => w'.Poised ∧ w.Returned w' := by
  have arrived := w.beside_arrive
  have taken :
      Comes (r.act (Attempt.withLink "last error" Link.takeLastError).run) w fun _ w' => w'.Poised ∧ w.Returned w' := by
    change Comes (r.on .worker ((Attempt.checkAccess _).run >>= _)) w _
    rw [Runner.on_bind]
    refine comes_bind (comes_granted opened _) ?_
    rintro _ _ ⟨rfl, rfl⟩
    refine (comes_asking r Link.takeLastError.run w.arrive).imp ?_
    rintro _ _ ⟨-, rfl⟩
    have sane' := arrived.sane sane
    have settled := Link.settles_takeLastError
    refine ⟨⟨sane'.asked _, fun fine _ => ?_⟩, arrived.returned.trans (sane'.neat settled.extents)⟩
    exact settled.calm w.arrive.link (sane'.usable fine.faultless) trivial
  have told (h : Handle) : Composed (Attempt.toText h).run :=
    composed_bindExcept (Attempt.composed_raw h) fun p =>
      Attempt.composed_withLink _ ((Link.composed_toText p).within (by decide))
  have dropped (h : Handle) : Composed (Attempt.holding h Attempt.toText).run := 
    composed_bindExcept (composed_lift (told h)) fun result =>
      composed_bindExcept (composed_lift (composed_discardHandle h)) fun _ => Attempt.composed_ofExcept result
  unfold dropJobError
  rw [Runner.act, Runner.on_bind]
  refine comes_bind (Q := fun _ w' => w'.Poised ∧ w.Returned w') ?_ fun _ w' post => by split <;> exact comes_pure post
  rw [ExceptT.run_bind, Runner.on_bind]
  refine comes_bind taken ?_
  rintro (_ | _ | p) w₁ ⟨poised₁, returned₁⟩
  next => exact comes_pure ⟨poised₁, returned₁⟩
  next => exact comes_pure ⟨poised₁, returned₁⟩
  next =>
    have rest := composed_bindExcept (Attempt.composed_own p) fun h => composed_bindExcept (dropped h) fun _ =>
      composed_pure (.ok ())
    refine (rest r .worker loyal w₁ poised₁).imp ?_
    rintro _ w₂ ⟨poised₂, returned₂⟩
    exact ⟨poised₂, returned₁.trans returned₂⟩

theorem honours_runJob (loyal : r.Loyal composure) {b : Nat} (early : b ≤ w.cycles) :
    Honours composure b (runJob r) w := by
  refine honours_of_comes ((stable_anything.chores loyal.anyway).job early).grown.frame fun poised => ?_
  have frame := (stable_anything.does loyal.anyway .worker executeJob.run early).grown.frame
  refine comes_bind ((comes_executeJob loyal poised).framed frame) ?_
  rintro status w₁ ⟨⟨sane₁, returned₁, opened, quiet⟩, frame⟩
  split
  next => exact comes_pure ⟨quiet nofun, returned₁⟩
  next => exact comes_pure ⟨quiet nofun, returned₁⟩
  next => exact comes_pure ⟨quiet nofun, returned₁⟩
  next =>
    refine comes_bind (comes_dropJobError loyal (frame.open (opened rfl)) sane₁) ?_
    rintro _ w₂ ⟨poised₂, returned₂⟩
    exact comes_pure ⟨poised₂, returned₁.trans returned₂⟩

end Host

end ScriptHost
