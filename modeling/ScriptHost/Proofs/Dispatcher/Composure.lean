import ScriptHost.Proofs.Dispatcher.Cycles
import ScriptHost.Proofs.Link.Composed

set_option autoImplicit false

/-!
Host code between calls that leave the engine composed.

Nothing is left behind by what host code does, from the start of one operation to the next, so nothing is pending
when a program goes on. Host functions run in the middle of a call, with what the call has put into the engine's
memory, and leave that as it was.
-/

namespace ScriptHost

open LoopM

/-- Room for the text of the error that there is no memory, and for what goes with it. -/
def Ground.Roomy (g : Ground) : Prop :=
  (∀ limit, g.limit = some limit -> g.used + 29 ≤ limit) ∧ g.next + 24 ≤ Memory.lastAddress

/-- No fault was put in the way of the engine, and there was always room for the text of an error. -/
structure Unhampered (journal : List Mark) : Prop where
  faultless : .fault ∉ journal
  roomy : ∀ g, .standing g ∈ journal -> g.Roomy

theorem Unhampered.before (marks : List Mark) {journal : List Mark} (fine : Unhampered (marks ++ journal)) :
    Unhampered journal :=
  ⟨fun member => fine.faultless (List.mem_append_right _ member), fun g member =>
    fine.roomy g (List.mem_append_right _ member)⟩

/-- As long as the worker is in its loop, no exception is pending when a program goes on. -/
def Mark.Calm : Mark -> List Mark -> Prop
  | .standing g, earlier => .left ∉ earlier -> Unhampered (.standing g :: earlier) -> g.exception = none
  | _, _ => True

namespace Link

variable {l l' l'' : Link}

structure Moves (l l' : Link) : Prop where
  later : l.memory.Later l'.memory
  recovers : l.Usable -> Recovers l l'

theorem moves_way : Way Moves where
  refl l := ⟨.refl l.memory, recovers_way.refl l⟩
  trans first second := ⟨first.later.trans second.later, recovers_way.trans first.recovers second.recovers⟩

theorem Moves.of_engine (engine : l'.engine = l.engine) (faults : l'.faults = l.faults) : Moves l l' := by
  have memory : l'.memory = l.memory := congrArg Engine.memory engine
  have calm (still : l.Calm) : l'.Calm := by
    rw [Calm, engine]
    exact still
  refine ⟨memory ▸ .refl l.memory, fun usable => ⟨⟨congrArg Memory.extents memory, fun still _ => calm still⟩, ?_, ?_⟩⟩
  next => exact ⟨faults.trans usable.clear, memory ▸ usable.memory⟩
  next => exact memory ▸ .refl l.memory

theorem Composed.moves {α : Type} {act : LinkM α} (composed : Composed (some 29) act) (l : Link) :
    Moves l (answered act l).2 :=
  ⟨answered_later act l, composed.recovers⟩

theorem takeRejections_moves (l : Link) : Moves l (outcome OwnerM.takeRejections l).2 :=
  ⟨takeRejections_later l, takeRejections_recovers⟩

end Link

namespace Vault

theorem custodial_moves : Custodial fun v v' : Vault => Link.Moves v.link v'.link where
  refl v := Link.moves_way.refl v.link
  trans := Link.moves_way.trans
  errand errand v := by
    cases errand with
    | dup p => exact ((Link.composed_dupValue p).within (by decide)).moves v.link
    | free p => exact (Link.composed_freeValue p).anyhow.moves v.link
    | compare p q op => exact (Link.composed_isEqual p q op).anyhow.moves v.link
  own v := Link.moves_way.refl v.link
  bury v _ := Link.moves_way.refl v.link

end Vault

namespace World

variable {w w' w'' : World}

abbrev link (w : World) : Link :=
  w.worker.vault.link

/-- So far nobody has found an exception pending, and the engine can be used. -/
structure Sane (w : World) : Prop where
  law : Throughout Mark.Calm w.journal
  memory : w.link.memory.WellFormed
  clear : .fault ∉ w.journal -> w.link.faults = Table.empty

structure Poised (w : World) : Prop extends Sane w where
  calm : Unhampered w.journal -> w.link.Spare (some 29) -> w.link.Calm

structure Past (w w' : World) : Prop where
  journal : ∃ marks, w'.journal = marks ++ w.journal
  later : w.link.memory.Later w'.link.memory

/-- The blocks of the engine's memory are as they were. -/
structure Returned (w w' : World) : Prop extends Past w w' where
  extents : .fault ∉ w'.journal -> w'.link.memory.extents = w.link.memory.extents

theorem Past.refl (w : World) : w.Past w :=
  ⟨⟨[], rfl⟩, .refl w.link.memory⟩

theorem Past.trans (first : w.Past w') (second : w'.Past w'') : w.Past w'' := by
  obtain ⟨marks, grown⟩ := first.journal
  obtain ⟨marks', grown'⟩ := second.journal
  exact ⟨⟨marks' ++ marks, by rw [grown', grown, List.append_assoc]⟩, first.later.trans second.later⟩

theorem Past.faultless (past : w.Past w') (clear : .fault ∉ w'.journal) : .fault ∉ w.journal := by
  obtain ⟨marks, grown⟩ := past.journal
  rw [grown] at clear
  exact fun member => clear (List.mem_append_right _ member)

theorem Past.unhampered (past : w.Past w') (fine : Unhampered w'.journal) : Unhampered w.journal := by
  obtain ⟨marks, grown⟩ := past.journal
  rw [grown] at fine
  exact fine.before marks

theorem Returned.refl (w : World) : w.Returned w :=
  ⟨.refl w, fun _ => rfl⟩

theorem Returned.trans (first : w.Returned w') (second : w'.Returned w'') : w.Returned w'' :=
  ⟨first.toPast.trans second.toPast, fun clear => (second.extents clear).trans (first.extents (second.faultless clear))⟩

theorem Sane.usable (sane : w.Sane) (clear : .fault ∉ w.journal) : w.link.Usable :=
  ⟨sane.clear clear, sane.memory⟩

/-- What happens beside the engine, while no program goes on. -/
structure Beside (w w' : World) : Prop where
  link : w'.link = w.link
  journal : ∃ marks, w'.journal = marks ++ w.journal ∧ ∀ m ∈ marks, ∀ earlier, m.Calm earlier

theorem Beside.refl (w : World) : w.Beside w :=
  ⟨rfl, [], rfl, nofun⟩

theorem Beside.trans (first : w.Beside w') (second : w'.Beside w'') : w.Beside w'' := by
  obtain ⟨marks, grown, quiet⟩ := first.journal
  obtain ⟨marks', grown', quiet'⟩ := second.journal
  refine ⟨second.link.trans first.link, marks' ++ marks, by rw [grown', grown, List.append_assoc], fun m member => ?_⟩
  exact (List.mem_append.1 member).elim (quiet' m) (quiet m)

theorem Beside.of_same (journal : w'.journal = w.journal) (link : w'.link = w.link) : w.Beside w' :=
  ⟨link, [], journal, nofun⟩

theorem Beside.of_note {m : Mark} (journal : w'.journal = m :: w.journal) (link : w'.link = w.link)
    (quiet : ∀ earlier, m.Calm earlier) : w.Beside w' :=
  ⟨link, [m], journal, fun _ member => List.mem_singleton.1 member ▸ quiet⟩

theorem Beside.past (beside : w.Beside w') : w.Past w' := by
  obtain ⟨marks, grown, -⟩ := beside.journal
  exact ⟨⟨marks, grown⟩, beside.link ▸ .refl w.link.memory⟩

theorem Beside.returned (beside : w.Beside w') : w.Returned w' :=
  ⟨beside.past, fun _ => by rw [beside.link]⟩

theorem Beside.sane (beside : w.Beside w') (sane : w.Sane) : w'.Sane := by
  obtain ⟨marks, grown, quiet⟩ := beside.journal
  exact ⟨grown ▸ sane.law.append quiet, beside.link ▸ sane.memory, fun clear =>
    beside.link ▸ sane.clear (beside.past.faultless clear)⟩

theorem Beside.poised (beside : w.Beside w') (poised : w.Poised) : w'.Poised := by
  refine ⟨beside.sane poised.toSane, fun fine spare => ?_⟩
  rw [beside.link] at spare ⊢
  exact poised.calm (beside.past.unhampered fine) spare

/-- One step of a run that is poised stays so and leaves nothing behind. -/
def Onwards (w w' : World) : Prop :=
  w.Poised -> w'.Poised ∧ w.Returned w'

theorem Onwards.of_moves (journal : w'.journal = w.journal) (moves : Link.Moves w.link w'.link) : Onwards w w' := by
  intro poised
  refine ⟨⟨⟨journal ▸ poised.law, moves.later.wellFormed poised.memory, fun clear => ?_⟩, fun fine spare => ?_⟩,
    ⟨⟨[], journal⟩, moves.later⟩, fun clear => ?_⟩
  next =>
    rw [journal] at clear
    exact (moves.recovers (poised.usable clear)).usable.clear
  next =>
    rw [journal] at fine
    have recovers := moves.recovers (poised.usable fine.faultless)
    have before := spare.before ⟨recovers.later, fun _ => recovers.extents⟩ poised.memory
    exact recovers.calm (poised.calm fine before) spare
  next =>
    rw [journal] at clear
    exact (moves.recovers (poised.usable clear)).extents

theorem Beside.onwards (beside : w.Beside w') : Onwards w w' :=
  fun poised => ⟨beside.poised poised, beside.returned⟩

theorem beside_setPhase (w : World) (p : Phase) : w.Beside (w.setPhase p) := by
  unfold setPhase
  split
  next => exact .refl w
  next => exact .of_note rfl rfl fun _ => trivial

theorem beside_meet (w : World) (d : Demand) : w.Beside (w.meet d) := by
  cases d with
  | send port item =>
    simp only [meet]
    split
    next => exact .of_note rfl rfl fun _ => trivial
    next => exact .of_note rfl rfl fun _ => trivial
  | announce => exact beside_setPhase w .shuttingDown
  | close =>
    simp only [meet]
    split
    next => exact .of_note rfl rfl fun _ => trivial
    next => exact .refl w
  | hold => exact .of_same rfl rfl
  | letGo => exact .of_same rfl rfl
  | desert reply => exact .of_same rfl rfl

theorem beside_arrive (w : World) : w.Beside w.arrive :=
  arrive_leads .refl .trans (fun _ _ => .of_same rfl rfl) beside_meet w

/-- What a program finds is calm, as it is at every point in between. -/
theorem onwards_stand (w : World) : Onwards w (Change.stand.apply w) := by
  intro poised
  have earlier (fine : Unhampered (Change.stand.apply w).journal) : w.link.Spare (some 29) -> w.link.Calm :=
    poised.calm (fine.before [.standing w.ground])
  refine ⟨⟨⟨⟨fun _ fine => ?_, poised.law⟩, poised.memory, fun clear => ?_⟩, earlier⟩, ⟨⟨[_], rfl⟩, .refl _⟩,
    fun _ => rfl⟩
  next => exact earlier fine (fine.roomy _ (List.mem_cons_self ..))
  next => exact poised.clear fun member => clear (List.mem_cons_of_mem _ member)

theorem onwards_fault (w : World) (name : String) (f : Option Fault) : Onwards w ((Change.fault name f).apply w) := by
  have engine : ((Change.fault name f).apply w).link.engine = w.link.engine := w.link.setFault_engine name f
  have memory : ((Change.fault name f).apply w).link.memory = w.link.memory := congrArg Engine.memory engine
  have there : .fault ∈ ((Change.fault name f).apply w).journal := List.mem_cons_self ..
  intro poised
  -- From here on nothing is promised.
  exact ⟨⟨⟨⟨trivial, poised.law⟩, memory ▸ poised.memory, fun absent => absurd there absent⟩,
      fun fine => absurd there fine.faultless⟩,
    ⟨⟨[.fault], rfl⟩, memory ▸ .refl w.link.memory⟩, fun absent => absurd there absent⟩

theorem onwards_change (c : Change) (w : World) : Onwards w (c.apply w) := by
  cases c with
  | demand d => exact (beside_meet w d).onwards
  | queueMicrotask c => exact Beside.onwards (.of_note rfl rfl fun _ => trivial)
  | patience polls => exact .of_moves rfl (.of_engine rfl rfl)
  | fault name f => exact onwards_fault w name f
  | stand => exact onwards_stand w
  | script => exact Beside.onwards (.of_note rfl rfl fun _ => trivial)
  | _ => exact Beside.onwards (.of_same rfl rfl)

theorem onwards_handle (w : World) (t : Thread) (c : HandleCall) :
    Onwards w (w.onVault fun v => ((c.perform t).run v).2) :=
  .of_moves rfl (Vault.custodial_moves.perform t c w.worker.vault)

end World

def composure : Pact where
  always := World.Poised
  across := World.Returned
  refl := .refl
  trans := .trans

namespace LoopM

variable {α β : Type} {act : LoopM α} {f : α -> LoopM β} {w : World} {Q Q' : α -> World -> Prop}
variable {Q'' : β -> World -> Prop}

/-- An action comes to its end with `Q`, or it is cut short in a world that is poised. -/
structure Comes (act : LoopM α) (w : World) (Q : α -> World -> Prop) : Prop extends Ends act w Q where
  cut : result act w = none -> (final act w).Poised

theorem comes_pure {a : α} (post : Q a w) : Comes (pure a) w Q :=
  ⟨ends_pure post, nofun⟩

theorem Comes.imp (comes : Comes act w Q) (weaker : ∀ a w', Q a w' -> Q' a w') : Comes act w Q' :=
  ⟨comes.toEnds.imp weaker, comes.cut⟩

theorem Comes.framed {b : Nat} (comes : Comes act w Q) (frame : World.Frame b w (final act w)) :
    Comes act w fun a w' => Q a w' ∧ World.Frame b w w' :=
  ⟨⟨fun a came => ⟨comes.post a came, frame⟩⟩, comes.cut⟩

theorem comes_bind (first : Comes act w Q) (rest : ∀ a w', Q a w' -> Comes (f a) w' Q'') : Comes (act >>= f) w Q'' := by
  refine ⟨ends_bind first.toEnds fun a w' post => (rest a w' post).toEnds, fun stopped => ?_⟩
  rw [result_bind] at stopped
  rw [final_bind]
  cases came : result act w with
  | none => exact first.cut came
  | some a =>
    simp only [came] at stopped
    exact (rest a _ (first.post a came)).cut stopped

theorem comes_of_honours {b : Nat} (honours : Honours composure b act w) (poised : w.Poised) :
    Comes act w fun _ w' => w'.Poised ∧ w.Returned w' :=
  ⟨⟨fun a came => ⟨honours.grown.kept poised, honours.across poised a came⟩⟩, fun _ => honours.grown.kept poised⟩

theorem honours_of_comes {b : Nat} (frame : World.Frame b w (final act w))
    (comes : w.Poised -> Comes act w fun _ w' => w'.Poised ∧ w.Returned w') : Honours composure b act w := by
  refine ⟨⟨fun poised => ?_, frame⟩, fun poised a came => ((comes poised).post a came).2⟩
  cases came : result act w with
  | none => exact (comes poised).cut came
  | some a => exact ((comes poised).post a came).1

theorem comes_onwards {a : α} (came : result act w = some a) (onwards : w.Onwards (final act w)) (poised : w.Poised) :
    Comes act w fun _ w' => w'.Poised ∧ w.Returned w' :=
  ⟨⟨fun _ _ => onwards poised⟩, fun stopped => by simp [came] at stopped⟩

end LoopM

namespace WorldM

variable {α β ε : Type}

/-- From a world that is poised, this comes to one that is so, with nothing left behind. -/
def Composed (act : WorldM α) : Prop :=
  ∀ (r : Runner) (t : Thread), r.Loyal composure -> ∀ w : World, w.Poised ->
    Comes (r.on t act) w fun _ w' => w'.Poised ∧ w.Returned w'

theorem Composed.does {act : WorldM α} {r : Runner} (composed : Composed act) (loyal : r.Loyal composure) (t : Thread) :
    r.Does composure t act := by
  intro b w early
  have grown := (stable_anything.does loyal.anyway t act early).grown
  exact honours_of_comes grown.frame (composed r t loyal w)

section Rules

variable {act : WorldM α} {f : α -> WorldM β}

theorem composed_pure (a : α) : Composed (pure a) :=
  fun _ _ _ w poised => comes_pure ⟨poised, .refl w⟩

theorem composed_bind (first : Composed act) (rest : ∀ a, Composed (f a)) : Composed (act >>= f) := by
  intro r t loyal w poised
  rw [Runner.on_bind]
  refine comes_bind (first r t loyal w poised) ?_
  rintro a w' ⟨poised', returned⟩
  exact (rest a r t loyal w' poised').imp fun _ _ post => ⟨post.1, returned.trans post.2⟩

theorem composed_look : Composed look := by
  intro r t _ w poised
  rw [look, Runner.on_question]
  exact comes_onwards (a := w.arrive) rfl w.beside_arrive.onwards poised

theorem composed_thread : Composed thread := by
  intro r t _ w poised
  rw [thread, Runner.on_question]
  exact comes_pure ⟨poised, .refl w⟩

theorem composed_alter (c : Change) : Composed (alter c) := by
  intro r t _ w poised
  rw [alter, Runner.on_question]
  exact comes_onwards (a := ()) rfl (w.onwards_change c) poised

theorem composed_handle (c : HandleCall) : Composed (handle c) := by
  intro r t _ w poised
  rw [handle, Runner.on_question]
  exact comes_onwards (a := ((c.perform t).run w.worker.vault).1) rfl (w.onwards_handle t c) poised

theorem composed_program (operands : Operands) (ops : List Op) : Composed (program operands ops) := by
  intro r t loyal w poised
  rw [program, Runner.on_question]
  exact comes_of_honours (b := 0) (loyal.program (Nat.zero_le _) t operands ops) poised

theorem composed_await (p : Handle) (token : Option TokenId) : Composed (await p token) := by
  intro r t loyal w poised
  rw [await, Runner.on_question]
  exact comes_of_honours (b := 0) (loyal.await (Nat.zero_le _) t p token) poised

theorem comes_ask (r : Runner) (q : Ask) (w : World) :
    Comes (r.on .worker (.question (Act.ask q))) w fun a w' =>
      a = (q.perform.run w.link).1 ∧ w' = w.onLink fun _ => (q.perform.run w.link).2 := by
  rw [Runner.on_question]
  exact ⟨⟨fun a came => ⟨(Option.some.inj came).symm, rfl⟩⟩, nofun⟩

theorem comes_asking (r : Runner) (act : Asking α) (w : World) :
    Comes (r.on .worker (asking act)) w fun a w' =>
      a = (act.perform.run w.link).1 ∧ w' = w.onLink fun _ => (act.perform.run w.link).2 := by
  induction act generalizing w with
  | done a => exact comes_pure ⟨rfl, rfl⟩
  | ask q next ih =>
    change Comes (r.on .worker (.question (Act.ask q) >>= fun a => asking (next a))) w _
    rw [Runner.on_bind]
    refine comes_bind (comes_ask r q w) ?_
    rintro _ _ ⟨rfl, rfl⟩
    exact ih _ _

/-- Off the thread of the worker, whatever asks the engine is cut short before it is asked. -/
theorem comes_aside {r : Runner} (loyal : r.Loyal composure) (act : WorldM α) {w : World} (poised : w.Poised) :
    Comes (r.on .other act) w fun _ w' => w'.Poised ∧ w.Returned w' := by
  induction act generalizing w with
  | done a => exact comes_pure ⟨poised, .refl w⟩
  | ask a next ih =>
    have first : Comes (a.perform r .other) w fun _ w' => w'.Poised ∧ w.Returned w' := by
      cases a with
      | look => exact composed_look r .other loyal w poised
      | thread => exact composed_thread r .other loyal w poised
      | alter c => exact composed_alter c r .other loyal w poised
      | ask q => exact ⟨ends_exhausted, fun _ => poised⟩
      | handle c => exact composed_handle c r .other loyal w poised
      | program operands ops => exact comes_of_honours (b := 0) (loyal.program (Nat.zero_le _) .other operands ops) poised
      | await p token => exact comes_of_honours (b := 0) (loyal.await (Nat.zero_le _) .other p token) poised
    change Comes (a.perform r .other >>= fun x => r.on .other (next x)) w _
    refine comes_bind first ?_
    rintro x w' ⟨poised', returned⟩
    exact (ih x poised').imp fun _ _ post => ⟨post.1, returned.trans post.2⟩

theorem composed_of_worker {act : WorldM α} (composed : ∀ r : Runner, r.Loyal composure -> ∀ w : World, w.Poised ->
    Comes (r.on .worker act) w fun _ w' => w'.Poised ∧ w.Returned w') : Composed act := by
  intro r t loyal w poised
  cases t with
  | worker => exact composed r loyal w poised
  | other => exact comes_aside loyal act poised

theorem composed_asking {act : LinkM α} (composed : Link.Composed (some 29) act) : Composed (asking act.run) := by
  refine composed_of_worker fun r _ w poised => (comes_asking r act.run w).imp ?_
  rintro _ _ ⟨-, rfl⟩
  have onwards : w.Onwards (w.onLink fun _ => (Link.answered act w.link).2) := .of_moves rfl (composed.moves w.link)
  exact onwards poised

end Rules

section Except

variable {act : ExceptT ε WorldM α} {f : α -> ExceptT ε WorldM β}

theorem composed_bindExcept (first : Composed act.run) (rest : ∀ a, Composed (f a).run) : Composed (act >>= f).run := by
  refine composed_bind first fun r => ?_
  cases r with
  | ok a => exact rest a
  | error e => exact composed_pure _

theorem comes_lift {r : Runner} {t : Thread} {w : World} {act : WorldM α} {Q : α -> World -> Prop}
    (comes : Comes (r.on t act) w Q) :
    Comes (r.on t (ExceptT.lift act : ExceptT ε WorldM α).run) w fun a w' => ∃ x, a = .ok x ∧ Q x w' := by
  change Comes (r.on t (act >>= fun x => pure (Except.ok x))) w _
  rw [Runner.on_bind]
  exact comes_bind comes fun x _ post => comes_pure ⟨x, rfl, post⟩

theorem composed_lift {act : WorldM α} (composed : Composed act) :
    Composed (ExceptT.lift act : ExceptT ε WorldM α).run :=
  composed_bind composed fun _ => composed_pure _

end Except

end WorldM

end ScriptHost
