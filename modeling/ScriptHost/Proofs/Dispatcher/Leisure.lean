import ScriptHost.Proofs.Conversion.Charges
import ScriptHost.Proofs.Dispatcher.Payloads

set_option autoImplicit false

/-!
Attempts that nothing comes in the way of.

A snapshot settles its promise if it keeps to the limits, if there is memory for it, and if nothing interrupts the call
of the function. What may interrupt is asked for just once, and until then no time goes by.
-/

namespace ScriptHost

open LoopM

namespace World

variable {w : World} {s : Desk}

/-- What decides whether a deadline is past. -/
def clock (w : World) : Nat × Option Nat :=
  (w.now, w.worker.deadline)

theorem clock_meet (w : World) (d : Demand) : (w.meet d).clock = w.clock := by
  cases d with
  | send port item =>
    simp only [meet]
    split <;> rfl
  | announce =>
    simp only [meet, setPhase]
    split <;> rfl
  | close =>
    simp only [meet]
    split <;> rfl
  | hold => rfl
  | letGo => rfl
  | desert reply => rfl

theorem clock_arrive (w : World) : w.arrive.clock = w.clock :=
  arrive_leads (R := fun w w' => w'.clock = w.clock) (fun _ => rfl) (fun first second => second.trans first)
    (fun _ _ => rfl) clock_meet w

/-- What is done at this desk is not interrupted by the first poll. -/
structure Leisurely (s : Desk) (w : World) : Prop where
  desk : w.desk = s
  patient : s.link.patience ≠ some 0
  early : ∀ instant, w.worker.deadline = some instant -> w.now < instant

theorem Leisurely.later {s' : Desk} {w' : World} (leisurely : Leisurely s w) (desk : w'.desk = s')
    (patience : s'.link.patience = s.link.patience) (clock : w'.clock = w.clock) : Leisurely s' w' := by
  obtain ⟨now, deadline⟩ := Prod.mk.inj clock
  refine ⟨desk, patience ▸ leisurely.patient, fun instant set => ?_⟩
  rw [now]
  exact leisurely.early instant (deadline ▸ set)

end World

namespace Act

/-- Asks the engine, or looks at something. -/
def Quick : Act -> Prop
  | look | thread | ask _ | handle _ => True
  | _ => False

theorem Quick.clock {a : Act} (quick : a.Quick) (r : Runner) (w : World) :
    (final (a.perform r .worker) w).clock = w.clock := by
  cases a with
  | look => exact w.clock_arrive
  | thread | ask q | handle c => rfl
  | _ => exact quick.elim

end Act

namespace Attempt

open Dialogue

variable {α : Type}

theorem quick_ofExcept (x : Except Error α) : (ofExcept x).run.Only Act.Quick := by
  cases x <;> exact trivial

theorem quick_checkAccess (operation : String) : (checkAccess operation).run.Only Act.Quick :=
  only_bindExcept (only_lift (only_question trivial)) fun _ =>
    only_bindExcept (only_lift (only_question trivial)) fun _ => quick_ofExcept _

theorem quick_asking (act : LinkM α) : (WorldM.asking act.run).Only Act.Quick :=
  only_through (only_any _) fun _ _ => only_question trivial

theorem quick_onLink (act : LinkM α) : (WorldM.host.onLink act).run.Only Act.Quick :=
  quick_asking act

theorem quick_withLink (operation : String) (act : LinkM α) : (withLink operation act).run.Only Act.Quick :=
  only_bindExcept (quick_checkAccess operation) fun _ => quick_asking act

theorem quick_raw (h : Handle) : (raw h).run.Only Act.Quick :=
  only_bindExcept (only_lift (only_question trivial)) fun _ => quick_ofExcept _

theorem quick_rawAll (hs : List Handle) : (rawAll hs).run.Only Act.Quick := by
  induction hs with
  | nil => exact only_pure _
  | cons h rest ih => exact only_bindExcept (quick_raw h) fun _ => only_bindExcept ih fun _ => only_pure _

theorem quick_own (p : Ptr) : (own p).run.Only Act.Quick :=
  only_lift (only_question trivial)

theorem quick_duplicate (h : Handle) : (duplicate h).run.Only Act.Quick :=
  only_question trivial

theorem quick_fromSnapshot (v : Snapshot) : (fromSnapshot v).run.Only Act.Quick :=
  only_bindExcept (only_lift (only_question trivial)) fun _ =>
    only_bindExcept (quick_withLink _ _) fun p => quick_own p

end Attempt

namespace Runner

section Gives

variable {α β : Type} {r : Runner} {s s' : Desk} {w : World} {act : WorldM α} {f : α -> WorldM β} {Q : β -> World -> Prop}

theorem Brings.quickly {P : α -> Desk -> Prop} (brings : r.Brings act s P) (quick : act.Only Act.Quick) (here : w.desk = s) :
    r.Gives act w fun a w' => P a w'.desk ∧ w'.clock = w.clock := by
  obtain ⟨a, came, post⟩ := brings.ended w here
  exact ⟨a, came, post, same_on World.clock (fun _ quick w => quick.clock r w) quick w⟩

theorem gives_then {a : α} (first : r.Yields act s a s') (quick : act.Only Act.Quick)
    (patience : s'.link.patience = s.link.patience) (leisurely : w.Leisurely s)
    (rest : ∀ w : World, w.Leisurely s' -> r.Gives (f a) w Q) : r.Gives (act >>= f) w Q := by
  refine gives_bind (first.quickly quick leisurely.desk) ?_
  rintro _ w' ⟨⟨rfl, desk⟩, clock⟩
  exact rest w' (leisurely.later desk patience clock)

end Gives

section Attempts

variable {α β : Type} {r : Runner} {s s' : Desk} {w : World} {act : Attempt α} {f : α -> Attempt β}
variable {P : α -> World -> Prop} {Q : Except Error β -> World -> Prop}

theorem gives_attempt (first : r.Gives act.run w fun x w' => ∃ a, x = .ok a ∧ P a w')
    (rest : ∀ a w', P a w' -> r.Gives (f a).run w' Q) : r.Gives (act >>= f).run w Q := by
  rw [ExceptT.run_bind]
  refine gives_bind first ?_
  rintro _ w' ⟨a, rfl, post⟩
  exact rest a w' post

theorem gives_after {a : α} (first : r.Yields act.run s (.ok a) s') (quick : act.run.Only Act.Quick)
    (patience : s'.link.patience = s.link.patience) (leisurely : w.Leisurely s)
    (rest : ∀ w : World, w.Leisurely s' -> r.Gives (f a).run w Q) : r.Gives (act >>= f).run w Q := by
  rw [ExceptT.run_bind]
  exact gives_then first quick patience leisurely rest

theorem gives_lifted {act : WorldM α} {f : α -> Attempt β} (first : r.Gives act w P)
    (rest : ∀ a w', P a w' -> r.Gives (f a).run w' Q) : r.Gives ((liftM act : Attempt α) >>= f).run w Q :=
  gives_attempt (gives_bind first fun a _ post => ⟨.ok a, rfl, a, rfl, post⟩) rest

theorem gives_looking {f : World -> Attempt β} (leisurely : w.Leisurely s)
    (rest : ∀ seen w : World, seen.desk = s -> w.Leisurely s -> r.Gives (f seen).run w Q) :
    r.Gives ((liftM WorldM.look : Attempt World) >>= f).run w Q := by
  refine gives_lifted (brings_look.quickly (Dialogue.only_question trivial) leisurely.desk) ?_
  rintro seen w' ⟨⟨here, desk⟩, clock⟩
  exact rest seen w' here (leisurely.later desk rfl clock)

/-- Whatever becomes of its handle, the answer is that of the attempt. -/
theorem gives_holding {act : Handle -> Attempt α} {h : Handle} {P : Except Error α -> Prop}
    (held : r.Gives (act h).run w fun a _ => P a) : r.Gives (Attempt.holding h act).run w fun a _ => P a := by
  refine gives_lifted held fun a _ post => ?_
  refine gives_lifted ((yields_discardHandle h).gives rfl) fun _ _ _ => ?_
  refine ((yields_ofExcept a).gives rfl).imp ?_
  rintro _ _ ⟨rfl, -⟩
  exact post

end Attempts

section Calls

open Dialogue Link

variable {r : Runner} {s : Desk} {w : World} {f this v p c : Ptr} {table : Addr} {reject : Bool}

theorem gives_interrupted (leisurely : w.Leisurely s) : r.Gives WorldM.interrupted w fun interrupted _ => interrupted = false := by
  have polled := (yields_ask (r := r) (s := s) .poll).quickly (only_question trivial) leisurely.desk
  refine gives_bind polled ?_
  rintro interrupted w' ⟨⟨answer, -⟩, clock⟩
  have poll : interrupted = false := by
    have patient := leisurely.patient
    change interrupted = s.link.poll.1 at answer
    unfold Link.poll at answer
    split at answer <;> simp_all
  simp only [poll, Bool.false_eq_true, if_false]
  refine gives_bind (P := fun seen _ => seen.clock = w'.clock) ⟨w'.arrive, rfl, w'.clock_arrive⟩ fun seen u same => ?_
  obtain ⟨now, deadline⟩ := Prod.mk.inj (same.trans clock)
  rw [now, deadline]
  cases set : w.worker.deadline with
  | none => exact ⟨false, rfl, rfl⟩
  | some instant => exact ⟨_, rfl, by simpa using leisurely.early instant set⟩

/-- A call of a function of a promise that nothing interrupts returns. -/
theorem gives_exportCall (leisurely : w.Leisurely s) (clear : s.link.faults = Table.empty)
    (words : s.link.memory.readWords table 1 = .ok [v]) (able : s.heap.resolver? f = some (p, reject)) :
    r.Gives (WorldM.host.runExport (.call f this 1 table)) w fun a _ => a = .ok (.ofWord Ptr.undefined) := by
  have intercepted : r.Yields (WorldM.host.ask (.intercept (Calling.call f this 1 table).name)) s none s :=
    yields_asked (intercept_of_faultless clear)
  have begun : r.Yields (WorldM.host.ask (.start (.call f this 1 table))) s (.checking (.call f this [v] table)) s :=
    yields_asked (perform_start (Engine.beginCall_one words))
  refine gives_then intercepted (only_question trivial) rfl leisurely fun w leisurely => ?_
  refine gives_then begun (only_question trivial) rfl leisurely fun w leisurely => ?_
  refine gives_bind ((gives_interrupted leisurely).and (brings_interrupted.gives leisurely.desk)) ?_
  rintro _ w' ⟨rfl, polls, desk⟩
  let mid := s.withLink (s.link.patient polls)
  refine gives_bind ((yields_asked (s := mid) (perform_check (Engine.afterCheck_resolving able))).gives desk) ?_
  rintro _ _ ⟨rfl, -⟩
  exact ⟨_, rfl, rfl⟩

theorem gives_call (leisurely : w.Leisurely s) (ready : s.link.Ready) (able : s.heap.resolver? f = some (p, reject))
    (fits : s.link.memory.Fits 4) :
    r.Gives (WorldM.host.call f this [v]).run w fun a _ => a = .ok (.returned Ptr.undefined) := by
  have words := readWords_tabling (v := v) ready fits
  refine gives_after (yields_writeTable ready fits) (Attempt.quick_onLink _) rfl leisurely fun w leisurely => ?_
  refine gives_lifted (P := fun a _ => a = .ok Ptr.undefined) ?_ ?_
  · refine gives_bind (gives_exportCall (s := s.withLink (s.link.tabling v)) leisurely ready.clear words able) ?_
    rintro _ _ rfl
    exact ⟨_, rfl, rfl⟩
  · rintro _ w' rfl
    rw [if_neg (Memory.next_nonzero ready.memory)]
    have freed : r.Yields (WorldM.host.onLink (free (UInt32.ofNat s.link.memory.next))).run w'.desk (.ok ()) _ :=
      yields_answered (answered_free _ _)
    refine gives_attempt (P := fun _ _ => True) ((freed.gives rfl).imp fun _ _ done => ⟨(), done.1, trivial⟩) fun _ _ _ => ?_
    exact ⟨_, rfl, rfl⟩

theorem gives_calling {x y : Handle} (usable : s.Usable) (leisurely : w.Leisurely (s.calling x))
    (able : s.heap.resolver? x.ptr = some (p, reject)) (known : ∀ m, y.reference = some m -> m < s.vault.nextReference)
    (alive : y.isAlive s.vault = true) (fits : s.link.memory.Fits 4) :
    r.Gives (Attempt.holding (s.fresh x.ptr) fun f => Attempt.call f none [y]).run w fun a _ => ∃ z, a = .ok (.success z) := by
  obtain ⟨value, found, -⟩ := Option.bind_eq_some_iff.1 able
  have usable' := usable_calling usable found
  refine gives_holding (P := fun a => ∃ z, a = .ok (Outcome.success z)) ?_
  refine gives_after (yields_raw_alive (s.gained_calling x).owns.isAlive) (Attempt.quick_raw _) rfl leisurely fun w leisurely => ?_
  refine gives_after (yields_undefined usable') (Attempt.quick_withLink _ _) rfl leisurely fun w leisurely => ?_
  refine gives_after (yields_rawAll_one ((isAlive_calling known).trans alive)) (Attempt.quick_rawAll _) rfl leisurely
    fun w leisurely => ?_
  refine gives_after (yields_checkAccess usable'.opened "call") (Attempt.quick_checkAccess _) rfl leisurely
    fun w leisurely => ?_
  refine gives_attempt (P := fun c _ => c = .returned Ptr.undefined)
    ((gives_call leisurely usable'.ready (resolver_calling able) fits).imp fun _ _ done => ⟨_, done, rfl⟩) ?_
  rintro _ w' rfl
  exact ⟨_, rfl, _, rfl⟩

end Calls

section Settling

open Desk

variable {r : Runner} {s : Desk} {w : World} {x : Handle} {p : Ptr} {others : List Ptr} {id : DeferredId} {d : Deferred}
variable {v : Snapshot}

theorem gives_settle (leisurely : w.Leisurely s) (pending : s.Pending id p others d) (known : s.Known p others x)
    (alive : x.isAlive s.vault = true) (fits : s.link.memory.Fits 4) (fulfil : Bool) :
    r.Gives (Attempt.settle id fulfil x).run w fun a _ => a = .ok () := by
  have usable := pending.sound.toUsable
  obtain ⟨c, n, held, owns, able⟩ := pending.capable fulfil
  obtain ⟨value, found, -⟩ := Option.bind_eq_some_iff.1 able
  refine gives_after (yields_checkAccess usable.opened _) (Attempt.quick_checkAccess _) rfl leisurely fun w leisurely => ?_
  refine gives_looking leisurely fun seen w here leisurely => ?_
  have slots : seen.deferreds.get? id = some d := (congrArg (fun s => s.deferreds.get? id) here).trans pending.found
  have function : (if fulfil then d.resolve else d.reject) = some c := held
  simp only [slots, pending.unsettled, function, Bool.false_eq_true, if_false]
  refine gives_after (yields_duplicated usable owns found) (Attempt.quick_duplicate _) rfl leisurely fun w leisurely => ?_
  have called := (brings_calling (r := r) usable able known.earlier).gives leisurely.desk
  refine gives_attempt (P := fun o w => s.Attempted c.ptr p x (!fulfil) (.ok o) w.desk ∧ ∃ y, o = .success y)
    (((gives_calling usable leisurely able known.earlier alive fits).and called).imp ?_) ?_
  · rintro _ w' ⟨⟨y, rfl⟩, attempted⟩
    exact ⟨_, rfl, attempted, y, rfl⟩
  · rintro _ w' ⟨attempted, y, rfl⟩
    generalize there : w'.desk = t at attempted
    cases attempted with
    | returned alive gained undefined same link =>
      have concluded := brings_concluded (r := r) pending known (by simp [found]) alive gained undefined same link
      exact ((brings_after (yields_pure _) concluded).gives there).imp fun _ _ => And.left

/-- A snapshot that keeps to the limits settles the promise, if there is memory for it and nobody interrupts. -/
theorem gives_settleValue (leisurely : w.Leisurely s) (pending : s.Pending id p others d)
    (word : s.config.maxBytes < UInt64.size) (depth : (v.need 0).depth ≤ s.config.maxDepth)
    (bytes : (v.need 0).bytes ≤ s.config.maxBytes)
    (room : s.link.Roomy ((v.need 0).space + Memory.span 4) (v.need 0).space) (fulfil : Bool) :
    r.Gives (Attempt.settleValue id fulfil v).run w fun a _ => a = .ok () := by
  have usable := pending.sound.toUsable
  have enough := Conversion.enough_of_limits depth bytes (room.mono (Nat.le_add_right _ _) (Nat.le_refl _))
  have ends := Conversion.toEngine_built usable.ready s.config.maxDepth word v
  generalize answered : Link.answered (Conversion.toEngine s.config.maxDepth s.config.maxBytes v) s.link = answer at ends
  cases ends with
  | error _ unfit => exact absurd enough unfit
  | @ok q l made =>
    obtain ⟨grown, near⟩ := made
    have gained := ((Kept.refl s).withLink l).gained q
    have pending' := pending.grown gained grown
    have known : (s.withLink l).owning.Known p (q :: others) (s.fresh q) :=
      ⟨fun m same => Option.some.inj (gained.reference.symm.trans same) ▸ gained.next, fun _ => .inr (by simp [Desk.fresh])⟩
    have fits : l.memory.Fits 4 := (room.toSpacious.after grown.changed near.next).fits (Nat.le_refl _)
    refine gives_after (yields_fromSnapshot_ok usable.opened answered) (Attempt.quick_fromSnapshot v) grown.changed.patience
      leisurely fun w leisurely => ?_
    exact gives_holding (P := fun a => a = .ok ()) (gives_settle leisurely pending' known gained.owns.isAlive fits fulfil)

end Settling

end Runner

end ScriptHost
