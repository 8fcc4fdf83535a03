import ScriptHost.Proofs.Engine.Displaying
import ScriptHost.Proofs.Engine.Listing
import ScriptHost.Proofs.Engine.Texts
import ScriptHost.Proofs.Link.Balance
import ScriptHost.Proofs.Link.Crossing

set_option autoImplicit false

/-!
The texts that are read from an engine, however it has been used.

No text of an engine has a NUL, so all of it comes across the link. This holds in the midst of a call as well, as long as
the host does no more to the engine than to ask it.
-/

namespace ScriptHost

namespace Link

variable {α : Type} {l l' l'' : Link} {p : Ptr}

/-- What can be made of a link by asking its engine. -/
inductive Reaches (l : Link) : Link -> Prop
  | refl : Reaches l l
  | request {l' : Link} (before : Reaches l l') (r : Request) : Reaches l ((meet r).run l').2
  | ask {l' : Link} (before : Reaches l l') (q : Ask) : Reaches l (q.perform.run l').2

theorem Reaches.trans (first : l.Reaches l') (second : l'.Reaches l'') : l.Reaches l'' := by
  induction second with
  | refl => exact first
  | request _ r ih => exact ih.request r
  | ask _ q ih => exact ih.ask q

theorem reaches_perform (act : Asking α) (l : Link) : l.Reaches (act.perform.run l).2 :=
  Dialogue.through_leads (R := Reaches) (fun _ => .refl) Reaches.trans (fun q _ _ => Reaches.refl.ask q) act.only_any l

theorem unlessFaulty_nulFree {name : String} {answer : Replacement -> Except Error α} {act : EngineM α}
    (clean : Engine.Clean act) (free : l.engine.heap.NulFree) :
    ((unlessFaulty name answer act).run l).2.engine.heap.NulFree :=
  unlessFaulty_leads (R := fun s t : Engine => s.heap.NulFree -> t.heap.NulFree) (fun _ => id)
    (fun s free => (clean s free).1) free

theorem meet_nulFree (free : l.engine.heap.NulFree) (r : Request) : ((meet r).run l).2.engine.heap.NulFree :=
  unlessFaulty_nulFree (Engine.perform_clean r) free

theorem ask_nulFree (free : l.engine.heap.NulFree) (q : Ask) : (q.perform.run l).2.engine.heap.NulFree := by
  cases q with
  | request r common => exact meet_nulFree free r
  | allocate size =>
    refine unlessFaulty_nulFree ((Engine.clean_onMemory _).bind fun a => ?_) free
    split
    next => exact Engine.clean_throw _
    next => exact Engine.clean_pure _
  | free a => exact free
  | readBytes a count => exact unlessFaulty_nulFree (Engine.clean_onMemory _) free
  | writeBytes a bytes => exact unlessFaulty_nulFree (Engine.clean_onMemory _) free
  | readCString a => exact unlessFaulty_nulFree (Engine.clean_onMemory _) free
  | intercept name =>
    have same := intercept_engine l name
    exact same ▸ free
  | start c => exact Engine.first_nulFree free c
  | check interrupted c => exact Engine.afterCheck_nulFree free interrupted c
  | resume answer f => exact Engine.afterHost_nulFree free answer f
  | poll =>
    change l.poll.2.engine.heap.NulFree
    unfold poll
    split <;> exact free

theorem Reaches.nulFree (reached : l.Reaches l') (free : l.engine.heap.NulFree) : l'.engine.heap.NulFree := by
  induction reached with
  | refl => exact free
  | request _ r ih => exact meet_nulFree ih r
  | ask _ q ih => exact ask_nulFree ih q

theorem Reaches.usable (reached : l.Reaches l') (usable : l.Usable) : l'.Usable := by
  induction reached with
  | refl => exact usable
  | request _ r ih => exact AroundM.meet_usable r ih
  | ask _ q ih => exact AroundM.perform_usable q ih

/-- What is read of the engine is all there is to read, and the reading changes no value. -/
structure Verbatim (l : Link) : Prop where
  texts : l.engine.heap.NulFree
  -- Without a limit, a text is refused only when the addresses run out.
  read : ∀ p depth, l.engine.heap.FiniteText p -> l.cells.size < depth -> l.memory.limit = none ->
    l.memory.next + Memory.span (Memory.terminated (l.engine.heap.displayTo depth p)).size ≤ Memory.lastAddress ->
    ∃ l', answered (toText p) l = (.ok (l.engine.heap.displayTo depth p), l') ∧ l'.engine.heap = l.engine.heap ∧
      l'.memory.allocated = l.memory.allocated
  exact : ∀ p t l', answered (toText p) l = (.ok t, l') ->
    t = l.engine.heap.display p ∧ l'.engine.heap = l.engine.heap

theorem verbatim_of_nulFree (usable : l.Usable) (free : l.engine.heap.NulFree) : l.Verbatim where
  texts := free
  read p depth finite deep unlimited room := by
    rw [finite.displayTo deep] at room ⊢
    have fits : l.Spells (l.engine.heap.display p) := Memory.fits_unlimited unlimited room
    have answer := toText_fits usable.clear usable.memory fits
    rw [Text.untilNul_of_nulFree (free.display p)] at answer
    exact ⟨_, answer, rfl, Memory.allocated_congr (extents_respelled usable fits)⟩
  exact p t l' got := by
    obtain ⟨same, rfl⟩ := toText_done usable.clear usable.memory got
    rw [Text.untilNul_of_nulFree (free.display p)] at same
    exact ⟨same, rfl⟩

theorem reaching : Way Reaches :=
  ⟨fun _ => .refl, .trans⟩

end Link

namespace OwnerM

open Link

theorem reaches_request (r : Request) : Leads Reaches (request r) :=
  fun _ => Reaches.refl.request r

theorem reaches_common {α : Type} (act : LinkM α) : Leads Reaches (common act) :=
  reaches_perform act.run

theorem reaches_takeRejections : Leads Reaches takeRejections := by
  have taken (out : Addr) : Leads Reaches (takeTable out) := by
    refine reaching.bind (reaches_request _) fun answer => ?_
    exact reaching.bind (reaches_common _) fun table => reaches_common _
  refine reaching.bind (reaches_common _) fun out => ?_
  refine reaching.bind (fun l => taken out l) fun events => ?_
  exact reaching.bind (reaches_common _) fun _ => reaches_common _

end OwnerM

namespace AroundM

variable {σ α β : Type} {interrupted : AroundM σ Bool} {answer : Invocation -> AroundM σ Ptr}

/-- What this does to the engine, it does by asking it. -/
def Asks (act : AroundM σ α) : Prop :=
  ∀ x : Link × σ, x.1.Reaches (act.run x).2.1

theorem asks_pure (a : α) : Asks (pure a : AroundM σ α) :=
  fun _ => .refl

theorem Asks.bind {act : AroundM σ α} {f : α -> AroundM σ β} (first : Asks act) (rest : ∀ a, Asks (f a)) :
    Asks (act >>= f) :=
  fun x => (first x).trans (rest (act.run x).1 (act.run x).2)

theorem asks_onLink {act : StateM Link α} (reaches : ∀ l, Link.Reaches l (act.run l).2) : Asks (onLink (σ := σ) act) :=
  fun x => reaches x.1

theorem asks_host (act : LinkM α) : Asks ((host interrupted answer).onLink act).run := by
  intro x
  change x.1.Reaches (outcome ((host interrupted answer).onLink act) x).2.1
  rw [outcome_onLink]
  exact Link.reaches_perform act.run x.1

theorem asks_ask (q : Ask) : Asks ((host interrupted answer).ask q) :=
  asks_onLink fun _ => Link.Reaches.refl.ask q

theorem asks_runStages (polls : Asks interrupted) (answers : ∀ inv, Asks (answer inv)) (left : Nat) (stage : Stage) :
    Asks ((host interrupted answer).runStages left stage) := by
  induction left generalizing stage with
  | zero => cases stage <;> exact asks_pure _
  | succ left ih =>
    cases stage with
    | done result => exact asks_pure _
    | checking check => exact polls.bind fun _ => (asks_ask _).bind fun stage => ih stage
    | calling inv frame => exact (answers inv).bind fun _ => (asks_ask _).bind fun _ => asks_pure _

theorem asks_runExport (polls : Asks interrupted) (answers : ∀ inv, Asks (answer inv)) (c : Calling) :
    Asks ((host interrupted answer).runExport c) := by
  refine (asks_ask _).bind fun replacement => ?_
  split
  next => exact asks_pure _
  next => exact (asks_ask _).bind fun stage => asks_runStages polls answers _ stage

theorem asks_runTyped (polls : Asks interrupted) (answers : ∀ inv, Asks (answer inv)) (c : Calling)
    (take : Scalar -> Option α) (unfit : String) : Asks ((host interrupted answer).runTyped c take unfit).run := by
  refine (asks_runExport polls answers c).bind fun result => ?_
  split
  next => exact asks_pure _
  next => split <;> exact asks_pure _

theorem asking : Way fun x y : Link × σ => x.1.Reaches y.1 :=
  ⟨fun _ => .refl, .trans⟩

theorem asks_call (polls : Asks interrupted) (answers : ∀ inv, Asks (answer inv)) (function this : Ptr) (args : List Ptr) :
    Asks ((host interrupted answer).call function this args).run := by
  refine asking.bind (asks_host _) fun table => ?_
  refine asking.bind (fun x => asks_runTyped polls answers _ _ _ x) fun result => ?_
  refine asking.bind (asks_host _) fun _ => ?_
  split
  next => exact asking.throw _
  next =>
    split
    next =>
      refine asking.bind (asks_host _) fun exception => ?_
      split
      next => exact asking.pure _
      next => exact asking.throw _
    next => exact asking.pure _

theorem perform_asks (polls : Asks interrupted) (answers : ∀ inv, Asks (answer inv)) (c : EngineCall) :
    Asks (perform (host interrupted answer) c) := by
  cases c with
  | across c => exact asks_host c.run
  | call function this args => exact asks_call polls answers function this args
  | executePendingJob => exact asking.bind (asks_runTyped polls answers _ _ _) fun status => asking.pure _
  | takeRejections => exact asks_onLink OwnerM.reaches_takeRejections

theorem step_nulFree (polls : Asks interrupted) (answers : ∀ inv, Asks (answer inv)) (u : EngineUse) {x : Link × σ}
    (usable : x.1.Usable) (free : x.1.engine.heap.NulFree) :
    (step (host interrupted answer) x u).1.Usable ∧ (step (host interrupted answer) x u).1.engine.heap.NulFree := by
  cases u with
  | request r => exact ⟨meet_usable r usable, Link.meet_nulFree free r⟩
  | install => exact ⟨⟨usable.clear, usable.memory⟩, free⟩
  | ask q => exact ⟨perform_usable q usable, Link.ask_nulFree free q⟩
  | call c =>
    have reached := perform_asks polls answers c x
    exact ⟨reached.usable usable, reached.nulFree free⟩

/-- An engine whose only function, the name of which was cut at a NUL, has answered with a text of its own. -/
def hailed : List EngineUse :=
  [.install, .call (.across (.newFunction 7 "hail\x00er")), .call (.call 16 Ptr.undefined [])]

end AroundM

end ScriptHost
