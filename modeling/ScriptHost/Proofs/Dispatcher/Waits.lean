import Mathlib.Logic.Relation
import ScriptHost.Proofs.Dispatcher.Acts
import ScriptHost.Proofs.Dispatcher.Glimpses

set_option autoImplicit false

/-!
Waiting for a promise on the worker.

A wait runs whole cycles, and in them anything may happen, other waits included. What it does besides is here: it
looks at the promise, and it holds a handle of it until it is over.
-/

namespace ScriptHost

open LoopM Relation

/-- The action comes to an end, with this answer and in this world. -/
def LoopM.Goes {α : Type} (act : LoopM α) (w : World) (a : α) (w' : World) : Prop :=
  act.run.run w = (some a, w')

/-- Only other threads have acted. -/
def World.Elsewhere : World -> World -> Prop :=
  ReflTransGen fun w w' => w' = w.arrive

def World.Fired (w : World) (token : Option TokenId) : Prop :=
  ∃ id, token = some id ∧ w.tokens.get? id = some true

/-- What a wait does between its beginning and its last look. A cycle is run only if the promise was pending just
before, and nothing tells the wait to end. -/
inductive WaitStep (r : Runner) (p : Handle) (token : Option TokenId) : World -> World -> Prop
  | round {w w₁ w₂ w₃ w' : World} (looked : Looked p (.ok none) w w₁) (elsewhere : w₁.Elsewhere w₂)
      (unfired : ¬ w₂.Fired token) (later : w₂.Elsewhere w₃) (running : w₃.worker.stopping = false)
      (cycle : (runCycle r).Goes w₃ () w') : WaitStep r p token w w'
  | glimpse {w w' : World} {settled : Bool} (glimpsed : Glimpsed p settled w w') : WaitStep r p token w w'
  | elsewhere {w w' : World} (elsewhere : w.Elsewhere w') : WaitStep r p token w w'
  | check {w w' : World} {pending : Bool} (goes : (hasPending r).Goes w pending w') : WaitStep r p token w w'
  | idle {w w' : World} (goes : (idleWait r token).Goes w () w') : WaitStep r p token w w'

/-- The last look of a wait, and what the wait comes to. -/
inductive Verdict (p : Handle) (token : Option TokenId) : Except Error Settled -> World -> World -> Prop
  | settled {o : Settled} {w w' : World} (looked : Looked p (.ok (some o)) w w') : Verdict p token (.ok o) w w'
  | failed {e : Error} {w w' : World} (looked : Looked p (.error e) w w') : Verdict p token (.error e) w w'
  | cancelled {w w' w'' : World} (looked : Looked p (.ok none) w w') (elsewhere : w'.Elsewhere w'')
      (fired : w''.Fired token) : Verdict p token (.error .cancelled) w w''
  | stopped {w w' w'' : World} (looked : Looked p (.ok none) w w') (elsewhere : w'.Elsewhere w'')
      (stopping : w''.worker.stopping = true) : Verdict p token (.error .shuttingDown) w w''

/-- The end of a wait: its handle goes, and with it one reference. -/
structure WaitOver (h : Handle) (w w' : World) : Prop where
  promises : w.heap.Forgets w'.heap
  innermost : w.worker.awaited = h :: w'.worker.awaited
  desk : ∃ l, w'.desk = w.desk.withVault { w.worker.vault.without h with link := l }
  released : w.worker.vault.link.faults = Table.empty -> h.isAlive w.worker.vault = true ->
    w'.worker.vault.link = w.worker.vault.link.released h.ptr
  -- A promise that is held elsewhere stays as it was.
  spared : w.worker.vault.link.faults = Table.empty -> h.isAlive w.worker.vault = true ->
    ∀ c, w.heap.cells.get? h.ptr = some c -> 1 < c.refs -> w'.heap.promise? h.ptr = w.heap.promise? h.ptr

inductive Waited (r : Runner) (p : Handle) (token : Option TokenId) : Except Error Settled -> World -> World -> Prop
  | refused {e : Error} {w w' : World} (refused : Refused p e w w') : Waited r p token (.error e) w w'
  | waited {found : Except Error Settled} {h : Handle} {n : ReferenceId} {w w₀ w₁ w₂ w' : World}
      (begun : Duplicated p h n w w₀)
      (course : ReflTransGen (WaitStep r p token) ((Duty.beginWait h).apply w₀) w₁)
      (verdict : Verdict p token found w₁ w₂)
      (ended : WaitOver h w₂ w') : Waited r p token found w w'

/-- The worker may use the engine, and references are numbered. -/
structure World.Fit (w : World) : Prop where
  opened : w.Open
  numbered : w.Numbered

/-- Everything that runs to its end waits for nothing more then than before. -/
def unwaiting : Pact where
  always _ := True
  across w w' := w'.worker.awaited = w.worker.awaited ∧ (w.Numbered -> w'.Numbered)
  refl _ := ⟨rfl, id⟩
  trans first second := ⟨second.1.trans first.1, second.2 ∘ first.2⟩

theorem World.unwaiting_meet (w : World) (d : Demand) : unwaiting.across w (w.meet d) := by
  have vault : (w.meet d).worker.vault = w.worker.vault := congrArg Desk.vault (w.desk_meet d)
  refine ⟨(unmoved_law.meet w d).awaited, fun numbered => ?_⟩
  unfold Numbered
  rwa [vault]

theorem World.unwaiting_setPhase (w : World) (p : Phase) : unwaiting.across w (w.setPhase p) := by
  unfold setPhase
  split <;> exact ⟨rfl, id⟩

theorem Duty.unwaiting {d : Duty} {w : World} (allowed : d.Allowed w) (whole : d.isOfWait = false) :
    unwaiting.across w (d.apply w) := by
  cases d with
  | phase p => exact w.unwaiting_setPhase p
  | receive =>
    simp only [apply]
    split <;> exact ⟨rfl, id⟩
  | take =>
    simp only [apply]
    split <;> exact ⟨rfl, id⟩
  | takeMicrotask =>
    simp only [apply]
    split <;> exact ⟨rfl, id⟩
  | beginWait h => cases whole
  | endWait => cases whole
  | leave => exact allowed.elim
  | dropFunctions => exact allowed.elim
  | _ => exact ⟨rfl, id⟩

theorem unwaiting_acts : unwaiting.ByActs where
  schedule _ _ _ := ⟨trivial, rfl, id⟩
  change c w _ := by
    refine ⟨trivial, ?_⟩
    cases c with
    | demand d => exact w.unwaiting_meet d
    | _ => exact ⟨rfl, id⟩
  ask _ _ _ := ⟨trivial, rfl, id⟩
  takeRejections _ _ := ⟨trivial, rfl, id⟩
  own w _ := by
    refine ⟨trivial, rfl, fun numbered n member => ?_⟩
    rcases List.mem_cons.1 member with rfl | old
    · exact Nat.lt_succ_self _
    · exact Nat.lt_succ_of_lt (numbered n old)
  bury w h _ := ⟨trivial, rfl, fun numbered n member => numbered n (List.mem_of_mem_filter member)⟩
  duty d w allowed _ := ⟨trivial, Duty.unwaiting allowed⟩
  wait h w w' _ across := ⟨congrArg (List.drop 1) across.1, across.2⟩
  flush _ _ := ⟨trivial, rfl, id⟩
  report _ _ _ _ := ⟨trivial, rfl, id⟩

namespace World

variable {w w' : World} {s t : Desk} {x : Handle} {n : ReferenceId}

theorem Fit.kept (fit : w.Fit) (kept : w.desk.Kept w'.desk) : w'.Fit where
  opened := kept.closed.trans fit.opened
  numbered m member := Nat.lt_of_lt_of_le (fit.numbered m (kept.alive ▸ member)) kept.next

theorem Fit.gained (fit : w.Fit) (gained : w.desk.Gained w'.desk x n) : w'.Fit where
  opened := gained.closed.trans fit.opened
  numbered m member := by
    rcases List.mem_cons.1 (gained.alive ▸ member : m ∈ n :: w.desk.vault.alive) with rfl | old
    · exact gained.next
    · exact Nat.lt_trans (Nat.lt_of_lt_of_le (fit.numbered m old) gained.new) gained.next

theorem Elsewhere.desk (elsewhere : w.Elsewhere w') : w'.desk = w.desk := by
  induction elsewhere with
  | refl => rfl
  | tail _ arrived ih =>
    rw [arrived, desk_arrive]
    exact ih

theorem Elsewhere.vault (elsewhere : w.Elsewhere w') : w'.worker.vault = w.worker.vault :=
  congrArg Desk.vault elsewhere.desk

theorem Elsewhere.heap (elsewhere : w.Elsewhere w') : w'.heap = w.heap :=
  congrArg Desk.heap elsewhere.desk

theorem Clear.later {p : Handle} {record : PromiseRecord} (clear : w.Clear p record) (elsewhere : w.Elsewhere w') :
    w'.Clear p record where
  opened := (congrArg Vault.closed elsewhere.vault).trans clear.opened
  faultless := elsewhere.vault ▸ clear.faultless
  counted := elsewhere.heap ▸ clear.counted
  alive := elsewhere.vault ▸ clear.alive
  found := elsewhere.heap ▸ clear.found
  payload := clear.payload

theorem Elsewhere.unmoved (elsewhere : w.Elsewhere w') : w.Unmoved w' := by
  induction elsewhere with
  | refl => exact .refl w
  | tail _ arrived ih =>
    rw [arrived]
    exact ih.trans (unmoved_law.arrive _)

theorem Elsewhere.lull (elsewhere : w.Elsewhere w') : w.Lull w' := by
  induction elsewhere with
  | refl => exact .refl w
  | tail _ arrived ih =>
    rw [arrived]
    exact ih.trans (lull_arrive _)

theorem Elsewhere.fit (elsewhere : w.Elsewhere w') (fit : w.Fit) : w'.Fit :=
  fit.kept (elsewhere.desk ▸ .refl w.desk)

theorem Elsewhere.arrive (w : World) : w.Elsewhere w.arrive :=
  .single rfl

end World

theorem Refused.after {p : Handle} {e : Error} {w w' w'' : World} (refused : Refused p e w' w'') (elsewhere : w.Elsewhere w') :
    Refused p e w w'' where
  unmoved := elsewhere.unmoved.trans refused.unmoved
  kept := elsewhere.desk ▸ refused.kept
  unrelated := refused.unrelated
  exact record clear := elsewhere.vault ▸ refused.exact record (clear.later elsewhere)

theorem Duplicated.around {p h : Handle} {n : ReferenceId} {w w₁ w₂ w' : World} (duplicated : Duplicated p h n w₁ w₂)
    (before : w.Elsewhere w₁) (after : w₂.Elsewhere w') : Duplicated p h n w w' where
  unmoved := before.unmoved.trans (duplicated.unmoved.trans after.unmoved)
  gained := before.desk ▸ after.desk ▸ duplicated.gained
  exact record clear := before.vault ▸ after.vault ▸ duplicated.exact record (clear.later before)

namespace LoopM

variable {r : Runner} {p : Handle} {token : Option TokenId} {w : World} {α : Type} {act : LoopM α}

theorem ends_getWorker : Ends getWorker w fun k w' => w.Elsewhere w' ∧ k = w'.worker := by
  constructor
  rintro _ ⟨⟩
  exact ⟨.arrive w, rfl⟩

theorem ends_isCancelled (r : Runner) (token : Option TokenId) (w : World) :
    Ends (r.act (WorldM.isCancelled token)) w fun b w' =>
      w.Elsewhere w' ∧ (b = true <-> w'.Fired token) := by
  cases token with
  | none => exact ends_pure ⟨.refl, ⟨nofun, nofun⟩⟩
  | some id =>
    constructor
    rintro b ⟨⟩
    refine ⟨.arrive w, ?_⟩
    change (w.arrive.tokens.get? id).getD false = true <-> w.arrive.Fired (some id)
    have fired : w.arrive.Fired (some id) <-> w.arrive.tokens.get? id = some true := by simp [World.Fired]
    rw [fired]
    cases w.arrive.tokens.get? id <;> simp

/-- Whatever comes to an end in a world that is fit, leaves it so. -/
theorem ends_goes {Q : α -> World -> Prop} (keeps : Keeps unwaiting 0 act w Q) (fit : w.Fit) :
    Ends act w fun a w' => act.Goes w a w' ∧ w'.Fit ∧ Q a w' := by
  constructor
  intro a came
  obtain ⟨honours, ends⟩ := keeps.holds fit.opened (Nat.zero_le _)
  have goes : act.Goes w a (final act w) := by
    unfold Goes
    rw [← came]
    rfl
  exact ⟨goes, ⟨honours.grown.frame.open fit.opened, (honours.across trivial a came).2 fit.numbered⟩, ends.post a came⟩

theorem ends_pump (loyal : r.Loyal unwaiting) (left : Nat) (fit : w.Fit) :
    Ends (pump r p token left) w fun found w' =>
      ∃ w₁, ReflTransGen (WaitStep r p token) w w₁ ∧ Verdict p token found w₁ w' := by
  have routine := unwaiting_acts.routine
  have chores := unwaiting_acts.chores loyal
  induction left generalizing w with
  | zero => exact ends_exhausted
  | succ left ih =>
    unfold pump
    refine ends_bind (Runner.ends_settlement fit.opened p) fun found w₁ looked => ?_
    split
    next => exact ends_pure ⟨w, .refl, .failed looked⟩
    next => exact ends_pure ⟨w, .refl, .settled looked⟩
    next =>
      have fit₁ : w₁.Fit := fit.kept looked.leaves
      refine ends_bind (ends_isCancelled r token w₁) ?_
      rintro cancelled w₂ ⟨elsewhere, fired⟩
      split
      next yes => exact ends_pure ⟨w, .refl, .cancelled looked elsewhere (fired.1 yes)⟩
      next unfired =>
        refine ends_bind ends_getWorker ?_
        rintro _ w₃ ⟨later, rfl⟩
        split
        next stopping => exact ends_pure ⟨w, .refl, .stopped looked (elsewhere.trans later) stopping⟩
        next running =>
          refine ends_bind (ends_goes (keeps_runCycle routine chores) (later.fit (elsewhere.fit fit₁))) ?_
          rintro _ w₄ ⟨cycle, fit₄, vigilant⟩
          have course : ReflTransGen (WaitStep r p token) w w₄ :=
            .single (.round looked elsewhere (unfired ∘ fired.2) later (Bool.eq_false_iff.2 running) cycle)
          refine ends_bind ((Runner.ends_hasSettled fit₄.opened fit₄.numbered p).and
            ⟨fun _ _ => Runner.lull (WorldM.quiet_hasSettled p) w₄⟩) ?_
          rintro settled w₅ ⟨glimpsed, lull⟩
          have vigilant := lull.vigilant vigilant
          split
          next => exact ends_pure ⟨w₄, course, .failed glimpsed⟩
          next settled =>
            have goesOn {w' : World} (later : ReflTransGen (WaitStep r p token) w₅ w') (fit' : w'.Fit) :
                Ends (pump r p token left) w' fun found w'' =>
                  ∃ w₁, ReflTransGen (WaitStep r p token) w w₁ ∧ Verdict p token found w₁ w'' := by
              refine (ih fit').imp ?_
              rintro found w'' ⟨w₁, last, verdict⟩
              exact ⟨w₁, ((course.tail (.glimpse glimpsed)).trans later).trans last, verdict⟩
            refine ends_bind ends_getWorker ?_
            rintro _ w₆ ⟨elsewhere, rfl⟩
            have fit₆ := elsewhere.fit (fit₄.kept glimpsed.kept)
            have vigilant := elsewhere.lull.vigilant vigilant
            dsimp only
            split
            next =>
              refine ends_bind (ends_goes (keeps_hasPending routine chores) fit₆) ?_
              rintro pending w₇ ⟨check, fit₇, lull⟩
              split
              next =>
                refine ends_bind (ends_goes (keeps_idleWait routine chores token (lull.vigilant vigilant)) fit₇) ?_
                rintro _ w₈ ⟨idle, fit₈, -⟩
                exact goesOn (.tail (.tail (.single (.elsewhere elsewhere)) (.check check)) (.idle idle)) fit₈
              next => exact goesOn (.tail (.single (.elsewhere elsewhere)) (.check check)) fit₇
            next => exact goesOn (.single (.elsewhere elsewhere)) fit₆

/-- The end of the innermost wait. -/
theorem ends_over {h : Handle} {outer : List Handle} {found : Except Error Settled} (opened : w.Open)
    (innermost : w.worker.awaited = h :: outer) (owned : h.ownership = .owned) :
    Ends (do
      let finished := (<- getWorker).awaited.head?
      step .endWait
      r.act (WorldM.discardHandles finished.toList)
      pure found) w fun found' w' => found' = found ∧ WaitOver h w w' := by
  refine ends_bind ends_getWorker ?_
  rintro _ w₁ ⟨elsewhere, rfl⟩
  have later : w.Elsewhere w₁.arrive := elsewhere.tail rfl
  have stepped : Ends (step .endWait) w₁ fun _ w₂ => w₂ = Duty.endWait.apply w₁.arrive := ⟨fun _ _ => rfl⟩
  refine ends_bind stepped ?_
  rintro _ w₂ ended
  have desk : w₂.desk = w.desk := ended ▸ later.desk
  have awaited : w₂.worker.awaited = outer := by
    rw [ended]
    exact congrArg (List.drop 1) (later.unmoved.awaited.trans innermost)
  have promises : w.heap.Forgets w₂.heap := ended ▸ later.unmoved.promises
  have finished : w₁.worker.awaited.head?.toList = [h] := by rw [elsewhere.unmoved.awaited, innermost]; rfl
  rw [finished]
  have discarded : Ends (r.act (WorldM.discardHandles [h])) w₂ fun _ w' => w₂.Unmoved w' ∧ w'.desk = w₂.desk.discarding h :=
    Runner.ends_bindOn (Runner.ends_discardHandle h) fun _ _ gone => ends_pure gone
  refine ends_bind discarded ?_
  rintro _ w' ⟨unmoved, gone⟩
  rw [desk] at gone
  obtain ⟨l, without⟩ := w.desk.discarding_without opened owned
  have released (clear : w.worker.vault.link.faults = Table.empty) (alive : h.isAlive w.worker.vault = true) :
      w'.worker.vault.link = w.worker.vault.link.released h.ptr := by
    rw [Desk.discarding, Handle.discard_run, if_pos ⟨alive, owned, opened, rfl⟩,
      Desk.released_granted (s := w.desk) opened clear alive owned] at gone
    exact congrArg Desk.link gone
  have spared (clear : w.worker.vault.link.faults = Table.empty) (alive : h.isAlive w.worker.vault = true) (c : Cell)
      (there : w.heap.cells.get? h.ptr = some c) (more : 1 < c.refs) : w'.heap.promise? h.ptr = w.heap.promise? h.ptr := by
    have cells : w'.heap.cells = w.heap.cells.set h.ptr { c with refs := c.refs - 1 } := by
      unfold World.heap
      rw [released clear alive]
      exact (Heap.freeAll_more there more []).trans (Heap.freeAll_nil _)
    simp only [Heap.promise?, Heap.get?, cells, there, Table.get?_set, if_true, Option.map_some]
  exact ends_pure ⟨rfl, promises.trans unmoved.promises, by rw [innermost, unmoved.awaited, awaited], ⟨l, gone.trans without⟩,
    released, spared⟩

theorem ends_waited (loyal : r.Loyal unwaiting) (t : Thread) (p : Handle) (token : Option TokenId) (numbered : w.Numbered) :
    Ends (awaitSettlement r t p token) w fun found w' => Waited r p token found w w' := by
  unfold awaitSettlement
  refine ends_bind ends_getWorker ?_
  rintro _ w₁ ⟨elsewhere, rfl⟩
  split
  next =>
    exact ends_pure (.refused ⟨elsewhere.unmoved, elsewhere.desk ▸ .refl _, rfl, fun _ _ => congrArg Desk.link elsewhere.desk⟩)
  next =>
    refine ends_bind (Runner.ends_duplicate p) fun duplicate w₂ begun => ?_
    split
    next e => exact ends_pure (.refused (begun.after elsewhere))
    next h =>
      obtain ⟨opened, n, begun⟩ := begun
      have opened : w.Open := (congrArg Vault.closed elsewhere.vault).symm.trans opened
      have fit : w₁.Fit := elsewhere.fit ⟨opened, numbered⟩
      have fit : w₂.arrive.Fit := World.Elsewhere.fit (.arrive w₂) (fit.gained begun.gained)
      have fit : ((Duty.beginWait h).apply w₂.arrive).Fit := ⟨fit.opened, fit.numbered⟩
      refine ends_bind (P := fun _ w₃ => w₃ = (Duty.beginWait h).apply w₂.arrive) ⟨fun _ _ => rfl⟩ ?_
      rintro _ w₃ rfl
      refine ends_bind (P := fun found w₄ => w₄.Fit ∧ w₄.worker.awaited = h :: w₂.arrive.worker.awaited ∧
        ∃ w₃, ReflTransGen (WaitStep r p token) ((Duty.beginWait h).apply w₂.arrive) w₃ ∧ Verdict p token found w₃ w₄) ?_ ?_
      next =>
        constructor
        intro found came
        have keeps := keeps_pump unwaiting_acts.routine (unwaiting_acts.chores loyal) p token r.fuel (b := 0)
          (w := (Duty.beginWait h).apply w₂.arrive)
        have honours := (keeps.holds fit.opened (Nat.zero_le _)).1
        obtain ⟨awaited, still⟩ := honours.across trivial found came
        exact ⟨⟨honours.grown.frame.open fit.opened, still fit.numbered⟩, awaited,
          (ends_pump loyal r.fuel fit).post found came⟩
      next =>
        rintro found w₄ ⟨fit₄, innermost, w₃, course, verdict⟩
        refine (ends_over fit₄.opened innermost begun.gained.owned).imp ?_
        rintro _ w' ⟨rfl, ended⟩
        exact .waited (begun.around elsewhere (.arrive w₂)) course verdict ended

/-- However a wait ends, all that is left of it is the payload that it answers with. -/
theorem awaitSettlement_unobtrusive (fuel : Nat) (t : Thread) (p : Handle) (token : Option TokenId) (numbered : w.Numbered) :
    Ends (awaitSettlement (.ofFuel fuel) t p token) w fun found w' =>
      w'.worker.awaited = w.worker.awaited ∧ Waited (.ofFuel fuel) p token found w w' := by
  have honours : Honours unwaiting 0 (awaitSettlement (.ofFuel fuel) t p token) w :=
    (unwaiting_acts.loyal (fuel + 1)).await (Nat.zero_le _) t p token
  constructor
  intro found came
  exact ⟨(honours.across trivial found came).1, (ends_waited (unwaiting_acts.loyal fuel) t p token numbered).post found came⟩

/-- A world in which someone holds a promise that nothing will settle, and a token that has been cancelled. -/
def abandoned : World :=
  let pending := Heap.empty.newPromise
  let held := World.empty.onVault fun v => { v with alive := [0], nextReference := 1 }
  { held.onLink fun l => { l with engine := { l.engine with heap := pending.2 } } with
    tokens := Table.empty.set 0 true
    nextToken := 1 }

def abandonedPromise : Handle :=
  ⟨Heap.empty.newPromise.1, .owned, some 0⟩

/-- The wait is given up at its first look. -/
theorem abandoned_unobtrusive :
    let act := awaitSettlement (.ofFuel 2) .worker abandonedPromise (some 0)
    abandoned.Numbered ∧ (act.Goes abandoned (.error .cancelled) (final act abandoned)) ∧
      (final act abandoned).worker.awaited = [] ∧ (final act abandoned).worker.vault.alive = [0] ∧
      Waited (.ofFuel 2) abandonedPromise (some 0) (.error .cancelled) abandoned (final act abandoned) := by
  have numbered : abandoned.Numbered := fun n member => by
    obtain rfl := List.mem_singleton.1 member
    exact Nat.zero_lt_one
  have ended : result (awaitSettlement (.ofFuel 2) .worker abandonedPromise (some 0)) abandoned = some (.error .cancelled) := rfl
  have unobtrusive := (awaitSettlement_unobtrusive 2 .worker abandonedPromise (some 0) numbered).post _ ended
  exact ⟨numbered, rfl, unobtrusive.1, rfl, unobtrusive.2⟩

end LoopM

end ScriptHost
