import ScriptHost.Proofs.Dispatcher.Belongings
import ScriptHost.Proofs.Dispatcher.Quiet

set_option autoImplicit false

/-!
Looks at a promise.

A look changes no promise, whatever the engine answers. The handle of what the promise has settled with is all that
it leaves behind, and if nothing is in the way of the engine, that is all it leaves there, too.
-/

namespace ScriptHost

open LoopM

/-- The errors that a wait ends with while its promise is pending. -/
def Error.isOfWait : Error -> Bool
  | cancelled | shuttingDown => true
  | _ => false

namespace Settlement

/-- Whether a promise was fulfilled or rejected, and with what. -/
def decided : Settlement -> Option (Bool × Ptr)
  | pending => none
  | fulfilled v => some (true, v)
  | rejected v => some (false, v)

/-- What a promise is seen to have come to. The payload is the handle with reference `n`. -/
def seen (n : ReferenceId) : Settlement -> Option Settled
  | pending => none
  | fulfilled v => some (.success (.live ⟨v, .owned, some n⟩))
  | rejected v => some (.failure (.live ⟨v, .owned, some n⟩))

end Settlement

namespace Link

variable {α β : Type} {l : Link} {p v : Ptr}

/-- What is asked in a look at a promise: whether it was fulfilled or rejected, and with what. -/
def settled (p : Ptr) : LinkM (Option (Bool × Ptr)) := do
  match <- promiseState p with
  | .pending => pure none
  | .fulfilled => do pure (some (true, <- promiseResult p))
  | .rejected => do pure (some (false, <- promiseResult p))

section Exact

variable {record : PromiseRecord}

theorem released_retaining (counted : Heap.Counted l.cells) (v : Ptr) : (l.retaining v).released v = l := by
  have restored := Heap.freeAll_retained counted v
  simp only [released, retaining, withEngine, Heap.release, Heap.releaseAll, Heap.retain]
  rw [restored]

theorem answered_promiseState (clear : l.faults = Table.empty) (found : l.engine.heap.promise? p = some record) :
    answered (promiseState p) l = (.ok record.settlement.state, l) := by
  have done : outcome (Engine.perform (.promiseState p)) l.engine = (.ok (.i32 record.settlement.state.tag), l.engine) := by
    simp only [Engine.perform, outcome_bind, Engine.outcome_readHeap, Heap.promiseState, found, Option.map_some,
      outcome_pure]
  have asked : answered (int (.promiseState p)) l = (.ok record.settlement.state.tag, l) := answered_int clear done
  have tag : PromiseState.ofTag? record.settlement.state.tag = some record.settlement.state := by
    cases record.settlement <;> rfl
  simp only [promiseState, answered_bind, asked, tag, answered_pure]

theorem answered_promiseResult (clear : l.faults = Table.empty) (found : l.engine.heap.promise? p = some record)
    (payload : record.settlement.payload? = some v) (some : v ≠ 0) :
    answered (promiseResult p) l = (.ok v, l.retaining v) := by
  refine answered_value clear ?_ some
  simp only [Engine.perform, Engine.promiseResult, outcome_bind, outcome_get, Heap.promiseResult, found, Option.map_some,
    payload, Option.getD_some, outcome_modify, outcome_pure]

/-- The engine tells what it knows of the promise. -/
theorem answered_settled (clear : l.faults = Table.empty) (found : l.engine.heap.promise? p = some record)
    (payload : record.settlement.payload? ≠ some 0) :
    answered (settled p) l = (.ok record.settlement.decided, record.settlement.payload?.elim l l.retaining) := by
  have state := answered_promiseState clear found
  have result (v : Ptr) (known : record.settlement.payload? = some v) : answered (promiseResult p) l = (.ok v, l.retaining v) :=
    answered_promiseResult clear found known fun zero => payload (known.trans (congrArg _ zero))
  obtain ⟨settlement, _, _, _⟩ := record
  cases settlement with
  | pending => simp only [settled, answered_bind, state, Settlement.state, answered_pure]; rfl
  | fulfilled v => simp only [settled, answered_bind, state, Settlement.state, result v rfl, answered_pure]; rfl
  | rejected v => simp only [settled, answered_bind, state, Settlement.state, result v rfl, answered_pure]; rfl

end Exact

section Errors

/-- It never fails as if a wait had been given up. -/
def Unrelated (act : LinkM α) : Prop :=
  ∀ l e, (answered act l).1 = .error e -> e.isOfWait = false

variable {act : LinkM α} {f : α -> LinkM β} {r : Request}

theorem unrelated_pure (a : α) : Unrelated (pure a) :=
  fun _ _ failed => nomatch failed

theorem unrelated_throw {e : Error} (other : e.isOfWait = false) : Unrelated (throw e : LinkM α) := by
  intro l e' failed
  cases failed
  exact other

theorem unrelated_bind (first : Unrelated act) (rest : ∀ l a, (answered act l).1 = .ok a -> Unrelated (f a)) :
    Unrelated (act >>= f) := by
  intro l e failed
  rw [answered_bind] at failed
  split at failed
  next a _ came => exact rest l a (congrArg Prod.fst came) _ e failed
  next e' _ came =>
    cases failed
    exact first l e (congrArg Prod.fst came)

/-- A fault has a text of its own. -/
theorem unrelated_request {common : r.isReserved = false} (answers : ∀ s, ∃ a, (outcome (Engine.perform r) s).1 = .ok a) :
    Unrelated (request r common) := by
  intro l e failed
  change ((meet r).run l).1 = .error e at failed
  simp only [meet, unlessFaulty, StateT.run_bind, StateT.run_modifyGet] at failed
  generalize l.intercept r.name = intercepted at failed
  obtain ⟨_ | replacement, l'⟩ := intercepted
  next =>
    obtain ⟨a, answered⟩ := answers l'.engine
    cases answered.symm.trans failed
  next =>
    cases replacement with
    | scalar s => cases failed
    | error message =>
      cases failed
      rfl

theorem unrelated_word {common : r.isReserved = false} (answers : ∀ s, ∃ a, (outcome (Engine.perform r) s).1 = .ok a) :
    Unrelated (word r common) := by
  refine unrelated_bind (unrelated_request answers) fun _ s _ => ?_
  intro l e failed
  rw [answered_ofExcept] at failed
  unfold wordOf at failed
  split at failed
  next => exact nomatch failed
  next =>
    cases failed
    rfl

theorem unrelated_takeLastError : Unrelated takeLastError :=
  unrelated_bind (unrelated_word fun _ => ⟨_, rfl⟩) fun _ _ _ => unrelated_pure _

/-- A failure is always explained, and not as if a wait had been given up. -/
theorem failure_explained (operation : String) (l : Link) :
    ∃ e, (answered (failure operation) l).1 = .ok e ∧ e.isOfWait = false := by
  change ∃ e, (answered (failureWithin (999 + 1) operation) l).1 = .ok e ∧ _
  rw [failureWithin, answered_bind, answered_attempt]
  generalize taken : answered takeLastError l = r
  obtain ⟨x, l'⟩ := r
  dsimp only
  split
  next e => exact ⟨e, rfl, unrelated_takeLastError l e (congrArg Prod.fst taken)⟩
  next => exact ⟨_, rfl, rfl⟩
  next exception =>
    rw [answered_bind, answered_attempt]
    dsimp only
    rw [answered_bind]
    generalize freeing : answered (freeValue exception) _ = r
    obtain ⟨freed, l''⟩ := r
    obtain rfl : freed = .ok () := (congrArg Prod.fst freeing).symm.trans (answered_freeValue_ok exception _)
    exact ⟨_, rfl, rfl⟩

theorem unrelated_value {common : r.isReserved = false} (answers : ∀ s, ∃ a, (outcome (Engine.perform r) s).1 = .ok a) :
    Unrelated (value r common) := by
  refine unrelated_bind (unrelated_word answers) fun _ p _ => ?_
  have explained : Unrelated (failure r.name) := by
    intro l e failed
    obtain ⟨e', told, -⟩ := failure_explained r.name l
    exact nomatch told.symm.trans failed
  split
  next =>
    refine unrelated_bind explained fun l e told => ?_
    obtain ⟨e', told', other⟩ := failure_explained r.name l
    cases told'.symm.trans told
    exact unrelated_throw other
  next => exact unrelated_pure p

theorem unrelated_dupValue (p : Ptr) : Unrelated (dupValue p) := by
  refine unrelated_value fun s => ?_
  simp only [Engine.perform, Engine.dupValue, outcome_bind, Engine.outcome_onHeap]
  split
  next => exact ⟨_, rfl⟩
  next => exact ⟨_, rfl⟩

theorem unrelated_settled (p : Ptr) : Unrelated (settled p) := by
  have state : Unrelated (promiseState p) := by
    refine unrelated_bind (unrelated_bind (unrelated_request fun _ => ⟨_, rfl⟩) fun _ s _ => ?_) fun _ tag _ => ?_
    next =>
      split
      next => exact unrelated_pure _
      next => exact unrelated_throw rfl
    next =>
      split
      next => exact unrelated_pure _
      next => exact unrelated_throw rfl
  have result : Unrelated (promiseResult p) := by
    refine unrelated_value fun s => ?_
    simp only [Engine.perform, Engine.promiseResult, outcome_bind, outcome_get]
    split
    next => exact ⟨_, rfl⟩
    next => exact ⟨_, rfl⟩
  refine unrelated_bind state fun _ state _ => ?_
  cases state with
  | pending => exact unrelated_pure _
  | fulfilled => exact unrelated_bind result fun _ _ _ => unrelated_pure _
  | rejected => exact unrelated_bind result fun _ _ _ => unrelated_pure _

end Errors

end Link

namespace World

variable {w w' w'' : World} {p : Handle} {record : PromiseRecord}

/-- Nothing happened to a promise, no job was queued or taken, and the worker waits for what it waited for. -/
structure Unmoved (w w' : World) : Prop where
  promises : w.heap.Forgets w'.heap
  awaited : w'.worker.awaited = w.worker.awaited

theorem Unmoved.refl (w : World) : Unmoved w w :=
  ⟨.refl _, rfl⟩

theorem Unmoved.trans (first : Unmoved w w') (second : Unmoved w' w'') : Unmoved w w'' :=
  ⟨first.promises.trans second.promises, second.awaited.trans first.awaited⟩

theorem unmoved_law : Quieting Unmoved where
  refl := .refl
  trans := .trans
  schedule _ _ := ⟨.refl _, rfl⟩
  meet w d := by
    cases d with
    | send port item =>
      simp only [meet]
      split <;> exact ⟨.refl _, rfl⟩
    | announce =>
      simp only [meet, setPhase]
      split <;> exact ⟨.refl _, rfl⟩
    | close =>
      simp only [meet]
      split <;> exact ⟨.refl _, rfl⟩
    | hold => exact ⟨.refl _, rfl⟩
    | letGo => exact ⟨.refl _, rfl⟩
    | desert reply => exact ⟨.refl _, rfl⟩
  caller _ _ := ⟨.refl _, rfl⟩
  ask _ quiet w := ⟨quiet w.worker.vault.link, rfl⟩
  book _ _ _ := ⟨.refl _, rfl⟩

/-- The references of handles are numbered in their order. -/
def Numbered (w : World) : Prop :=
  ∀ n ∈ w.worker.vault.alive, n < w.worker.vault.nextReference

/-- Nothing is in the way of the engine, and this is the record of the promise that `p` holds. -/
structure Clear (w : World) (p : Handle) (record : PromiseRecord) : Prop where
  opened : w.Open
  faultless : w.worker.vault.link.faults = Table.empty
  counted : Heap.Counted w.heap.cells
  alive : p.isAlive w.worker.vault = true
  found : w.heap.promise? p.ptr = some record
  payload : record.settlement.payload? ≠ some 0

theorem Clear.cell (clear : w.Clear p record) : ∃ c, w.heap.cells.get? p.ptr = some c := by
  obtain ⟨c, there, -⟩ := Option.map_eq_some_iff.1 (Heap.promise?_eq_some.1 clear.found)
  exact ⟨c, there⟩

end World

/-- What a look leaves at the desk: at most the handle of what it has found. -/
def Desk.Leaves (s t : Desk) : Except Error (Option Settled) -> Prop
  | .ok (some o) => ∃ x n, (o = .success (.live x) ∨ o = .failure (.live x)) ∧ s.Gained t x n
  | _ => s.Kept t

/-- A look at the promise that `p` holds. -/
structure Looked (p : Handle) (found : Except Error (Option Settled)) (w w' : World) : Prop where
  unmoved : w.Unmoved w'
  leaves : w.desk.Leaves w'.desk found
  unrelated : ∀ e, found = .error e -> e.isOfWait = false
  exact : ∀ record, w.Clear p record -> found = .ok (record.settlement.seen w.worker.vault.nextReference) ∧
    w'.worker.vault.link = record.settlement.payload?.elim w.worker.vault.link w.worker.vault.link.retaining

/-- A look that lets go of what it has found. -/
structure Glimpsed (p : Handle) (settled : Bool) (w w' : World) : Prop where
  unmoved : w.Unmoved w'
  kept : w.desk.Kept w'.desk
  exact : ∀ record, w.Clear p record ->
    settled = !decide (record.settlement = .pending) ∧ w'.worker.vault.link = w.worker.vault.link

/-- What was found goes without a trace. -/
theorem Looked.let_go {p x : Handle} {n : ReferenceId} {o : Settled} {w w' w'' : World} (looked : Looked p (.ok (some o)) w w')
    (opened : w.Open) (numbered : w.Numbered) (payload : o = .success (.live x) ∨ o = .failure (.live x))
    (gained : w.desk.Gained w'.desk x n) (unmoved : w'.Unmoved w'') (gone : w''.desk = w'.desk.discarding x) :
    Glimpsed p true w w'' where
  unmoved := looked.unmoved.trans unmoved
  kept := gone ▸ gained.lost opened numbered
  exact record clear := by
    obtain ⟨seen, link⟩ := looked.exact record clear
    obtain ⟨settlement, _, _, _⟩ := record
    have direct : w'.desk.link.faults = Table.empty := by
      change w'.worker.vault.link.faults = _
      rw [link]
      cases settlement <;> exact clear.faultless
    have released : w''.worker.vault.link = w'.worker.vault.link.released x.ptr := by
      rw [Desk.discarding_owned (gained.closed.trans opened) direct gained.owns] at gone
      exact congrArg Desk.link gone
    rw [released, link]
    have counted := clear.counted
    cases settlement with
    | pending => exact nomatch seen
    | fulfilled v =>
      obtain rfl : o = _ := Option.some.inj (Except.ok.inj seen)
      obtain ⟨⟨⟩⟩ | ⟨⟨⟩⟩ := payload
      exact ⟨rfl, Link.released_retaining counted v⟩
    | rejected v =>
      obtain rfl : o = _ := Option.some.inj (Except.ok.inj seen)
      obtain ⟨⟨⟩⟩ | ⟨⟨⟩⟩ := payload
      exact ⟨rfl, Link.released_retaining counted v⟩

/-- A wait that is not begun. -/
structure Refused (p : Handle) (e : Error) (w w' : World) : Prop where
  unmoved : w.Unmoved w'
  kept : w.desk.Kept w'.desk
  unrelated : e.isOfWait = false
  exact : ∀ record, w.Clear p record -> w'.worker.vault.link = w.worker.vault.link

/-- Another handle `h` of what `p` holds, with reference `n`. -/
structure Duplicated (p h : Handle) (n : ReferenceId) (w w' : World) : Prop where
  unmoved : w.Unmoved w'
  gained : w.desk.Gained w'.desk h n
  exact : ∀ record, w.Clear p record -> h.ptr = p.ptr ∧ w'.worker.vault.link = w.worker.vault.link.retaining p.ptr

namespace Runner

open Desk

variable {r : Runner} {s : Desk} {p : Handle} {w : World}

/-- What is asked for the sake of a look at an open engine, and what is left then. -/
theorem brings_settlement (opened : s.vault.closed = false) (p : Handle) :
    r.Brings (Attempt.settlement p).run s fun found t =>
      s.Leaves t found ∧ (∀ e, found = .error e -> e.isOfWait = false) ∧
        ∀ record, s.link.faults = Table.empty -> p.isAlive s.vault = true -> s.heap.promise? p.ptr = some record ->
          record.settlement.payload? ≠ some 0 ->
          found = .ok (record.settlement.seen s.vault.nextReference) ∧
            t.link = record.settlement.payload?.elim s.link s.link.retaining := by
  cases alive : p.isAlive s.vault with
  | false =>
    refine brings_failed (yields_raw_dead alive) ⟨.refl s, ?_, fun _ _ lives => absurd lives Bool.false_ne_true⟩
    rintro _ ⟨⟩
    rfl
  | true =>
    refine brings_after (yields_raw_alive alive) ?_
    have asked := yields_withLink (r := r) opened "promise settlement" (Link.settled p.ptr)
    generalize answer : Link.answered (Link.settled p.ptr) s.link = x at asked
    obtain ⟨found, l⟩ := x
    have told (record : PromiseRecord) (clear : s.link.faults = Table.empty) (there : s.heap.promise? p.ptr = some record)
        (payload : record.settlement.payload? ≠ some 0) :=
      answer.symm.trans (Link.answered_settled clear there payload)
    cases found with
    | error e =>
      refine brings_failed asked ⟨(Desk.Kept.refl s).withLink l, ?_, fun record clear _ there payload => ?_⟩
      next =>
        rintro _ ⟨⟩
        exact Link.unrelated_settled p.ptr s.link e (congrArg Prod.fst answer)
      next => exact nomatch told record clear there payload
    | ok found =>
      refine brings_after asked ?_
      have gained (v : Ptr) : s.Gained (s.withLink l).owning (s.fresh v) s.vault.nextReference :=
        ((Desk.Kept.refl s).withLink l).gained v
      split
      next =>
        refine brings_pure ⟨(Desk.Kept.refl s).withLink l, nofun, fun record clear _ there payload => ?_⟩
        obtain ⟨settlement, _, _, _⟩ := record
        cases settlement <;> cases told _ clear there payload
        exact ⟨rfl, rfl⟩
      next v =>
        refine brings_after (yields_own v) (brings_pure ⟨⟨_, _, .inl rfl, gained v⟩, nofun, fun record clear _ there payload => ?_⟩)
        obtain ⟨settlement, _, _, _⟩ := record
        cases settlement <;> cases told _ clear there payload
        exact ⟨rfl, rfl⟩
      next v =>
        refine brings_after (yields_own v) (brings_pure ⟨⟨_, _, .inr rfl, gained v⟩, nofun, fun record clear _ there payload => ?_⟩)
        obtain ⟨settlement, _, _, _⟩ := record
        cases settlement <;> cases told _ clear there payload
        exact ⟨rfl, rfl⟩

theorem ends_brings {α : Type} {act : WorldM α} {Q : α -> Desk -> Prop} (brings : r.Brings act w.desk Q) :
    Ends (r.act act) w fun a w' => Q a w'.desk := by
  constructor
  intro a came
  obtain ⟨b, came', post⟩ := brings.ended w rfl
  cases came.symm.trans came'
  exact post

theorem ends_quiet {α : Type} {t : Thread} {act : WorldM α} (quiet : act.Only Act.Quiet) :
    Ends (r.on t act) w fun _ w' => w.Unmoved w' :=
  ⟨fun _ _ => World.unmoved_law.ran quiet w⟩

theorem ends_settlement (opened : w.Open) (p : Handle) :
    Ends (r.act (Attempt.settlement p).run) w fun found w' => Looked p found w w' := by
  constructor
  intro found came
  have brings := brings_settlement (r := r) (s := w.desk) opened p
  obtain ⟨leaves, unrelated, exact⟩ := (ends_brings brings).post found came
  have unmoved := (ends_quiet (Attempt.quiet_settlement p)).post found came
  exact ⟨unmoved, leaves, unrelated, fun record clear => exact record clear.faultless clear.alive clear.found clear.payload⟩

theorem ends_discardHandle (h : Handle) :
    Ends (r.act (WorldM.discardHandle h)) w fun _ w' => w.Unmoved w' ∧ w'.desk = w.desk.discarding h := by
  constructor
  intro a came
  exact ⟨(ends_quiet (WorldM.quiet_discardHandle h)).post a came, ((ends_brings (yields_discardHandle h)).post a came).2⟩

theorem ends_hasSettled (opened : w.Open) (numbered : w.Numbered) (p : Handle) :
    Ends (r.act (WorldM.hasSettled p).run) w fun found w' =>
      match found with
      | .error e => Looked p (.error e) w w'
      | .ok settled => Glimpsed p settled w w' := by
  unfold WorldM.hasSettled
  rw [ExceptT.run_bind]
  refine ends_bindOn (ends_settlement opened p) fun found w' looked => ?_
  cases found with
  | error e => exact ends_pure looked
  | ok found =>
    cases found with
    | none =>
      refine ends_pure ⟨looked.unmoved, looked.leaves, fun record clear => ?_⟩
      obtain ⟨seen, link⟩ := looked.exact record clear
      obtain ⟨settlement, _, _, _⟩ := record
      cases settlement <;> cases seen
      exact ⟨rfl, link⟩
    | some o =>
      obtain ⟨x, n, payload, gained⟩ := looked.leaves
      have letsGo : WorldM.discardOutcome o = WorldM.discardHandle x := by
        obtain rfl | rfl := payload <;> rfl
      dsimp only
      rw [letsGo]
      have discarded : Ends (r.act (ExceptT.lift (WorldM.discardHandle x) : Attempt Unit).run) w' fun a w'' =>
          a = .ok () ∧ w'.Unmoved w'' ∧ w''.desk = w'.desk.discarding x :=
        ends_bindOn (ends_discardHandle x) fun _ _ gone => ends_pure ⟨rfl, gone⟩
      refine ends_bindOn discarded ?_
      rintro _ w'' ⟨rfl, unmoved, gone⟩
      exact ends_pure (looked.let_go opened numbered payload gained unmoved gone)

theorem ends_duplicate {t : Thread} (p : Handle) :
    Ends (r.on t (Attempt.duplicate p).run) w fun found w' =>
      match found with
      | .error e => Refused p e w w'
      | .ok h => w.Open ∧ ∃ n, Duplicated p h n w w' := by
  constructor
  intro found came
  have quiet : (Attempt.duplicate p).run.Only Act.Quiet := Dialogue.only_question (show Act.Quiet (.handle _) from trivial)
  have unmoved := (ends_quiet quiet).post found came
  have done : found = (outcome (p.duplicate t) w.worker.vault).1 := (Option.some.inj came).symm
  have desk : (final (r.on t (Attempt.duplicate p).run) w).desk = w.desk.withVault (outcome (p.duplicate t) w.worker.vault).2 := rfl
  generalize final (r.on t (Attempt.duplicate p).run) w = w' at *
  have untouched {e : Error} (unrelated : e.isOfWait = false)
      (refused : outcome (p.duplicate t) w.worker.vault = (.error e, w.worker.vault)) : found = .error e ∧ Refused p e w w' := by
    rw [refused] at done desk
    have same : w'.desk = w.desk := desk
    exact ⟨done, unmoved, same ▸ .refl _, unrelated, fun _ _ => congrArg Desk.link same⟩
  cases alive : p.isAlive w.worker.vault with
  | false =>
    obtain ⟨rfl, refused⟩ := untouched rfl (Handle.duplicate_dead alive t)
    exact refused
  | true =>
    rcases w.worker.vault.barred_or_granted t with barred | ⟨opened, rfl⟩
    next =>
      have unrelated : (w.worker.vault.refusal "duplicate handle").isOfWait = false := by
        unfold Vault.refusal
        split <;> rfl
      obtain ⟨rfl, refused⟩ := untouched unrelated (Handle.duplicate_refused alive barred)
      exact refused
    next =>
      have direct (record : PromiseRecord) (clear : w.Clear p record) :
          Link.answered (Link.dupValue p.ptr) w.worker.vault.link = (.ok p.ptr, w.worker.vault.link.retaining p.ptr) := by
        obtain ⟨c, there⟩ := clear.cell
        have big := (clear.counted p.ptr c there).1
        refine Link.answered_dupValue (Link.direct_of_faultless clear.faultless _) ?_ ?_
        next => exact Heap.contains_iff.2 (.inr ⟨c, there⟩)
        next =>
          rintro zero
          rw [zero] at big
          exact absurd big (by decide)
      rw [Handle.duplicate_open alive opened] at done desk
      generalize answer : Link.answered (Link.dupValue p.ptr) w.worker.vault.link = x at *
      obtain ⟨e | q, l⟩ := x
      next =>
        have kept : w.desk.Kept w'.desk := desk ▸ (Desk.Kept.refl w.desk).withLink l
        have unrelated := Link.unrelated_dupValue p.ptr _ e (congrArg Prod.fst answer)
        subst done
        exact ⟨unmoved, kept, unrelated, fun record clear => nomatch direct record clear⟩
      next =>
        have gained : w.desk.Gained w'.desk (w.desk.fresh q) w.worker.vault.nextReference :=
          desk ▸ ((Desk.Kept.refl w.desk).withLink l).gained q
        subst done
        refine ⟨opened, _, unmoved, gained, fun record clear => ?_⟩
        cases direct record clear
        exact ⟨rfl, congrArg Desk.link desk⟩

end Runner

end ScriptHost
