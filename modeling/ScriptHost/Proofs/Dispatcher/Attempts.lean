import ScriptHost.Dispatcher.Loop
import ScriptHost.Dispatcher.Call
import ScriptHost.Proofs.Dispatcher.Runs
import ScriptHost.Proofs.Link.Making

set_option autoImplicit false

/-!
Attempts of host code on the worker that come to an end, whatever other threads do meanwhile.

A desk is what such code can see of the engine, of its handles and of deferreds.
-/

namespace ScriptHost

open LoopM

structure Desk where
  vault : Vault
  deferreds : Table DeferredId Deferred
  config : Config

namespace Desk

abbrev link (s : Desk) : Link :=
  s.vault.link

abbrev heap (s : Desk) : Heap :=
  s.link.engine.heap

def withVault (s : Desk) (v : Vault) : Desk :=
  { s with vault := v }

def withLink (s : Desk) (l : Link) : Desk :=
  s.withVault { s.vault with link := l }

def withDeferred (s : Desk) (id : DeferredId) (d : Deferred) : Desk :=
  { s with deferreds := s.deferreds.set id d }

def discarding (s : Desk) (h : Handle) : Desk :=
  s.withVault ((h.discard .worker).run s.vault).2

def discardingAll (s : Desk) (hs : List Handle) : Desk :=
  hs.foldl discarding s

end Desk

namespace World

def desk (w : World) : Desk :=
  ⟨w.worker.vault, w.deferreds, w.worker.config⟩

theorem desk_meet (w : World) (d : Demand) : (w.meet d).desk = w.desk := by
  cases d with
  | send port item =>
    simp only [meet]
    split <;> rfl
  | announce =>
    simp only [meet, setPhase]
    split <;> rfl
  | close =>
    simp only [meet]
    split <;> rfl
  | hold => rfl
  | letGo => rfl
  | desert reply => rfl

theorem desk_arrive (w : World) : w.arrive.desk = w.desk :=
  arrive_leads (R := fun w w' => w'.desk = w.desk) (fun _ => rfl) (fun first second => second.trans first)
    (fun _ _ => rfl) desk_meet w

end World

namespace Runner

/-- What no allowed act changes, what is composed of them does not change. -/
theorem same_on {α γ : Type} {r : Runner} {t : Thread} (f : World -> γ) {allowed : Act -> Prop}
    (same : ∀ a, allowed a -> ∀ w, f (final (a.perform r t) w) = f w) {act : WorldM α} (only : act.Only allowed) (w : World) :
    f (final (r.on t act) w) = f w := by
  induction act generalizing w with
  | done a => rfl
  | ask a next ih =>
    change f (final (a.perform r t >>= fun x => r.on t (next x)) w) = f w
    rw [final_bind]
    split
    next => exact same a only.1 w
    next x _ => exact (ih x (only.2 x) _).trans (same a only.1 w)

variable {α β : Type} {r : Runner} {s s' : Desk}

section Gives

variable {w : World} {act : WorldM α} {f : α -> WorldM β} {P P' : α -> World -> Prop} {Q : β -> World -> Prop}

/-- The action comes to an end from this world, and then `Q` holds of its answer and of the world. -/
structure Gives (r : Runner) (act : WorldM α) (w : World) (Q : α -> World -> Prop) : Prop where
  ended : ∃ a, result (r.act act) w = some a ∧ Q a (final (r.act act) w)

theorem Gives.imp (gives : r.Gives act w P) (weaker : ∀ a w', P a w' -> P' a w') : r.Gives act w P' := by
  obtain ⟨a, came, post⟩ := gives.ended
  exact ⟨a, came, weaker a _ post⟩

/-- An action has just one outcome. -/
theorem Gives.and (gives : r.Gives act w P) (gives' : r.Gives act w P') : r.Gives act w fun a w' => P a w' ∧ P' a w' := by
  obtain ⟨a, came, post⟩ := gives.ended
  obtain ⟨b, came', post'⟩ := gives'.ended
  obtain rfl := Option.some.inj (came.symm.trans came')
  exact ⟨a, came, post, post'⟩

theorem gives_bind (first : r.Gives act w P) (rest : ∀ a w', P a w' -> r.Gives (f a) w' Q) : r.Gives (act >>= f) w Q := by
  obtain ⟨a, came, post⟩ := first.ended
  obtain ⟨b, came', post'⟩ := (rest a _ post).ended
  refine ⟨b, ?_, ?_⟩
  · rw [Runner.act, on_bind, result_bind]
    simp only [Runner.act] at came came'
    rw [came]
    exact came'
  · rw [Runner.act, on_bind, final_bind]
    simp only [Runner.act] at came post'
    rw [came]
    exact post'

end Gives

/-- The action comes to an end from this desk, and then `Q` holds of its answer and of the desk. -/
structure Brings (r : Runner) (act : WorldM α) (s : Desk) (Q : α -> Desk -> Prop) : Prop where
  ended : ∀ w : World, w.desk = s -> ∃ a, result (r.act act) w = some a ∧ Q a (final (r.act act) w).desk

/-- The action comes to an end with this answer, at that desk. -/
def Yields (r : Runner) (act : WorldM α) (s : Desk) (a : α) (s' : Desk) : Prop :=
  r.Brings act s fun x t => x = a ∧ t = s'

section Acts

variable {act : WorldM α} {f : α -> WorldM β} {P P' : α -> Desk -> Prop} {Q : β -> Desk -> Prop}

theorem Brings.gives {w : World} (brings : r.Brings act s P) (here : w.desk = s) : r.Gives act w fun a w' => P a w'.desk :=
  ⟨brings.ended w here⟩

theorem brings_of_gives (gives : ∀ w : World, w.desk = s -> r.Gives act w fun a w' => P a w'.desk) : r.Brings act s P :=
  ⟨fun w here => (gives w here).ended⟩

theorem Brings.imp (brings : r.Brings act s P) (weaker : ∀ a s', P a s' -> P' a s') : r.Brings act s P' :=
  brings_of_gives fun _ here => (brings.gives here).imp fun a w' => weaker a w'.desk

theorem brings_pure {a : α} (post : P a s) : r.Brings (pure a) s P := by
  constructor
  rintro w rfl
  exact ⟨a, rfl, post⟩

theorem brings_bind (first : r.Brings act s P) (rest : ∀ a s', P a s' -> r.Brings (f a) s' Q) :
    r.Brings (act >>= f) s Q :=
  brings_of_gives fun _ here => gives_bind (first.gives here) fun a w' post => (rest a w'.desk post).gives rfl

theorem brings_then {a : α} (first : r.Yields act s a s') (rest : r.Brings (f a) s' Q) : r.Brings (act >>= f) s Q := by
  refine brings_bind first ?_
  rintro _ _ ⟨rfl, rfl⟩
  exact rest

theorem brings_question {q : Act} {P : q.Answer -> Desk -> Prop}
    (post : ∀ w : World, w.desk = s ->
      ∃ a, result (q.perform r .worker) w = some a ∧ P a (final (q.perform r .worker) w).desk) :
    r.Brings (.question q) s P := by
  constructor
  rw [Runner.act, on_question]
  exact post

theorem brings_look : r.Brings WorldM.look s fun w s' => w.desk = s ∧ s' = s := by
  apply brings_question
  rintro w rfl
  exact ⟨w.arrive, rfl, w.desk_arrive, w.desk_arrive⟩

theorem yields_thread : r.Yields WorldM.thread s .worker s := by
  apply brings_question
  rintro w rfl
  exact ⟨.worker, rfl, rfl, rfl⟩

theorem yields_deferreds (f : Table DeferredId Deferred -> Table DeferredId Deferred) :
    r.Yields (WorldM.alter (.deferreds f)) s () { s with deferreds := f s.deferreds } := by
  apply brings_question
  rintro w rfl
  exact ⟨(), rfl, rfl, rfl⟩

theorem yields_patience (polls : Option Nat) :
    r.Yields (WorldM.alter (.patience polls)) s () (s.withLink { s.link with patience := polls }) := by
  apply brings_question
  rintro w rfl
  exact ⟨(), rfl, rfl, rfl⟩

theorem yields_ask (q : Ask) :
    r.Yields (.question (Act.ask q)) s (q.perform.run s.link).1 (s.withLink (q.perform.run s.link).2) := by
  apply brings_question
  rintro w rfl
  exact ⟨_, rfl, rfl, rfl⟩

theorem yields_asking (act : Asking α) :
    r.Yields (WorldM.asking act) s (act.perform.run s.link).1 (s.withLink (act.perform.run s.link).2) := by
  induction act generalizing s with
  | done a => exact brings_pure ⟨rfl, rfl⟩
  | ask q next ih => exact brings_then (yields_ask q) (ih _)

theorem yields_handle (c : HandleCall) :
    r.Yields (WorldM.handle c) s ((c.perform .worker).run s.vault).1 (s.withVault ((c.perform .worker).run s.vault).2) := by
  apply brings_question
  rintro w rfl
  exact ⟨_, rfl, rfl, rfl⟩

end Acts

section Attempts

variable {act : Attempt α} {f : α -> Attempt β} {P : Except Error α -> Desk -> Prop} {Q : Except Error β -> Desk -> Prop}
variable {e : Error} {a : α} {p : Ptr} {h : Handle}

theorem brings_attempt (first : r.Brings act.run s P) (failed : ∀ e s', P (.error e) s' -> Q (.error e) s')
    (rest : ∀ a s', P (.ok a) s' -> r.Brings (f a).run s' Q) : r.Brings (act >>= f).run s Q := by
  rw [ExceptT.run_bind]
  refine brings_bind first fun a s' post => ?_
  cases a with
  | error e => exact brings_pure (failed e s' post)
  | ok a => exact rest a s' post

theorem brings_after (first : r.Yields act.run s (.ok a) s') (rest : r.Brings (f a).run s' Q) :
    r.Brings (act >>= f).run s Q := by
  rw [ExceptT.run_bind]
  exact brings_then first rest

theorem brings_failed (first : r.Yields act.run s (.error e) s') (post : Q (.error e) s') : r.Brings (act >>= f).run s Q := by
  rw [ExceptT.run_bind]
  exact brings_then first (brings_pure post)

theorem brings_lift {act : WorldM α} {P : Except Error α -> Desk -> Prop} (brings : r.Brings act s fun a s' => P (.ok a) s') :
    r.Brings (ExceptT.lift act : Attempt α).run s P :=
  brings_bind brings fun _ _ post => brings_pure post

theorem brings_lifted {act : WorldM α} {P : α -> Desk -> Prop} (first : r.Brings act s P)
    (rest : ∀ a s', P a s' -> r.Brings (f a).run s' Q) : r.Brings ((liftM act : Attempt α) >>= f).run s Q := by
  rw [ExceptT.run_bind]
  refine brings_bind (P := fun x s' => ∃ a, x = Except.ok a ∧ P a s') ?_ ?_
  · exact brings_bind first fun a s' post => brings_pure ⟨a, rfl, post⟩
  · rintro _ s' ⟨a, rfl, post⟩
    exact rest a s' post

theorem brings_looking {f : World -> Attempt β} (rest : ∀ w : World, w.desk = s -> r.Brings (f w).run s Q) :
    r.Brings ((liftM WorldM.look : Attempt World) >>= f).run s Q := by
  refine brings_lifted brings_look ?_
  rintro w _ ⟨same, rfl⟩
  exact rest w same

theorem yields_pure (a : α) : r.Yields (pure a : Attempt α).run s (.ok a) s :=
  brings_pure ⟨rfl, rfl⟩

theorem yields_ofExcept (x : Except Error α) : r.Yields (Attempt.ofExcept x).run s x s := by
  cases x <;> exact brings_pure ⟨rfl, rfl⟩

theorem yields_access (operation : String) :
    r.Yields (Attempt.checkAccess operation).run s (s.vault.access .worker operation) s := by
  refine brings_looking ?_
  rintro w rfl
  refine brings_lifted yields_thread ?_
  rintro _ _ ⟨rfl, rfl⟩
  exact yields_ofExcept _

theorem yields_checkAccess (opened : s.vault.closed = false) (operation : String) :
    r.Yields (Attempt.checkAccess operation).run s (.ok ()) s :=
  Vault.access_granted operation opened ▸ yields_access operation

theorem yields_withLink (opened : s.vault.closed = false) (operation : String) (act : LinkM α) :
    r.Yields (Attempt.withLink operation act).run s (Link.answered act s.link).1 (s.withLink (Link.answered act s.link).2) :=
  brings_after (yields_checkAccess opened operation) (yields_asking act.run)

theorem yields_raw (h : Handle) : r.Yields (Attempt.raw h).run s (h.raw s.vault) s := by
  refine brings_looking ?_
  rintro w rfl
  exact yields_ofExcept _

theorem yields_raw_alive {v : Handle} (alive : v.isAlive s.vault = true) : r.Yields (Attempt.raw v).run s (.ok v.ptr) s := by
  have looked := yields_raw (r := r) (s := s) v
  rwa [Handle.raw_alive alive] at looked

theorem yields_raw_dead {v : Handle} (dead : v.isAlive s.vault = false) :
    r.Yields (Attempt.raw v).run s (.error Handle.deadError) s := by
  have looked := yields_raw (r := r) (s := s) v
  rwa [Handle.raw_dead dead] at looked

theorem yields_own (p : Ptr) :
    r.Yields (Attempt.own p).run s (.ok ⟨p, .owned, some s.vault.nextReference⟩) (s.withVault s.vault.withNew) :=
  brings_lift ((yields_handle (.own p)).imp fun _ _ same => ⟨congrArg _ same.1, same.2⟩)

theorem yields_duplicate (h : Handle) : r.Yields (Attempt.duplicate h).run s (outcome (h.duplicate .worker) s.vault).1
    (s.withVault (outcome (h.duplicate .worker) s.vault).2) :=
  yields_handle (.duplicate h)

theorem yields_release (h : Handle) : r.Yields (Attempt.release h).run s (outcome (h.release .worker) s.vault).1
    (s.withVault (outcome (h.release .worker) s.vault).2) :=
  yields_handle (.release h)

theorem yields_discardHandle (h : Handle) : r.Yields (WorldM.discardHandle h) s () (s.discarding h) :=
  yields_handle (.discard h)

theorem yields_discardHandles (hs : List Handle) : r.Yields (WorldM.discardHandles hs) s () (s.discardingAll hs) := by
  induction hs generalizing s with
  | nil => exact brings_pure ⟨rfl, rfl⟩
  | cons h rest ih => exact brings_then (yields_discardHandle h) ih

theorem brings_holding {act : Handle -> Attempt α} (held : r.Brings (act h).run s fun a s' => P a (s'.discarding h)) :
    r.Brings (Attempt.holding h act).run s P := by
  refine brings_lifted held fun a s' post => ?_
  refine brings_lifted (yields_discardHandle h) ?_
  rintro _ _ ⟨-, rfl⟩
  refine (yields_ofExcept a).imp ?_
  rintro _ _ ⟨rfl, rfl⟩
  exact post

end Attempts

end Runner

end ScriptHost
