import ScriptHost.Proofs.Dispatcher.Callings
import ScriptHost.Proofs.Dispatcher.Sessions
import ScriptHost.Proofs.Link.Crossing

set_option autoImplicit false

/-!
Host functions: how they come to be registered, and who answers the calls of the engine.

Whoever is registered keeps the number until the functions are dropped, so that a call of the engine's function
reaches that handler whenever it comes. But the registration is noted before the engine is asked for a function of its
own, and stays when the engine refuses.
-/

namespace ScriptHost

open Dialogue LoopM

/-- The function after so many more calls. -/
def HostFunction.after (f : HostFunction Handler) (calls : Nat) : HostFunction Handler :=
  { f with handler.callback.calls := f.handler.callback.calls + calls }

theorem HostFunction.after_after (f : HostFunction Handler) (m n : Nat) : (f.after m).after n = f.after (m + n) := by
  simp only [after, Nat.add_assoc]

namespace FunctionTable

variable {t t' t'' : FunctionTable Handler} {m n : Nat}

/-- At most `n` functions have come in, under the next numbers, and the others have only been called. -/
structure Extended (n : Nat) (t t' : FunctionTable Handler) : Prop where
  next : ∃ k ≤ n, t'.nextId = t.nextId + UInt32.ofNat k
  names : ∀ name, t.ids.contains name = true -> t'.ids.contains name = true
  kept : ∀ id f, (∀ k < n, id ≠ t.nextId + UInt32.ofNat k) -> t.byId? id = some f ->
    ∃ calls, t'.byId? id = some (f.after calls)

theorem Extended.refl (t : FunctionTable Handler) : Extended 0 t t :=
  ⟨⟨0, Nat.le_refl 0, (UInt32.add_zero _).symm⟩, fun _ => id, fun _ _ _ found => ⟨0, found⟩⟩

theorem Extended.trans (first : Extended m t t') (second : Extended n t' t'') : Extended (m + n) t t'' := by
  obtain ⟨k, few, next⟩ := first.next
  obtain ⟨k', few', next'⟩ := second.next
  have onwards (j : Nat) : t'.nextId + UInt32.ofNat j = t.nextId + UInt32.ofNat (k + j) := by
    rw [next, UInt32.add_assoc, UInt32.ofNat_add]
  refine ⟨⟨k + k', Nat.add_le_add few few', next'.trans (onwards k')⟩, fun name => second.names name ∘ first.names name, ?_⟩
  intro id f other found
  obtain ⟨calls, found'⟩ := first.kept id f (fun j less => other j (by omega)) found
  obtain ⟨calls', found''⟩ := second.kept id _ (fun j less => onwards j ▸ other (k + j) (by omega)) found'
  exact ⟨calls + calls', HostFunction.after_after f calls calls' ▸ found''⟩

theorem Extended.of_same (same : t' = t) : Extended 0 t t' :=
  same ▸ .refl t

theorem registering_taken {name : String} (taken : t.ids.contains name = true) (mode : FunctionMode) (handler : Handler) :
    t.registering name mode handler = t := by
  simp only [registering, register, taken, if_true]

theorem registering_free {name : String} (free : t.ids.contains name = false) (mode : FunctionMode) (handler : Handler) :
    t.registering name mode handler =
      { ids := t.ids.set name t.nextId
        functions := t.functions.set t.nextId ⟨t.nextId, name, mode, handler⟩
        nextId := t.nextId + 1 } := by
  simp only [registering, register, free, Bool.false_eq_true, if_false]

theorem extended_registering (t : FunctionTable Handler) (name : String) (mode : FunctionMode) (handler : Handler) :
    Extended 1 t (t.registering name mode handler) := by
  cases taken : t.ids.contains name with
  | true =>
    rw [registering_taken taken]
    have same := Extended.refl t
    exact ⟨⟨0, Nat.zero_le 1, (UInt32.add_zero _).symm⟩, same.names, fun id f _ => same.kept id f nofun⟩
  | false =>
    rw [registering_free taken]
    refine ⟨⟨1, Nat.le_refl 1, rfl⟩, fun other there => ?_, fun id f other found => ⟨0, ?_⟩⟩
    next =>
      simp only [Table.contains, Table.get?_set] at there ⊢
      split
      next => rfl
      next => exact there
    next =>
      have apart : t.nextId ≠ id := fun same => other 0 Nat.one_pos (by simp [same])
      have kept : (t.functions.set t.nextId ⟨t.nextId, name, mode, handler⟩).get? id = t.functions.get? id := by
        rw [Table.get?_set, if_neg apart]
      exact kept.trans found

theorem extended_called (t : FunctionTable Handler) (id : FunctionId) : Extended 0 t (t.modify id Handler.called) := by
  refine ⟨⟨0, Nat.le_refl 0, (UInt32.add_zero _).symm⟩, fun _ => fun there => there, fun id' f _ found => ?_⟩
  simp only [byId?, modify, Table.get?_modify] at found ⊢
  split
  next => exact ⟨1, by simp [found, HostFunction.after, Handler.called, Callback.called]⟩
  next => exact ⟨0, found⟩

theorem number_apart (id : FunctionId) {k : Nat} (few : k + 1 < UInt32.size) : id ≠ id + 1 + UInt32.ofNat k := by
  intro same
  have value := congrArg UInt32.toNat same
  rw [UInt32.add_assoc, UInt32.toNat_add, UInt32.toNat_add, UInt32.toNat_ofNat'] at value
  have small := id.toNat_lt
  simp only [UInt32.size] at few
  change id.toNat = (id.toNat + (1 + k % 2 ^ 32) % 2 ^ 32) % 2 ^ 32 at value
  omega

/-- Who has just been registered stays under that number for as long as it is not handed out again. -/
theorem registered_stays {name : String} (free : t.ids.contains name = false) {mode : FunctionMode} {handler : Handler}
    (later : Extended n (t.registering name mode handler) t') (few : n + 1 < UInt32.size) :
    ∃ calls, t'.byId? t.nextId = some (HostFunction.after ⟨t.nextId, name, mode, handler⟩ calls) := by
  rw [registering_free free] at later
  refine later.kept t.nextId _ (fun k less => number_apart t.nextId (by omega)) ?_
  simp only [byId?, Table.get?_set, if_true]

end FunctionTable

namespace Engine

variable {s s' : Engine} {p this : Ptr} {args : List Ptr} {table : Addr} {text : String} {id : FunctionId}

theorem start_host (there : s.heap.get? p = some (.function text (.host id))) (hosted : s.hosted = true) :
    s.start false p args = (.host id, s) := by
  simp only [start, there, hosted, Bool.false_eq_true, if_false, if_true]

theorem afterCheck_host (there : s.heap.get? p = some (.function text (.host id))) (hosted : s.hosted = true) :
    s.afterCheck false (.call p this args table) =
      (.calling ⟨id, this, args.length, if args.isEmpty then 0 else table⟩ .call, s) := by
  simp only [afterCheck, runCall, start_host there hosted]

theorem afterCheck_handler {job : Job} {inv : Invocation} {frame : Frame}
    (there : s.heap.get? p = some (.function text (.host id))) (hosted : s.hosted = true)
    (calls : s.afterCheck false (.handler job p) = (.calling inv frame, s')) : inv.function = id := by
  simp only [afterCheck, runHandler, start_host there hosted] at calls
  split at calls
  next =>
    split at calls
    next => cases calls
    next =>
      cases calls
      rfl
  next => cases calls

end Engine

namespace Link

variable {α : Type} {l l' : Link} {p : Ptr} {id : FunctionId} {name : String}

/-- Whatever comes of memory, the heap is left as the action leaves it. -/
theorem withCString_heap (clear : l.faults = Table.empty) {act : Addr -> LinkM α} {a : α}
    (got : answered (withCString name act) l = (.ok a, l')) : ∃ (block : Addr) (mid inner : Link),
      mid.faults = Table.empty ∧ answered (act block) mid = (.ok a, inner) ∧ l'.engine.heap = inner.engine.heap := by
  simp only [withCString, answered_bind, answered_attempt, answered_ofExcept, answered_free] at got
  have written := answered_faultless (writeCString name) clear
  generalize answered (writeCString name) l = r at *
  obtain ⟨_ | block, mid⟩ := r
  next => cases got
  next =>
    obtain ⟨answer, rfl⟩ := Prod.mk.inj got
    exact ⟨block, mid, _, written, Prod.ext answer rfl, rfl⟩

/-- What the engine answers with is a function that calls the host by this number. -/
theorem newFunction_names (clear : l.faults = Table.empty) (got : answered (newFunction id name) l = (.ok p, l')) :
    ∃ text, l'.engine.heap.get? p = some (.function text (.host id)) := by
  obtain ⟨block, mid, inner, clear', answer, same⟩ := withCString_heap clear got
  rw [same]
  cases read : mid.engine.memory.readCString block with
  | error e =>
    have failed : outcome (Engine.perform (.newFunction id block)) mid.engine = (.error e, mid.engine) := by
      simp only [Engine.perform, outcome_bind, Engine.outcome_readMemory, read]
    have asked := answered_request (r := .newFunction id block) (direct_of_faultless clear' _) rfl
    simp only [value, word, answered_bind, asked, failed] at answer
    cases answer
  | ok text =>
    refine ⟨text, ?_⟩
    have done : outcome (Engine.perform (.newFunction id block)) mid.engine =
        outcome (Engine.insert (.function text (.host id))) mid.engine := by
      simp only [Engine.perform, outcome_bind, Engine.outcome_readMemory, read]
    rw [Engine.outcome_insert] at done
    obtain ⟨rfl, some, rfl⟩ := value_ok clear' done answer
    rcases Heap.insert_plants mid.engine.heap (.function text (.host id)) with ⟨q, n, -, -, -, made⟩ | ⟨-, refused⟩
    next =>
      simp only [withEngine, made, Heap.get?_eq_some, Table.get?_set, if_true]
      exact ⟨_, rfl, rfl⟩
    next => exact absurd (congrArg Prod.fst refused) some

end Link

def Change.registrations : Change -> Nat
  | register _ _ => 1
  | _ => 0

namespace World

variable {w u : World} {n : Nat}

theorem functions_setPhase (w : World) (p : Phase) : (w.setPhase p).worker.functions = w.worker.functions := by
  unfold setPhase
  split <;> rfl

theorem functions_meet (w : World) (d : Demand) : (w.meet d).worker.functions = w.worker.functions := by
  cases d with
  | send port item =>
    simp only [meet]
    split <;> rfl
  | announce => exact w.functions_setPhase _
  | close =>
    simp only [meet]
    split <;> rfl
  | _ => rfl

theorem functions_arrive (w : World) : w.arrive.worker.functions = w.worker.functions :=
  arrive_leads (R := fun w w' => w'.worker.functions = w.worker.functions) (fun _ => rfl)
    (fun first second => second.trans first) (fun _ _ => rfl) functions_meet w

theorem extended_change (c : Change) (w : World) :
    w.worker.functions.Extended c.registrations (c.apply w).worker.functions := by
  cases c with
  | register name handler => exact FunctionTable.extended_registering _ _ _ _
  | countCall id => exact FunctionTable.extended_called _ _
  | demand d => exact .of_same (w.functions_meet d)
  | _ => exact .refl _

/-- What may come of a world before the functions are dropped, with `n` attempts to register one. -/
inductive Becomes (w : World) : Nat -> World -> Prop
  | here : Becomes w 0 w
  | schedule {n : Nat} {u : World} (a : List (List Demand)) (before : Becomes w n u) : Becomes w n { u with arrivals := a }
  | change {n : Nat} {u : World} (c : Change) (before : Becomes w n u) : Becomes w (n + c.registrations) (c.apply u)
  | ask {n : Nat} {u : World} (q : Ask) (before : Becomes w n u) : Becomes w n (u.onLink fun l => (q.perform.run l).2)
  | book {n : Nat} {u : World} (alive : List ReferenceId) (nextReference : ReferenceId) (before : Becomes w n u) :
      Becomes w n (u.onVault fun v => { v with alive, nextReference })
  | take {n : Nat} {u : World} (before : Becomes w n u) :
      Becomes w n (u.onLink fun l => (outcome OwnerM.takeRejections l).2)
  | duty {n : Nat} {u : World} (d : Duty) (before : Becomes w n u) (other : d ≠ .dropFunctions) : Becomes w n (d.apply u)

theorem functions_duty {d : Duty} (w : World) (other : d ≠ .dropFunctions) : (d.apply w).worker.functions = w.worker.functions := by
  cases d with
  | phase p => exact w.functions_setPhase p
  | leave => exact w.functions_setPhase .shuttingDown
  | dropFunctions => exact absurd rfl other
  | receive =>
    simp only [Duty.apply]
    split <;> rfl
  | take =>
    simp only [Duty.apply]
    split <;> rfl
  | takeMicrotask =>
    simp only [Duty.apply]
    split <;> rfl
  | _ => rfl

theorem Becomes.extended (becomes : w.Becomes n u) : w.worker.functions.Extended n u.worker.functions := by
  induction becomes with
  | here => exact .refl _
  | change c _ ih => exact ih.trans (extended_change c _)
  | duty d _ other ih => exact (functions_duty _ other).symm ▸ ih
  | schedule a _ ih => exact ih
  | ask q _ ih => exact ih
  | book alive nextReference _ ih => exact ih
  | take _ ih => exact ih

/-- What has come of a world. -/
def Descends (w u : World) : Prop :=
  ∃ n, w.Becomes n u

theorem descends_still (w : World) : Still w.Descends where
  schedule _ a := fun ⟨_, before⟩ => ⟨_, before.schedule a⟩
  change c _ := fun ⟨_, before⟩ => ⟨_, before.change c⟩
  ask q _ := fun ⟨_, before⟩ => ⟨_, before.ask q⟩
  book _ alive next := fun ⟨_, before⟩ => ⟨_, before.book alive next⟩

theorem descends_stable (w : World) : Stable w.Descends where
  toStill := descends_still w
  duty d _ _ allowed := fun ⟨_, before⟩ => ⟨_, before.duty d (by rintro rfl; exact allowed)⟩
  flush u _ _ _ := by
    have duty (d : Duty) (v : World) (other : d ≠ .dropFunctions) : w.Descends v -> w.Descends (d.apply v) :=
      fun ⟨n, before⟩ => ⟨n, before.duty d other⟩
    have take (v : World) : w.Descends v -> w.Descends (v.onLink fun l => (outcome OwnerM.takeRejections l).2) :=
      fun ⟨n, before⟩ => ⟨n, before.take⟩
    exact ((descends_still w).grows_flushRejections (fun p reason v => duty (.report p reason) v nofun) take
      (duty .flush _ nofun) (Nat.zero_le _)).kept

/-- Host code, with all that it starts and waits for. -/
theorem descends_ran {α : Type} (depth : Nat) (t : Thread) (act : WorldM α) (w : World) :
    w.Descends (final ((Runner.ofFuel depth).on t act) w) := by
  have stable := descends_stable w
  exact (stable.ran (Runner.ofFuel_sound stable depth) act (Nat.zero_le _)).kept ⟨0, .here⟩

/-- The loop, as far as it gets. -/
theorem descends_work (depth left : Nat) (opened : w.Open) : w.Descends (final (work (.ofFuel depth) left) w) := by
  have stable := descends_stable w
  have kept := keeps_work stable.routine (stable.chores (stable.ofFuel_loyal depth)) left (b := 0) (w := w)
  exact (kept.holds opened (Nat.zero_le _)).1.grown.kept ⟨0, .here⟩

/-- The calls that the engine makes of its functions with this number are served by this function of the host. -/
structure Serves (u : World) (id : FunctionId) (f : HostFunction Handler) : Prop where
  called : ∀ p text, u.heap.get? p = some (.function text (.host id)) -> u.worker.vault.link.engine.hosted = true ->
    ∀ this args table, ∃ inv, u.worker.vault.link.engine.afterCheck false (.call p this args table) =
      (.calling inv .call, u.worker.vault.link.engine) ∧ inv.function = id ∧ inv.this = this ∧ inv.count = args.length
  -- As the handler of a job.
  handling : ∀ p text, u.heap.get? p = some (.function text (.host id)) -> u.worker.vault.link.engine.hosted = true ->
    ∀ job inv frame s, u.worker.vault.link.engine.afterCheck false (.handler job p) = (.calling inv frame, s) ->
      inv.function = id
  served : ∀ (r : Runner) (t : Thread) (inv : Invocation), inv.function = id ->
    (r.on t (WorldM.answerCall inv)).run.run u =
      (r.on t (do
        WorldM.alter .stand
        let _ <- WorldM.look
        WorldM.serve inv f)).run.run u

theorem serves_of_registered {id : FunctionId} {f : HostFunction Handler} (found : u.worker.functions.byId? id = some f) :
    u.Serves id f where
  called _ _ there hosted _ _ _ := ⟨_, Engine.afterCheck_host there hosted, rfl, rfl, rfl⟩
  handling _ _ there hosted _ _ _ _ := Engine.afterCheck_handler there hosted
  served r t inv same := by
    subst same
    let v := Change.stand.apply u
    have served : (r.on t (do WorldM.alter .stand; let _ <- WorldM.look; WorldM.serve inv f)).run.run u =
        (r.on t (WorldM.serve inv f)).run.run v.arrive := rfl
    have looked (act : Worker -> WorldM Ptr) :
        (r.on t (WorldM.alter .stand >>= fun _ => WorldM.getWorker >>= act)).run.run u =
          (r.on t (act v.arrive.worker)).run.run v.arrive := rfl
    have found : v.arrive.worker.functions.byId? inv.function = some f :=
      (congrArg (fun t => FunctionTable.byId? t inv.function) v.functions_arrive).trans found
    rw [served, WorldM.answerCall, looked, found]

end World

namespace Act

/-- Leaves the functions of the host alone. -/
def Unlisting : Act -> Prop
  | alter c => ∀ w : World, (c.apply w).worker.functions = w.worker.functions
  | program _ _ | await _ _ => False
  | _ => True

theorem Unlisting.functions {a : Act} (apart : a.Unlisting) (r : Runner) (t : Thread) (w : World) :
    (final (a.perform r t) w).worker.functions = w.worker.functions := by
  cases a with
  | look => exact w.functions_arrive
  | alter c => exact apart w
  | ask q => cases t <;> rfl
  | program operands ops => exact apart.elim
  | await p token => exact apart.elim
  | _ => rfl

end Act

namespace Runner

variable {α : Type} {r : Runner} {t : Thread} {s : Desk} {id : FunctionId} {name : String}

theorem functions_on {act : WorldM α} (apart : act.Only Act.Unlisting) (w : World) :
    (final (r.on t act) w).worker.functions = w.worker.functions :=
  same_on (fun w => w.worker.functions) (fun _ apart w => apart.functions r t w) apart w

theorem brings_engineFunction (id : FunctionId) (name : String) :
    r.Brings (Attempt.engineFunction id name).run s fun result s' => s.link.faults = Table.empty ->
      ∀ h, result = .ok h -> ∃ text, s'.heap.get? h.ptr = some (.function text (.host id)) := by
  refine brings_attempt (P := fun result s' => s.link.faults = Table.empty ->
    ∀ p, result = .ok p -> ∃ text, s'.heap.get? p = some (.function text (.host id))) ?_ (fun _ _ _ => nofun) ?_
  next =>
    cases granted : s.vault.access .worker "new function" with
    | error e =>
      refine brings_failed (granted ▸ yields_access "new function") ?_
      exact fun _ => nofun
    | ok _ =>
      refine brings_after (granted ▸ yields_access "new function") ((yields_asking _).imp ?_)
      rintro _ _ ⟨rfl, rfl⟩ clear p made
      exact Link.newFunction_names clear (Prod.ext made rfl)
  next =>
    intro p s' names
    refine (yields_own p).imp ?_
    rintro _ _ ⟨rfl, rfl⟩ clear h made
    cases made
    exact names clear p rfl

end Runner

namespace Attempt

variable {w : World} {name : String} {handler : Handler}

/-- If a registration fails, everything is as before. If not, calls of the engine's function are served by this handler
until the functions are dropped, unless the numbers run out. -/
structure Registers (name : String) (handler : Handler) (w : World) (result : Except Error Handle) (w' : World) : Prop where
  undone : ∀ e, result = .error e -> w'.worker.functions = w.worker.functions
  reached : ∀ h, result = .ok h -> ∃ id,
    (w.worker.vault.link.faults = Table.empty -> ∃ text, w'.heap.get? h.ptr = some (.function text (.host id))) ∧
    ∀ n u, w'.Becomes n u -> n + 1 < UInt32.size ->
      ∃ calls, u.Serves id (HostFunction.after ⟨id, name, handler.mode, handler⟩ calls)

theorem registers_error {w' : World} {e : Error} (undone : w'.worker.functions = w.worker.functions) :
    Registers name handler w (.error e) w' :=
  ⟨fun _ _ => undone, fun _ made => absurd made (by simp)⟩

theorem registers_ok {w' : World} {h : Handle} (id : FunctionId)
    (names : w.worker.vault.link.faults = Table.empty -> ∃ text, w'.heap.get? h.ptr = some (.function text (.host id)))
    (reached : ∀ n u, w'.Becomes n u -> n + 1 < UInt32.size ->
      ∃ calls, u.Serves id (HostFunction.after ⟨id, name, handler.mode, handler⟩ calls)) :
    Registers name handler w (.ok h) w' := by
  refine ⟨fun _ failed => absurd failed (by simp), fun _ made => ?_⟩
  cases made
  exact ⟨id, names, reached⟩

theorem only_engineFunction (id : FunctionId) (name : String) : (engineFunction id name).run.Only Act.Unlisting := by
  have granted (x : Except Error Unit) : (ofExcept x).run.Only Act.Unlisting := by
    cases x <;> exact trivial
  have checked : (checkAccess "new function").run.Only Act.Unlisting :=
    only_bindExcept (only_lift (only_question trivial)) fun _ =>
      only_bindExcept (only_lift (only_question trivial)) fun _ => granted _
  have made : (withLink "new function" (Link.newFunction id name)).run.Only Act.Unlisting :=
    only_bindExcept checked fun _ => only_through (only_any _) fun _ _ => only_question trivial
  exact only_bindExcept made fun _ => only_lift (only_question trivial)

theorem registers_taken (r : Runner) (handler : Handler) (taken : w.worker.functions.ids.contains name = true) :
    ∃ e, (r.act (registerFunction name handler).run).run.run w = (some (.error e), w.arrive) := by
  refine ⟨.host ("op '" ++ name ++ "' is already registered"), ?_⟩
  change (r.act (ofExcept (w.arrive.worker.functions.register name handler.mode handler) >>= _).run).run.run w.arrive = _
  rw [w.functions_arrive, FunctionTable.register, if_pos taken]
  rfl

theorem registers_free (r : Runner) (handler : Handler) (free : w.worker.functions.ids.contains name = false) :
    (r.act (registerFunction name handler).run).run.run w =
      (r.act (engineFunction w.worker.functions.nextId name).run).run.run ((Change.register name handler).apply w.arrive) := by
  change (r.act (ofExcept (w.arrive.worker.functions.register name handler.mode handler) >>= _).run).run.run w.arrive = _
  rw [w.functions_arrive, FunctionTable.register, if_neg (Bool.eq_false_iff.1 free)]
  rfl

/-- A registration comes to an end, and it is as it should be if and only if it does not fail for a name that was free:
then the name is taken all the same. -/
theorem registers_iff (r : Runner) (w : World) (name : String) (handler : Handler) :
    ∃ result, LoopM.result (r.act (registerFunction name handler).run) w = some result ∧
      (Registers name handler w result (final (r.act (registerFunction name handler).run) w) ↔
        ((∃ e, result = .error e) -> w.worker.functions.ids.contains name = true)) := by
  cases known : w.worker.functions.ids.contains name with
  | true =>
    obtain ⟨e, ran⟩ := registers_taken r handler known
    refine ⟨.error e, congrArg Prod.fst ran, iff_of_true (registers_error ?_) fun _ => rfl⟩
    rw [final, ran]
    exact w.functions_arrive
  | false =>
    have ran := registers_free r handler known
    let noted := (Change.register name handler).apply w.arrive
    obtain ⟨result, came, names⟩ := (Runner.brings_engineFunction (r := r) w.worker.functions.nextId name).ended noted rfl
    have functions : (final (r.act (registerFunction name handler).run) w).worker.functions =
        w.worker.functions.registering name handler.mode handler := by
      rw [final, ran]
      refine (Runner.functions_on (only_engineFunction _ name) noted).trans ?_
      exact congrArg (fun t => FunctionTable.registering t name handler.mode handler) w.functions_arrive
    refine ⟨result, (congrArg Prod.fst ran).trans came, ?_⟩
    cases result with
    | error e =>
      refine iff_of_false (fun registers => ?_) fun taken => absurd (taken ⟨e, rfl⟩) (by simp)
      have same := functions.symm.trans (registers.undone e rfl)
      rw [FunctionTable.registering_free known] at same
      have taken : w.worker.functions.ids.contains name = true := by
        rw [← same, Table.contains, Table.get?_set, if_pos rfl]
        rfl
      exact absurd (taken.symm.trans known) (by simp)
    | ok h =>
      have made : ¬ ∃ e, (Except.ok h : Except Error Handle) = .error e := by simp
      refine iff_of_true (registers_ok w.worker.functions.nextId (fun clear => ?_) fun n u becomes few => ?_) fun failed => absurd failed made
      next =>
        have clear : noted.desk.link.faults = Table.empty :=
          (congrArg (fun v : Vault => v.link.faults) w.vault_arrive).trans clear
        rw [final, ran]
        exact names clear h rfl
      next =>
        obtain ⟨calls, found⟩ := FunctionTable.registered_stays known (functions ▸ becomes.extended) few
        exact ⟨calls, World.serves_of_registered found⟩

/-- A worker that is about to start, with so much memory for its engine. -/
def cramped (limit : Nat) : World :=
  World.empty.onLink fun l => { l with engine := { l.engine with memory := l.engine.memory.setLimit (some limit), hosted := true } }

def greeter : Handler :=
  ⟨⟨"fn:greeting", [], 0⟩, none⟩

/-- Sixteen bytes are enough for the name. -/
theorem greeting_registers : ∃ h, LoopM.result (Runner.flat.act (registerFunction "greeting" greeter).run) (cramped 16) =
    some (.ok h) ∧ Registers "greeting" greeter (cramped 16) (.ok h)
      (final (Runner.flat.act (registerFunction "greeting" greeter).run) (cramped 16)) := by
  obtain ⟨result, came, registers⟩ := registers_iff Runner.flat (cramped 16) "greeting" greeter
  have answer : (LoopM.result (Runner.flat.act (registerFunction "greeting" greeter).run) (cramped 16)).map Except.toOption =
      some (some ⟨16, .owned, some 0⟩) := by decide +kernel
  cases result with
  | error e =>
    rw [came] at answer
    cases answer
  | ok h => exact ⟨h, came, registers.2 nofun⟩

/-- There is no room for the name, and it is taken nevertheless. -/
theorem cramped_unregistered : ∃ e, LoopM.result (Runner.flat.act (registerFunction "greeting" greeter).run) (cramped 8) =
    some (.error e) ∧ ¬ Registers "greeting" greeter (cramped 8) (.error e)
      (final (Runner.flat.act (registerFunction "greeting" greeter).run) (cramped 8)) := by
  refine ⟨.allocation 9, rfl, fun registers => ?_⟩
  have taken : (final (Runner.flat.act (registerFunction "greeting" greeter).run)
    (cramped 8)).worker.functions.ids.contains "greeting" = true := by decide +kernel
  rw [registers.undone _ rfl] at taken
  cases taken

end Attempt

end ScriptHost
