import ScriptHost.Proofs.Dispatcher.Deferring
import ScriptHost.Proofs.Dispatcher.Payloads

set_option autoImplicit false

/-!
Attempts to settle a deferred, one after the other.

Those that fail leave everything as it was. The first one that succeeds decides, and the others do nothing.
-/

namespace ScriptHost

theorem Table.set_back {κ α : Type} [DecidableEq κ] {t : Table κ α} {k : κ} {a : α} (found : t.get? k = some a) (b : α) :
    (t.set k b).set k a = t := by
  rw [set_set, set_self found]

namespace Desk

variable {s t u : Desk} {p : Ptr} {others : List Ptr} {id : DeferredId} {d e : Deferred} {polls : Option Nat}

/-- A deferred that somebody has settled. -/
structure Settled (id : DeferredId) (d : Deferred) (s : Desk) : Prop where
  found : s.deferreds.get? id = some d
  held : 1 ≤ d.holders
  settled : d.settled = true
  usable : s.Usable

theorem Usable.patient (usable : s.Usable) (polls : Option Nat) : (s.withLink (s.link.patient polls)).Usable :=
  ⟨usable.opened, usable.ready.patient polls, usable.fresh⟩

theorem Pending.patient (pending : s.Pending id p others d) (polls : Option Nat) :
    (s.withLink (s.link.patient polls)).Pending id p others d where
  found := pending.found
  held := pending.held
  unsettled := pending.unsettled
  promise := pending.promise
  capable fulfil := by
    obtain ⟨c, n, held, owns, able⟩ := pending.capable fulfil
    exact ⟨c, n, held, ⟨owns.owned, owns.reference, owns.alive⟩, able⟩
  unresolved := pending.unresolved
  sound := ⟨pending.sound.toUsable.patient polls, pending.sound.accounted⟩

theorem Settled.patient (settled : s.Settled id d) (polls : Option Nat) : (s.withLink (s.link.patient polls)).Settled id d :=
  ⟨settled.found, settled.held, settled.settled, settled.usable.patient polls⟩

theorem Settled.withHolders (settled : s.Settled id d) {holders : Nat} (some : 1 ≤ holders) :
    (s.withDeferred id { d with holders }).Settled id { d with holders } :=
  ⟨by simp [withDeferred], some, settled.settled, ⟨settled.usable.opened, settled.usable.ready, settled.usable.fresh⟩⟩

theorem Pending.withHolders (pending : s.Pending id p others d) {holders : Nat} (some : 1 ≤ holders) :
    (s.withDeferred id { d with holders }).Pending id p others { d with holders } where
  found := by simp [withDeferred]
  held := some
  unsettled := pending.unsettled
  promise := pending.promise
  capable fulfil := by
    obtain ⟨c, n, held, owns, able⟩ := pending.capable fulfil
    exact ⟨c, n, held, ⟨owns.owned, owns.reference, owns.alive⟩, able⟩
  unresolved := pending.unresolved
  sound := ⟨⟨pending.sound.opened, pending.sound.ready, pending.sound.fresh⟩, pending.sound.accounted⟩

theorem Restored.refl (usable : s.Usable) : s.Restored s :=
  ⟨.refl s, s.link.patience, .refl usable.ready⟩

theorem Restored.cells (restored : s.Restored t) : t.heap.cells = s.heap.cells := by
  obtain ⟨polls, same⟩ := restored.link
  exact same.2

theorem Restored.heap (restored : s.Restored t) (q : Ptr) : t.heap.get? q = s.heap.get? q := by
  simp only [Heap.get?, restored.cells]

theorem Restored.usable (restored : s.Restored t) (usable : s.Usable) : t.Usable := by
  obtain ⟨polls, same⟩ := restored.link
  exact usable.still restored.toKept (same.ready (usable.ready.patient polls))

theorem Restored.liveCount (restored : s.Restored t) : t.heap.liveCount = s.heap.liveCount :=
  congrArg Table.size restored.cells

theorem Restored.liveHandles (restored : s.Restored t) : t.vault.liveHandles = s.vault.liveHandles :=
  congrArg List.length restored.alive

theorem Restored.settled (restored : s.Restored t) (settled : s.Settled id d) : t.Settled id d :=
  ⟨restored.deferreds ▸ settled.found, settled.held, settled.settled, restored.usable settled.usable⟩

theorem Restored.pending (restored : s.Restored t) (pending : s.Pending id p others d) : t.Pending id p others d where
  found := restored.deferreds ▸ pending.found
  held := pending.held
  unsettled := pending.unsettled
  promise := pending.promise
  capable fulfil := by
    obtain ⟨c, n, held, owns, able⟩ := pending.capable fulfil
    refine ⟨c, n, held, ⟨owns.owned, owns.reference, restored.alive ▸ owns.alive⟩, ?_⟩
    rwa [Heap.resolver?, restored.heap]
  unresolved := by
    obtain ⟨record, found, rest⟩ := pending.unresolved
    refine ⟨record, ?_, rest⟩
    rwa [Heap.promise?, restored.heap]
  sound := by
    obtain ⟨polls, same⟩ := restored.link
    exact ⟨restored.usable pending.sound.toUsable, pending.sound.accounted.still same.2 same.1.pending⟩

/-- The attempt was made with other patience, by a clone that is gone. -/
theorem Restored.around (restored : ((s.withLink (s.link.patient polls)).withDeferred id e).Restored t)
    (found : s.deferreds.get? id = some d) : s.Restored (t.withDeferred id d) := by
  obtain ⟨polls', same⟩ := restored.link
  refine ⟨⟨restored.closed, restored.alive, restored.next, ?_, restored.config⟩, polls', same⟩
  change t.deferreds.set id d = s.deferreds
  rw [restored.deferreds]
  exact Table.set_back found e

theorem known_still {payload : Payload} (known : payload.Known p others s) (alive : t.vault.alive = s.vault.alive)
    (next : s.vault.nextReference ≤ t.vault.nextReference) : payload.Known p others t := by
  cases payload with
  | handle x =>
    exact ⟨fun m named => Nat.lt_of_lt_of_le (known.earlier m named) next, fun lives =>
      known.kept (by rwa [Handle.isAlive, alive] at lives)⟩
  | snapshot v => trivial

theorem Restored.patient (restored : (s.withLink (s.link.patient polls)).Restored t) : s.Restored t :=
  ⟨⟨restored.closed, restored.alive, restored.next, restored.deferreds, restored.config⟩, restored.link⟩

end Desk

namespace WorldM

/-- Acts through a clone of a deferred that is there for it alone. -/
def throughClone {α : Type} (id : DeferredId) (act : WorldM α) : WorldM α := do
  holdDeferred id
  let a <- act
  letGoDeferred id
  pure a

end WorldM

structure Trial where
  -- Whether it is made through a clone of its own.
  cloned : Bool
  -- After how many polls it is interrupted, and when.
  patience : Option Nat
  deadline : Option Nat
  fulfil : Bool
  payload : Payload

namespace Trial

def attempt (t : Trial) (id : DeferredId) : WorldM (Except Error Unit) := do
  WorldM.alter (.patience t.patience)
  let act := (t.payload.attempt id t.fulfil).run
  if t.cloned then WorldM.throughClone id act else act

def run (t : Trial) (r : Runner) (id : DeferredId) : LoopM (Except Error Unit) := do
  LoopM.step (.deadline t.deadline)
  r.act (t.attempt id)

end Trial

namespace Runner

open Desk

variable {α : Type} {r : Runner} {s t : Desk} {p : Ptr} {fulfil : Bool} {payload : Payload} {trial : Trial}
variable {others : List Ptr} {id : DeferredId} {d : Deferred} {act : WorldM α} {P Q : α -> Desk -> Prop}

theorem brings_throughClone (found : s.deferreds.get? id = some d) (held : 1 ≤ d.holders)
    (brings : r.Brings act (s.withDeferred id { d with holders := d.holders + 1 }) P)
    (after : ∀ a t, P a t -> ∃ e : Deferred, t.deferreds.get? id = some { e with holders := d.holders + 1 } ∧
      Q a (t.withDeferred id { e with holders := d.holders })) : r.Brings (WorldM.throughClone id act) s Q := by
  have cloned : r.Yields (WorldM.holdDeferred id) s () (s.withDeferred id { d with holders := d.holders + 1 }) := by
    have altered := yields_deferreds (r := r) (s := s) fun t => t.modify id fun d => { d with holders := d.holders + 1 }
    rwa [Table.modify_of_found found] at altered
  refine brings_then cloned (brings_bind brings fun a t post => ?_)
  obtain ⟨e, there, done⟩ := after a t post
  have gone : r.Yields (WorldM.letGoDeferred id) t () (t.withDeferred id { e with holders := d.holders }) := by
    refine brings_bind brings_look ?_
    rintro w _ ⟨here, rfl⟩
    have slot : w.deferreds.get? id = some { e with holders := d.holders + 1 } :=
      (congrArg (fun s => s.deferreds.get? id) here).trans there
    have more : ¬d.holders + 1 ≤ 1 := by omega
    rw [slot]
    dsimp only
    rw [if_neg more]
    exact yields_deferreds _
  exact brings_then gone (brings_pure done)

theorem brings_payload (pending : s.Pending id p others d) (word : s.config.maxBytes < UInt64.size)
    (known : payload.Known p others s) (fulfil : Bool) :
    r.Brings (payload.attempt id fulfil).run s (s.Comes id p d fulfil payload) := by
  cases payload with
  | handle h => exact brings_handle pending known fulfil
  | snapshot v => exact brings_snapshot pending word fulfil v

theorem brings_trial (pending : s.Pending id p others d) (word : s.config.maxBytes < UInt64.size)
    (known : trial.payload.Known p others s) :
    r.Brings (trial.attempt id) s (s.Comes id p d trial.fulfil trial.payload) := by
  have patient := pending.patient trial.patience
  refine brings_then (yields_patience trial.patience) ?_
  cases trial.cloned with
  | false =>
    refine (brings_payload patient word (known_still known rfl (Nat.le_refl _)) trial.fulfil).imp fun a t comes => ?_
    cases comes with
    | failed deferreds restored => exact .failed deferreds fun legible => (restored ⟨legible.spare, legible.last⟩).patient
    | succeeded usable deferreds config decides => exact .succeeded usable deferreds config decides
  | true =>
    have more := patient.withHolders (Nat.le_add_left 1 d.holders)
    refine brings_throughClone patient.found patient.held
      (brings_payload more word (known_still known rfl (Nat.le_refl _)) trial.fulfil) fun a t comes => ?_
    cases comes with
    | failed deferreds restored =>
      refine ⟨d, by rw [deferreds]; exact more.found, .failed ?_ fun legible => ?_⟩
      · change t.deferreds.set id d = s.deferreds
        rw [deferreds]
        exact Table.set_back pending.found _
      · exact (restored ⟨legible.spare, legible.last⟩).around pending.found
    | succeeded usable deferreds config decides =>
      refine ⟨{ d with settled := true, resolve := none, reject := none }, by simp [deferreds], .succeeded
        ⟨usable.opened, usable.ready, usable.fresh⟩ ?_ config decides⟩
      change t.deferreds.set id _ = s.deferreds.set id _
      rw [deferreds, Table.set_set]
      exact Table.set_set s.deferreds id _ _

/-- What has been settled is not settled again. -/
theorem brings_again (settled : s.Settled id d) (word : s.config.maxBytes < UInt64.size) (payload : Payload)
    (fulfil : Bool) : r.Brings (payload.attempt id fulfil).run s fun a t =>
      s.Restored t ∧ ∀ h, payload = .handle h -> a = .ok () := by
  have nothing {s : Desk} (settled : s.Settled id d) (h : Handle) :
      r.Yields (Attempt.settle id fulfil h).run s (.ok ()) s := by
    refine brings_after (yields_checkAccess settled.usable.opened _) (brings_looking fun w here => ?_)
    have slot : w.deferreds.get? id = some d := (congrArg (fun s => s.deferreds.get? id) here).trans settled.found
    simp only [slot, settled.settled, if_true]
    exact yields_pure ()
  cases payload with
  | handle h =>
    refine (nothing settled h).imp ?_
    rintro _ _ ⟨rfl, rfl⟩
    exact ⟨.refl settled.usable, fun _ _ => rfl⟩
  | snapshot v =>
    refine brings_attempt (brings_fromSnapshot settled.usable word v) ?_ ?_
    · intro e t converted
      cases converted with
      | failed restored => exact ⟨restored, by simp⟩
    · intro h t converted
      cases converted with
      | made gained grown =>
        have usable := settled.usable.more gained (grown.ready settled.usable.ready)
        have still : t.Settled id d := ⟨gained.deferreds ▸ settled.found, settled.held, settled.settled, usable⟩
        refine brings_holding ((nothing still h).imp ?_)
        rintro _ _ ⟨-, rfl⟩
        exact ⟨gained.restored settled.usable grown (.refl usable), by simp⟩

theorem brings_ignored (settled : s.Settled id d) (word : s.config.maxBytes < UInt64.size) :
    r.Brings (trial.attempt id) s fun a t => s.Restored t ∧ ∀ h, trial.payload = .handle h -> a = .ok () := by
  have patient := settled.patient trial.patience
  refine brings_then (yields_patience trial.patience) ?_
  cases trial.cloned with
  | false => exact (brings_again patient word trial.payload trial.fulfil).imp fun a t => And.imp_left Restored.patient
  | true =>
    have more := patient.withHolders (Nat.le_add_left 1 d.holders)
    refine brings_throughClone patient.found patient.held (brings_again more word trial.payload trial.fulfil) fun a t post => ?_
    exact ⟨d, post.1.deferreds ▸ more.found, post.1.around settled.found, post.2⟩

end Runner

namespace Trial

variable {t : Trial} {r : Runner} {id : DeferredId} {w : World}

theorem run_ended {Q : Except Error Unit -> Desk -> Prop} (brings : r.Brings (t.attempt id) w.desk Q) :
    ∃ a, LoopM.result (t.run r id) w = some a ∧ Q a (LoopM.final (t.run r id) w).desk := by
  have same : ((Duty.deadline t.deadline).apply w.arrive).desk = w.desk := w.desk_arrive
  exact brings.ended _ same

end Trial

/-- An attempt that was made, with its answer if it came to an end. -/
structure Tried where
  trial : Trial
  before : World
  answer : Option (Except Error Unit)
  after : World

namespace Tried

variable {r : Runner} {t : Trial} {x : Tried} {id : DeferredId} {p : Ptr} {others : List Ptr} {d : Deferred} {w : World}

def start (r : Runner) (id : DeferredId) (t : Trial) (w : World) : Tried :=
  ⟨t, w, LoopM.result (t.run r id) w, LoopM.final (t.run r id) w⟩

/-- There was room for the texts of errors. -/
def Roomy (x : Tried) : Prop :=
  Link.Legible x.before.desk.link x.after.desk.link

instance (x : Tried) : Decidable x.Roomy :=
  inferInstanceAs (Decidable (Link.Legible x.before.desk.link x.after.desk.link))

/-- Everything is as it was, so another attempt can be made. -/
structure Failed (id : DeferredId) (p : Ptr) (x : Tried) : Prop where
  answer : ∃ e, x.answer = some (.error e)
  pending : x.after.desk.heap.promiseState p = some .pending
  unsettled : (x.after.deferreds.get? id).map Deferred.settled = some false
  usable : ∀ fulfil, ∃ c n, (x.after.deferreds.get? id).bind (Deferred.capability · fulfil) = some c ∧
    x.after.desk.Owns c n ∧ x.after.desk.heap.resolver? c.ptr = some (p, !fulfil)
  unresolved : (x.after.desk.heap.promise? p).map PromiseRecord.resolved = some false
  values : x.after.desk.heap.liveCount = x.before.desk.heap.liveCount
  handles : x.after.worker.vault.liveHandles = x.before.worker.vault.liveHandles
  restored : x.before.desk.Restored x.after.desk

structure Succeeded (id : DeferredId) (p : Ptr) (x : Tried) : Prop where
  answer : x.answer = some (.ok ())
  settled : (x.after.deferreds.get? id).map Deferred.settled = some true
  decides : x.trial.payload.Decides x.before.desk.heap p (!x.trial.fulfil) x.after.desk.heap

/-- The attempt came too late. It is only making a value for it that may fail. -/
structure Ignored (id : DeferredId) (p : Ptr) (x : Tried) : Prop where
  answer : ∃ a, x.answer = some a ∧ ∀ h, x.trial.payload = .handle h -> a = .ok ()
  settled : (x.after.deferreds.get? id).map Deferred.settled = some true
  promise : x.after.desk.heap.promise? p = x.before.desk.heap.promise? p
  values : x.after.desk.heap.liveCount = x.before.desk.heap.liveCount
  handles : x.after.worker.vault.liveHandles = x.before.worker.vault.liveHandles
  restored : x.before.desk.Restored x.after.desk

theorem failed_restored {e : Error} (pending : x.before.desk.Pending id p others d) (answer : x.answer = some (.error e))
    (restored : x.before.desk.Restored x.after.desk) : x.Failed id p := by
  have later := restored.pending pending
  have found : x.after.deferreds.get? id = some d := later.found
  obtain ⟨record, promise, settlement, resolved⟩ := later.unresolved
  refine ⟨⟨e, answer⟩, ?_, ?_, fun fulfil => ?_, ?_, restored.liveCount, restored.liveHandles, restored⟩
  · simp [Heap.promiseState, promise, settlement, Settlement.state]
  · simp [found, pending.unsettled]
  · obtain ⟨c, n, held, owns, able⟩ := later.capable fulfil
    exact ⟨c, n, by simp [found, held], owns, able⟩
  · simp [promise, resolved]

theorem ignored_restored {a : Except Error Unit} (settled : x.before.desk.Settled id d) (answer : x.answer = some a)
    (handled : ∀ h, x.trial.payload = .handle h -> a = .ok ()) (restored : x.before.desk.Restored x.after.desk) :
    x.Ignored id p := by
  have found : x.after.deferreds.get? id = some d := (restored.settled settled).found
  refine ⟨⟨a, answer, handled⟩, by simp [found, settled.settled], ?_, restored.liveCount, restored.liveHandles, restored⟩
  simp only [Heap.promise?, restored.heap]

theorem start_pending (pending : w.desk.Pending id p others d) (word : w.desk.config.maxBytes < UInt64.size)
    (known : t.payload.Known p others w.desk) (room : (start r id t w).Roomy) :
    (start r id t w).Failed id p ∨ ((start r id t w).Succeeded id p ∧ (start r id t w).after.desk.config = w.desk.config ∧
      ∃ d', (start r id t w).after.desk.Settled id d') := by
  obtain ⟨a, answer, comes⟩ := Trial.run_ended (Runner.brings_trial (r := r) pending word known)
  cases comes with
  | failed deferreds restored => exact .inl (failed_restored pending answer (restored room))
  | succeeded usable deferreds config decides =>
    have found : (start r id t w).after.deferreds.get? id =
        some { d with settled := true, resolve := none, reject := none } := by
      have set : (start r id t w).after.deferreds = _ := deferreds
      simp [set]
    exact .inr ⟨⟨answer, by simp [found], decides⟩, config, _, found, pending.held, rfl, usable⟩

theorem start_settled (settled : w.desk.Settled id d) (word : w.desk.config.maxBytes < UInt64.size) :
    (start r id t w).Ignored id p := by
  have ignored : r.Brings (t.attempt id) w.desk _ := Runner.brings_ignored settled word
  obtain ⟨a, answer, restored, handled⟩ := Trial.run_ended ignored
  exact ignored_restored settled answer handled restored

end Tried

/-- Attempts one after the other, whether or not they succeed. -/
def tries (r : Runner) (id : DeferredId) : List Trial -> World -> List Tried
  | [], _ => []
  | t :: rest, w => .start r id t w :: tries r id rest (Tried.start r id t w).after

/-- Attempts fail until one succeeds, and from then on nothing happens. -/
inductive Course (id : DeferredId) (p : Ptr) : List Tried -> Prop
  | nothing : Course id p []
  | failed {x : Tried} {rest : List Tried} (failed : x.Failed id p) (later : Course id p rest) : Course id p (x :: rest)
  | succeeded {x : Tried} {rest : List Tried} (succeeded : x.Succeeded id p) (later : ∀ y ∈ rest, y.Ignored id p) :
      Course id p (x :: rest)

section Tries

variable {r : Runner} {id : DeferredId} {p : Ptr} {others : List Ptr} {d : Deferred} {w : World} {trials : List Trial}

theorem tries_settled (settled : w.desk.Settled id d) (word : w.desk.config.maxBytes < UInt64.size) :
    ∀ x ∈ tries r id trials w, x.Ignored id p := by
  induction trials generalizing w with
  | nil => simp [tries]
  | cons t rest ih =>
    have ignored : (Tried.start r id t w).Ignored id p := Tried.start_settled settled word
    intro x member
    rcases List.mem_cons.1 member with rfl | later
    · exact ignored
    · exact ih (ignored.restored.settled settled) (ignored.restored.config ▸ word) x later

/-- Attempts to settle a deferred, through whatever clones and however they are interrupted: one that fails leaves
everything as it was, the first that succeeds settles the promise with its own value, and later ones change
nothing. -/
theorem tries_course (pending : w.desk.Pending id p others d) (word : w.desk.config.maxBytes < UInt64.size)
    (known : ∀ t ∈ trials, t.payload.Known p others w.desk) (room : ∀ x ∈ tries r id trials w, x.Roomy) :
    Course id p (tries r id trials w) := by
  induction trials generalizing w with
  | nil => exact .nothing
  | cons t rest ih =>
    have here := room _ List.mem_cons_self
    have there : ∀ x ∈ tries r id rest (Tried.start r id t w).after, x.Roomy := fun x member =>
      room x (List.mem_cons_of_mem _ member)
    rcases Tried.start_pending pending word (known t List.mem_cons_self) here with failed | ⟨succeeded, config, d', settled⟩
    · refine .failed failed (ih (failed.restored.pending pending) (failed.restored.config ▸ word) (fun t member => ?_) there)
      exact Desk.known_still (known t (List.mem_cons_of_mem _ member)) failed.restored.alive failed.restored.next
    · exact .succeeded succeeded (tries_settled settled (config ▸ word))

end Tries

section Waiting

def waitingDeferred : Deferred :=
  ⟨some ⟨16, .owned, some 0⟩, some ⟨17, .owned, some 1⟩, some ⟨18, .owned, some 2⟩, false, 1⟩

/-- A world in which there is just one deferred. -/
def waitingWorld : World :=
  { World.empty with
    worker := { World.empty.worker with vault :=
      { Vault.ofLink { Link.empty with engine := { Engine.empty with heap := Heap.empty.newCapability.2 } } with
        alive := [2, 1, 0]
        nextReference := 3 } }
    deferreds := Table.empty.set 0 waitingDeferred
    nextDeferred := 1 }

theorem accounted_waiting : Heap.empty.newCapability.2.Accounted 0 [16, 17, 18] := by
  have nothing : Heap.empty.Accounted 0 [] := ⟨Nat.zero_le _, fun _ => Heap.Balanced.empty⟩
  have pointers : Heap.empty.newCapability.1 = (16, 17, 18) := by decide +kernel
  have made := nothing.newCapability
  rwa [pointers] at made

theorem pending_waiting : waitingWorld.desk.Pending 0 16 [] waitingDeferred where
  found := rfl
  held := Nat.le_refl 1
  unsettled := rfl
  promise := rfl
  capable fulfil := by
    cases fulfil
    · exact ⟨⟨18, .owned, some 2⟩, 2, rfl, ⟨rfl, rfl, by decide⟩, by decide +kernel⟩
    · exact ⟨⟨17, .owned, some 1⟩, 1, rfl, ⟨rfl, rfl, by decide⟩, by decide +kernel⟩
  unresolved := ⟨.fresh, by decide +kernel, rfl, rfl⟩
  sound :=
    ⟨⟨rfl, ⟨rfl, Memory.wellFormed_empty, accounted_waiting.counted, by decide +kernel⟩, by decide⟩, accounted_waiting⟩

def waitingTrials : List Trial :=
  [⟨false, some 0, none, true, .snapshot (.text "first")⟩, ⟨true, none, none, false, .handle (.ofBorrowed Ptr.null)⟩,
    ⟨false, some 0, none, true, .snapshot (.text "last")⟩]

/-- The first attempt is interrupted, the second goes through a clone, and the third comes too late. -/
theorem tries_waiting :
    (tries .flat 0 waitingTrials waitingWorld).map (fun x => x.answer.map Except.isOk) = [some false, some true, some true] ∧
      Course 0 16 (tries .flat 0 waitingTrials waitingWorld) := by
  have known : ∀ t ∈ waitingTrials, t.payload.Known 16 [] waitingWorld.desk := by
    simp only [waitingTrials, List.forall_mem_cons]
    exact ⟨trivial, ⟨nofun, fun _ => .inl (by decide)⟩, trivial, by simp⟩
  exact ⟨by decide +kernel, tries_course pending_waiting (by decide) known (by decide +kernel)⟩

end Waiting

end ScriptHost
