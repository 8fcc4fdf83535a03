import ScriptHost.Proofs.Engine.Spreading

set_option autoImplicit false

/-!
Forests of promises that a host builds.

The host makes a root, derives promises from others and resolves promises with others in any order, and settles the
root at some time. When it has the jobs executed then, the whole tree below the root takes up the outcome.
-/

namespace ScriptHost

namespace Hosting

variable {s : Hosting} {d : Discipline}

theorem disciplined_append {before after : List Move} (allowed : s.Disciplined d (before ++ after)) :
    s.Disciplined d before ∧ (s.run before).Disciplined d after := by
  induction before generalizing s with
  | nil => exact ⟨trivial, allowed⟩
  | cons m rest ih =>
    obtain ⟨first, next⟩ := ih allowed.2
    exact ⟨⟨allowed.1, first⟩, next⟩

/-- The arguments of the innermost call, if that is about to start. -/
def passing (s : Hosting) : List Ptr :=
  match s.waiting with
  | .checking c :: _ => c.arguments
  | _ => []

theorem allowed_poll {interrupted : Bool} (owned : ∀ p ∈ s.passing, p ∈ s.owned) : s.Allowed d (.poll interrupted) := by
  cases waiting : s.waiting with
  | nil => simp [Allowed, waiting]
  | cons w rest =>
    cases w with
    | checking c =>
      simp only [Allowed, passing, waiting] at owned ⊢
      exact fun p member => .inl (.inr (owned p member))
    | calling i frame => simp [Allowed, waiting]

end Hosting

namespace Grove

variable {f : Grove} {s : Hosting} {m : Move} {out : Addr}

/-- What is grown by several moves. -/
def grow (f : Grove) (s : Hosting) : List Move -> Grove
  | [] => f
  | m :: rest => (f.tend s m).grow (s.step m) rest

def Grows (f : Grove) (s : Hosting) : List Move -> Prop
  | [] => True
  | m :: rest => f.Tends s m ∧ (f.tend s m).Grows (s.step m) rest

theorem Tended.run (moves : List Move) (tended : f.Tended s) (allowed : s.Disciplined .owning moves) (grows : f.Grows s moves) :
    (f.grow s moves).Tended (s.run moves) := by
  induction moves generalizing f s with
  | nil => exact tended
  | cons m rest ih => exact ih (tended.step allowed.1 grows.1) allowed.2 grows.2

/-- A root is planted where nothing else is under way. -/
theorem tended_seed (sound : s.Sound .owning) (steady : Steady s.state) (calm : s.tasks = []) (idle : s.engine.heap.jobs = [])
    (allowed : s.Allowed .owning (.request (.newPromiseCapability out))) :
    (Grove.seed s.engine.heap.newPromise.1).Tended (s.step (.request (.newPromiseCapability out))) := by
  have fit : Hosting.Fit .owning s (.request (.newPromiseCapability out)) := ⟨sound, allowed, .inl rfl, steady⟩
  refine ⟨Hosting.step_sound sound allowed, Hosting.step_steady fit, (Hosting.request_tasks s _).trans calm, ?_⟩
  have less := (Heap.newCapability_empowers s.engine.heap).forgets
  have planted : s.engine.heap.newPromise.2.affairs.jobs = [] ∧
      ∀ r, s.engine.heap.newPromise.2.affairs.promises.get? s.engine.heap.newPromise.1 = some r -> r = .fresh := by
    rcases Heap.newPromise_cases s.engine.heap with ⟨n, -, -, -, pointer, begun⟩ | full
    next =>
      rw [pointer, begun]
      exact ⟨idle, fun r found => by simpa [Affairs.begin, eq_comm] using found⟩
    next =>
      have absent : s.engine.heap.affairs.promises.get? 0 = none := sound.heap.static_absent (.inl rfl) Heap.zero_small
      rw [full]
      exact ⟨idle, fun r found => by cases absent.symm.trans found⟩
  rw [Hosting.capability_heap]
  exact .seed _ (less.jobs.trans planted.1) fun r found => planted.2 r (less.promise found)

end Grove

/-- A host makes a root at some time and builds on it. -/
structure Growth where
  before : List Move
  out : Addr
  after : List Move

namespace Growth

variable (g : Growth)

def moves : List Move :=
  g.before ++ .request (.newPromiseCapability g.out) :: g.after

/-- The host when it has just made the root. -/
def planted : Hosting :=
  (Hosting.start.run g.before).step (.request (.newPromiseCapability g.out))

def seed : Grove :=
  .seed (Hosting.start.run g.before).engine.heap.newPromise.1

def grove : Grove :=
  g.seed.grow g.planted g.after

/-- No job waits or runs when the root is made, and none is started while the rest is built. -/
structure Lawful : Prop where
  allowed : Hosting.start.Disciplined .owning g.moves
  calm : (Hosting.start.run g.before).tasks = []
  idle : (Hosting.start.run g.before).engine.heap.jobs = []
  grows : g.seed.Grows g.planted g.after

variable {g}

theorem Lawful.tended (lawful : g.Lawful) : g.grove.Tended (Hosting.start.run g.moves) := by
  obtain ⟨before, made, after⟩ := Hosting.disciplined_append lawful.allowed
  obtain ⟨sound, steady⟩ := Hosting.run_kept g.before Hosting.start_sound Hosting.start_steady before
  have whole : Hosting.start.run g.moves = g.planted.run g.after := List.foldl_append
  exact whole ▸ (Grove.tended_seed sound steady lawful.calm lawful.idle made).run g.after after lawful.grows

/-- However the promises were hung on one another, before the root settled or after, the jobs come to an end, and all
promises below the root take up its very outcome. -/
theorem run_spreads (g : Growth) (lawful : g.Lawful) (v : Ptr) (rejected : Bool) (settled : g.grove.outcome = some (v, rejected)) :
    ∃ n, g.grove.Spread v rejected (Hosting.start.run g.moves).engine.heap.rejections ((Hosting.start.run g.moves).drain n) :=
  lawful.tended.spreads settled

/-- Derives a promise from the root, resolves another one with that, rejects the root, and derives a promise from the
other one. -/
def chained : Growth :=
  ⟨[.allocate 8, .allocate 8, .allocate 4], 16,
    [.request (.promiseThen 16 none none), .request (.newPromiseCapability 24), .write 32 ⟨#[19, 0, 0, 0]⟩,
      .call 21 Ptr.undefined 1 32, .poll false, .call 18 Ptr.undefined 0 0, .poll false,
      .request (.promiseThen 20 none none)]⟩

theorem chained_disciplined : Hosting.start.Disciplined .owning chained.moves := by
  have derives (s : Hosting) (q : Ptr) : s.Allowed .owning (.request (.promiseThen q none none)) :=
    ⟨by simp [Request.passedOn], by simp [Request.givenUp], by simp [Request.Writable, Request.outPointers],
      by simp [Request.clears]⟩
  have makes (s : Hosting) (out : Addr) (inside : s.engine.memory.Inside out.toNat 8) :
      s.Allowed .owning (.request (.newPromiseCapability out)) :=
    ⟨by simp [Request.passedOn], by simp [Request.givenUp], by simp [Request.Writable, Request.outPointers, inside],
      by simp [Request.clears]⟩
  have passing : (Hosting.start.run (chained.moves.take 8)).passing = [19] := by decide +kernel
  have owned : 19 ∈ (Hosting.start.run (chained.moves.take 8)).owned := by decide +kernel
  have passes : (Hosting.start.run (chained.moves.take 8)).Allowed .owning (.poll false) :=
    Hosting.allowed_poll fun p member => by
      rw [passing, List.mem_singleton] at member
      exact member ▸ owned
  exact ⟨trivial, trivial, trivial, makes _ _ ⟨(16, 8), by decide +kernel, by decide⟩, derives _ _,
    makes _ _ ⟨(24, 8), by decide +kernel, by decide⟩, trivial, trivial, passes, trivial,
    fun p member => absurd member List.not_mem_nil, derives _ _, trivial⟩

theorem chained_grows : chained.seed.Grows chained.planted chained.after := by
  have resolves (f : Grove) (s : Hosting) (p v : Ptr) (reject : Bool) (target : s.resolving (.poll false) = some (p, v, reject))
      (fits : p ∈ f.planted ∧ if f.root = some p then reject = true ∨ v = p ∨ s.engine.heap.isPromise v = false
        else reject = false ∧ v ≠ p ∧ v ∈ f.planted ∧ s.engine.heap.isPromise v = true) : f.Tends s (.poll false) := by
    rintro p' v' reject' target' -
    cases target.symm.trans target'
    exact fits
  have adopts := resolves (chained.seed.grow chained.planted (chained.after.take 4))
    (chained.planted.run (chained.after.take 4)) 20 19 false (by decide +kernel) (by decide +kernel)
  have rejects := resolves (chained.seed.grow chained.planted (chained.after.take 6))
    (chained.planted.run (chained.after.take 6)) 16 Ptr.undefined true (by decide +kernel) (by decide +kernel)
  exact ⟨fun _ => ⟨by decide +kernel, rfl, rfl⟩, rfl, nofun, nofun, adopts, nofun, rejects,
    fun _ => ⟨by decide +kernel, rfl, rfl⟩, trivial⟩

theorem chained_lawful : chained.Lawful :=
  ⟨chained_disciplined, rfl, rfl, chained_grows⟩

theorem chained_spreads : chained.Lawful ∧ chained.grove.outcome = some (Ptr.undefined, true) ∧
    ∃ n, chained.grove.Spread Ptr.undefined true (Hosting.start.run chained.moves).engine.heap.rejections
      ((Hosting.start.run chained.moves).drain n) := by
  have settled : chained.grove.outcome = some (Ptr.undefined, true) := by decide +kernel
  exact ⟨chained_lawful, settled, run_spreads chained chained_lawful Ptr.undefined true settled⟩

end Growth

end ScriptHost
