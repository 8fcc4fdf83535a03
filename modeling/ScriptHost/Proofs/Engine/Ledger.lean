import ScriptHost.Proofs.Engine.Endings

set_option autoImplicit false

/-!
The ledger of a run: the tickets of all reactions, and what has become of the jobs that were taken.

Jobs are numbered in the order in which they were queued. Those under way wait for their host on one stack, each with
its number.
-/

namespace ScriptHost

/-- What has become of a job that has left the queue. -/
inductive JobCourse where
  -- No function of the host has run for it.
  | begun
  | running (i : Invocation)
  | finished (call : Option Invocation) (e : Upshot)

namespace JobCourse

def call? : JobCourse -> Option Invocation
  | begun => none
  | running i => some i
  | finished call _ => call

def isOver : JobCourse -> Bool
  | finished _ _ => true
  | _ => false

end JobCourse

/-- How a job under way waits for its host. -/
inductive Waiting.Shows (j : Job) : JobCourse -> Waiting -> Prop where
  | taken : Shows j .begun (.checking (.job j))
  | called (f : Ptr) (handler : j.handler = some f) : Shows j .begun (.checking (.handler j f))
  | running (i : Invocation) (f : Ptr) (table : Addr) (handler : j.handler = some f) :
      Shows j (.running i) (.calling i (.handler j table))

theorem Waiting.Shows.job? {j : Job} {c : JobCourse} {w : Waiting} (shows : w.Shows j c) : w.job? = some j ∧ c.isOver = false := by
  cases shows <;> exact ⟨rfl, rfl⟩

structure Ledger where
  tickets : List Ticket
  -- By number, of the jobs that have left the queue.
  courses : List JobCourse
  -- The numbers of those that are under way, innermost first.
  running : List Nat

inductive Standing where
  | stored
  | queued
  | executing
  | finished
  | discarded
  deriving DecidableEq

/-- What waits for the host on behalf of jobs. -/
def Hosting.underWay (s : Hosting) : List Waiting :=
  s.waiting.filter fun w => w.job?.isSome

namespace Ledger

variable {Q Q' : List Job} {L : Ledger} {w w' : Waiting} {stack : List Waiting} {n : Nat} {ns : List Nat} {c c' : JobCourse}
variable {j : Job}

def empty : Ledger :=
  ⟨[], [], []⟩

/-- The one place where the reaction is. -/
def standing (L : Ledger) (t : Ticket) : Standing :=
  match t.place with
  | .stored => .stored
  | .discarded => .discarded
  | .job n _ _ =>
      match L.courses[n]? with
      | none => .queued
      | some (.finished _ _) => .finished
      | some _ => .executing

/-- What it says of the state that the reaction is in this place. -/
def Holds (s : Hosting) (L : Ledger) (t : Ticket) : Standing -> Prop
  | .stored => t.place = .stored ∧
      ∃ r, s.engine.heap.promise? t.source = some r ∧ r.settlement = .pending ∧ t.reaction ∈ r.reactions
  | .queued => ∃ n v rejected, t.place = .job n v rejected ∧ s.engine.heap.taken.length ≤ n ∧
      s.engine.heap.jobs[n - s.engine.heap.taken.length]? = some (t.reaction.job v rejected)
  | .executing => ∃ (n : Nat) (v : Ptr) (rejected : Bool) (i : Nat) (w : Waiting), t.place = .job n v rejected ∧
      L.running[i]? = some n ∧ s.underWay[i]? = some w ∧ w.job? = some (t.reaction.job v rejected)
  | .finished => ∃ n v rejected call e, t.place = .job n v rejected ∧ L.courses[n]? = some (.finished call e)
  | .discarded => t.place = .discarded

/-- The numbers of jobs and what waits for them, one for one. `Q` lists all jobs that were ever queued. -/
structure Stacked (Q : List Job) (L : Ledger) (stack : List Waiting) : Prop where
  distinct : L.running.Nodup
  under : ∀ n c, L.courses[n]? = some c -> (n ∈ L.running ↔ c.isOver = false)
  waits : List.Forall₂ (fun n w => ∃ j c, Q[n]? = some j ∧ L.courses[n]? = some c ∧ w.Shows j c) L.running stack

theorem getElem?_of_forall₂ {α β : Type} {R : α -> β -> Prop} {xs : List α} {ys : List β} {x : α} {i : Nat}
    (related : List.Forall₂ R xs ys) (found : xs[i]? = some x) : ∃ y, ys[i]? = some y ∧ R x y := by
  induction related generalizing i with
  | nil => cases found
  | cons here _ ih =>
    cases i with
    | zero =>
      obtain rfl := Option.some.inj found
      exact ⟨_, rfl, here⟩
    | succ i => exact ih found

namespace Stacked

theorem empty : Stacked [] empty [] where
  distinct := .nil
  under n c found := by cases found
  waits := .nil

theorem grow (stacked : Stacked Q L stack) (more : Q <+: Q') : Stacked Q' L stack where
  distinct := stacked.distinct
  under := stacked.under
  waits := by
    obtain ⟨late, rfl⟩ := more
    refine stacked.waits.imp fun n w ⟨j, c, queued, course, shows⟩ => ⟨j, c, ?_, course, shows⟩
    rw [List.getElem?_append_left (List.getElem?_eq_some_iff.1 queued).1, queued]

theorem begun (stacked : Stacked Q L stack) (running : n ∈ L.running) : n < L.courses.length := by
  obtain ⟨i, found⟩ := List.mem_iff_getElem?.1 running
  obtain ⟨w, -, j, c, -, course, -⟩ := getElem?_of_forall₂ stacked.waits found
  exact (List.getElem?_eq_some_iff.1 course).1

/-- The next job is taken. -/
theorem take (stacked : Stacked Q L stack) (queued : Q[L.courses.length]? = some j) (tickets : List Ticket) :
    Stacked Q ⟨tickets, L.courses ++ [.begun], L.courses.length :: L.running⟩ (.checking (.job j) :: stack) where
  distinct := List.nodup_cons.2 ⟨fun member => Nat.lt_irrefl _ (stacked.begun member), stacked.distinct⟩
  under n c found := by
    rcases Nat.lt_trichotomy n L.courses.length with old | rfl | past
    next =>
      rw [List.getElem?_append_left old] at found
      simpa [Nat.ne_of_lt old] using stacked.under n c found
    next =>
      obtain rfl : .begun = c := by simpa using found
      simp [JobCourse.isOver]
    next =>
      rw [List.getElem?_eq_none (by simp; omega)] at found
      cases found
  waits := by
    refine .cons ⟨j, .begun, queued, by simp, .taken⟩ (stacked.waits.imp fun n w ⟨j', c, queued', course, shows⟩ => ?_)
    refine ⟨j', c, queued', ?_, shows⟩
    rw [List.getElem?_append_left (List.getElem?_eq_some_iff.1 course).1, course]

theorem others (stacked : Stacked Q L (w :: stack)) (head : L.running = n :: ns) (c' : JobCourse) :
    List.Forall₂ (fun k w => ∃ j c, Q[k]? = some j ∧ (L.courses.set n c')[k]? = some c ∧ w.Shows j c) ns stack := by
  have waits := stacked.waits
  have distinct := stacked.distinct
  rw [head] at waits distinct
  obtain ⟨first, -⟩ := List.nodup_cons.1 distinct
  cases waits with
  | cons _ rest =>
    have apart (k : Nat) (member : k ∈ ns) : n ≠ k := fun same => first (same ▸ member)
    refine ((List.forall₂_and_left _ _).2 ⟨apart, rest⟩).imp fun k w ⟨other, j, c, queued, course, shows⟩ => ?_
    exact ⟨j, c, queued, (List.getElem?_set_ne other).trans course, shows⟩

theorem under_set (stacked : Stacked Q L stack) {k : Nat} (found : (L.courses.set n c')[k]? = some c) :
    (k = n ∧ c = c') ∨ k ≠ n ∧ (k ∈ L.running ↔ c.isOver = false) := by
  by_cases same : k = n
  next =>
    subst same
    have inside : k < L.courses.length := by simpa using (List.getElem?_eq_some_iff.1 found).1
    rw [List.getElem?_set_self inside] at found
    exact .inl ⟨rfl, (Option.some.inj found).symm⟩
  next =>
    rw [List.getElem?_set_ne (Ne.symm same)] at found
    exact .inr ⟨same, stacked.under k c found⟩

/-- The innermost job goes on. -/
theorem turn (stacked : Stacked Q L (w :: stack)) (head : L.running = n :: ns) (queued : Q[n]? = some j) (shows : w'.Shows j c')
    (tickets : List Ticket) : Stacked Q ⟨tickets, L.courses.set n c', L.running⟩ (w' :: stack) where
  distinct := stacked.distinct
  under k c found := by
    rcases stacked.under_set found with ⟨rfl, rfl⟩ | ⟨-, same⟩
    next => simp [head, shows.job?.2]
    next => exact same
  waits := by
    have inside : n < L.courses.length := stacked.begun (head ▸ List.mem_cons_self)
    have kept := stacked.others head c'
    simp only [head]
    exact .cons ⟨j, c', queued, List.getElem?_set_self inside, shows⟩ kept

/-- The innermost job ends. -/
theorem finish (stacked : Stacked Q L (w :: stack)) (head : L.running = n :: ns) (call : Option Invocation) (e : Upshot)
    (tickets : List Ticket) : Stacked Q ⟨tickets, L.courses.set n (.finished call e), ns⟩ stack where
  distinct := (List.nodup_cons.1 (head ▸ stacked.distinct)).2
  under k c found := by
    rcases stacked.under_set found with ⟨rfl, rfl⟩ | ⟨other, same⟩
    next => simpa [JobCourse.isOver] using (List.nodup_cons.1 (head ▸ stacked.distinct)).1
    next => simpa [head, other] using same
  waits := stacked.others head _

end Stacked

end Ledger

end ScriptHost
