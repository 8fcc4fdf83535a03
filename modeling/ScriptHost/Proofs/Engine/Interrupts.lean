import Mathlib
import ScriptHost.Proofs.Engine.Effects

set_option autoImplicit false

/-!
What interrupts do to the jobs of a run.

A job waits for its host once or twice, on top of whatever waits already. Whichever way it ends, its derived
promise is not lost, unless the host interrupts it the first time that it asks.
-/

namespace ScriptHost

namespace Waiting

/-- The job that waits. -/
def job? : Waiting -> Option Job
  | checking (.job j) | checking (.handler j _) | calling _ (.handler j _) => some j
  | checking (.call _ _ _ _) | calling _ .call => none

end Waiting

def Stage.waiting? : Stage -> Option Waiting
  | .done _ => none
  | .checking c => some (.checking c)
  | .calling i f => some (.calling i f)

theorem Engine.afterCheck_job {s : Engine} {interrupted : Bool} {c : Check} {w : Waiting}
    (waits : (s.afterCheck interrupted c).1.waiting? = some w) : w.job? = (Waiting.checking c).job? := by
  cases c with
  | job j =>
    simp only [afterCheck] at waits
    split at waits
    next => cases waits
    next =>
      split at waits
      next => cases waits
      next => exact (Option.some.inj waits) ▸ rfl
  | call function this args table =>
    simp only [afterCheck, runCall] at waits
    split at waits
    next => cases waits
    next => exact (Option.some.inj waits) ▸ rfl
  | handler j function =>
    simp only [afterCheck, runHandler] at waits
    split at waits
    next => cases waits
    next =>
      split at waits
      next =>
        split at waits
        next => cases waits
        next => exact (Option.some.inj waits) ▸ rfl
      next => cases waits

namespace Hosting

variable {d : Discipline} {s : Hosting} {m : Move} {moves : List Move} {i k n : Nat} {j : Job} {p : Ptr}
variable {r : PromiseRecord}

theorem enter_waiting (s : Hosting) (hands : Scalar -> List Ptr) (r : Stage × Engine) :
    (s.enter hands r).waiting = r.1.waiting?.toList ++ s.waiting := by
  obtain ⟨stage, engine⟩ := r
  rcases stage with (_ | answer) | c | ⟨i, f⟩ <;> rfl

/-- A move puts something on top of what waits, or it goes on with the innermost of it or ends that. -/
theorem step_waiting (s : Hosting) (m : Move) :
    (∃ new, (s.step m).waiting = new ++ s.waiting) ∨
      ∃ w rest, s.waiting = w :: rest ∧
        ((s.step m).waiting = rest ∨ ∃ w', (s.step m).waiting = w' :: rest ∧ w'.job? = w.job?) := by
  cases m with
  | call function this count arguments => exact .inl ⟨_, enter_waiting s _ _⟩
  | job => exact .inl ⟨_, enter_waiting s _ _⟩
  | poll interrupted =>
    simp only [step, poll]
    split
    next c rest waiting =>
      refine .inr ⟨.checking c, rest, waiting, ?_⟩
      rw [enter_waiting]
      cases waits : (s.engine.afterCheck interrupted c).1.waiting? with
      | none => exact .inl rfl
      | some w => exact .inr ⟨w, rfl, Engine.afterCheck_job waits⟩
    next => exact .inl ⟨[], rfl⟩
  | answer p =>
    simp only [step, answer]
    split
    next inv f rest waiting => exact .inr ⟨.calling inv f, rest, waiting, .inl rfl⟩
    next => exact .inl ⟨[], rfl⟩
  | _ => exact .inl ⟨[], rfl⟩

/-- The job is taken at the `i`-th move and ends with the `k`-th. -/
structure Spans (moves : List Move) (j : Job) (i k : Nat) : Prop where
  taken : moves[i]? = some .job
  first : (after moves i).engine.heap.jobs.head? = some j
  later : i < k
  running : ∀ n, i < n -> n ≤ k -> (after moves i).waiting.length < (after moves n).waiting.length
  closes : (after moves (k + 1)).waiting.length ≤ (after moves i).waiting.length

/-- The host interrupts the job before it starts. -/
def Cuts (moves : List Move) (j : Job) (k : Nat) : Prop :=
  moves[k]? = some (.poll true) ∧ (after moves k).waiting.head? = some (.checking (.job j))

theorem Spans.waits (spans : Spans moves j i k) (after_i : i < n) (by_k : n ≤ k) :
    ∃ above w, (after moves n).waiting = above ++ w :: (after moves i).waiting ∧ w.job? = some j := by
  induction n with
  | zero => omega
  | succ n ih =>
    by_cases start : i = n
    next =>
      subst start
      obtain ⟨rest, waiting⟩ : ∃ rest, (after moves i).engine.heap.jobs = j :: rest := by
        have first := spans.first
        cases queue : (after moves i).engine.heap.jobs with
        | nil => simp [queue] at first
        | cons j' rest => exact ⟨rest, by simp_all⟩
      refine ⟨[], .checking (.job j), ?_, rfl⟩
      rw [after_succ spans.taken]
      simp [step, enter_waiting, Engine.beginJob, Heap.takeJob, waiting, Stage.waiting?]
    next =>
      obtain ⟨above, w, waiting, mine⟩ := ih (by omega) (by omega)
      have still := spans.running (n + 1) after_i by_k
      cases here : moves[n]? with
      | none =>
        rw [after_past here]
        exact ⟨above, w, waiting, mine⟩
      | some m =>
        rw [after_succ here] at still ⊢
        rcases step_waiting (after moves n) m with ⟨new, pushed⟩ | ⟨top, rest, before, moved⟩
        next => exact ⟨new ++ above, w, by rw [pushed, waiting, List.append_assoc], mine⟩
        next =>
          rw [waiting] at before
          cases above with
          | nil =>
            obtain ⟨rfl, rfl⟩ := List.cons.inj before
            rcases moved with ended | ⟨w', goes_on, same⟩
            next => simp [ended] at still
            next => exact ⟨[], w', goes_on, same.trans mine⟩
          | cons first others =>
            obtain ⟨rfl, rfl⟩ := List.cons.inj before
            rcases moved with ended | ⟨w', goes_on, -⟩
            next => exact ⟨others, w, ended, mine⟩
            next => exact ⟨w' :: others, w, goes_on, mine⟩

/-- The move that ends a job is made for its innermost entry. -/
theorem Spans.last (spans : Spans moves j i k) :
    ∃ m w, moves[k]? = some m ∧ (after moves k).waiting = w :: (after moves i).waiting ∧ w.job? = some j ∧
      ((after moves k).step m).waiting = (after moves i).waiting := by
  obtain ⟨above, w, waiting, mine⟩ := spans.waits spans.later (Nat.le_refl k)
  have closes := spans.closes
  have height := congrArg List.length waiting
  simp only [List.length_append, List.length_cons] at height
  cases here : moves[k]? with
  | none =>
    rw [after_past here] at closes
    omega
  | some m =>
    rw [after_succ here] at closes
    rcases step_waiting (after moves k) m with ⟨new, pushed⟩ | ⟨top, rest, before, moved⟩
    next =>
      rw [pushed, List.length_append] at closes
      omega
    next =>
      have shape := waiting.symm.trans before
      have depth := congrArg List.length before
      simp only [List.length_cons] at depth
      rcases moved with ended | ⟨w', goes_on, -⟩
      next =>
        rw [ended] at closes
        obtain rfl : above = [] := List.length_eq_zero_iff.1 (by omega)
        obtain ⟨rfl, rfl⟩ := List.cons.inj shape
        exact ⟨m, w, rfl, waiting, mine, ended⟩
      next =>
        rw [goes_on, List.length_cons] at closes
        omega

theorem Fit.undefined_absent (fit : Fit d s m) : s.engine.heap.promise? Ptr.undefined = none := by
  have numbered := fit.numbered.of_le (step_next s m)
  rw [← Heap.get?_promises]
  exact fit.sound.heap.static_absent numbered (by decide)

/-- A job that the host does not interrupt before it starts does not lose its promise, unless the handler answers
with a promise that nobody else holds. -/
theorem step_kept {w : Waiting} {rest : List Waiting} (fit : Fit d s m) (waiting : s.waiting = w :: rest)
    (mine : w.job? = some j) (ended : (s.step m).waiting = rest) (uncut : m = .poll true -> w ≠ .checking (.job j)) :
    Kept (s.step m).engine.heap j.derived ∨
      ∃ v, m = .answer v ∧ Dropped s.engine.heap (s.step m).engine.heap v := by
  have moved : (s.step m).waiting ≠ s.waiting := by
    rw [ended, waiting]
    exact (List.cons_ne_self w rest).symm
  have grown (new : List Waiting) : (s.step m).waiting ≠ new ++ s.waiting := by
    intro same
    have length := congrArg List.length same
    simp only [ended, waiting, List.length_append, List.length_cons] at length
    omega
  cases m with
  | request r => exact absurd rfl moved
  | call function this count arguments => exact absurd (enter_waiting s _ _) (grown _)
  | job => exact absurd (enter_waiting s _ _) (grown _)
  | poll interrupted =>
    cases w with
    | calling inv f => exact absurd (by simp [step, poll, waiting]) moved
    | checking c =>
      have stepped : s.step (.poll interrupted) =
          { s with waiting := rest }.enter c.handedOver (s.engine.afterCheck interrupted c) := by
        simp [step, poll, waiting]
      have closes : (s.engine.afterCheck interrupted c).1.waiting? = none := by
        rw [stepped, enter_waiting] at ended
        simpa using ended
      rw [stepped, enter_engine]
      cases c with
      | call function this args table => cases mine
      | job j' =>
        obtain rfl : j' = j := Option.some.inj mine
        cases interrupted with
        | true => exact absurd rfl (uncut rfl)
        | false =>
          simp only [Engine.afterCheck, Bool.false_eq_true, if_false] at closes ⊢
          cases handler : j'.handler with
          | some function => simp [handler, Stage.waiting?] at closes
          | none =>
            refine .inl (Engine.passThrough_kept s.engine j' fun fulfilled => ?_)
            have plain := fit.steady.argument j' (.inr (by simp [state, tasks, waiting, Waiting.tasks, Check.tasks])) fulfilled
            exact (Heap.get?_promises _ _).symm.trans plain
      | handler j' function =>
        obtain rfl : j' = j := Option.some.inj mine
        cases stage : (s.engine.runHandler interrupted j' function).1 with
        | done answer => exact .inl (Engine.runHandler_kept fit.undefined_absent stage)
        | checking c => simp [Engine.afterCheck, stage, Stage.waiting?] at closes
        | calling inv f => simp [Engine.afterCheck, stage, Stage.waiting?] at closes
  | answer v =>
    cases w with
    | checking c => exact absurd (by simp [step, answer, waiting]) moved
    | calling inv f =>
      cases f with
      | call => cases mine
      | handler j' table =>
        obtain rfl : j' = j := Option.some.inj mine
        have stepped : (s.step (.answer v)).engine = (s.engine.afterHost v (.handler j' table)).2 := by
          simp [step, answer, waiting]
        rw [stepped]
        let freed : Engine := { s.engine with memory := s.engine.memory.free table }
        rcases Engine.endJob_kept (freed.completion v).2 j' (freed.completion v).1 with kept | ⟨v', returned, dropped⟩
        next => exact .inl kept
        next =>
          have same : v' = v ∧ (freed.completion v).2 = freed := by
            unfold Engine.completion Engine.throwing at returned ⊢
            split at returned
            next => split at returned <;> cases returned
            next some => simp_all
          obtain ⟨rfl, unchanged⟩ := same
          have pending := dropped.1
          rw [unchanged] at pending
          exact .inr ⟨v', rfl, pending, dropped.2⟩
  | _ => exact absurd rfl moved

/-- No function of `p` does anything to it any more, if there is one at all. -/
def Spent (p : Ptr) (s : List Task × Affairs) : Prop :=
  ∀ r, s.2.promises.get? p = some r -> r.resolved = true ∨ ∀ f reject, s.2.resolver? f ≠ some (p, reject)

theorem resolving_able {v : Ptr} {reject : Bool} (target : s.resolving m = some (p, v, reject)) :
    ∃ f, s.state.2.resolver? f = some (p, reject) := by
  unfold resolving at target
  split at target
  next =>
    split at target
    next => exact Check.resolving_able target
    next => cases target
  next => cases target

theorem Turns.resolver? {s s' : List Task × Affairs} {f : Ptr} {t : Ptr × Bool} (steps : Turns s s')
    (able : s'.2.resolver? f = some t) : s.2.resolver? f = some t := by
  induction steps with
  | refl => exact able
  | tail _ step ih =>
    apply ih
    cases step with
    | forget less => exact less.resolvers f t able
    | _ => exact able

theorem Opening.resolver? {s s' : List Task × Affairs} {f : Ptr} {reject : Bool} (opening : Opening True s s')
    (here : s.2.promises.get? p = some r) (able : s'.2.resolver? f = some (p, reject)) :
    s.2.resolver? f = some (p, reject) := by
  cases opening with
  | capability n later absent unknown resolvers mine =>
    rcases mine f _ able with old | rfl
    next => exact old
    next => exact absurd (absent.symm.trans here) (by simp)
  | barren nobody resolvers mine =>
    rcases mine f _ able with old | rfl
    next => exact old
    next => exact absurd ((nobody trivial).symm.trans here) (by simp)
  | clear => cases able
  | _ => exact able

/-- New functions are for new promises. -/
theorem step_resolver? {f : Ptr} {reject : Bool} (fit : Fit d s m) (here : s.state.2.promises.get? p = some r)
    (able : (s.step m).state.2.resolver? f = some (p, reject)) : s.state.2.resolver? f = some (p, reject) := by
  rcases fit.course with turns | ⟨-, mid, opening, turns⟩
  next =>
    have called := Turns.resolver? turns able
    rcases called_cases s m with ⟨idle, -⟩ | ⟨q, v, again, x, g, -, -, -, -, marked⟩
    next => exact idle ▸ called
    next =>
      have before : (s.state.2.mark q x).resolver? f = some (p, reject) := Turns.resolver? marked called
      exact before
  next => exact Opening.resolver? opening here (Turns.resolver? turns able)

theorem step_spent (fit : Fit d s m) (here : s.state.2.promises.get? p = some r) (spent : Spent p s.state) :
    Spent p (s.step m).state := by
  intro r' there
  rcases spent r here with marked | unable
  next => exact .inl ((step_moved fit here there).resolved.2 (.inl marked))
  next => exact .inr fun f reject able => unable f reject (step_resolver? fit here able)

/-- Nothing can settle `p` any more. -/
structure Lost (p : Ptr) (s : List Task × Affairs) : Prop where
  stuck : Sealed (fun _ _ => False) p s
  spent : Spent p s

theorem Lost.pending {s : List Task × Affairs} (lost : Lost p s) (found : s.2.promises.get? p = some r) :
    r.settlement = .pending ∧ p ∉ targets s :=
  Untouched.pending lost.stuck found

theorem step_lost (fit : Fit d s m) (here : s.state.2.promises.get? p = some r) (lost : Lost p s.state) :
    Lost p (s.step m).state where
  stuck := by
    refine step_sealed fit here ((lost.spent r here).imp_right fun unable => ?_) lost.stuck
    rintro ⟨v, reject, target⟩
    obtain ⟨f, able⟩ := resolving_able target
    exact unable f reject able
  spent := step_spent fit here lost.spent

theorem cut_lost {rest : List Waiting} (fit : Fit d s (.poll true)) (waiting : s.waiting = .checking (.job j) :: rest) :
    Lost j.derived (s.step (.poll true)).state := by
  have under : s.state = (.job j :: rest.flatMap Waiting.tasks, s.engine.heap.affairs) := by
    simp [state, tasks, waiting, Waiting.tasks, Check.tasks]
  have ok := fit.steady
  rw [under] at ok
  have spent : Spent j.derived s.state := by
    intro r here
    by_contra able
    simp only [not_or, not_forall, Decidable.not_not, Bool.not_eq_true] at able
    obtain ⟨first, f, reject, mine⟩ := able
    exact (fit.steady.guarded f j.derived reject r mine here first).2 (by simp [under, targets, Task.target])
  have stepped : (s.step (.poll true)).state = (rest.flatMap Waiting.tasks, (s.engine.interruptJob j).2.heap.affairs) := by
    simp [step, poll, waiting, enter_state, Engine.afterCheck, Engine.finished, Stage.tasks, tasks]
  have forgotten : s.engine.heap.Forgets (s.engine.interruptJob j).2.heap :=
    Heap.Forgets.trans (Heap.forgets_releaseAll s.engine.heap j.children) (Heap.forgets_raiseMessage _ Engine.interruptedText)
  constructor
  next =>
    rw [stepped]
    exact Turns.sealed (.single (.forget forgotten)) (Turn.steady .drop ok) (.of_drop ok rfl)
  next =>
    intro r there
    rw [stepped] at there ⊢
    rcases spent r (forgotten.promise there) with marked | unable
    next => exact .inl marked
    next => exact .inr fun f reject able => unable f reject (forgotten.resolvers f _ able)

/-- What comes of the jobs of a run. -/
structure Effective (moves : List Move) : Prop where
  kept : ∀ j i k, Spans moves j i k -> ¬ Cuts moves j k ->
    Kept (after moves (k + 1)).engine.heap j.derived ∨
      ∃ v, moves[k]? = some (.answer v) ∧ Dropped (after moves k).engine.heap (after moves (k + 1)).engine.heap v
  lost : ∀ j i k n, Spans moves j i k -> Cuts moves j k -> k < n -> Lives moves j.derived (k + 1) n ->
    (after moves n).settlement? j.derived = some .pending ∧ ¬ Kept (after moves n).engine.heap j.derived

theorem Lost.not_kept (lost : Lost p s.state) (alive : s.engine.heap.isPromise p = true) :
    s.settlement? p = some .pending ∧ ¬ Kept s.engine.heap p := by
  obtain ⟨r, found⟩ := Option.isSome_iff_exists.1 alive
  obtain ⟨pending, free⟩ := lost.pending ((Heap.get?_promises _ p).trans found)
  refine ⟨by simp [settlement?, found, pending], fun kept => ?_⟩
  cases kept with
  | gone absent => exact Bool.false_ne_true (absent.symm.trans alive)
  | settled r' here past =>
    obtain rfl : r = r' := Option.some.inj (found.symm.trans here)
    exact past pending
  | queued j waiting target =>
    refine free (List.mem_append_right _ (List.mem_append_left _ ?_))
    exact target ▸ List.mem_map_of_mem waiting
  | attached q r' x here waiting member target =>
    refine free (List.mem_append_right _ (List.mem_append_right _ ?_))
    have entry := Table.mem_of_find ((Heap.get?_promises _ q).trans here)
    exact List.mem_flatMap.2 ⟨_, entry, target ▸ List.mem_map_of_mem member⟩

theorem Cuts.waiting (cuts : Cuts moves j k) :
    ∃ rest, (after moves k).waiting = .checking (.job j) :: rest := by
  obtain ⟨-, top⟩ := cuts
  cases waiting : (after moves k).waiting with
  | nil => simp [waiting] at top
  | cons w rest => exact ⟨rest, by simp_all⟩

section

variable (allowed : start.Disciplined d moves)
variable (numbered : d = .any -> (start.run moves).engine.heap.next ≤ UInt32.size)
include allowed numbered

theorem lost_at (cuts : Cuts moves j k) (later : k < n) (lives : Lives moves j.derived (k + 1) n) :
    Lost j.derived (after moves n).state := by
  induction n with
  | zero => omega
  | succ n ih =>
    by_cases now : k = n
    next =>
      subst now
      obtain ⟨rest, waiting⟩ := cuts.waiting
      rw [after_succ cuts.1]
      exact cut_lost (fit_at allowed numbered cuts.1) waiting
    next =>
      have before := ih (by omega) fun i early late => lives i early (by omega)
      obtain ⟨r, found⟩ := Option.isSome_iff_exists.1 (lives n (by omega) (by omega))
      cases here : moves[n]? with
      | none => rwa [after_past here]
      | some m =>
        rw [after_succ here]
        exact step_lost (fit_at allowed numbered here) ((Heap.get?_promises _ _).trans found) before

end

/-- What comes of a job depends only on whether the host interrupts it before it starts. A promise that its
handler answers with may take the derived promise along when nobody holds on to it. -/
theorem run_effective (d : Discipline) (moves : List Move) (allowed : start.Disciplined d moves)
    (numbered : d = .any -> (start.run moves).engine.heap.next ≤ UInt32.size) : Effective moves where
  kept j i k spans uncut := by
    obtain ⟨m, w, here, waiting, mine, ended⟩ := spans.last
    have clear : m = .poll true -> w ≠ .checking (.job j) := by
      rintro rfl rfl
      exact uncut ⟨here, by simp [waiting]⟩
    rw [after_succ here]
    refine (step_kept (fit_at allowed numbered here) waiting mine ended clear).imp_right ?_
    rintro ⟨v, rfl, dropped⟩
    exact ⟨v, here, dropped⟩
  lost j i k n _ cuts later lives :=
    (lost_at allowed numbered cuts later lives).not_kept (lives n (by omega) (Nat.le_refl n))

/-- Derives a promise from another one, rejects that one, and interrupts the job that this leads to. -/
def cutting : List Move :=
  [.allocate 8, .request (.newPromiseCapability 16), .request (.promiseThen 16 none none),
    .call 18 Ptr.undefined 0 0, .poll false, .job, .poll true]

def cutJob : Job :=
  ⟨none, 19, Ptr.undefined, true⟩

theorem cutting_disciplined : start.Disciplined .owning cutting := by
  have writable : (Request.newPromiseCapability 16).Writable (start.step (.allocate 8)).engine.memory := by
    refine ⟨?_, by simp [Request.outPointers]⟩
    simp only [Request.outPointers, List.forall_mem_singleton]
    exact ⟨(16, 8), by decide, by decide⟩
  have derives (s : Hosting) : s.Allowed .owning (.request (.promiseThen 16 none none)) :=
    ⟨by simp [Request.passedOn], by simp [Request.givenUp], by simp [Request.Writable, Request.outPointers],
      by simp [Request.clears]⟩
  exact ⟨trivial, ⟨by simp [Request.passedOn], by simp [Request.givenUp], writable, by simp [Request.clears]⟩,
    derives _, trivial, fun p member => absurd member List.not_mem_nil, trivial,
    fun p member => absurd member List.not_mem_nil, trivial⟩

theorem cutting_spans : Spans cutting cutJob 5 6 where
  taken := rfl
  first := by decide +kernel
  later := by decide
  running n early late := by
    obtain rfl : n = 6 := by omega
    decide +kernel
  closes := by decide +kernel

theorem cutting_cuts : Cuts cutting cutJob 6 :=
  ⟨rfl, rfl⟩

theorem cutting_lives : Lives cutting 19 7 7 := by
  intro k early late
  obtain rfl : k = 7 := by omega
  cbv

theorem cutting_effective : start.Disciplined .owning cutting ∧ Spans cutting cutJob 5 6 ∧ Effective cutting :=
  ⟨cutting_disciplined, cutting_spans, run_effective .owning cutting cutting_disciplined nofun⟩

/-- The first promise has settled, and the one derived from it never will. -/
theorem cutting_loses : Spans cutting cutJob 5 6 ∧ (after cutting 7).settlement? 16 = some (.rejected Ptr.undefined) ∧
    (after cutting 7).settlement? 19 = some .pending ∧ ¬ Kept (after cutting 7).engine.heap 19 := by
  have lost := lost_at cutting_disciplined nofun cutting_cuts (by decide) cutting_lives
  exact ⟨cutting_spans, by cbv, lost.not_kept (cutting_lives 7 (by decide) (by decide))⟩

end Hosting

end ScriptHost
