import ScriptHost.Proofs.Engine.Growing

set_option autoImplicit false

/-!
How the outcome of a root spreads.

Jobs settle the promises of a grove from the root downwards, each with the outcome of the root, and hand what hangs
on them over to new jobs. Every job settles one promise that is not a target any more, so there is an end to it.
-/

namespace ScriptHost

def Heap.taking (h : Heap) (j : Job) (rest : List Job) : Heap :=
  { h with jobs := rest, taken := j :: h.taken }

namespace Grove

variable {f : Grove} {v p q : Ptr} {rejected : Bool} {base : List Rejection} {done : List Ptr} {a b : Affairs} {j : Job}
variable {rest : List Job} {r : PromiseRecord}

/-- What is recorded when these promises take up the outcome. -/
def events (f : Grove) (v : Ptr) (rejected : Bool) (ps : List Ptr) : List Rejection :=
  if rejected then (ps.filter f.Bare).map fun p => ⟨p, v, false⟩ else []

/-- Some promises have taken up the outcome of the root, and what hangs on those and on the root has jobs. -/
structure Spreading (f : Grove) (v : Ptr) (rejected : Bool) (base : List Rejection) (done : List Ptr) (a : Affairs) :
    Prop where
  hosts : ∀ p q, (p, some q) ∈ f.hung -> q ≠ 0
  apart : ∀ p x, (p, x) ∈ f.hung -> p ≠ 0 -> f.root ≠ some p
  below : ∀ p ∈ done, f.Below p ∧ p ≠ 0
  nodup : done.Nodup
  free : ∀ p ∈ done, p ∉ targets ([], a)
  jobs : ∀ j ∈ a.jobs, ∃ p, j = ⟨none, p, v, rejected⟩ ∧ (p = 0 ∨ f.Below p)
  ready : ∀ p x, (p, x) ∈ f.hung -> p ≠ 0 -> p ∉ done -> (∀ q, x = some q -> q ∈ done) -> ⟨none, p, v, rejected⟩ ∈ a.jobs
  waiting : ∀ p, f.Below p -> p ≠ 0 -> p ∉ done -> ∃ r, a.promises.get? p = some r ∧ f.Awaits p r
  settled : ∀ p r, f.root = some p ∨ p ∈ done -> a.promises.get? p = some r -> r.settlement = .ofPayload rejected v
  recorded : a.rejections = base ++ f.events v rejected done

theorem Grown.below (grown : f.Grown a) (outcome : f.outcome.isSome) (below : f.Below p) (big : p ≠ 0) :
    (a.promises.get? p).isSome := by
  induction below with
  | root hung => exact (grown.there _ none hung (.inl outcome)).resolve_left big
  | @on p q hung _ ih => exact (grown.there p (some q) hung (ih (grown.hosts p q hung).1)).resolve_left big

theorem Below.hung (below : f.Below p) : ∃ x, (p, x) ∈ f.hung := by
  cases below with
  | root hung => exact ⟨none, hung⟩
  | on hung _ => exact ⟨_, hung⟩

theorem Grown.spreading (grown : f.Grown a) (outcome : f.outcome = some (v, rejected)) :
    f.Spreading v rejected a.rejections [] a where
  hosts p q hung := (grown.hosts p q hung).1
  apart p x hung big := ((grown.planted p x hung).resolve_left big).2
  below := nofun
  nodup := .nil
  free := nofun
  jobs j waiting := by
    obtain ⟨w, rejected', p, same, hung, rfl⟩ := (grown.jobs j).1 waiting
    cases outcome.symm.trans same
    exact ⟨p, rfl, .inr (.root hung)⟩
  ready p x hung _ _ host := by
    cases x with
    | none => exact (grown.jobs _).2 ⟨v, rejected, p, outcome, hung, rfl⟩
    | some q => cases host q rfl
  waiting p below big _ := by
    obtain ⟨r, here⟩ := Option.isSome_iff_exists.1 (grown.below (by simp [outcome]) below big)
    obtain ⟨x, hung⟩ := below.hung
    obtain ⟨member, other⟩ := (grown.planted p x hung).resolve_left big
    exact ⟨r, here, grown.waiting p r member (.inl other) here⟩
  settled p r member here := grown.settled p r v rejected (member.resolve_right (by simp)) outcome here
  recorded := by cases rejected <;> simp [events]

theorem events_append (ps : List Ptr) (p : Ptr) :
    f.events v rejected (ps ++ [p]) = f.events v rejected ps ++ if rejected ∧ f.Bare p then [⟨p, v, false⟩] else [] := by
  cases rejected with
  | false => simp [events]
  | true => by_cases bare : f.Bare p <;> simp [events, List.filter_append, bare]

theorem mem_events {ps : List Ptr} {x : Rejection} :
    x ∈ f.events v rejected ps ↔ rejected = true ∧ ∃ p ∈ ps, f.Bare p ∧ x = ⟨p, v, false⟩ := by
  cases rejected <;> simp [events, and_assoc, eq_comm]

theorem nodup_events {ps : List Ptr} (once : ps.Nodup) : (f.events v rejected ps).Nodup := by
  cases rejected with
  | false => simp [events]
  | true =>
    simp only [events, if_true]
    exact (once.filter _).map fun p q same => congrArg Rejection.promise same

/-- The next job is taken. -/
def taking (a : Affairs) (j : Job) (rest : List Job) : Affairs :=
  { a with jobs := rest, taken := j :: a.taken }

theorem targets_taking (waiting : a.jobs = j :: rest) : (targets ([], a)).Perm (j.derived :: targets ([], taking a j rest)) := by
  simp [targets, taking, waiting]

theorem targets_settle (v : Ptr) (rejected : Bool) (waiting : a.jobs = j :: rest) (here : a.promises.get? j.derived = some r) :
    (targets ([], a)).Perm (j.derived :: targets ([], ((taking a j rest).settle j.derived r v rejected).post
      (r.reactions.map fun x => x.job v rejected))) := by
  refine List.perm_iff_count.2 fun q => ?_
  have settled : (targets (r.reactions.map (fun x => Task.job (x.job v rejected)) ++ [],
      (taking a j rest).settle j.derived r v rejected)).count q + [j.derived].count q =
        (targets ([.resolution j.derived v rejected], taking a j rest)).count q := count_settled (a := taking a j rest) here q
  have taken := (targets_taking waiting).count_eq q
  simp only [count_targets, List.map_append, List.map_map, List.count_append, List.map_nil, List.count_nil, List.map_cons,
    List.count_cons, Task.target, List.append_nil, Affairs.post, Function.comp_def] at settled taken ⊢
  omega

namespace Spreading

variable (spreading : f.Spreading v rejected base done a)

include spreading

theorem node (below : f.Below p) (big : p ≠ 0) : f.node p = some p := by
  obtain ⟨x, hung⟩ := below.hung
  exact node_some.2 ⟨rfl, spreading.apart p x hung big⟩

/-- Promises may go that nothing refers to. -/
theorem forget (less : a.Forgets b)
    (lasting : ∀ p ∈ targets ([], b), (a.promises.get? p).isSome -> (b.promises.get? p).isSome) :
    f.Spreading v rejected base done b := by
  have jobs : b.jobs = a.jobs := less.jobs
  refine { spreading with free := ?_, jobs := ?_, ready := ?_, waiting := ?_, settled := ?_, recorded := ?_ }
  next => exact fun p member => less.lesser.untargeted (spreading.free p member)
  next => exact jobs ▸ spreading.jobs
  next => exact jobs ▸ spreading.ready
  next =>
    have alive {p : Ptr} (below : f.Below p) (big : p ≠ 0) (undone : p ∉ done) (target : p ∈ targets ([], b)) :
        ∃ r, b.promises.get? p = some r ∧ f.Awaits p r := by
      obtain ⟨r, here, awaits⟩ := spreading.waiting p below big undone
      obtain ⟨r', there⟩ := Option.isSome_iff_exists.1 (lasting p target (by simp [here]))
      obtain rfl := Option.some.inj (here.symm.trans (less.promise there))
      exact ⟨r, there, awaits⟩
    -- What hangs on a promise that waits is kept by it, and else by a job.
    intro p below
    induction below with
    | @root p hung =>
      intro big undone
      refine alive (.root hung) big undone (target_of_job (j := ⟨none, p, v, rejected⟩) ?_)
      exact jobs ▸ spreading.ready p none hung big undone (by simp)
    | @on p q hung above ih =>
      intro big undone
      refine alive (.on hung above) big undone ?_
      by_cases past : q ∈ done
      next =>
        refine target_of_job (j := ⟨none, p, v, rejected⟩) (jobs ▸ spreading.ready p (some q) hung big undone ?_)
        exact fun u same => Option.some.inj same ▸ past
      next =>
        have some := spreading.hosts p q hung
        obtain ⟨r, there, awaits⟩ := ih some past
        refine target_of_reaction there ((awaits.reactions ⟨p, none, none⟩).2 ⟨p, ?_, rfl⟩)
        rw [spreading.node above some]
        exact hung
  next => exact fun p r member here => spreading.settled p r member (less.promise here)
  next => exact less.rejections.trans spreading.recorded

/-- A job for a promise that could not be made does nothing. -/
theorem skip (waiting : a.jobs = ⟨none, 0, v, rejected⟩ :: rest) :
    f.Spreading v rejected base done (taking a ⟨none, 0, v, rejected⟩ rest) := by
  refine { spreading with free := ?_, jobs := ?_, ready := ?_ }
  next =>
    exact fun p member target =>
      spreading.free p member ((targets_taking waiting).mem_iff.2 (List.mem_cons_of_mem _ target))
  next => exact fun j member => spreading.jobs j (waiting ▸ List.mem_cons_of_mem _ member)
  next =>
    intro p x hung big undone host
    have queued := spreading.ready p x hung big undone host
    rw [waiting] at queued
    refine (List.mem_cons.1 queued).resolve_left fun same => big ?_
    cases same
    rfl

theorem next (waiting : a.jobs = ⟨none, p, v, rejected⟩ :: rest) (big : p ≠ 0) :
    f.Below p ∧ p ∉ done ∧ ∃ r, a.promises.get? p = some r ∧ f.Awaits p r := by
  have queued : ⟨none, p, v, rejected⟩ ∈ a.jobs := waiting ▸ List.mem_cons_self
  have undone : p ∉ done := fun past => spreading.free p past (target_of_job queued)
  obtain ⟨_, ⟨⟩, below⟩ := spreading.jobs _ queued
  have below := below.resolve_left big
  exact ⟨below, undone, spreading.waiting p below big undone⟩

/-- A job settles its promise and puts those that hang on it into the queue. -/
theorem settle (steady : Steady ([], a)) (waiting : a.jobs = ⟨none, p, v, rejected⟩ :: rest) (big : p ≠ 0)
    (here : a.promises.get? p = some r) (awaits : f.Awaits p r) :
    f.Spreading v rejected base (done ++ [p]) (((taking a ⟨none, p, v, rejected⟩ rest).settle p r v rejected).post
      (r.reactions.map fun x => x.job v rejected)) := by
  obtain ⟨below, undone, -⟩ := spreading.next waiting big
  have host := spreading.node below big
  have moved := targets_settle v rejected waiting here
  dsimp only at moved
  have single := steady.single p r here
  have settled (q : Ptr) : (((taking a ⟨none, p, v, rejected⟩ rest).settle p r v rejected).post
      (r.reactions.map fun x => x.job v rejected)).promises.get? q =
        if p = q then some { r with settlement := .ofPayload rejected v, reactions := [] } else a.promises.get? q := by
    simp only [Affairs.post, Affairs.settle, taking, Table.get?_set]
  have jobs : (((taking a ⟨none, p, v, rejected⟩ rest).settle p r v rejected).post
      (r.reactions.map fun x => x.job v rejected)).jobs = rest ++ r.reactions.map fun x => x.job v rejected := rfl
  have rejections : (((taking a ⟨none, p, v, rejected⟩ rest).settle p r v rejected).post
      (r.reactions.map fun x => x.job v rejected)).rejections =
        a.rejections ++ if rejected && !r.handled then [⟨p, v, false⟩] else [] := rfl
  generalize ((taking a ⟨none, p, v, rejected⟩ rest).settle p r v rejected).post _ = b at *
  have job (c : Ptr) : Reaction.job ⟨c, none, none⟩ v rejected = ⟨none, c, v, rejected⟩ := by cases rejected <;> rfl
  have attached (c : Ptr) : ⟨c, none, none⟩ ∈ r.reactions ↔ (c, some p) ∈ f.hung := by
    simp [awaits.reactions, host]
  refine { spreading with below := ?_, nodup := ?_, free := ?_, jobs := ?_, ready := ?_, waiting := ?_, settled := ?_, recorded := ?_ }
  next =>
    intro q member
    rcases List.mem_append.1 member with old | new
    · exact spreading.below q old
    · obtain rfl := List.mem_singleton.1 new
      exact ⟨below, big⟩
  next =>
    refine List.nodup_append.2 ⟨spreading.nodup, List.nodup_singleton p, ?_⟩
    rintro q old u new rfl
    obtain rfl := List.mem_singleton.1 new
    exact undone old
  next =>
    intro q member target
    rcases List.mem_append.1 member with old | new
    · exact spreading.free q old (moved.mem_iff.2 (List.mem_cons_of_mem _ target))
    · obtain rfl := List.mem_singleton.1 new
      have count := moved.count_eq q
      have some := List.count_pos_iff.2 target
      simp only [List.count_cons_self] at count
      omega
  next =>
    intro j member
    rw [jobs] at member
    rcases List.mem_append.1 member with old | new
    · exact spreading.jobs j (waiting ▸ List.mem_cons_of_mem _ old)
    · obtain ⟨x, among, rfl⟩ := List.mem_map.1 new
      obtain ⟨c, hung, rfl⟩ := (awaits.reactions x).1 among
      exact ⟨c, job c, .inr (.on (host ▸ hung) below)⟩
  next =>
    intro c x hung real fresh above
    rw [jobs]
    simp only [List.mem_append, List.mem_singleton, not_or] at fresh above
    by_cases mine : x = some p
    next => exact List.mem_append_right _ (List.mem_map.2 ⟨⟨c, none, none⟩, (attached c).2 (mine ▸ hung), job c⟩)
    next =>
      have queued := spreading.ready c x hung real fresh.1 fun q same =>
        (above q same).resolve_right fun other => mine (same.trans (congrArg _ other))
      rw [waiting] at queued
      refine List.mem_append_left _ ((List.mem_cons.1 queued).resolve_left fun same => fresh.2 ?_)
      cases same
      rfl
  next =>
    intro q under real fresh
    simp only [List.mem_append, List.mem_singleton, not_or] at fresh
    obtain ⟨y, there, waits⟩ := spreading.waiting q under real fresh.1
    exact ⟨y, by rw [settled, if_neg (Ne.symm fresh.2), there], waits⟩
  next =>
    intro q y member there
    rw [settled] at there
    split at there
    next =>
      cases there
      rfl
    next other =>
      refine spreading.settled q y (member.imp_right fun among => ?_) there
      simpa [Ne.symm other] using among
  next =>
    have bare : f.Bare p ↔ r.handled = false := by
      rw [← Bool.not_eq_true, awaits.handled, host]
      simp only [Bare, not_exists]
      exact ⟨fun free c hung => free _ hung rfl, fun free e member same => free e.1 (same ▸ member)⟩
    rw [rejections, spreading.recorded, events_append, List.append_assoc]
    congr 2
    cases rejected <;> cases handled : r.handled <;> simp [bare, handled]

/-- Once no job is left, all that is below the root has taken up its outcome. -/
theorem whole (idle : a.jobs = []) : p ∈ done ↔ f.Below p ∧ p ≠ 0 := by
  have due {c : Ptr} {x : Option Ptr} (hung : (c, x) ∈ f.hung) (real : c ≠ 0) (host : ∀ q, x = some q -> q ∈ done) :
      c ∈ done := by
    refine Decidable.by_contra fun undone => ?_
    have queued := spreading.ready c x hung real undone host
    rw [idle] at queued
    cases queued
  refine ⟨spreading.below p, And.rec fun below => ?_⟩
  induction below with
  | root hung => exact fun big => due hung big (by simp)
  | @on p q hung _ ih =>
    refine fun big => due hung big fun u same => ?_
    exact Option.some.inj same ▸ ih (spreading.hosts p q hung)

end Spreading

end Grove

theorem Affairs.Forgets.targets_length {a b : Affairs} (less : a.Forgets b) :
    (targets ([], b)).length ≤ (targets ([], a)).length := by
  have fewer := (less.promises.flatMap fun e => e.2.derived).length_le
  simp only [targets, less.jobs, List.length_append]
  omega

namespace Hosting

variable {s : Hosting} {j : Job} {rest : List Job}

/-- The next job is executed, and not interrupted. -/
def execute (s : Hosting) : Hosting :=
  (s.step .job).step (.poll false)

/-- Jobs are executed until none is left, at most so many. -/
def drain (s : Hosting) : Nat -> Hosting
  | 0 => s
  | n + 1 => if s.engine.heap.jobs.isEmpty then s else s.execute.drain n

theorem execute_bare (waiting : s.engine.heap.jobs = j :: rest) (bare : j.handler = none) :
    s.execute.engine.heap =
      (if j.rejected then (s.engine.heap.taking j rest).settle j.derived j.argument true
        else (s.engine.heap.taking j rest).resolveWith j.derived j.argument).finishJob j ∧
    s.execute.tasks = s.tasks := by
  have begun : s.step .job = { s with
      engine := { s.engine with heap := s.engine.heap.taking j rest }
      waiting := .checking (.job j) :: s.waiting } := by
    simp only [step, Engine.beginJob, Heap.takeJob, waiting, enter, Heap.taking]
  rw [execute, begun]
  simp only [step, poll, enter_engine, enter_tasks, Engine.afterCheck, bare, Bool.false_eq_true, if_false, Engine.finished,
    Engine.passThrough, Stage.tasks, List.nil_append]
  exact ⟨trivial, rfl⟩

theorem run_kept (moves : List Move) (sound : s.Sound .owning) (steady : Steady s.state) (allowed : s.Disciplined .owning moves) :
    (s.run moves).Sound .owning ∧ Steady (s.run moves).state := by
  induction moves generalizing s with
  | nil => exact ⟨sound, steady⟩
  | cons m rest ih =>
    exact ih (step_sound sound allowed.1) (step_steady ⟨sound, allowed.1, .inl rfl, steady⟩) allowed.2

theorem execute_kept (sound : s.Sound .owning) (steady : Steady s.state) (waiting : s.engine.heap.jobs = j :: rest) :
    s.execute.Sound .owning ∧ Steady s.execute.state := by
  have begun : (s.step .job).waiting = .checking (.job j) :: s.waiting := by
    simp only [step, Engine.beginJob, Heap.takeJob, waiting, enter]
  have polled : (s.step .job).Allowed .owning (.poll false) := by
    simp [Allowed, begun, Check.arguments]
  exact run_kept [.job, .poll false] sound steady ⟨trivial, polled, trivial⟩

end Hosting

namespace Grove

variable {f : Grove} {v p : Ptr} {rejected : Bool} {base : List Rejection} {done : List Ptr} {s : Hosting} {j : Job}
variable {rest : List Job} {h h' : Heap} {outside : List Ptr}

structure Drains (f : Grove) (v : Ptr) (rejected : Bool) (base : List Rejection) (done : List Ptr) (s : Hosting) : Prop where
  sound : s.Sound .owning
  steady : Steady s.state
  calm : s.tasks = []
  spreading : f.Spreading v rejected base done s.engine.heap.affairs

namespace Drains

variable (drains : f.Drains v rejected base done s)

include drains

theorem steady' : Steady ([], s.engine.heap.affairs) := by
  have steady := drains.steady
  rwa [Hosting.state, drains.calm] at steady

theorem execute_settling (waiting : s.engine.heap.jobs = ⟨none, p, v, rejected⟩ :: rest) (big : p ≠ 0) :
    f.Drains v rejected base (done ++ [p]) s.execute ∧
      (targets ([], s.execute.engine.heap.affairs)).length < (targets ([], s.engine.heap.affairs)).length := by
  obtain ⟨heap, tasks⟩ := Hosting.execute_bare waiting rfl
  obtain ⟨sound, steady⟩ := Hosting.execute_kept drains.sound drains.steady waiting
  obtain ⟨-, -, r, here, awaits⟩ := drains.spreading.next waiting big
  have spreading := drains.spreading.settle drains.steady' waiting big here awaits
  have moved := (targets_settle (j := ⟨none, p, v, rejected⟩) v rejected waiting here).length_eq
  have found : s.engine.heap.promise? p = some r := (Heap.get?_promises _ p).symm.trans here
  have queued : ⟨none, p, v, rejected⟩ ∈ s.engine.heap.jobs := waiting ▸ List.mem_cons_self
  have plain : rejected = false -> v ≠ p ∧ s.engine.heap.isPromise v = false := by
    intro fulfilled
    have absent := (Heap.get?_promises _ v).symm.trans
      (drains.steady'.argument ⟨none, p, v, rejected⟩ (.inl queued) fulfilled)
    refine ⟨?_, by simp [Heap.isPromise, absent]⟩
    rintro rfl
    cases found.symm.trans absent
  -- Taking the job leaves the promises alone.
  let m := s.engine.heap.taking ⟨none, p, v, rejected⟩ rest
  have settled : s.execute.engine.heap = (m.settle p v rejected).finishJob ⟨none, p, v, rejected⟩ := by
    refine heap.trans (congrArg (Heap.finishJob · _) ?_)
    cases rejected with
    | true => rfl
    | false =>
      obtain ⟨other, clear⟩ := plain rfl
      have clear' : m.isPromise v = false := clear
      simp only [Bool.false_eq_true, if_false]
      change m.resolveWith p v = _
      simp only [Heap.resolveWith, other, clear', Bool.false_eq_true, if_false]
  have affairs := Heap.affairs_settle_bare (h := m) found awaits.pending awaits.bare v rejected
  rw [show m.affairs = taking s.engine.heap.affairs ⟨none, p, v, rejected⟩ rest from rfl] at affairs
  rw [← affairs] at spreading moved
  have less : (m.settle p v rejected).Forgets s.execute.engine.heap := settled ▸ Heap.forgets_releaseAll _ _
  have old := Heap.big_of_settled (h := m) drains.sound.heap.counted found v rejected
  have kept := Heap.lasting sound.heap old fun q value promise there =>
    Heap.isPromise_of_value promise (Heap.get?_releaseAll (settled ▸ there)) there
  refine ⟨⟨sound, steady, tasks.trans drains.calm, spreading.forget less kept⟩, ?_⟩
  have fewer := less.targets_length
  rw [List.length_cons] at moved
  omega

theorem execute_idle (waiting : s.engine.heap.jobs = ⟨none, 0, v, rejected⟩ :: rest) :
    f.Drains v rejected base done s.execute ∧
      (targets ([], s.execute.engine.heap.affairs)).length < (targets ([], s.engine.heap.affairs)).length := by
  obtain ⟨heap, tasks⟩ := Hosting.execute_bare waiting rfl
  obtain ⟨sound, steady⟩ := Hosting.execute_kept drains.sound drains.steady waiting
  have spreading := drains.spreading.skip waiting
  have moved := (targets_taking (a := s.engine.heap.affairs) waiting).length_eq
  have counted := drains.sound.heap.counted
  have queued : ⟨none, 0, v, rejected⟩ ∈ s.engine.heap.jobs := waiting ▸ List.mem_cons_self
  have plain : rejected = false -> s.engine.heap.promise? v = none := fun fulfilled =>
    (Heap.get?_promises _ v).symm.trans (drains.steady'.argument ⟨none, 0, v, rejected⟩ (.inl queued) fulfilled)
  have absent : s.engine.heap.promise? 0 = none :=
    (Heap.get?_promises _ 0).symm.trans (drains.sound.heap.static_absent (.inl rfl) Heap.zero_small)
  let m := s.engine.heap.taking ⟨none, 0, v, rejected⟩ rest
  have nothing (k : Heap) (less : m.Forgets k) (w : Ptr) (b : Bool) : k.settle 0 w b = k := by
    have gone : k.promise? 0 = none := by
      cases found : k.promise? 0 with
      | none => rfl
      | some r =>
        have before : m.promise? 0 = some r := less.promise? found
        cases absent.symm.trans before
    simp only [Heap.settle, gone]
  -- At most an error is made, and freed again.
  obtain ⟨k, less, keeps, freed⟩ : ∃ k : Heap, m.Forgets k ∧ m.Keeps k ∧
      ∃ ps qs, s.execute.engine.heap = (k.releaseAll ps).releaseAll qs := by
    have done : m.Forgets m := .refl m
    rw [heap]
    cases rejected with
    | true =>
      refine ⟨m, done, .refl m, [], Job.children ⟨none, 0, v, true⟩, ?_⟩
      rw [Heap.releaseAll_nil]
      exact congrArg (Heap.finishJob · _) (nothing m done v true)
    | false =>
      simp only [Bool.false_eq_true, if_false]
      change ∃ k : Heap, _ ∧ _ ∧ ∃ ps qs, (m.resolveWith 0 v).finishJob _ = _
      by_cases zero : v = 0
      next =>
        have made := Heap.forgets_newError m Heap.selfResolution
        refine ⟨(m.newError Heap.selfResolution).2, made, Heap.keeps_newError m _, [(m.newError Heap.selfResolution).1],
          Job.children ⟨none, 0, v, false⟩, ?_⟩
        simp only [Heap.resolveWith, zero, if_true]
        exact congrArg (fun k => Heap.finishJob (Heap.release k _) _) (nothing _ made _ _)
      next =>
        have clear : m.isPromise v = false := by
          have gone : m.promise? v = none := plain rfl
          simp [Heap.isPromise, gone]
        refine ⟨m, done, .refl m, [], Job.children ⟨none, 0, v, false⟩, ?_⟩
        simp only [Heap.resolveWith, zero, clear, Bool.false_eq_true, if_false, Heap.releaseAll_nil]
        exact congrArg (Heap.finishJob · _) (nothing m done v false)
  obtain ⟨ps, qs, freed⟩ := freed
  have less' : m.Forgets s.execute.engine.heap :=
    freed ▸ less.trans (.trans (Heap.forgets_releaseAll _ ps) (Heap.forgets_releaseAll _ qs))
  have kept := Heap.lasting (h := m) sound.heap (Heap.big_of_promise counted) fun q value promise there => by
    have left : k.isPromise q = true := keeps.promise counted q promise
    exact Heap.isPromise_of_value left (Heap.get?_releaseAll (Heap.get?_releaseAll (freed ▸ there))) there
  refine ⟨⟨sound, steady, tasks.trans drains.calm, spreading.forget less' kept⟩, ?_⟩
  have fewer := less'.targets_length
  have same : m.affairs = taking s.engine.heap.affairs ⟨none, 0, v, rejected⟩ rest := rfl
  rw [same] at fewer
  rw [List.length_cons] at moved
  omega

theorem execute (left : s.engine.heap.jobs ≠ []) : ∃ done', f.Drains v rejected base done' s.execute ∧
    (targets ([], s.execute.engine.heap.affairs)).length < (targets ([], s.engine.heap.affairs)).length := by
  obtain ⟨j, rest, waiting⟩ := List.exists_cons_of_ne_nil left
  have queued : j ∈ s.engine.heap.jobs := waiting ▸ List.mem_cons_self
  obtain ⟨p, rfl, -⟩ := drains.spreading.jobs j queued
  by_cases zero : p = 0
  next =>
    subst zero
    exact ⟨done, drains.execute_idle waiting⟩
  next => exact ⟨done ++ [p], drains.execute_settling waiting zero⟩

end Drains

/-- There is an end to the jobs, although they put others into the queue. -/
theorem Drains.drained (drains : f.Drains v rejected base done s) :
    ∃ n done', f.Drains v rejected base done' (s.drain n) ∧ (s.drain n).engine.heap.jobs = [] := by
  -- What jobs and reactions are still to settle gets less.
  induction measured : (targets ([], s.engine.heap.affairs)).length using Nat.strongRecOn generalizing s done with
  | ind size ih =>
    by_cases idle : s.engine.heap.jobs = []
    next => exact ⟨0, done, drains, idle⟩
    next =>
      obtain ⟨done', next, fewer⟩ := drains.execute idle
      obtain ⟨n, last, drained⟩ := ih _ (measured ▸ fewer) next rfl
      refine ⟨n + 1, last, ?_⟩
      simpa only [Hosting.drain, List.isEmpty_iff, idle, if_false] using drained

/-- All that is below the root has its outcome, and the rejection of what nothing hangs on is recorded. -/
structure Spread (f : Grove) (v : Ptr) (rejected : Bool) (base : List Rejection) (s : Hosting) : Prop where
  idle : s.engine.heap.jobs = []
  settled : ∀ p, f.root = some p ∨ f.Below p -> s.engine.heap.isPromise p = true ->
    s.settlement? p = some (.ofPayload rejected v)
  -- Zero stands for the promises there was no pointer for.
  recorded : ∃ events, s.engine.heap.rejections = base ++ events ∧ events.Nodup ∧
    ∀ x, x ∈ events ↔ rejected = true ∧ ∃ p, p ≠ 0 ∧ f.Below p ∧ f.Bare p ∧ x = ⟨p, v, false⟩

theorem Drains.spread (drains : f.Drains v rejected base done s) (idle : s.engine.heap.jobs = []) :
    f.Spread v rejected base s where
  idle := idle
  settled p member promise := by
    obtain ⟨r, found⟩ := Option.isSome_iff_exists.1 promise
    have big : p ≠ 0 := by
      rintro rfl
      exact absurd (Heap.big_of_promise drains.sound.heap.counted 0 promise) (by decide)
    have settled := drains.spreading.settled p r
      (member.imp_right fun below => (drains.spreading.whole idle).2 ⟨below, big⟩) ((Heap.get?_promises _ p).trans found)
    simp [Hosting.settlement?, found, settled]
  recorded := by
    refine ⟨_, drains.spreading.recorded, nodup_events drains.spreading.nodup, fun x => ?_⟩
    simp only [mem_events, drains.spreading.whole idle, and_assoc, and_left_comm]

/-- The outcome of a grown grove spreads, however it has been grown. -/
theorem Tended.spreads (tended : f.Tended s) (outcome : f.outcome = some (v, rejected)) :
    ∃ n, f.Spread v rejected s.engine.heap.rejections (s.drain n) := by
  have first : f.Drains v rejected s.engine.heap.rejections [] s :=
    ⟨tended.sound, tended.steady, tended.calm, tended.grown.spreading outcome⟩
  obtain ⟨n, done, drains, idle⟩ := first.drained
  exact ⟨n, drains.spread idle⟩

end Grove

end ScriptHost
