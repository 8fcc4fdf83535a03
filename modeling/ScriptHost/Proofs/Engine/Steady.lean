import Mathlib.Data.List.Flatten
import ScriptHost.Proofs.Engine.Openings

set_option autoImplicit false

/-!
Nothing but one thing at a time may settle a promise.

A promise that is pending is the target of at most one task, job or reaction, and a settled one of none. The
functions of a promise settle it only as long as it has no target, and calling one of them makes the call
its target.
-/

namespace ScriptHost

structure Steady (s : List Task × Affairs) : Prop where
  single : ∀ p r, s.2.promises.get? p = some r -> (targets s).count p ≤ 1
  settled : ∀ p r, s.2.promises.get? p = some r -> r.settlement ≠ .pending -> p ∉ targets s
  guarded : ∀ f p reject r, s.2.resolver? f = some (p, reject) -> s.2.promises.get? p = some r ->
    r.resolved = false -> r.settlement = .pending ∧ p ∉ targets s
  -- Promises are adopted, not passed on.
  plain : ∀ p r v, s.2.promises.get? p = some r -> r.settlement = .fulfilled v -> s.2.promises.get? v = none
  argument : ∀ j, j ∈ s.2.jobs ∨ .job j ∈ s.1 -> j.rejected = false -> s.2.promises.get? j.argument = none

variable {s s' : List Task × Affairs} {exact : Prop}

/-- Promises and functions may be gone and targets fewer, and the promises that are left are where they were. -/
structure Lesser (s s' : List Task × Affairs) : Prop where
  records : ∀ p r', s'.2.promises.get? p = some r' ->
    ∃ r, s.2.promises.get? p = some r ∧ r.settlement = r'.settlement ∧ (r'.resolved = false -> r.resolved = false)
  resolvers : ∀ f t, s'.2.resolver? f = some t -> s.2.resolver? f = some t
  targets : ∀ p, (targets s').count p ≤ (targets s).count p
  jobs : ∀ j, j ∈ s'.2.jobs ∨ .job j ∈ s'.1 ->
    (j ∈ s.2.jobs ∨ .job j ∈ s.1) ∨ (j.rejected = false -> s.2.promises.get? j.argument = none)

namespace Lesser

theorem absent (less : Lesser s s') {p : Ptr} (gone : s.2.promises.get? p = none) : s'.2.promises.get? p = none := by
  cases found : s'.2.promises.get? p with
  | none => rfl
  | some r' =>
    obtain ⟨r, here, -⟩ := less.records p r' found
    simp [gone] at here

theorem untargeted (less : Lesser s s') {p : Ptr} (free : p ∉ ScriptHost.targets s) : p ∉ ScriptHost.targets s' := by
  have fewer := less.targets p
  rw [List.count_eq_zero_of_not_mem free] at fewer
  exact List.count_eq_zero.1 (Nat.le_zero.1 fewer)

theorem steady (less : Lesser s s') (ok : Steady s) : Steady s' where
  single p r' found := by
    obtain ⟨r, here, -⟩ := less.records p r' found
    exact Nat.le_trans (less.targets p) (ok.single p r here)
  settled p r' found settled := by
    obtain ⟨r, here, same, -⟩ := less.records p r' found
    exact less.untargeted (ok.settled p r here (same ▸ settled))
  guarded f p reject r' able found first := by
    obtain ⟨r, here, same, flag⟩ := less.records p r' found
    obtain ⟨pending, free⟩ := ok.guarded f p reject r (less.resolvers f _ able) here (flag first)
    exact ⟨same ▸ pending, less.untargeted free⟩
  plain p r' v found fulfilled := by
    obtain ⟨r, here, same, -⟩ := less.records p r' found
    exact less.absent (ok.plain p r v here (same.trans fulfilled))
  argument j waiting fulfilled := by
    rcases less.jobs j waiting with before | clear
    next => exact less.absent (ok.argument j before fulfilled)
    next => exact less.absent (clear fulfilled)

end Lesser

theorem count_targets (o : List Task) (a : Affairs) (q : Ptr) :
    (targets (o, a)).count q =
      (o.map Task.target).count q + ((a.jobs.map Job.derived).count q +
        (a.promises.entries.flatMap fun e => e.2.derived).count q) := by
  simp only [targets, List.count_append]

theorem count_derived_set {t : Table Ptr PromiseRecord} {p : Ptr} {r : PromiseRecord} (here : t.get? p = some r)
    (r' : PromiseRecord) (q : Ptr) :
    ((t.set p r').entries.flatMap fun e => e.2.derived).count q + r.derived.count q =
      (t.entries.flatMap fun e => e.2.derived).count q + r'.derived.count q :=
  Table.count_flatMap_put here PromiseRecord.derived r' q

theorem count_derived_new {t : Table Ptr PromiseRecord} {p : Ptr} (absent : t.get? p = none) (q : Ptr) :
    ((t.set p .fresh).entries.flatMap fun e => e.2.derived).count q =
      (t.entries.flatMap fun e => e.2.derived).count q := by
  have added := Table.flatMap_put_new absent PromiseRecord.derived .fresh
  change ((Table.put p .fresh t.entries).flatMap fun e => e.2.derived).count q = _
  rw [added]
  simp [PromiseRecord.derived, PromiseRecord.fresh]

theorem records_set {t : Table Ptr PromiseRecord} {p : Ptr} {r r' : PromiseRecord} (here : t.get? p = some r)
    (settlement : r'.settlement = r.settlement) (resolved : r'.resolved = false -> r.resolved = false) (q : Ptr)
    (x : PromiseRecord) (found : (t.set p r').get? q = some x) :
    ∃ y, t.get? q = some y ∧ y.settlement = x.settlement ∧ (x.resolved = false -> y.resolved = false) := by
  rw [Table.get?_set] at found
  split at found
  next same =>
    cases found
    exact ⟨r, same ▸ here, settlement.symm, resolved⟩
  next => exact ⟨x, found, rfl, id⟩

theorem Lesser.of_tasks {o o' : List Task} {a : Affairs}
    (targets : ∀ q, (o'.map Task.target).count q ≤ (o.map Task.target).count q)
    (jobs : ∀ j, .job j ∈ o' -> .job j ∈ o) : Lesser (o, a) (o', a) where
  records p r' found := ⟨r', found, rfl, id⟩
  resolvers _ _ here := here
  targets q := by
    have fewer := targets q
    simp only [count_targets]
    omega
  jobs j waiting := .inl (waiting.imp_right (jobs j))

theorem Affairs.Forgets.lesser {o : List Task} {a b : Affairs} (less : a.Forgets b) : Lesser (o, a) (o, b) where
  records p r' found := ⟨r', less.promise found, rfl, id⟩
  resolvers := less.resolvers
  targets q := by
    have fewer : (b.promises.entries.flatMap fun e => e.2.derived).count q ≤
        (a.promises.entries.flatMap fun e => e.2.derived).count q :=
      (less.promises.flatMap fun e => e.2.derived).count_le q
    simp only [count_targets, less.jobs]
    omega
  jobs j waiting := .inl (waiting.imp_left fun member => less.jobs ▸ member)

theorem absent_set {t : Table Ptr PromiseRecord} {p q : Ptr} {r : PromiseRecord} (here : t.get? p = some r)
    (absent : t.get? q = none) (r' : PromiseRecord) : (t.set p r').get? q = none := by
  rw [Table.get?_set]
  split
  next same => simp [← same, here] at absent
  next => exact absent

theorem retask_steady {t t' : Task} {o : List Task} {a : Affairs} (ok : Steady (t :: o, a))
    (target : t'.target = t.target) (other : ∀ j, t' ≠ .job j) : Steady (t' :: o, a) := by
  apply (Lesser.of_tasks (o := t :: o) (fun q => ?_) fun j later => ?_).steady ok
  next => simp [target]
  next =>
    rcases List.mem_cons.1 later with same | later
    next => exact absurd same.symm (other j)
    next => exact List.mem_cons_of_mem t later

theorem store_lesser {p : Ptr} {x : Reaction} {r : PromiseRecord} {o : List Task} {a : Affairs}
    (here : a.promises.get? p = some r) :
    Lesser (.reaction p x :: o, a) (o, a.react p { r with reactions := r.reactions ++ [x] } []) where
  records := records_set here rfl id
  resolvers _ _ able := able
  targets q := by
    have moved := count_derived_set here { r with handled := true, reactions := r.reactions ++ [x] } q
    simp only [PromiseRecord.derived, List.map_append, List.count_append, List.map_cons, List.map_nil] at moved
    simp only [count_targets, Affairs.react, List.map_cons, Task.target, List.count_cons, List.count_nil,
      PromiseRecord.derived] at moved ⊢
    omega
  jobs _ waiting := .inl (waiting.imp_right fun later => List.mem_cons_of_mem _ later)

theorem react_lesser {p v : Ptr} {x : Reaction} {rejected : Bool} {r : PromiseRecord} {o : List Task} {a : Affairs}
    {events : List Rejection} (here : a.promises.get? p = some r) (settled : r.settlement = .ofPayload rejected v)
    (ok : Steady (.reaction p x :: o, a)) :
    Lesser (.reaction p x :: o, a) (.job (x.job v rejected) :: o, a.react p r events) where
  records := records_set here rfl id
  resolvers _ _ able := able
  targets q := by
    have moved := count_derived_set here { r with handled := true } q
    simp only [PromiseRecord.derived, count_targets, Affairs.react, List.map_cons, Task.target, Reaction.job] at moved ⊢
    omega
  jobs j waiting := by
    rcases waiting with queued | under
    next => exact .inl (.inl queued)
    next =>
      rcases List.mem_cons.1 under with same | later
      next =>
        cases same
        refine .inr fun fulfilled => ok.plain p r v here ?_
        simpa [Reaction.job, show rejected = false from fulfilled, Settlement.ofPayload] using settled
      next => exact .inl (.inr (List.mem_cons_of_mem _ later))

theorem enqueue_lesser {j : Job} {o : List Task} {a : Affairs} :
    Lesser (.job j :: o, a) (o, { a with jobs := a.jobs ++ [j], queued := j :: a.queued }) where
  records p r' found := ⟨r', found, rfl, id⟩
  resolvers _ _ able := able
  targets q := by
    simp only [count_targets, List.map_append, List.map_cons, List.map_nil, List.count_append, List.count_cons,
      List.count_nil, Task.target]
    omega
  jobs i waiting := by
    rcases waiting with queued | under
    next =>
      rcases List.mem_append.1 queued with queued | last
      next => exact .inl (.inl queued)
      next =>
        obtain rfl : i = j := by simpa using last
        exact .inl (.inr (by simp))
    next => exact .inl (.inr (List.mem_cons_of_mem _ under))

theorem count_settled {p v : Ptr} {rejected : Bool} {r : PromiseRecord} {o : List Task} {a : Affairs}
    (here : a.promises.get? p = some r) (q : Ptr) :
    (targets (r.reactions.map (fun x => Task.job (x.job v rejected)) ++ o, a.settle p r v rejected)).count q +
        [p].count q = (targets (.resolution p v rejected :: o, a)).count q := by
  have moved := count_derived_set here { r with settlement := .ofPayload rejected v, reactions := [] } q
  have same : (r.reactions.map fun x => Task.job (x.job v rejected)).map Task.target = r.derived := by
    simp [PromiseRecord.derived, Task.target, Reaction.job, Function.comp_def]
  have none : ({ r with settlement := .ofPayload rejected v, reactions := [] } : PromiseRecord).derived = [] := rfl
  rw [none, List.count_nil] at moved
  simp only [count_targets, List.map_append, same, List.map_cons, Task.target, List.count_append, List.count_cons,
    List.count_nil, Affairs.settle]
  omega

/-- Settling the only target that a promise has leaves it none. -/
theorem settle_steady {p v : Ptr} {rejected : Bool} {r : PromiseRecord} {o : List Task} {a : Affairs}
    (here : a.promises.get? p = some r) (plain : rejected = false -> a.promises.get? v = none)
    (ok : Steady (.resolution p v rejected :: o, a)) :
    Steady (r.reactions.map (fun x => Task.job (x.job v rejected)) ++ o, a.settle p r v rejected) := by
  have count : ∀ q, (targets (r.reactions.map (fun x => Task.job (x.job v rejected)) ++ o,
      a.settle p r v rejected)).count q + [p].count q = (targets (.resolution p v rejected :: o, a)).count q :=
    count_settled here
  have inside : p ∈ targets (.resolution p v rejected :: o, a) := by simp [targets, Task.target]
  have left : p ∉ targets (r.reactions.map (fun x => Task.job (x.job v rejected)) ++ o, a.settle p r v rejected) := by
    have before := ok.single p r here
    have after := count p
    rw [← List.count_eq_zero]
    simp only [List.count_singleton_self] at after
    omega
  have others : ∀ q, q ∉ targets (.resolution p v rejected :: o, a) ->
      q ∉ targets (r.reactions.map (fun x => Task.job (x.job v rejected)) ++ o, a.settle p r v rejected) := by
    intro q free
    have same := count q
    rw [← List.count_eq_zero] at free ⊢
    omega
  constructor
  next =>
    intro q r' found
    simp only [Affairs.settle, Table.get?_set] at found
    split at found
    next same => exact same ▸ (List.count_eq_zero_of_not_mem left) ▸ Nat.zero_le 1
    next =>
      have before := ok.single q r' found
      have after := count q
      omega
  next =>
    intro q r' found settled
    simp only [Affairs.settle, Table.get?_set] at found
    split at found
    next same => exact same ▸ left
    next => exact others q (ok.settled q r' found settled)
  next =>
    intro f q reject r' able found first
    simp only [Affairs.settle, Table.get?_set] at found
    split at found
    next same =>
      cases found
      exact absurd inside (ok.guarded f p reject r (same ▸ able) here first).2
    next =>
      obtain ⟨pending, free⟩ := ok.guarded f q reject r' able found first
      exact ⟨pending, others q free⟩
  next =>
    intro q r' w found fulfilled
    apply absent_set here
    simp only [Affairs.settle, Table.get?_set] at found
    split at found
    next =>
      cases found
      cases rejected with
      | true => simp [Settlement.ofPayload] at fulfilled
      | false =>
        obtain rfl : v = w := by simpa [Settlement.ofPayload] using fulfilled
        exact plain rfl
    next => exact ok.plain q r' w found fulfilled
  next =>
    intro j waiting fulfilled
    apply absent_set here
    rcases waiting with queued | under
    next => exact ok.argument j (.inl queued) fulfilled
    next =>
      rcases List.mem_append.1 under with made | before
      next =>
        obtain ⟨x, -, same⟩ := List.mem_map.1 made
        cases same
        exact plain fulfilled
      next => exact ok.argument j (.inr (List.mem_cons_of_mem _ before)) fulfilled

theorem Turn.steady (step : Turn s s') (ok : Steady s) : Steady s' := by
  cases step with
  | forget less => exact less.lesser.steady ok
  | @drop t o a =>
    have less : Lesser (t :: o, a) (o, a) :=
      .of_tasks (fun q => List.count_le_count_cons) fun j later => List.mem_cons_of_mem _ later
    exact less.steady ok
  | pass => exact retask_steady ok rfl (by simp)
  | handle handler => exact retask_steady ok rfl (by simp)
  | finish v reject => exact retask_steady ok rfl (by simp)
  | refuse error => exact retask_steady ok rfl (by simp)
  | adopt other promise => exact retask_steady ok rfl (by simp)
  | settle here pending plain => exact settle_steady here plain ok
  | store here pending => exact (store_lesser here).steady ok
  | react here settled => exact (react_lesser here settled ok).steady ok
  | enqueue => exact enqueue_lesser.steady ok

theorem Turns.steady (steps : Turns s s') (ok : Steady s) : Steady s' := by
  induction steps with
  | refl => exact ok
  | tail _ step ih => exact step.steady ih

/-- A task may take as its target what has no other one, and what no function settles any more. -/
theorem push_steady {t : Task} {o : List Task} {a : Affairs} (ok : Steady (o, a)) (other : ∀ j, t ≠ .job j)
    (free : ∀ r, a.promises.get? t.target = some r -> r.settlement = .pending ∧ t.target ∉ targets (o, a) ∧
      ∀ f reject, a.resolver? f = some (t.target, reject) -> r.resolved = true) : Steady (t :: o, a) := by
  have same : targets (t :: o, a) = t.target :: targets (o, a) := rfl
  constructor
  next =>
    intro q r found
    rw [same, List.count_cons]
    by_cases here : t.target = q
    next =>
      subst here
      simp [List.count_eq_zero_of_not_mem (free r found).2.1]
    next => simpa [here] using ok.single q r found
  next =>
    intro q r found settled
    rw [same, List.mem_cons, not_or]
    refine ⟨?_, ok.settled q r found settled⟩
    rintro rfl
    exact settled (free r found).1
  next =>
    intro f q reject r able found first
    obtain ⟨pending, absent⟩ := ok.guarded f q reject r able found first
    rw [same, List.mem_cons, not_or]
    refine ⟨pending, ?_, absent⟩
    rintro rfl
    simp [(free r found).2.2 f reject able] at first
  next => exact ok.plain
  next =>
    intro j waiting fulfilled
    refine ok.argument j (waiting.imp_right fun member => ?_) fulfilled
    rcases List.mem_cons.1 member with same | later
    next => exact absurd same.symm (other j)
    next => exact later

theorem mark_lesser {p : Ptr} {r : PromiseRecord} {o : List Task} {a : Affairs} (here : a.promises.get? p = some r) :
    Lesser (o, a) (o, a.mark p r) where
  records := records_set here rfl (by simp)
  resolvers _ _ able := able
  targets q := by
    have moved := count_derived_set here { r with resolved := true } q
    simp only [PromiseRecord.derived] at moved
    simp only [count_targets, Affairs.mark, PromiseRecord.derived]
    omega
  jobs _ waiting := .inl waiting

theorem call_steady {p v f : Ptr} {reject : Bool} {r : PromiseRecord} {o : List Task} {a : Affairs}
    (able : a.resolver? f = some (p, reject)) (here : a.promises.get? p = some r) (first : r.resolved = false)
    (ok : Steady (o, a)) : Steady (.resolution p v reject :: o, a.mark p r) := by
  obtain ⟨pending, free⟩ := ok.guarded f p reject r able here first
  apply push_steady ((mark_lesser here).steady ok) (by simp)
  intro r' found
  obtain rfl : { r with resolved := true } = r' := by simpa [Affairs.mark, Task.target] using found
  exact ⟨pending, (mark_lesser here).untargeted free, fun _ _ _ => rfl⟩

theorem begin_steady {n : Nat} {o : List Task} {a : Affairs} (unknown : Unknown (o, a) (UInt32.ofNat n))
    (ok : Steady (o, a)) : Steady (o, a.begin n) ∧ UInt32.ofNat n ∉ targets (o, a.begin n) := by
  generalize hp : UInt32.ofNat n = p at *
  have count : ∀ q, (targets (o, a.begin n)).count q = (targets (o, a)).count q := by
    intro q
    have same := count_derived_new unknown.promise q
    simp only [count_targets, Affairs.begin, hp, same]
  have free : ∀ q, q ∉ targets (o, a) -> q ∉ targets (o, a.begin n) := by
    intro q absent
    rw [← List.count_eq_zero] at absent ⊢
    exact (count q).trans absent
  have cases : ∀ q r, (a.begin n).promises.get? q = some r -> (q = p ∧ r = .fresh) ∨ a.promises.get? q = some r := by
    intro q r found
    simp only [Affairs.begin, hp, Table.get?_set] at found
    split at found
    next same => exact .inl ⟨same.symm, (Option.some.inj found).symm⟩
    next => exact .inr found
  have absent : ∀ q, q ≠ p -> a.promises.get? q = none -> (a.begin n).promises.get? q = none := by
    intro q other gone
    simpa [Affairs.begin, hp, Ne.symm other] using gone
  refine ⟨?_, free p unknown.target⟩
  constructor
  next =>
    intro q r found
    rw [count q]
    rcases cases q r found with ⟨rfl, -⟩ | before
    next => exact (List.count_eq_zero_of_not_mem unknown.target) ▸ Nat.zero_le 1
    next => exact ok.single q r before
  next =>
    intro q r found settled
    rcases cases q r found with ⟨-, rfl⟩ | before
    next => exact absurd rfl settled
    next => exact free q (ok.settled q r before settled)
  next =>
    intro f q reject r able found first
    rcases cases q r found with ⟨rfl, -⟩ | before
    next => exact absurd able (unknown.resolver f reject)
    next =>
      obtain ⟨pending, apart⟩ := ok.guarded f q reject r able before first
      exact ⟨pending, free q apart⟩
  next =>
    intro q r v found fulfilled
    rcases cases q r found with ⟨-, rfl⟩ | before
    next => simp [PromiseRecord.fresh] at fulfilled
    next =>
      apply absent v _ (ok.plain q r v before fulfilled)
      rintro rfl
      exact unknown.value q r before fulfilled
  next =>
    intro j waiting fulfilled
    exact absent j.argument (unknown.argument j waiting) (ok.argument j waiting fulfilled)

theorem empower_steady {p : Ptr} {o : List Task} {a : Affairs} {able : Ptr -> Option (Ptr × Bool)}
    (mine : ∀ f t, able f = some t -> a.resolver? f = some t ∨ t.1 = p)
    (free : ∀ r, a.promises.get? p = some r -> r.settlement = .pending ∧ p ∉ targets (o, a)) (ok : Steady (o, a)) :
    Steady (o, { a with resolver? := able }) := by
  refine ⟨ok.single, ok.settled, fun f q reject r here found first => ?_, ok.plain, ok.argument⟩
  rcases mine f _ here with before | rfl
  next => exact ok.guarded f q reject r before found first
  next => exact free r found

theorem Opening.steady (opening : Opening True s s') (ok : Steady s) : Steady s' := by
  cases opening with
  | rest => exact ok
  | @take j rest o a waiting =>
    have less : Lesser (o, a) (.job j :: o, { a with jobs := rest, taken := j :: a.taken }) := by
      refine ⟨fun p r' found => ⟨r', found, rfl, id⟩, fun _ _ able => able, fun q => ?_, fun i under => .inl ?_⟩
      next =>
        simp only [count_targets, waiting, List.map_cons, List.count_cons, Task.target]
        omega
      next =>
        rcases under with later | under
        next => exact .inl (by simp [waiting, show i ∈ rest from later])
        next =>
          rcases List.mem_cons.1 under with same | later
          next =>
            cases same
            exact .inl (by simp [waiting])
          next => exact .inr later
    exact less.steady ok
  | capability n later absent unknown able mine =>
    obtain ⟨begun, free⟩ := begin_steady (unknown trivial) ok
    refine empower_steady mine (fun r found => ⟨?_, free⟩) begun
    obtain rfl : PromiseRecord.fresh = r := by simpa [Affairs.begin] using found
    rfl
  | @derive o a p x n later absent unknown derived =>
    obtain ⟨begun, free⟩ := begin_steady (unknown trivial) ok
    apply push_steady begun (by simp)
    simp only [Task.target, derived]
    intro r found
    obtain rfl : PromiseRecord.fresh = r := by simpa [Affairs.begin] using found
    exact ⟨rfl, free, fun f reject able => absurd able ((unknown trivial).resolver f reject)⟩
  | barren nobody able mine => exact empower_steady mine (fun r found => by simp [nobody trivial] at found) ok
  | @sterile o a p x nobody derived =>
    apply push_steady ok (by simp)
    simp only [Task.target, derived]
    intro r found
    simp [nobody trivial] at found
  | collect => exact ⟨ok.single, ok.settled, ok.guarded, ok.plain, ok.argument⟩
  | clear =>
    have none : ∀ p r, (Table.empty : Table Ptr PromiseRecord).get? p ≠ some r := by simp
    refine ⟨?_, ?_, ?_, ?_, ?_⟩
    next => exact fun p r found => absurd found (none p r)
    next => exact fun p r found => absurd found (none p r)
    next => exact fun f p reject r able => by cases able
    next => exact fun p r v found => absurd found (none p r)
    next => exact fun j waiting fulfilled => by simp [Affairs.clear]

end ScriptHost
