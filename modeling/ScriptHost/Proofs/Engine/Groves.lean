import ScriptHost.Proofs.Engine.Settlements
import ScriptHost.Proofs.Engine.Staying

set_option autoImplicit false

/-!
Promises that hang on one another below a root.

A grove is grown by attaching reactions without handlers and by resolving its promises with one another. As long
as no job runs, a pending promise of it has just the reactions of those that hang on it, and once the root has
settled those that hang on the root have their jobs.
-/

namespace ScriptHost

/-- A record of how promises were hung on one another. A pointer stands for what it named last. -/
structure Grove where
  root : Option Ptr
  planted : List Ptr
  -- None stands for the root, which may be gone before its jobs have run.
  hung : List (Ptr × Option Ptr)
  -- The value that the root was settled with, and whether it was rejected.
  outcome : Option (Ptr × Bool)

namespace Affairs

/-- New jobs are at the end of the queue. -/
def post (a : Affairs) (js : List Job) : Affairs :=
  { a with jobs := a.jobs ++ js, queued := js.reverse ++ a.queued }

end Affairs

namespace Grove

variable {f : Grove} {p q c v : Ptr} {rejected : Bool} {r : PromiseRecord} {a b : Affairs} {n : Nat} {x : Option Ptr}

def seed (p : Ptr) : Grove :=
  ⟨some p, [p], [], none⟩

def node (f : Grove) (q : Ptr) : Option Ptr :=
  if f.root = some q then none else some q

/-- A new promise, unless there was no pointer for it and zero stands for it. -/
def sprout (f : Grove) (p : Ptr) : Grove :=
  if p = 0 then f
  else
    { f with
      root := f.root.filter (· ≠ p)
      planted := p :: f.planted
      hung := f.hung.filter fun e => e.1 ≠ p ∧ e.2 ≠ some p }

def hang (f : Grove) (p q : Ptr) : Grove :=
  { f with hung := f.hung ++ [(p, f.node q)] }

/-- What hangs on the root, at first hand or not. -/
inductive Below (f : Grove) : Ptr -> Prop
  | root {p : Ptr} (hung : (p, none) ∈ f.hung) : Below f p
  | on {p q : Ptr} (hung : (p, some q) ∈ f.hung) (below : Below f q) : Below f p

/-- Nothing hangs on the promise. -/
def Bare (f : Grove) (p : Ptr) : Prop :=
  ∀ e ∈ f.hung, e.2 ≠ some p

instance (f : Grove) : DecidablePred f.Bare :=
  fun p => inferInstanceAs (Decidable (∀ e ∈ f.hung, e.2 ≠ some p))

theorem node_none : f.node q = none ↔ f.root = some q := by
  unfold node
  split <;> simp_all

theorem node_some : f.node q = some p ↔ q = p ∧ f.root ≠ some q := by
  unfold node
  split <;> simp_all

theorem node_inj (same : f.node p = f.node q) : p = q := by
  cases above : f.node q with
  | none => exact Option.some.inj ((node_none.1 (same.trans above)).symm.trans (node_none.1 above))
  | some u => exact (node_some.1 (same.trans above)).1.trans (node_some.1 above).1.symm

section Sprout

variable (big : p ≠ 0)

include big

theorem root_sprout : (f.sprout p).root = some q ↔ f.root = some q ∧ q ≠ p := by
  simp [sprout, big, Option.filter_eq_some_iff]

theorem hung_sprout : (c, x) ∈ (f.sprout p).hung ↔ (c, x) ∈ f.hung ∧ c ≠ p ∧ x ≠ some p := by
  simp [sprout, big]

theorem planted_sprout : q ∈ (f.sprout p).planted ↔ q = p ∨ q ∈ f.planted := by
  simp [sprout, big]

theorem outcome_sprout : (f.sprout p).outcome = f.outcome := by
  simp [sprout, big]

theorem node_sprout (other : q ≠ p) : (f.sprout p).node q = f.node q := by
  simp only [node, root_sprout big, other, ne_eq, not_false_eq_true, and_true]

end Sprout

/-- A pending promise has the reactions of what hangs on it. -/
structure Awaits (f : Grove) (q : Ptr) (r : PromiseRecord) : Prop where
  pending : r.settlement = .pending
  reactions : ∀ x, x ∈ r.reactions ↔ ∃ p, (p, f.node q) ∈ f.hung ∧ x = ⟨p, none, none⟩
  handled : r.handled = true ↔ ∃ p, (p, f.node q) ∈ f.hung

/-- What is hung there will not be lost. -/
def Holds (f : Grove) (a : Affairs) : Option Ptr -> Prop
  | none => f.outcome.isSome ∨ ∃ q, f.root = some q ∧ (a.promises.get? q).isSome
  | some q => (a.promises.get? q).isSome

/-- Promises and jobs are as they should be, of those promises that are there. -/
structure Shaped (f : Grove) (a : Affairs) : Prop where
  waiting : ∀ q r, q ∈ f.planted -> f.root ≠ some q ∨ f.outcome = none -> a.promises.get? q = some r -> f.Awaits q r
  settled : ∀ q r v rejected, f.root = some q -> f.outcome = some (v, rejected) -> a.promises.get? q = some r ->
    r.settlement = .ofPayload rejected v
  jobs : ∀ j, j ∈ a.jobs ↔
    ∃ v rejected p, f.outcome = some (v, rejected) ∧ (p, none) ∈ f.hung ∧ j = ⟨none, p, v, rejected⟩
  planted : ∀ p x, (p, x) ∈ f.hung -> p = 0 ∨ p ∈ f.planted ∧ f.root ≠ some p
  hosts : ∀ p q, (p, some q) ∈ f.hung -> q ≠ 0 ∧ q ∈ f.planted ∧ f.root ≠ some q
  rooted : ∀ q, f.root = some q -> q ∈ f.planted

/-- What hangs where it will not be lost is there as well. -/
structure Grown (f : Grove) (a : Affairs) : Prop extends f.Shaped a where
  there : ∀ p x, (p, x) ∈ f.hung -> f.Holds a x -> p = 0 ∨ (a.promises.get? p).isSome

theorem target_of_job {o : List Task} {j : Job} (waiting : j ∈ a.jobs) : j.derived ∈ targets (o, a) := by
  simp only [targets, List.mem_append, List.mem_map]
  exact .inr (.inl ⟨j, waiting, rfl⟩)

theorem target_of_reaction {o : List Task} {y : Reaction} (here : a.promises.get? q = some r) (attached : y ∈ r.reactions) :
    y.derived ∈ targets (o, a) := by
  simp only [targets, List.mem_append, List.mem_flatMap]
  exact .inr (.inr ⟨(q, r), Table.mem_of_find here, List.mem_map.2 ⟨y, attached, rfl⟩⟩)

theorem Holds.kept (kept : ∀ q, (a.promises.get? q).isSome -> (b.promises.get? q).isSome) (holds : f.Holds a x) :
    f.Holds b x := by
  cases x with
  | none => exact holds.imp_right (Exists.imp fun q => And.imp_right (kept q))
  | some q => exact kept q holds

namespace Shaped

theorem target_of_host (shaped : f.Shaped a) (hung : (p, f.node q) ∈ f.hung) (member : q ∈ f.planted)
    (open' : f.root ≠ some q ∨ f.outcome = none) (here : a.promises.get? q = some r) : p ∈ targets ([], a) :=
  target_of_reaction here ((shaped.waiting q r member open' here).reactions ⟨p, none, none⟩ |>.2 ⟨p, hung, rfl⟩)

/-- What hangs where it will not be lost is referred to. -/
theorem target (shaped : f.Shaped a) (hung : (p, x) ∈ f.hung) (holds : f.Holds a x) : p ∈ targets ([], a) := by
  cases x with
  | none =>
    cases outcome : f.outcome with
    | some o => exact target_of_job ((shaped.jobs ⟨none, p, o.1, o.2⟩).2 ⟨o.1, o.2, p, outcome, hung, rfl⟩)
    | none =>
      obtain ⟨q, root, alive⟩ := holds.resolve_left (by simp [outcome])
      obtain ⟨r, here⟩ := Option.isSome_iff_exists.1 alive
      exact shaped.target_of_host ((node_none.2 root).symm ▸ hung) (shaped.rooted q root) (.inr outcome) here
  | some q =>
    obtain ⟨r, here⟩ := Option.isSome_iff_exists.1 holds
    obtain ⟨-, member, other⟩ := shaped.hosts p q hung
    exact shaped.target_of_host ((node_some.2 ⟨rfl, other⟩).symm ▸ hung) member (.inl other) here

theorem forget (shaped : f.Shaped a) (less : a.Forgets b) : f.Shaped b where
  waiting q r member open' found := shaped.waiting q r member open' (less.promise found)
  settled q r v rejected root outcome found := shaped.settled q r v rejected root outcome (less.promise found)
  jobs j := less.jobs ▸ shaped.jobs j
  planted := shaped.planted
  hosts := shaped.hosts
  rooted := shaped.rooted

end Shaped

namespace Grown

/-- A grove is about promises and jobs only. -/
theorem congr (grown : f.Grown a) (promises : b.promises = a.promises) (jobs : b.jobs = a.jobs) : f.Grown b := by
  have holds (x : Option Ptr) (holds : f.Holds b x) : f.Holds a x := holds.kept fun q here => promises ▸ here
  refine ⟨⟨?_, ?_, ?_, grown.planted, grown.hosts, grown.rooted⟩, fun p x hung here => ?_⟩
  · exact promises ▸ grown.waiting
  · exact promises ▸ grown.settled
  · exact jobs ▸ grown.jobs
  · exact promises ▸ grown.there p x hung (holds x here)

/-- Promises may go that nothing refers to. -/
theorem forget (grown : f.Grown a) (less : a.Forgets b)
    (lasting : ∀ p ∈ targets ([], b), (a.promises.get? p).isSome -> (b.promises.get? p).isSome) : f.Grown b where
  toShaped := grown.toShaped.forget less
  there p x hung holds := by
    have before : f.Holds a x := holds.kept fun q here => by
      obtain ⟨r, found⟩ := Option.isSome_iff_exists.1 here
      exact Option.isSome_iff_exists.2 ⟨r, less.promise found⟩
    exact (grown.there p x hung before).imp_right (lasting p ((grown.toShaped.forget less).target hung holds))

theorem seed (p : Ptr) (idle : a.jobs = []) (fresh : ∀ r, a.promises.get? p = some r -> r = .fresh) :
    (Grove.seed p).Grown a where
  waiting q r member _ here := by
    obtain rfl : q = p := by simpa [Grove.seed] using member
    obtain rfl := fresh r here
    exact ⟨rfl, by simp [Grove.seed, PromiseRecord.fresh], by simp [Grove.seed, PromiseRecord.fresh]⟩
  settled _ _ _ _ _ outcome _ := by cases outcome
  jobs j := by simp [idle, Grove.seed]
  planted _ _ hung := by cases hung
  hosts _ _ hung := by cases hung
  rooted q root := by simpa [Grove.seed, eq_comm] using root
  there _ _ hung := by cases hung

/-- A new promise is planted. -/
theorem sprout (grown : f.Grown a) (unknown : UInt32.ofNat n ∉ targets ([], a)) (big : UInt32.ofNat n ≠ 0) :
    (f.sprout (UInt32.ofNat n)).Grown (a.begin n) := by
  generalize hp : UInt32.ofNat n = p at *
  have begun (q : Ptr) : (a.begin n).promises.get? q = if p = q then some .fresh else a.promises.get? q := by
    simp only [Affairs.begin, hp, Table.get?_set]
  have old {q : Ptr} {r : PromiseRecord} (other : q ≠ p) (found : (a.begin n).promises.get? q = some r) :
      a.promises.get? q = some r := by
    rwa [begun, if_neg (Ne.symm other)] at found
  have unnamed {x : Option Ptr} {c : Ptr} (hung : (c, x) ∈ f.hung) (holds : f.Holds a x) : c ≠ p := by
    rintro rfl
    exact unknown (grown.target hung holds)
  constructor
  next =>
    constructor
    next =>
      intro q r member open' found
      by_cases same : q = p
      next =>
        subst same
        obtain rfl : PromiseRecord.fresh = r := by simpa [begun] using found
        have top : (f.sprout q).node q = some q := node_some.2 ⟨rfl, by simp [root_sprout big]⟩
        have none : ∀ c, (c, some q) ∉ (f.sprout q).hung := by simp [hung_sprout big]
        exact ⟨rfl, by simp [PromiseRecord.fresh, top, none], by simp [PromiseRecord.fresh, top, none]⟩
      next =>
        have here := old same found
        have free : f.root ≠ some q ∨ f.outcome = none :=
          open'.imp (fun other root => other ((root_sprout big).2 ⟨root, same⟩)) (outcome_sprout big).symm.trans
        have awaits := grown.waiting q r (((planted_sprout big).1 member).resolve_left same) free here
        have hung (c : Ptr) : (c, (f.sprout p).node q) ∈ (f.sprout p).hung ↔ (c, f.node q) ∈ f.hung := by
          rw [hung_sprout big, node_sprout big same]
          refine ⟨And.left, fun there => ⟨there, ?_, fun named => same (node_some.1 named).1⟩⟩
          rintro rfl
          exact unknown (target_of_reaction here ((awaits.reactions ⟨c, none, none⟩).2 ⟨c, there, rfl⟩))
        exact ⟨awaits.pending, by simpa only [hung] using awaits.reactions, by simpa only [hung] using awaits.handled⟩
    next =>
      intro q r v rejected root outcome found
      obtain ⟨root, other⟩ := (root_sprout big).1 root
      exact grown.settled q r v rejected root ((outcome_sprout big).symm.trans outcome) (old other found)
    next =>
      intro j
      rw [show (a.begin n).jobs = a.jobs from rfl, grown.jobs, outcome_sprout big]
      constructor
      · rintro ⟨v, rejected, c, outcome, hung, same⟩
        exact ⟨v, rejected, c, outcome, (hung_sprout big).2 ⟨hung, unnamed hung (.inl (by simp [outcome])), by simp⟩, same⟩
      · rintro ⟨v, rejected, c, outcome, hung, same⟩
        exact ⟨v, rejected, c, outcome, ((hung_sprout big).1 hung).1, same⟩
    next =>
      intro c x hung
      obtain ⟨hung, other, -⟩ := (hung_sprout big).1 hung
      refine (grown.planted c x hung).imp_right fun old => ?_
      exact ⟨(planted_sprout big).2 (.inr old.1), fun root => old.2 ((root_sprout big).1 root).1⟩
    next =>
      intro c q hung
      obtain ⟨hung, -, -⟩ := (hung_sprout big).1 hung
      obtain ⟨some, member, apart⟩ := grown.hosts c q hung
      exact ⟨some, (planted_sprout big).2 (.inr member), fun root => apart ((root_sprout big).1 root).1⟩
    next =>
      intro q root
      exact (planted_sprout big).2 (.inr (grown.rooted q ((root_sprout big).1 root).1))
  next =>
    intro c x hung holds
    obtain ⟨hung, other, apart⟩ := (hung_sprout big).1 hung
    have kept (q : Ptr) (different : q ≠ p) (here : ((a.begin n).promises.get? q).isSome) : (a.promises.get? q).isSome := by
      rwa [begun, if_neg (Ne.symm different)] at here
    have before : f.Holds a x := by
      cases x with
      | none =>
        rcases holds with past | ⟨q, root, here⟩
        · exact .inl (outcome_sprout big ▸ past)
        · obtain ⟨root, different⟩ := (root_sprout big).1 root
          exact .inr ⟨q, root, kept q different here⟩
      | some q => exact kept q (fun same => apart (congrArg some same)) holds
    refine (grown.there c x hung before).imp_right fun alive => ?_
    rwa [begun, if_neg (Ne.symm other)]

theorem isSome_set {t : Table Ptr PromiseRecord} (here : t.get? p = some r) (r' : PromiseRecord) (q : Ptr) :
    ((t.set p r').get? q).isSome = (t.get? q).isSome := by
  rw [Table.get?_set]
  split
  next same => simp [← same, here]
  next => rfl

theorem mark (grown : f.Grown a) (here : a.promises.get? p = some r) : f.Grown (a.mark p r) := by
  have found {q : Ptr} {y : PromiseRecord} (there : (a.mark p r).promises.get? q = some y) :
      ∃ x, a.promises.get? q = some x ∧ x.settlement = y.settlement ∧ x.reactions = y.reactions ∧ x.handled = y.handled := by
    simp only [Affairs.mark, Table.get?_set] at there
    split at there
    next same =>
      cases there
      exact ⟨r, same ▸ here, rfl, rfl, rfl⟩
    next => exact ⟨y, there, rfl, rfl, rfl⟩
  have alive (q : Ptr) := isSome_set here { r with resolved := true } q
  constructor
  next =>
    refine ⟨fun q y member open' there => ?_, fun q y v rejected root outcome there => ?_, grown.jobs, grown.planted,
      grown.hosts, grown.rooted⟩
    next =>
      obtain ⟨x, before, settlement, reactions, handled⟩ := found there
      obtain ⟨pending, attached, flag⟩ := grown.waiting q x member open' before
      exact ⟨settlement ▸ pending, reactions ▸ attached, handled ▸ flag⟩
    next =>
      obtain ⟨x, before, settlement, -⟩ := found there
      exact settlement ▸ grown.settled q x v rejected root outcome before
  next =>
    intro c x hung holds
    refine (grown.there c x hung (holds.kept fun q there => ?_)).imp_right fun there => ?_
    · exact (alive q).symm.trans there
    · exact (alive c).trans there

/-- A promise that may be hung on another one. -/
def Free (f : Grove) (a : Affairs) (p : Ptr) : Prop :=
  p = 0 ∨ (a.promises.get? p).isSome ∧ p ∈ f.planted ∧ f.root ≠ some p

theorem mem_hang : (c, x) ∈ (f.hang p q).hung ↔ (c, x) ∈ f.hung ∨ c = p ∧ x = f.node q := by
  simp [hang]

theorem node_hang (u : Ptr) : (f.hang p q).node u = f.node u :=
  rfl

/-- Something is hung on a promise. The records and jobs have to be seen to. -/
theorem hang (grown : f.Grown a) (free : Free f a p) (big : q ≠ 0) (member : q ∈ f.planted)
    (alive : ∀ u, (b.promises.get? u).isSome = (a.promises.get? u).isSome)
    (waiting : ∀ u r, u ∈ f.planted -> f.root ≠ some u ∨ f.outcome = none -> b.promises.get? u = some r ->
      (f.hang p q).Awaits u r)
    (settled : ∀ u r v rejected, f.root = some u -> f.outcome = some (v, rejected) -> b.promises.get? u = some r ->
      r.settlement = .ofPayload rejected v)
    (jobs : ∀ j, j ∈ b.jobs ↔ j ∈ a.jobs ∨
      ∃ v rejected, f.outcome = some (v, rejected) ∧ f.root = some q ∧ j = ⟨none, p, v, rejected⟩) :
    (f.hang p q).Grown b := by
  constructor
  next =>
    refine ⟨waiting, settled, fun j => ?_, fun c x hung => ?_, fun c u hung => ?_, grown.rooted⟩
    next =>
      rw [jobs, grown.jobs]
      constructor
      · rintro (⟨v, rejected, c, outcome, hung, same⟩ | ⟨v, rejected, outcome, root, same⟩)
        · exact ⟨v, rejected, c, outcome, mem_hang.2 (.inl hung), same⟩
        · exact ⟨v, rejected, p, outcome, mem_hang.2 (.inr ⟨rfl, (node_none.2 root).symm⟩), same⟩
      · rintro ⟨v, rejected, c, outcome, hung, same⟩
        rcases mem_hang.1 hung with old | ⟨rfl, top⟩
        · exact .inl ⟨v, rejected, c, outcome, old, same⟩
        · exact .inr ⟨v, rejected, outcome, node_none.1 top.symm, same⟩
    next =>
      rcases mem_hang.1 hung with old | ⟨rfl, -⟩
      · exact grown.planted c x old
      · exact free.imp_right And.right
    next =>
      rcases mem_hang.1 hung with old | ⟨-, host⟩
      · exact grown.hosts c u old
      · obtain ⟨rfl, other⟩ := node_some.1 host.symm
        exact ⟨big, member, other⟩
  next =>
    intro c x hung holds
    have before : f.Holds a x := Holds.kept (fun u there => (alive u).symm.trans there) holds
    rw [alive]
    rcases mem_hang.1 hung with old | ⟨rfl, -⟩
    · exact grown.there c x old before
    · exact free.imp_right And.left

/-- On a promise that is pending. -/
theorem hang_waiting (grown : f.Grown a) (free : Free f a p) (big : q ≠ 0) (member : q ∈ f.planted)
    (open' : f.root ≠ some q ∨ f.outcome = none) (here : a.promises.get? q = some r) :
    (f.hang p q).Grown (a.react q { r with reactions := r.reactions ++ [⟨p, none, none⟩] } []) := by
  have awaits := grown.waiting q r member open' here
  have reacted (u : Ptr) : (a.react q { r with reactions := r.reactions ++ [⟨p, none, none⟩] } []).promises.get? u =
      if q = u then some { r with reactions := r.reactions ++ [⟨p, none, none⟩], handled := true } else a.promises.get? u := by
    simp only [Affairs.react, Table.get?_set]
  refine grown.hang free big member (isSome_set here _) (fun u y planted opened there => ?_)
    (fun u y v rejected root outcome there => ?_) fun j => ?_
  next =>
    rw [reacted] at there
    split at there
    next same =>
      subst same
      cases there
      refine ⟨awaits.pending, fun x => ?_, by simpa using ⟨p, mem_hang.2 (.inr ⟨rfl, rfl⟩)⟩⟩
      simp only [List.mem_append, awaits.reactions, List.mem_singleton, mem_hang, node_hang, and_true, or_and_right,
        exists_or, exists_eq_left]
    next other =>
      obtain ⟨pending, attached, flag⟩ := grown.waiting u y planted opened there
      have same (c : Ptr) : (c, (f.hang p q).node u) ∈ (f.hang p q).hung ↔ (c, f.node u) ∈ f.hung := by
        rw [mem_hang, node_hang]
        exact or_iff_left fun new => other (node_inj new.2).symm
      exact ⟨pending, by simpa only [same] using attached, by simpa only [same] using flag⟩
  next =>
    rw [reacted] at there
    split at there
    next same =>
      subst same
      rcases open' with other | none
      · exact absurd root other
      · rw [none] at outcome
        cases outcome
    next => exact grown.settled u y v rejected root outcome there
  next =>
    refine ⟨.inl, Or.rec id ?_⟩
    rintro ⟨v, rejected, outcome, root, -⟩
    rcases open' with other | none
    · exact absurd root other
    · rw [none] at outcome
      cases outcome

/-- On the root after it has settled. -/
theorem hang_settled (grown : f.Grown a) (free : Free f a p) (big : q ≠ 0) (root : f.root = some q)
    (outcome : f.outcome = some (v, rejected)) (here : a.promises.get? q = some r) (events : List Rejection) :
    (f.hang p q).Grown ((a.react q r events).post [⟨none, p, v, rejected⟩]) := by
  have reacted (u : Ptr) : ((a.react q r events).post [⟨none, p, v, rejected⟩]).promises.get? u =
      if q = u then some { r with handled := true } else a.promises.get? u := by
    simp only [Affairs.post, Affairs.react, Table.get?_set]
  refine grown.hang free big (grown.rooted q root) (isSome_set here _) (fun u y planted opened there => ?_)
    (fun u y w rejected' root' outcome' there => ?_) fun j => ?_
  next =>
    have other : q ≠ u := by
      rintro rfl
      rcases opened with other | none
      · exact other root
      · rw [none] at outcome
        cases outcome
    rw [reacted, if_neg other] at there
    obtain ⟨pending, attached, flag⟩ := grown.waiting u y planted opened there
    have same (c : Ptr) : (c, (f.hang p q).node u) ∈ (f.hang p q).hung ↔ (c, f.node u) ∈ f.hung := by
      rw [mem_hang, node_hang]
      exact or_iff_left fun new => other (node_inj new.2).symm
    exact ⟨pending, by simpa only [same] using attached, by simpa only [same] using flag⟩
  next =>
    rw [reacted] at there
    split at there
    next same =>
      cases there
      exact grown.settled q r w rejected' root outcome' here
    next => exact grown.settled u y w rejected' root' outcome' there
  next =>
    have added : ((a.react q r events).post [⟨none, p, v, rejected⟩]).jobs = a.jobs ++ [⟨none, p, v, rejected⟩] := rfl
    simp only [added, List.mem_append, List.mem_singleton, outcome, root, true_and, Option.some.injEq, Prod.mk.injEq]
    refine or_congr_right ⟨fun same => ⟨v, rejected, ⟨rfl, rfl⟩, same⟩, ?_⟩
    rintro ⟨_, _, ⟨rfl, rfl⟩, same⟩
    exact same

/-- The root settles, and what hangs on it gets its jobs. -/
theorem settle (grown : f.Grown a) (root : f.root = some p) (open' : f.outcome = none) (here : a.promises.get? p = some r)
    (v : Ptr) (rejected : Bool) : { f with outcome := some (v, rejected) : Grove }.Grown
      ((a.settle p r v rejected).post (r.reactions.map fun x => x.job v rejected)) := by
  have awaits := grown.waiting p r (grown.rooted p root) (.inr open') here
  have idle : a.jobs = [] := by
    refine List.eq_nil_iff_forall_not_mem.2 fun j waiting => ?_
    obtain ⟨_, _, _, outcome, -⟩ := (grown.jobs j).1 waiting
    rw [open'] at outcome
    cases outcome
  have settled (u : Ptr) : ((a.settle p r v rejected).post (r.reactions.map fun x => x.job v rejected)).promises.get? u =
      if p = u then some { r with settlement := .ofPayload rejected v, reactions := [] } else a.promises.get? u := by
    simp only [Affairs.post, Affairs.settle, Table.get?_set]
  have alive (u : Ptr) := isSome_set here { r with settlement := .ofPayload rejected v, reactions := [] } u
  constructor
  next =>
    refine ⟨fun u y planted opened there => ?_, fun u y w rejected' root' outcome there => ?_, fun j => ?_, grown.planted,
      grown.hosts, grown.rooted⟩
    next =>
      have other : p ≠ u := by
        rintro rfl
        exact opened.elim (fun other => other root) (by simp)
      rw [settled, if_neg other] at there
      obtain ⟨pending, attached, flag⟩ := grown.waiting u y planted (.inr open') there
      exact ⟨pending, attached, flag⟩
    next =>
      cases outcome
      obtain rfl := Option.some.inj (root.symm.trans root')
      rw [settled, if_pos rfl] at there
      cases there
      rfl
    next =>
      have added : ((a.settle p r v rejected).post (r.reactions.map fun x => x.job v rejected)).jobs =
          a.jobs ++ r.reactions.map fun x => x.job v rejected := rfl
      simp only [added, idle, List.nil_append, List.mem_map, awaits.reactions, node_none.2 root]
      constructor
      · rintro ⟨_, ⟨c, hung, rfl⟩, rfl⟩
        exact ⟨v, rejected, c, rfl, hung, by cases rejected <;> rfl⟩
      · rintro ⟨w, rejected', c, outcome, hung, rfl⟩
        cases outcome
        exact ⟨_, ⟨c, hung, rfl⟩, by cases rejected <;> rfl⟩
  next =>
    intro c x hung holds
    have before : f.Holds a x := by
      cases x with
      | none => exact .inr ⟨p, root, by simp [here]⟩
      | some u => exact (alive u).symm.trans holds
    exact (grown.there c x hung before).imp_right (alive c).trans

end Grown

end Grove

end ScriptHost
