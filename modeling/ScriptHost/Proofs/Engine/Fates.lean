import ScriptHost.Proofs.Engine.Steady

set_option autoImplicit false

/-!
The fate of a promise.

What has settled stays as it is, and no turn but the call of its own functions resolves a promise. A promise
that adopts another one is bound to it: if it ever settles, then as that one did.
-/

namespace ScriptHost

variable {s s' : List Task × Affairs} {exact : Prop} {p q : Ptr}

/-- How the record of a promise may change without its functions being called. -/
structure Aged (r r' : PromiseRecord) : Prop where
  resolved : r'.resolved = r.resolved
  settled : r.settlement ≠ .pending -> r'.settlement = r.settlement

theorem Aged.refl (r : PromiseRecord) : Aged r r :=
  ⟨rfl, fun _ => rfl⟩

theorem Aged.trans {r₁ r₂ r₃ : PromiseRecord} (first : Aged r₁ r₂) (second : Aged r₂ r₃) : Aged r₁ r₃ where
  resolved := second.resolved.trans first.resolved
  settled settled := (second.settled (first.settled settled ▸ settled)).trans (first.settled settled)

theorem aged_set {t : Table Ptr PromiseRecord} {r r' x : PromiseRecord} (here : t.get? q = some r)
    (found : (t.set q r').get? p = some x) (aged : Aged r r') : ∃ y, t.get? p = some y ∧ Aged y x := by
  rw [Table.get?_set] at found
  split at found
  next same =>
    cases found
    exact ⟨r, same ▸ here, aged⟩
  next => exact ⟨x, found, .refl x⟩

theorem Turn.aged {r' : PromiseRecord} (step : Turn s s') (found : s'.2.promises.get? p = some r') :
    ∃ r, s.2.promises.get? p = some r ∧ Aged r r' := by
  cases step with
  | forget less => exact ⟨r', less.promise found, .refl r'⟩
  | settle here pending plain => exact aged_set here found ⟨rfl, fun settled => absurd pending settled⟩
  | store here pending => exact aged_set here found ⟨rfl, fun _ => rfl⟩
  | react here settled => exact aged_set here found ⟨rfl, fun _ => rfl⟩
  | _ => exact ⟨r', found, .refl r'⟩

theorem Turns.aged {r' : PromiseRecord} (steps : Turns s s') (found : s'.2.promises.get? p = some r') :
    ∃ r, s.2.promises.get? p = some r ∧ Aged r r' := by
  induction steps generalizing r' with
  | refl => exact ⟨r', found, .refl r'⟩
  | tail _ step ih =>
    obtain ⟨y, there, later⟩ := step.aged found
    obtain ⟨r, here, earlier⟩ := ih there
    exact ⟨r, here, earlier.trans later⟩

/-- Openings leave the promises that there are as they are. -/
theorem Opening.same {r r' : PromiseRecord} (opening : Opening exact s s') (before : s.2.promises.get? p = some r)
    (found : s'.2.promises.get? p = some r') : r' = r := by
  have begun : ∀ {a : Affairs} {n : Nat}, a.promises.get? (UInt32.ofNat n) = none ->
      a.promises.get? p = some r -> (a.begin n).promises.get? p = some r' -> r' = r := by
    intro a n absent before found
    simp only [Affairs.begin, Table.get?_set] at found
    split at found
    next same => simp [← same, absent] at before
    next => exact Option.some.inj (found.symm.trans before)
  cases opening with
  | capability n later absent => exact begun absent before found
  | derive n later absent => exact begun absent before found
  | clear => simp [Affairs.clear] at found
  | _ => exact Option.some.inj (found.symm.trans before)

theorem Opening.born {r : PromiseRecord} (opening : Opening exact s s') (before : s.2.promises.get? p = none)
    (found : s'.2.promises.get? p = some r) : r = .fresh := by
  have begun : ∀ {a : Affairs} {n : Nat}, a.promises.get? p = none -> (a.begin n).promises.get? p = some r ->
      r = .fresh := by
    intro a n before found
    simp only [Affairs.begin, Table.get?_set] at found
    split at found
    next => exact (Option.some.inj found).symm
    next => simp [before] at found
  cases opening with
  | capability n later absent => exact begun before found
  | derive n later absent => exact begun before found
  | clear => simp [Affairs.clear] at found
  | _ => simp [before] at found

theorem Turn.targets_le (step : Turn s s') (ok : Steady s) (q : Ptr) : (targets s').count q ≤ (targets s).count q := by
  cases step with
  | forget less => exact (less.lesser (o := _)).targets q
  | drop => exact List.count_le_count_cons
  | settle here pending plain => exact Nat.le_trans (Nat.le_add_right _ _) (Nat.le_of_eq (count_settled here q))
  | store here pending => exact (store_lesser here).targets q
  | react here settled => exact (react_lesser here settled ok).targets q
  | enqueue => exact enqueue_lesser.targets q
  | _ => exact Nat.le_refl _

theorem Steady.free_of_single {t : Task} {o : List Task} {a : Affairs} {r : PromiseRecord} (ok : Steady (t :: o, a))
    (here : a.promises.get? t.target = some r) : t.target ∉ targets (o, a) := by
  have once := ok.single t.target r here
  have same : targets (t :: o, a) = t.target :: targets (o, a) := rfl
  rw [same, List.count_cons_self] at once
  exact List.count_eq_zero.1 (by omega)

theorem Steady.pending {r : PromiseRecord} (ok : Steady s) (target : p ∈ targets s)
    (here : s.2.promises.get? p = some r) : r.settlement = .pending := by
  by_contra settled
  exact ok.settled p r here settled target

theorem Affairs.Forgets.absent {a b : Affairs} (less : a.Forgets b) (gone : a.promises.get? p = none) :
    b.promises.get? p = none :=
  (less.lesser (o := [])).absent gone

theorem ofPayload_inj {x v : Ptr} {b rejected : Bool} (same : Settlement.ofPayload rejected v = .ofPayload b x) :
    v = x ∧ rejected = b := by
  cases rejected <;> cases b <;> simp_all [Settlement.ofPayload]

theorem ofPayload_ne_pending (rejected : Bool) (v : Ptr) : Settlement.ofPayload rejected v ≠ .pending := by
  cases rejected <;> simp [Settlement.ofPayload]

/-- The outcome that `p` is to take is on its way. -/
def Carries (p x : Ptr) (rejected : Bool) (s : List Task × Affairs) : Prop :=
  ⟨none, p, x, rejected⟩ ∈ s.2.jobs ∨ .job ⟨none, p, x, rejected⟩ ∈ s.1 ∨ .resolution p x rejected ∈ s.1

/-- `p` has settled or may only settle with an outcome from `source`. -/
inductive Sealed (source : Ptr -> Bool -> Prop) (p : Ptr) (s : List Task × Affairs) : Prop where
  | gone (absent : s.2.promises.get? p = none)
  -- What would have settled it is gone.
  | lost (free : p ∉ targets s) (pending : ∀ r, s.2.promises.get? p = some r -> r.settlement = .pending)
  | passes (x : Ptr) (rejected : Bool) (cause : source x rejected)
      (plain : rejected = false -> s.2.promises.get? x = none) (carries : Carries p x rejected s)
  | done (r : PromiseRecord) (x : Ptr) (rejected : Bool) (cause : source x rejected)
      (here : s.2.promises.get? p = some r) (settled : r.settlement = .ofPayload rejected x)

/-- `p` is to settle as `q`, which is still pending. -/
def Attached (p q : Ptr) (s : List Task × Affairs) : Prop :=
  ∃ r, s.2.promises.get? q = some r ∧ r.settlement = .pending ∧ ⟨p, none, none⟩ ∈ r.reactions

variable {source : Ptr -> Bool -> Prop}

theorem Carries.target {x : Ptr} {rejected : Bool} (carries : Carries p x rejected s) : p ∈ targets s := by
  simp only [targets, List.mem_append, List.mem_map]
  rcases carries with queued | under | under
  next => exact .inr (.inl ⟨_, queued, rfl⟩)
  next => exact .inl ⟨_, under, rfl⟩
  next => exact .inl ⟨_, under, rfl⟩

theorem Attached.target (attached : Attached p q s) : p ∈ targets s := by
  obtain ⟨r, here, -, member⟩ := attached
  simp only [targets, List.mem_append, List.mem_flatMap]
  exact .inr (.inr ⟨(q, r), Table.mem_of_find here, List.mem_map.2 ⟨_, member, rfl⟩⟩)

theorem Sealed.mono {source' : Ptr -> Bool -> Prop} (sealed : Sealed source p s)
    (more : ∀ x rejected, source x rejected -> source' x rejected) : Sealed source' p s := by
  cases sealed with
  | gone absent => exact .gone absent
  | lost free pending => exact .lost free pending
  | passes x rejected cause plain carries => exact .passes x rejected (more x rejected cause) plain carries
  | done r x rejected cause here settled => exact .done r x rejected (more x rejected cause) here settled

/-- What a settled promise settled with was under way. -/
theorem Sealed.outcome {r : PromiseRecord} (sealed : Sealed source p s)
    (ok : Steady s) (found : s.2.promises.get? p = some r) (settled : r.settlement ≠ .pending) :
    ∃ x rejected, source x rejected ∧ r.settlement = .ofPayload rejected x := by
  cases sealed with
  | gone absent => simp [found] at absent
  | lost free pending => exact absurd (pending r found) settled
  | passes x rejected cause plain carries => exact absurd (ok.pending carries.target found) settled
  | done r' x rejected cause here same =>
    obtain rfl : r = r' := Option.some.inj (found.symm.trans here)
    exact ⟨x, rejected, cause, same⟩

/-- A task that goes away without settling its target leaves it without any. -/
theorem Sealed.of_drop {t : Task} {o : List Task} {a : Affairs} (ok : Steady (t :: o, a)) (target : t.target = p) :
    Sealed source p (o, a) := by
  subst target
  cases found : a.promises.get? t.target with
  | none => exact .gone found
  | some r =>
    refine .lost (ok.free_of_single found) fun r' here => ?_
    exact ok.pending (by simp [targets]) here

theorem Turn.absent (step : Turn s s') (gone : s.2.promises.get? p = none) : s'.2.promises.get? p = none := by
  cases step with
  | forget less => exact less.absent gone
  | settle here pending plain => exact absent_set here gone _
  | store here pending => exact absent_set here gone _
  | react here settled => exact absent_set here gone _
  | _ => exact gone

theorem Turn.lost (step : Turn s s') (ok : Steady s) (free : p ∉ targets s)
    (pending : ∀ r, s.2.promises.get? p = some r -> r.settlement = .pending) : Sealed source p s' := by
  have fewer := step.targets_le ok p
  rw [List.count_eq_zero_of_not_mem free] at fewer
  refine .lost (List.count_eq_zero.1 (Nat.le_zero.1 fewer)) fun r' found => ?_
  cases step with
  | forget less => exact pending r' (less.promise found)
  | settle here waiting plain =>
    simp only [Affairs.settle, Table.get?_set] at found
    split at found
    next same => exact absurd (by simp [targets, Task.target, same]) free
    next => exact pending r' found
  | store here waiting =>
    simp only [Affairs.react, Table.get?_set] at found
    split at found
    next same =>
      cases found
      exact waiting
    next => exact pending r' found
  | @react _ _ _ _ r _ _ here settled =>
    simp only [Affairs.react, Table.get?_set] at found
    split at found
    next same =>
      cases found
      exact pending r (same ▸ here)
    next => exact pending r' found
  | _ => exact pending r' found

theorem Turn.kept (step : Turn s s') :
    (∀ j ∈ s.2.jobs, j ∈ s'.2.jobs) ∧ ∀ t ∈ s.1, t ∈ s'.1 ∨ s.1.head? = some t := by
  cases step with
  | forget less => exact ⟨fun j queued => less.jobs ▸ queued, fun t under => .inl under⟩
  | enqueue =>
    refine ⟨fun j queued => List.mem_append_left _ queued, fun t under => ?_⟩
    exact (List.mem_cons.1 under).symm.imp_right fun first => by simp [first]
  | settle =>
    refine ⟨fun j queued => queued, fun t under => ?_⟩
    exact (List.mem_cons.1 under).symm.imp (List.mem_append_right _) fun first => by simp [first]
  | drop | store =>
    refine ⟨fun j queued => queued, fun t under => ?_⟩
    exact (List.mem_cons.1 under).symm.imp_right fun first => by simp [first]
  | _ =>
    refine ⟨fun j queued => queued, fun t under => ?_⟩
    exact (List.mem_cons.1 under).symm.imp (List.mem_cons_of_mem _) fun first => by simp [first]

theorem Turn.passes_job {x : Ptr} {rejected : Bool} {o : List Task} {a : Affairs}
    (step : Turn (.job ⟨none, p, x, rejected⟩ :: o, a) s') (ok : Steady (.job ⟨none, p, x, rejected⟩ :: o, a)) :
    Carries p x rejected s' ∨ Sealed source p s' := by
  cases step with
  | forget less => exact .inl (.inr (.inl List.mem_cons_self))
  | drop => exact .inr (.of_drop ok rfl)
  | pass => exact .inl (.inr (.inr List.mem_cons_self))
  | handle handler => cases handler
  | enqueue => exact .inl (.inl (List.mem_append_right _ List.mem_cons_self))

theorem Turn.passes_resolution {x : Ptr} {rejected : Bool} {o : List Task} {a : Affairs}
    (step : Turn (.resolution p x rejected :: o, a) s') (ok : Steady (.resolution p x rejected :: o, a))
    (cause : source x rejected) (plain : rejected = false -> a.promises.get? x = none) :
    Carries p x rejected s' ∨ Sealed source p s' := by
  cases step with
  | forget less => exact .inl (.inr (.inr List.mem_cons_self))
  | drop => exact .inr (.of_drop ok rfl)
  | refuse error => exact .inr (.gone (plain rfl))
  | adopt other promise => simp [plain rfl] at promise
  | settle here pending clear => exact .inr (.done _ x rejected cause ((Table.get?_set _ _ _ _).trans (if_pos rfl)) rfl)

theorem Turn.passes {x : Ptr} {rejected : Bool} (step : Turn s s') (ok : Steady s) (cause : source x rejected)
    (plain : rejected = false -> s.2.promises.get? x = none) (carries : Carries p x rejected s) :
    Sealed source p s' := by
  have going : Carries p x rejected s' ∨ Sealed source p s' := by
    obtain ⟨tasks, a⟩ := s
    rcases carries with queued | under | under
    next => exact .inl (.inl (step.kept.1 _ queued))
    next =>
      rcases step.kept.2 _ under with later | first
      next => exact .inl (.inr (.inl later))
      next =>
        obtain ⟨o, rfl⟩ := List.head?_eq_some_iff.1 first
        exact step.passes_job ok
    next =>
      rcases step.kept.2 _ under with later | first
      next => exact .inl (.inr (.inr later))
      next =>
        obtain ⟨o, rfl⟩ := List.head?_eq_some_iff.1 first
        exact step.passes_resolution ok cause plain
  exact going.elim (.passes x rejected cause fun fulfilled => step.absent (plain fulfilled)) id

theorem Turn.done {r : PromiseRecord} {x : Ptr} {rejected : Bool} (step : Turn s s') (cause : source x rejected)
    (here : s.2.promises.get? p = some r) (settled : r.settlement = .ofPayload rejected x) : Sealed source p s' := by
  cases found : s'.2.promises.get? p with
  | none => exact .gone found
  | some r' =>
    obtain ⟨y, there, aged⟩ := step.aged found
    obtain rfl : r = y := Option.some.inj (here.symm.trans there)
    exact .done r' x rejected cause found ((aged.settled (settled ▸ ofPayload_ne_pending rejected x)).trans settled)

theorem Turn.sealed (step : Turn s s') (ok : Steady s) (sealed : Sealed source p s) : Sealed source p s' := by
  cases sealed with
  | gone absent => exact .gone (step.absent absent)
  | lost free pending => exact step.lost ok free pending
  | passes x rejected cause plain carries => exact step.passes ok cause plain carries
  | done r x rejected cause here settled => exact step.done cause here settled

theorem Turns.sealed (steps : Turns s s') (ok : Steady s) (sealed : Sealed source p s) : Sealed source p s' := by
  induction steps with
  | refl => exact sealed
  | tail earlier step ih => exact step.sealed (Turns.steady earlier ok) ih

theorem attached_set {o : List Task} {a : Affairs} {r r' : PromiseRecord} {p' : Ptr}
    (attached : Attached p q (o, a)) (here : a.promises.get? p' = some r)
    (kept : r.settlement = .pending -> r'.settlement = .pending ∧ ∀ x ∈ r.reactions, x ∈ r'.reactions) :
    ∃ x, (a.promises.set p' r').get? q = some x ∧ x.settlement = .pending ∧ ⟨p, none, none⟩ ∈ x.reactions := by
  obtain ⟨y, there, pending, member⟩ := attached
  rw [Table.get?_set]
  split
  next same =>
    obtain rfl : r = y := Option.some.inj (here.symm.trans (same ▸ there))
    exact ⟨r', rfl, (kept pending).1, (kept pending).2 _ member⟩
  next => exact ⟨y, there, pending, member⟩

/-- Without the promise that it adopts, `p` remains pending. -/
theorem Attached.orphaned {o : List Task} {a b : Affairs} (attached : Attached p q (o, a)) (ok : Steady (o, a))
    (less : a.Forgets b) (absent : b.promises.get? q = none) : Sealed source p (o, b) := by
  obtain ⟨r, here, -, member⟩ := attached
  have lost := Table.count_flatMap_filter a.promises.nodup here PromiseRecord.derived p
  have left : (b.promises.entries.flatMap fun e => e.2.derived).count p ≤
      ((a.promises.entries.filter fun e => !decide (e.1 = q)).flatMap fun e => e.2.derived).count p := by
    have others : b.promises.entries.filter (fun e => !decide (e.1 = q)) = b.promises.entries :=
      Table.filter_eq_of_not_mem ((Table.find_eq_none_iff q _).1 absent)
    exact ((others ▸ less.promises.filter _).flatMap fun e => e.2.derived).count_le p
  have mine : 1 ≤ r.derived.count p := List.count_pos_iff.2 (List.mem_map.2 ⟨_, member, rfl⟩)
  have total := count_targets o a p
  cases found : b.promises.get? p with
  | none => exact .gone found
  | some r' =>
    have once := ok.single p r' (less.promise found)
    refine .lost ?_ fun x there => ok.pending ?_ (less.promise there)
    next =>
      rw [← List.count_eq_zero, count_targets, less.jobs]
      omega
    next => exact List.count_pos_iff.1 (by omega)

theorem Turn.attached (step : Turn s s') (ok : Steady s) (attached : Attached p q s)
    (told : ∀ x rejected, s'.2.history = .settled q x rejected :: s.2.history -> source x rejected) :
    Attached p q s' ∨ Sealed source p s' := by
  cases step with
  | @forget o a b less =>
    cases found : b.promises.get? q with
    | none => exact .inr (attached.orphaned ok less found)
    | some r' =>
      obtain ⟨r, here, pending, member⟩ := attached
      obtain rfl : r = r' := Option.some.inj (here.symm.trans (less.promise found))
      exact .inl ⟨r, found, pending, member⟩
  | @settle p' v rejected r o a here pending plain =>
    by_cases same : p' = q
    next =>
      subst same
      obtain ⟨y, there, -, member⟩ := attached
      obtain rfl : r = y := Option.some.inj (here.symm.trans there)
      refine .inr (.passes v rejected (told v rejected rfl) (fun fulfilled => absent_set here (plain fulfilled) _) ?_)
      exact .inr (.inl (List.mem_append_left _ (List.mem_map.2 ⟨_, member, by cases rejected <;> rfl⟩)))
    next =>
      obtain ⟨y, there, waits, member⟩ := attached
      exact .inl ⟨y, by simpa [Affairs.settle, same] using there, waits, member⟩
  | store here pending =>
    exact .inl (attached_set attached here fun waits => ⟨waits, fun x => List.mem_append_left _⟩)
  | react here settled => exact .inl (attached_set attached here fun waits => ⟨waits, fun x member => member⟩)
  | _ => exact .inl attached

theorem Turn.history (step : Turn s s') : s.2.history <:+ s'.2.history := by
  cases step with
  | forget less => exact less.history ▸ List.suffix_refl _
  | settle => exact List.suffix_cons _ _
  | store => exact List.suffix_cons _ _
  | react => exact List.suffix_cons _ _
  | _ => exact List.suffix_refl _

theorem Turns.history (steps : Turns s s') : s.2.history <:+ s'.2.history := by
  induction steps with
  | refl => exact List.suffix_refl _
  | tail _ step ih => exact ih.trans step.history

/-- What was told after `old`, up to `new`. -/
def News (old new : List Happening) (x : Happening) : Prop :=
  ∃ recent, new = recent ++ old ∧ x ∈ recent

theorem News.of_cons {old new : List Happening} {x : Happening} (before : old <:+ new) : News old (x :: new) x := by
  obtain ⟨recent, rfl⟩ := before
  exact ⟨x :: recent, rfl, List.mem_cons_self⟩

theorem News.later {old new newest : List Happening} {x : Happening} (news : News old new x) (more : new <:+ newest) :
    News old newest x := by
  obtain ⟨recent, rfl, member⟩ := news
  obtain ⟨latest, rfl⟩ := more
  exact ⟨latest ++ recent, (List.append_assoc _ _ _).symm, List.mem_append_right _ member⟩

theorem News.earlier {old older new : List Happening} {x : Happening} (news : News old new x) (before : older <:+ old) :
    News older new x := by
  obtain ⟨recent, rfl, member⟩ := news
  obtain ⟨between, rfl⟩ := before
  exact ⟨recent ++ between, (List.append_assoc _ _ _).symm, List.mem_append_left _ member⟩

theorem News.split {old between new : List Happening} {x : Happening} (news : News old new x) (first : old <:+ between)
    (second : between <:+ new) : News old between x ∨ News between new x := by
  obtain ⟨recent, same, member⟩ := news
  obtain ⟨early, rfl⟩ := first
  obtain ⟨late, rfl⟩ := second
  rw [← List.append_assoc, List.append_cancel_right_eq] at same
  subst same
  rcases List.mem_append.1 member with later | earlier
  next => exact .inr ⟨late, rfl, later⟩
  next => exact .inl ⟨early, rfl, earlier⟩

theorem News.irrefl {old : List Happening} {x : Happening} : ¬ News old old x := by
  rintro ⟨recent, same, member⟩
  simp_all

theorem Turn.told {x : Ptr} {rejected : Bool} {r : PromiseRecord} (step : Turn s s')
    (news : News s.2.history s'.2.history (.settled p x rejected)) (found : s'.2.promises.get? p = some r) :
    r.settlement = .ofPayload rejected x := by
  have alone : ∀ {y : Happening} {old : List Happening}, News old (y :: old) (.settled p x rejected) ->
      .settled p x rejected = y := by
    rintro y old ⟨recent, same, member⟩
    rw [show y :: old = [y] ++ old from rfl, List.append_cancel_right_eq] at same
    simpa [← same] using member
  cases step with
  | settle here pending plain =>
    cases alone news
    simp only [Affairs.settle, Table.get?_set, if_true, Option.some.injEq] at found
    rw [← found]
  | store here pending => cases alone news
  | react here settled => cases alone news
  | forget less => exact absurd (less.history ▸ news) News.irrefl
  | _ => exact absurd news News.irrefl

/-- Whoever is told to have settled has, and stays so. -/
theorem Turns.told {x : Ptr} {rejected : Bool} {r : PromiseRecord} (steps : Turns s s')
    (news : News s.2.history s'.2.history (.settled p x rejected)) (found : s'.2.promises.get? p = some r) :
    r.settlement = .ofPayload rejected x := by
  induction steps generalizing r with
  | refl => exact absurd news News.irrefl
  | tail earlier step ih =>
    rcases news.split (Turns.history earlier) step.history with before | now
    next =>
      obtain ⟨y, there, aged⟩ := step.aged found
      have settled := ih before there
      exact (aged.settled (settled ▸ ofPayload_ne_pending rejected x)).trans settled
    next => exact step.told now found

theorem Turns.attached (steps : Turns s s') (ok : Steady s) (attached : Attached p q s)
    (told : ∀ x rejected, News s.2.history s'.2.history (.settled q x rejected) -> source x rejected) :
    Attached p q s' ∨ Sealed source p s' := by
  induction steps with
  | refl => exact .inl attached
  | tail earlier step ih =>
    have fine := Turns.steady earlier ok
    rcases ih fun x rejected news => told x rejected (news.later step.history) with waits | fixed
    next =>
      refine step.attached fine waits fun x rejected same => told x rejected ?_
      rw [same]
      exact .of_cons (Turns.history earlier)
    next => exact .inr (step.sealed fine fixed)

theorem Opening.history (opening : Opening exact s s') : s'.2.history = s.2.history := by
  cases opening <;> rfl

theorem Opening.attached (opening : Opening exact s s') (attached : Attached p q s) :
    Attached p q s' ∨ s'.2.promises.get? p = none := by
  have begun : ∀ {o : List Task} {a : Affairs} {n : Nat}, a.promises.get? (UInt32.ofNat n) = none ->
      Attached p q (o, a) -> Attached p q (o, a.begin n) := by
    rintro o a n absent ⟨r, here, pending, member⟩
    refine ⟨r, ?_, pending, member⟩
    have other : UInt32.ofNat n ≠ q := fun same => by simp [same, here] at absent
    simpa [Affairs.begin, other] using here
  cases opening with
  | @capability o a n later absent => exact .inl (begun (o := o) absent attached)
  | @derive o a p' x n later absent => exact .inl (begun (o := o) absent attached)
  | clear => exact .inr (by simp [Affairs.clear])
  | _ => exact .inl attached

theorem Opening.untargeted (opening : Opening True s s') (present : (s.2.promises.get? p).isSome)
    (free : p ∉ targets s) : p ∉ targets s' := by
  have begun : ∀ {o : List Task} {a : Affairs} {n : Nat}, a.promises.get? (UInt32.ofNat n) = none ->
      p ∉ targets (o, a) -> p ∉ targets (o, a.begin n) := by
    intro o a n absent free
    rw [← List.count_eq_zero, count_targets] at free ⊢
    exact (congrArg _ (congrArg _ (count_derived_new absent p))).trans free
  have pushed : ∀ {x : Reaction} {o : List Task} {a : Affairs} {p' : Ptr}, x.derived ≠ p -> p ∉ targets (o, a) ->
      p ∉ targets (.reaction p' x :: o, a) := by
    intro x o a p' other free
    have same : targets (.reaction p' x :: o, a) = x.derived :: targets (o, a) := rfl
    simpa [same, free] using Ne.symm other
  cases opening with
  | rest => exact free
  | @take j rest o a waiting =>
    simp only [targets, waiting, List.map_cons, List.mem_append, List.mem_cons, Task.target, not_or] at free ⊢
    exact ⟨⟨free.2.1.1, free.1⟩, free.2.1.2, free.2.2⟩
  | @capability o a n later absent unknown able mine => exact begun (o := o) absent free
  | @derive o a p' x n later absent unknown derived =>
    refine pushed ?_ (begun absent free)
    rintro rfl
    simp [derived, absent] at present
  | @barren o a nobody able mine => exact free
  | @sterile o a p' x nobody derived =>
    refine pushed ?_ free
    rintro rfl
    simp [derived, nobody trivial] at present
  | collect => exact free
  | @clear o a =>
    simp only [targets, List.mem_append, not_or] at free ⊢
    exact ⟨free.1, by simp [Affairs.clear, Table.empty]⟩

/-- What is made anew was not known before. -/
theorem Opening.absent {x : Ptr} (opening : Opening True s s') (known : ¬ Unknown s x)
    (gone : s.2.promises.get? x = none) : s'.2.promises.get? x = none := by
  have begun : ∀ {o : List Task} {a : Affairs} {n : Nat}, (True -> Unknown (o, a) (UInt32.ofNat n)) ->
      ¬ Unknown (o, a) x -> a.promises.get? x = none -> (a.begin n).promises.get? x = none := by
    intro o a n unknown known gone
    have other : UInt32.ofNat n ≠ x := fun same => known (same ▸ unknown trivial)
    simpa [Affairs.begin, other] using gone
  cases opening with
  | capability n later absent unknown able mine => exact begun unknown known gone
  | derive n later absent unknown derived => exact begun unknown known gone
  | clear => exact Table.get?_empty x
  | _ => exact gone

theorem Opening.carries {x : Ptr} {rejected : Bool} (opening : Opening exact s s') (carries : Carries p x rejected s) :
    Carries p x rejected s' ∨ s'.2.promises.get? p = none := by
  cases opening with
  | take waiting =>
    rcases carries with queued | under | under
    next =>
      rcases List.mem_cons.1 (waiting ▸ queued) with same | later
      next => exact .inl (.inr (.inl (same ▸ List.mem_cons_self)))
      next => exact .inl (.inl later)
    next => exact .inl (.inr (.inl (List.mem_cons_of_mem _ under)))
    next => exact .inl (.inr (.inr (List.mem_cons_of_mem _ under)))
  | derive => exact .inl (carries.imp_right fun under => under.imp (List.mem_cons_of_mem _) (List.mem_cons_of_mem _))
  | sterile => exact .inl (carries.imp_right fun under => under.imp (List.mem_cons_of_mem _) (List.mem_cons_of_mem _))
  | clear => exact .inr (Table.get?_empty p)
  | _ => exact .inl carries

theorem Carries.known {x : Ptr} {rejected : Bool} (carries : Carries p x rejected s) : ¬ Unknown s x := by
  intro unknown
  rcases carries with queued | under | under
  next => exact unknown.argument _ (.inl queued) rfl
  next => exact unknown.argument _ (.inr under) rfl
  next => exact unknown.resolution _ _ _ under rfl

theorem Opening.sealed {r : PromiseRecord} (opening : Opening True s s') (here : s.2.promises.get? p = some r)
    (sealed : Sealed source p s) : Sealed source p s' := by
  cases sealed with
  | gone absent => simp [here] at absent
  | lost free pending =>
    refine .lost (opening.untargeted (by simp [here]) free) fun r' found => ?_
    rw [opening.same here found]
    exact pending r here
  | passes x rejected cause plain carries =>
    rcases opening.carries carries with still | gone
    next => exact .passes x rejected cause (fun fulfilled => opening.absent carries.known (plain fulfilled)) still
    next => exact .gone gone
  | done r x rejected cause here settled =>
    cases found : s'.2.promises.get? p with
    | none => exact .gone found
    | some r' => exact .done r' x rejected cause found (opening.same here found ▸ settled)

theorem call_attached {p' v : Ptr} {reject : Bool} {r : PromiseRecord} {o : List Task} {a : Affairs}
    (here : a.promises.get? p' = some r) (attached : Attached p q (o, a)) :
    Attached p q (.resolution p' v reject :: o, a.mark p' r) :=
  attached_set attached here fun waits => ⟨waits, fun _ member => member⟩

/-- The call of other functions settles another promise. -/
theorem call_sealed {p' v : Ptr} {reject : Bool} {r : PromiseRecord} {o : List Task} {a : Affairs}
    (here : a.promises.get? p' = some r) (other : p' ≠ p) (sealed : Sealed source p (o, a)) :
    Sealed source p (.resolution p' v reject :: o, a.mark p' r) := by
  have record : (a.mark p' r).promises.get? p = a.promises.get? p := by simp [Affairs.mark, other]
  cases sealed with
  | gone absent => exact .gone (record.trans absent)
  | lost free pending =>
    refine .lost ?_ fun r' found => pending r' (record.symm.trans found)
    have same : targets (.resolution p' v reject :: o, a.mark p' r) = p' :: targets (o, a.mark p' r) := rfl
    simpa [same, (mark_lesser here).untargeted free] using Ne.symm other
  | passes x rejected cause plain carries =>
    refine .passes x rejected cause (fun fulfilled => absent_set here (plain fulfilled) _) ?_
    exact carries.imp_right fun under => under.imp (List.mem_cons_of_mem _) (List.mem_cons_of_mem _)
  | done r' x rejected cause there settled => exact .done r' x rejected cause (record.trans there) settled

/-- No task comes with a promise that is made with its functions. -/
theorem Opening.made {o : List Task} {a b : Affairs} {r : PromiseRecord} (opening : Opening True (o, a) (o, b))
    (ok : Steady (o, a)) (before : a.promises.get? p = none) (found : b.promises.get? p = some r) :
    r = .fresh ∧ p ∉ targets (o, b) := by
  have absurd : a.promises.get? p ≠ some r := by simp [before]
  generalize same : (o, b) = s' at opening
  cases opening with
  | capability n later absent unknown able mine =>
    cases same
    simp only [Affairs.begin, Table.get?_set] at found
    split at found
    next here =>
      obtain rfl : PromiseRecord.fresh = r := Option.some.inj found
      exact ⟨rfl, here ▸ (begin_steady (unknown trivial) ok).2⟩
    next => exact (absurd found).elim
  | derive => simp at same
  | sterile => simp at same
  | clear =>
    cases same
    simp [Affairs.clear] at found
  | take waiting => simp at same
  | _ =>
    cases same
    exact (absurd found).elim

end ScriptHost
