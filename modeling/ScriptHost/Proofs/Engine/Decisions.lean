import ScriptHost.Proofs.Engine.Fates

set_option autoImplicit false

/-!
What the first call of a function of a promise decides.
-/

namespace ScriptHost

namespace Heap

variable {h h' : Heap} {p q v : Ptr} {r r' : PromiseRecord} {value : Value} {x : Reaction}
variable {rejected : Bool} {stale : Nat} {outside : List Ptr}

theorem settle_settles (found : h.promise? p = some r) (pending : r.settlement = .pending)
    (later : (h.settle p v rejected).promise? p = some r') : r'.settlement = .ofPayload rejected v := by
  obtain ⟨y, there, aged⟩ := Turns.aged (settle_pending found pending v rejected []) ((get?_promises _ p).trans later)
  obtain rfl : { r with settlement := .ofPayload rejected v, reactions := [] } = y := by
    simpa [Affairs.settle] using there
  exact aged.settled (ofPayload_ne_pending rejected v)

theorem get?_enqueue (found : (h.enqueue x v rejected).get? q = some value) : h.get? q = some value := by
  have kept : ((h.releaseAll (x.handler (!rejected)).toList).retain v).get? q = some value := found
  exact get?_releaseAll ((get?_retain _ v q).symm.trans kept)

theorem get?_enqueueAll {xs : List Reaction} (found : (h.enqueueAll xs v rejected).get? q = some value) :
    h.get? q = some value := by
  induction xs generalizing h with
  | nil => exact found
  | cons x rest ih => exact get?_enqueue (ih found)

theorem get?_record (h : Heap) (p v : Ptr) (handled : Bool) (q : Ptr) : (h.record p v handled).get? q = h.get? q := by
  have kept : ((h.retain p).retain v).get? q = h.get? q := by simp
  exact kept

theorem get?_settle (other : p ≠ q) (found : (h.settle p v rejected).get? q = some value) : h.get? q = some value := by
  unfold settle at found
  split at found
  next => exact found
  next r here =>
    split at found
    next =>
      have before := get?_enqueueAll found
      have told : ∀ y : Heap, (y.tell (.settled p v rejected)).get? q = y.get? q := fun _ => rfl
      split at before <;> simpa only [get?_record, told, get?_retain, get?_setValue, other, if_false] using before
    next => exact found

theorem insert_absent (value : Value) (none_held : value.children = []) (absent : (h.insert value).2.cells.get? q = none) :
    h.cells.get? q = none := by
  rcases insert_cases h value with ⟨n, later, big, unused, made⟩ | full
  next =>
    rw [made] at absent
    simp only [Table.get?_set] at absent
    split at absent
    next same => cases absent
    next => exact absent
  next =>
    rw [full, none_held, releaseAll_nil] at absent
    exact absent

/-- An error that is made is a new object, unless every pointer is in use. -/
theorem newError_cases (h : Heap) (message : String) :
    (h.newError message).1 = 0 ∨ ∃ n, h.next ≤ n ∧ n < (h.newError message).2.next ∧
      (h.newError message).1 = UInt32.ofNat n ∧ Ptr.firstCounted ≤ UInt32.ofNat n ∧
      h.cells.get? (UInt32.ofNat n) = none ∧
      ∃ fields, (h.newError message).2.get? (UInt32.ofNat n) = some (.object .error fields) := by
  have text := next_le_insert h (.string message)
  have kept : ∀ q, (h.newString message).2.cells.get? q = none -> h.cells.get? q = none :=
    fun q => insert_absent (.string message) rfl
  unfold newError
  dsimp only
  rcases insert_cases (h.newString message).2 (.object .error (Table.empty.set messageKey (h.newString message).1)) with
    ⟨n, later, big, absent, made⟩ | full
  next =>
    rw [made]
    refine .inr ⟨n, Nat.le_trans text later, Nat.lt_succ_self n, rfl, big, kept _ absent,
      Table.empty.set messageKey (h.newString message).1, ?_⟩
    simp [get?]
  next =>
    rw [full]
    exact .inl rfl

theorem promise?_marked (found : h.promise? p = some r) :
    (h.setValue p (.promise { r with resolved := true })).promise? p = some { r with resolved := true } := by
  simp [promise?_eq_some, promise?_eq_some.1 found]

theorem callResolving_plain (found : h.promise? p = some r) (first : r.resolved = false)
    (pending : r.settlement = .pending) (plain : rejected = false -> h.promise? v = none)
    (later : (h.callResolving p v rejected).promise? p = some r') : r'.settlement = .ofPayload rejected v := by
  have marked := promise?_marked found
  simp only [callResolving, found, first, Bool.false_eq_true, if_false] at later
  cases rejected with
  | true => exact settle_settles marked pending later
  | false =>
    have other : p ≠ v := by
      rintro rfl
      simp [found] at plain
    have still : (h.setValue p (.promise { r with resolved := true })).isPromise v = false := by
      have same := get?_setValue h p v (.promise { r with resolved := true })
      rw [if_neg other] at same
      have clear := plain rfl
      simp only [isPromise, promise?, same] at clear ⊢
      rw [clear]
      rfl
    simp only [resolveWith, Ne.symm other, still, Bool.false_eq_true, if_false] at later
    exact settle_settles marked pending later

theorem Forgets.promise? (less : h.Forgets h') (found : h'.promise? p = some r) : h.promise? p = some r := by
  rw [← get?_promises] at found ⊢
  exact Affairs.Forgets.promise less found

theorem resolveWith_self (found : h.promise? p = some r) (pending : r.settlement = .pending)
    (later : (h.resolveWith p p).promise? p = some r') : r'.settlement = .rejected (h.newError selfResolution).1 := by
  simp only [resolveWith, if_true] at later
  have settled := Forgets.promise? (forgets_release _ _) later
  obtain ⟨y, there, -⟩ := Turns.aged (settle_turns (o := []) _ p _ true (by simp)) ((get?_promises _ p).trans settled)
  have before := (get?_promises _ p).symm.trans there
  obtain rfl : r = y := Option.some.inj (found.symm.trans (Forgets.promise? (forgets_newError h _) before))
  exact settle_settles before pending settled

theorem resolveWith_error (found : h.promise? p = some r) {value : Value}
    (kept : (h.resolveWith p p).get? (h.newError selfResolution).1 = some value)
    (absent : h.get? (h.newError selfResolution).1 = none) :
    (h.newError selfResolution).2.get? (h.newError selfResolution).1 = some value := by
  simp only [resolveWith, if_true] at kept
  refine get?_settle (p := p) ?_ (get?_releaseAll kept)
  intro same
  simp [← same, promise?_eq_some.1 found] at absent

theorem resolveWith_next (h : Heap) (p : Ptr) : (h.newError selfResolution).2.next ≤ (h.resolveWith p p).next := by
  simp only [resolveWith, if_true]
  exact (settle_turns (o := []) (h.newError selfResolution).2 p _ true (by simp)).next_le

theorem resolveWith_fresh (a : Accounted stale outside (h.resolveWith p p)) (reached : stale ≤ h.next)
    (numbered : Numbered stale (h.resolveWith p p)) (found : h.promise? p = some r) (pending : r.settlement = .pending)
    (later : (h.resolveWith p p).promise? p = some r') :
    (h.newError selfResolution).1 = 0 ∨ h.get? (h.newError selfResolution).1 = none ∧
      ∃ fields, (h.resolveWith p p).get? (h.newError selfResolution).1 = some (.object .error fields) := by
  have settled := resolveWith_self found pending later
  rcases newError_cases h selfResolution with none | ⟨n, fresh, below, pointer, big, unused, fields, made⟩
  next => exact .inl none
  next =>
    have absent : h.get? (h.newError selfResolution).1 = none := by simp [get?, pointer, unused]
    refine .inr ⟨absent, fields, ?_⟩
    have named := a.names_child (promise?_eq_some.1 later) (q := (h.newError selfResolution).1) (by
      simp [Value.children, PromiseRecord.children, settled, Settlement.payload?]) numbered
    rcases named with small | ⟨c, here⟩ | lost
    next => exact absurd big (UInt32.not_le.2 (pointer ▸ small))
    next =>
      have kept : (h.resolveWith p p).get? (h.newError selfResolution).1 = some c.value :=
        get?_eq_some.2 ⟨c, here, rfl⟩
      have before := resolveWith_error found kept absent
      rw [kept, ← before, pointer, made]
    next =>
      rcases numbered with none | small
      next => omega
      next =>
        have total := resolveWith_next h p
        rw [pointer, UInt32.toNat_ofNat_of_lt' (by omega)] at lost
        omega

/-- A promise that is to be resolved with itself is rejected with a new error. -/
theorem callResolving_self (a : Accounted stale outside h) (lasting : Lasting stale outside p)
    (numbered : Numbered stale (h.callResolving p p false)) (found : h.promise? p = some r) (first : r.resolved = false)
    (pending : r.settlement = .pending) (later : (h.callResolving p p false).promise? p = some r') :
    ∃ e, r'.settlement = .rejected e ∧ (e = 0 ∨ h.get? e = none ∧
      ∃ fields, (h.callResolving p p false).get? e = some (.object .error fields)) := by
  have accounted := a.callResolving (p := p) lasting false
  have resolved : h.callResolving p p false =
      (h.setValue p (.promise { r with resolved := true })).resolveWith p p := by
    simp only [callResolving, found, first, Bool.false_eq_true, if_false]
  have marked := promise?_marked found
  rw [resolved] at later accounted numbered ⊢
  refine ⟨_, resolveWith_self marked pending later, ?_⟩
  refine (resolveWith_fresh accounted a.reached numbered marked pending later).imp_right ?_
  rintro ⟨absent, made⟩
  refine ⟨?_, made⟩
  rw [get?_setValue] at absent
  split at absent
  next => simpa using absent
  next => exact absent

/-- A promise that is to be resolved with another one waits for it, or takes what that one has settled with. -/
theorem callResolving_adopts {f : Ptr} {o : List Task} {y : PromiseRecord} (found : h.promise? p = some r)
    (first : r.resolved = false) (able : h.resolver? f = some (p, false)) (other : v ≠ p)
    (promise : h.promise? v = some y) (ok : Steady (o, h.affairs)) :
    Attached p v (o, (h.callResolving p v false).affairs) ∨
      Sealed (fun w rejected => y.settlement = .ofPayload rejected w) p (o, (h.callResolving p v false).affairs) := by
  have marked : ((h.setValue p (.promise { r with resolved := true })).retain p).affairs = h.affairs.mark p r :=
    (affairs_retain _ p).trans (affairs_setValue_promise found { r with resolved := true })
  have kept : (h.setValue p (.promise { r with resolved := true })).promise? v = some y := by
    simp [promise?_eq_some, Ne.symm other, promise?_eq_some.1 promise]
  have adopted : h.callResolving p v false =
      ((h.setValue p (.promise { r with resolved := true })).retain p).attach v ⟨p, none, none⟩ := by
    simp [callResolving, found, first, resolveWith, other, isPromise, kept]
  have here : ((h.setValue p (.promise { r with resolved := true })).retain p).promise? v = some y := by
    simpa [promise?_eq_some] using kept
  rw [adopted]
  generalize (h.setValue p _).retain p = m at *
  have there : m.affairs.promises.get? v = some y := (get?_promises m v).trans here
  rcases attach_cases here ⟨p, none, none⟩ with ⟨pending, stored⟩ | ⟨w, rejected, settled, turns⟩
  next =>
    refine .inl ⟨{ y with handled := true, reactions := y.reactions ++ [⟨p, none, none⟩] }, ?_, pending, by simp⟩
    simp [stored, Affairs.react]
  next =>
    have owner : h.affairs.promises.get? p = some r := (get?_promises h p).trans found
    have called : Steady (.resolution p v false :: o, m.affairs) := marked ▸ call_steady able owner first ok
    have adopting := Turn.steady (.adopt other (by simp [there])) called
    have reacted := Turn.steady (.react there settled) adopting
    refine .inr (Turns.sealed (turns o) reacted (.passes w rejected settled (fun fulfilled => ?_) ?_))
    next => exact absent_set there (adopting.plain v y w there (by simpa [fulfilled, Settlement.ofPayload] using settled)) _
    next => exact .inr (.inl (by cases rejected <;> exact List.mem_cons_self))

end Heap

end ScriptHost
