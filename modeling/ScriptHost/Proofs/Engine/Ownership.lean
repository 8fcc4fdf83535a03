import ScriptHost.Proofs.Engine.Counts

set_option autoImplicit false

/-!
Who owns the references to values: other values, the engine's queues and exception, and whoever uses it.

`Accounted` is `Balanced` for a whole heap. Every operation of the heap has a lemma that says which
references it takes over from its caller and which it leaves to it.
-/

namespace ScriptHost

namespace Heap

/-- The references that the engine holds outside of its values. -/
def pending (h : Heap) : List Ptr :=
  h.jobs.flatMap Job.children ++ (h.rejections.flatMap Rejection.children ++ h.exception.toList)

def references (h : Heap) : List Ptr :=
  held h.cells.entries ++ h.pending

/-- No pointer was handed out twice, or there are no stale references that would notice. -/
def Numbered (stale : Nat) (h : Heap) : Prop :=
  stale = 0 ∨ h.next ≤ UInt32.size

structure Accounted (stale : Nat) (outside : List Ptr) (h : Heap) : Prop where
  reached : stale ≤ h.next
  balanced : Numbered stale h -> Balanced stale (outside ++ h.pending) h.cells

def Names (stale : Nat) (h : Heap) (p : Ptr) : Prop :=
  Numbered stale h -> Nameable stale h.cells p

/-- What the pointer names does not depend on what is inside the heap. -/
def Lasting (stale : Nat) (outside : List Ptr) (p : Ptr) : Prop :=
  p < Ptr.firstCounted ∨ p ∈ outside ∨ p.toNat < stale

variable {stale : Nat} {outside outside' : List Ptr} {h h' : Heap} {p q v : Ptr} {old value : Value}

theorem get?_eq_some : h.get? p = some value ↔ ∃ c, h.cells.get? p = some c ∧ c.value = value := by
  simp [get?]

@[simp] theorem get?_retain (h : Heap) (p q : Ptr) : (h.retain p).get? q = h.get? q := by
  unfold get? retain
  simp only [Table.get?_modify]
  split
  next => simp [Function.comp_def]
  next => rfl

@[simp] theorem pending_retain (h : Heap) (p : Ptr) : (h.retain p).pending = h.pending :=
  rfl

@[simp] theorem pending_setValue (h : Heap) (p : Ptr) (v : Value) :
    (h.setValue p v).pending = h.pending :=
  rfl

@[simp] theorem pending_releaseAll (h : Heap) (ps : List Ptr) : (h.releaseAll ps).pending = h.pending :=
  rfl

theorem retain_setValue (h : Heap) (p q : Ptr) (v : Value) :
    (h.setValue p v).retain q = (h.retain q).setValue p v := by
  unfold setValue retain
  simp only [Heap.mk.injEq, and_true]
  exact Table.modify_comm _ _ _ fun _ => rfl

theorem retain_unknown (unknown : h.contains p = false) : h.retain p = h := by
  unfold contains Table.contains at unknown
  cases found : h.cells.get? p with
  | some c => simp [found] at unknown
  | none => simp [retain, Table.modify, found]

theorem zero_small : (0 : Ptr) < Ptr.firstCounted := by
  decide

theorem small_of_static (static : p.isStatic = true) : p < Ptr.firstCounted := by
  simp only [Ptr.isStatic, Bool.and_eq_true, decide_eq_true_eq] at static
  exact UInt32.lt_of_le_of_lt static.2 (by decide)

theorem contains_iff : h.contains p = true <-> p.isStatic = true ∨ ∃ c, h.cells.get? p = some c := by
  simp only [contains, Table.contains, Bool.or_eq_true, Option.isSome_iff_exists]

/-- Does not dangle. -/
def Known (h : Heap) (p : Ptr) : Prop :=
  Ptr.firstCounted ≤ p -> ∃ c, h.cells.get? p = some c

theorem known_of_contains (contained : h.contains p = true) : h.Known p := by
  intro big
  rcases contains_iff.1 contained with static | found
  · exact absurd big (UInt32.not_le.2 (small_of_static static))
  · exact found

theorem names_small (small : p < Ptr.firstCounted) : Names stale h p :=
  fun _ => .inl small

theorem names_of_found (found : h.get? p = some value) : Names stale h p := by
  obtain ⟨c, here, _⟩ := get?_eq_some.1 found
  exact fun _ => .inr (.inl ⟨c, here⟩)

theorem names_of_contains (known : h.contains p = true) : Names stale h p := by
  intro _
  simp only [contains, Ptr.isStatic, Table.contains, Bool.or_eq_true, Bool.and_eq_true,
    decide_eq_true_eq] at known
  rcases known with static | found
  · exact .inl (UInt32.lt_of_le_of_lt static.2 (by decide))
  · exact .inr (.inl (Option.isSome_iff_exists.1 found))

theorem names_retain (names : Names stale h p) : Names stale (h.retain q) p := by
  intro numbered
  refine (names numbered).imp_right fun known => known.imp_left fun ⟨c, here⟩ => ?_
  have same := get?_retain h q p
  simp only [get?, here, Option.map_some] at same
  obtain ⟨d, there, _⟩ := Option.map_eq_some_iff.1 same
  exact ⟨d, there⟩

theorem names_setValue (names : Names stale h p) : Names stale (h.setValue q value) p := by
  intro numbered
  refine (names numbered).imp_right fun known => known.imp_left fun ⟨c, here⟩ => ?_
  by_cases same : q = p
  next => exact ⟨{ c with value }, by simp [setValue, same, here]⟩
  next => exact ⟨c, by simp [setValue, same, here]⟩

theorem Lasting.append (lasting : Lasting stale outside p) (more : List Ptr) :
    Lasting stale (more ++ outside) p :=
  lasting.imp_right fun known => known.imp_left fun member => List.mem_append_right _ member

namespace Accounted

theorem shift (a : Accounted stale outside h) (cells : h'.cells = h.cells) (next : h'.next = h.next)
    (same : ∀ q, Ptr.firstCounted ≤ q ->
      (outside' ++ h'.pending).count q = (outside ++ h.pending).count q) :
    Accounted stale outside' h' := by
  refine ⟨next ▸ a.reached, fun numbered => ?_⟩
  rw [cells]
  exact (a.balanced (by simpa [Numbered, next] using numbered)).congr same

theorem congr (a : Accounted stale outside h)
    (same : ∀ q, Ptr.firstCounted ≤ q -> outside'.count q = outside.count q) :
    Accounted stale outside' h := by
  refine a.shift rfl rfl fun q big => ?_
  simp only [List.count_append, same q big]

theorem ignore (a : Accounted stale outside h) (small : p < Ptr.firstCounted) :
    Accounted stale (p :: outside) h := by
  refine a.congr fun q big => List.count_cons_of_ne ?_
  rintro rfl
  exact absurd big (UInt32.not_le.2 small)

theorem names (a : Accounted stale outside h) (owned : p ∈ outside) : Names stale h p := by
  intro numbered
  have := List.count_pos_iff.2 (List.mem_append_left h.pending owned)
  exact (a.balanced numbered).nameable (by omega)

theorem names_child (a : Accounted stale outside h) (found : h.get? p = some value)
    (child : q ∈ value.children) : Names stale h q := by
  obtain ⟨c, here, rfl⟩ := get?_eq_some.1 found
  exact fun numbered => (a.balanced numbered).nameable_child here child

theorem names_lasting (a : Accounted stale outside h) (lasting : Lasting stale outside p) :
    Names stale h p := by
  rcases lasting with small | owned | lost
  · exact names_small small
  · exact a.names owned
  · exact fun _ => .inr (.inr lost)

theorem retain (a : Accounted stale outside h) (names : Names stale h p) :
    Accounted stale (p :: outside) (h.retain p) :=
  ⟨a.reached, fun numbered => (a.balanced numbered).retain (names numbered)⟩

theorem releaseAll {ps : List Ptr} (a : Accounted stale (ps ++ outside) h) :
    Accounted stale outside (h.releaseAll ps) := by
  refine ⟨a.reached, fun numbered => Balanced.freeAll ps ?_⟩
  rw [← List.append_assoc]
  exact a.balanced numbered

theorem release (a : Accounted stale (p :: outside) h) : Accounted stale outside (h.release p) := by
  have listed : Accounted stale ([p] ++ outside) h := a
  exact listed.releaseAll

theorem setValue (a : Accounted stale outside h) (found : h.get? p = some old)
    (moved : ∀ q, Ptr.firstCounted ≤ q ->
      outside'.count q + value.children.count q = outside.count q + old.children.count q) :
    Accounted stale outside' (h.setValue p value) := by
  obtain ⟨c, here, rfl⟩ := get?_eq_some.1 found
  refine ⟨a.reached, fun numbered => ?_⟩
  have replaced : Balanced stale (outside' ++ h.pending) (h.cells.set p { c with value }) := by
    refine (a.balanced numbered).set_value here value fun q big => ?_
    have := moved q big
    simp only [List.count_append]
    omega
  have same : h.cells.modify p (fun c => { c with value }) = h.cells.set p { c with value } := by
    simp [Table.modify, here]
  change Balanced stale (outside' ++ h.pending) (h.cells.modify p fun c => { c with value })
  rw [same]
  exact replaced

end Accounted

theorem le_freshFrom (cells : Cells) (tries n : Nat) : n ≤ freshFrom cells tries n := by
  induction tries generalizing n with
  | zero => exact Nat.le_refl n
  | succ tries ih =>
    unfold freshFrom
    split
    next => exact Nat.le_refl n
    next => exact Nat.le_trans (Nat.le_succ n) (ih (n + 1))

theorem next_le_insert (h : Heap) (v : Value) : h.next ≤ (h.insert v).2.next := by
  unfold insert
  dsimp only
  split
  next => exact Nat.le_succ_of_le (le_freshFrom _ _ _)
  next => exact Nat.le_refl _

theorem Numbered.of_le (numbered : Numbered stale h') (le : h.next ≤ h'.next) : Numbered stale h :=
  numbered.imp_right fun few => Nat.le_trans le few

theorem Accounted.insert {v : Value} (a : Accounted stale (v.children ++ outside) h) :
    Accounted stale ((h.insert v).1 :: outside) (h.insert v).2 := by
  unfold Heap.insert
  dsimp only
  split
  next unused =>
    -- Pointers go up as long as they do not wrap around, so a new one is not among the stale ones.
    have later := le_freshFrom h.cells (h.cells.size + Ptr.firstCounted.toNat + 1) h.next
    refine ⟨by have := a.reached; dsimp only; omega, fun numbered => ?_⟩
    have few : Numbered stale h := numbered.of_le (by dsimp only; omega)
    have given : Balanced stale (v.children ++ (outside ++ h.pending)) h.cells := by
      rw [← List.append_assoc]
      exact a.balanced few
    refine given.insert unused ?_
    rcases numbered with none | small
    · omega
    · have := a.reached
      rw [UInt32.toNat_ofNat_of_lt' (by dsimp only at small; omega)]
      omega
  next =>
    exact a.releaseAll.ignore zero_small

@[simp] theorem pending_insert (h : Heap) (v : Value) : (h.insert v).2.pending = h.pending := by
  unfold insert
  dsimp only
  split <;> rfl

theorem get?_insert_of_found (none_held : value.children = []) (found : h.get? p = some old) :
    (h.insert value).2.get? p = some old := by
  obtain ⟨c, here, _⟩ := get?_eq_some.1 found
  unfold insert
  dsimp only
  split
  next unused =>
    have other : UInt32.ofNat (freshFrom h.cells (h.cells.size + Ptr.firstCounted.toNat + 1) h.next) ≠ p := by
      intro same
      simp [isUnused, Table.contains, same, here] at unused
    simpa [get?, other] using found
  next => simpa [none_held, Heap.releaseAll, freeAll, get?] using found

theorem names_insert (none_held : value.children = []) (names : Names stale h p) :
    Names stale (h.insert value).2 p := by
  intro numbered
  refine (names (numbered.of_le (next_le_insert h value))).imp_right fun known =>
    known.imp_left fun ⟨c, here⟩ => ?_
  have found : h.get? p = some c.value := get?_eq_some.2 ⟨c, here, rfl⟩
  obtain ⟨d, there, _⟩ := get?_eq_some.1 (get?_insert_of_found none_held found)
  exact ⟨d, there⟩

namespace Accounted

theorem later (a : Accounted stale outside h) : Accounted h.next outside h := by
  refine ⟨Nat.le_refl _, fun numbered => ?_⟩
  refine (a.balanced (numbered.elim (fun none => ?_) .inr)).weaken a.reached
  exact .inl (Nat.le_zero.1 (none ▸ a.reached))

theorem clear (a : Accounted stale outside h) : Accounted stale [] h.clear :=
  ⟨a.reached, fun _ => Balanced.empty⟩

theorem newString (a : Accounted stale outside h) (s : String) :
    Accounted stale ((h.newString s).1 :: outside) (h.newString s).2 := by
  have given : Accounted stale ((Value.string s).children ++ outside) h := a
  exact given.insert

theorem newError (a : Accounted stale outside h) (message : String) :
    Accounted stale ((h.newError message).1 :: outside) (h.newError message).2 := by
  have given := a.newString message
  exact Accounted.insert given

theorem setException (a : Accounted stale (p :: outside) h) :
    Accounted stale outside (h.setException p) := by
  unfold Heap.setException
  cases raised : h.exception with
  | none =>
    refine a.shift rfl rfl fun q _ => ?_
    simp only [pending, raised, Option.toList, List.count_append, List.count_cons, List.count_nil]
    omega
  | some previous =>
    refine release (a.shift rfl rfl fun q _ => ?_)
    simp only [pending, raised, Option.toList, List.count_append, List.count_cons, List.count_nil]
    omega

theorem raiseMessage (a : Accounted stale outside h) (message : String) :
    Accounted stale outside (h.raiseMessage message) :=
  (a.newError message).setException

theorem takeException (a : Accounted stale outside h) :
    Accounted stale (h.takeException.1.toList ++ outside) h.takeException.2 := by
  refine a.shift rfl rfl fun q _ => ?_
  simp only [pending, Heap.takeException, Option.toList, List.count_append, List.count_nil]
  omega

end Accounted

end Heap

end ScriptHost
