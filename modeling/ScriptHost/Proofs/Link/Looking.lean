import ScriptHost.Proofs.Link.Properties

set_option autoImplicit false

/-!
Calls that only look at a value, and the constants.
-/

namespace ScriptHost

namespace Heap

variable {h : Heap} {p : Ptr} {k : ValueKind}

theorem kind_of_big (big : Ptr.firstCounted ≤ p) : h.kind p = (h.get? p).map Value.kind := by
  have other (q : Ptr) (small : q < Ptr.firstCounted) : p ≠ q := by
    rintro rfl
    exact absurd big (UInt32.not_le.2 small)
  simp only [kind, other Ptr.undefined (by decide), other Ptr.null (by decide), other Ptr.no (by decide),
    other Ptr.yes (by decide), if_false, decide_false, Bool.or_self, Bool.false_eq_true]

/-- All kinds but those of constants are kinds of values that are kept. -/
theorem held_of_kind (found : h.kind p = some k) (kept : k ∉ [ValueKind.undefined, .null, .boolean]) :
    ∃ v, h.get? p = some v ∧ v.kind = k := by
  simp only [List.mem_cons, List.not_mem_nil, or_false, not_or] at kept
  obtain ⟨undefined, null, boolean⟩ := kept
  unfold kind at found
  split at found
  next => exact absurd (Option.some.inj found).symm undefined
  next =>
    split at found
    next => exact absurd (Option.some.inj found).symm null
    next =>
      split at found
      next => exact absurd (Option.some.inj found).symm boolean
      next => exact Option.map_eq_some_iff.1 found

theorem bytes_of_kind (found : h.kind p = some .bytes) : ∃ content, h.get? p = some (.bytes content) := by
  obtain ⟨v, held, kind⟩ := held_of_kind found (by decide)
  unfold Value.kind at kind
  split at kind <;> cases kind
  exact ⟨_, held⟩

theorem array_of_kind (found : h.kind p = some .array) : ∃ items, h.get? p = some (.array items) := by
  obtain ⟨v, held, kind⟩ := held_of_kind found (by decide)
  unfold Value.kind at kind
  split at kind <;> cases kind
  exact ⟨_, held⟩

theorem object_of_kind (found : h.kind p = some .object ∨ h.kind p = some .error) :
    ∃ cls props, h.get? p = some (.object cls props) := by
  rcases found with found | found
  all_goals
    obtain ⟨v, held, kind⟩ := held_of_kind found (by decide)
    unfold Value.kind at kind
    split at kind <;> cases kind
    exact ⟨_, _, held⟩

end Heap

namespace ValueKind

theorem ofTag?_tag (k : ValueKind) : ofTag? k.tag = some k := by
  cases k <;> rfl

end ValueKind

namespace Link

variable {α : Type} {l : Link} {p : Ptr}

section Looking

theorem clean_of_eq {act : LinkM α} (same : l.Ready -> (answered act l).2 = l) : Clean act l := by
  intro ready _
  rw [same ready]
  exact .refl ready

theorem answered_kind (clear : l.faults = Table.empty) {k : ValueKind} (found : l.engine.heap.kind p = some k) :
    answered (kind p) l = (.ok k, l) := by
  have done : outcome (Engine.perform (.typeOf p)) l.engine = (.ok (.i32 k.tag), l.engine) := by
    simp only [Engine.perform, outcome_bind, Engine.outcome_readHeap, found, outcome_pure]
  have asked : answered (int (.typeOf p)) l = (.ok k.tag, l) := answered_int clear done
  simp only [kind, answered_bind, asked, ValueKind.ofTag?_tag, answered_pure]

theorem answered_kind_none (clear : l.faults = Table.empty) (unknown : l.engine.heap.kind p = none) :
    ∃ e, answered (kind p) l = (.error e, l) := by
  have done : outcome (Engine.perform (.typeOf p)) l.engine = (.ok (.i32 (-1)), l.engine) := by
    simp only [Engine.perform, outcome_bind, Engine.outcome_readHeap, unknown, outcome_pure]
  have asked : answered (int (.typeOf p)) l = (.ok (-1), l) := answered_int clear done
  have none : ValueKind.ofTag? (-1) = none := rfl
  exact ⟨_, by simp only [kind, answered_bind, asked, none, answered_throw]; rfl⟩

theorem clean_kind_bind {f : ValueKind -> LinkM α} (rest : ∀ k, l.engine.heap.kind p = some k -> Clean (f k) l) :
    Clean (kind p >>= f) l := by
  intro ready legible
  rw [answered_bind] at legible ⊢
  cases found : l.engine.heap.kind p with
  | some k =>
    rw [answered_kind ready.clear found] at legible ⊢
    exact rest k found ready legible
  | none =>
    obtain ⟨e, failed⟩ := answered_kind_none ready.clear found
    rw [failed]
    exact .refl ready

theorem answered_number (clear : l.faults = Table.empty) (p : Ptr) :
    answered (number p) l = (.ok (l.engine.heap.number p), l) := by
  have done : outcome (Engine.perform (.getFloat64 p)) l.engine = (.ok (.f64 (l.engine.heap.number p)), l.engine) := rfl
  have direct := direct_of_faultless clear (Request.getFloat64 p).name
  simp only [number, answered_bind, answered_request direct rfl, done, Scalar.f64?, answered_pure]
  rfl

theorem answered_same (clear : l.faults = Table.empty) (p q : Ptr) (op : Equality) :
    answered (isEqual p q op) l = (.ok (l.engine.heap.isEqual p q op), l) :=
  answered_isEqual (direct_of_faultless clear _)

theorem answered_undefined (clear : l.faults = Table.empty) : answered undefined l = (.ok Ptr.undefined, l) :=
  answered_value clear rfl (by decide)

theorem answered_null (clear : l.faults = Table.empty) : answered null l = (.ok Ptr.null, l) :=
  answered_value clear rfl (by decide)

theorem answered_boolean (clear : l.faults = Table.empty) (b : Bool) : answered (boolean b) l = (.ok (Ptr.ofBool b), l) := by
  cases b
  · exact answered_value clear rfl (by decide)
  · exact answered_value clear rfl (by decide)

theorem answered_dup_constant (ready : l.Ready) (static : p.isStatic = true) : answered (dupValue p) l = (.ok p, l) := by
  have some : p ≠ 0 := by
    rintro rfl
    exact absurd static (by decide)
  have known : l.engine.heap.contains p = true := Heap.contains_iff.2 (.inl static)
  have unknown : l.cells.modify p (fun c => { c with refs := c.refs + 1 }) = l.cells :=
    Table.modify_of_absent (ready.counted.absent (Heap.small_of_static static)) _
  rw [answered_dupValue (direct_of_faultless ready.clear _) known some]
  simp only [retaining, Heap.retain, withEngine, unknown]

end Looking

end Link

end ScriptHost
