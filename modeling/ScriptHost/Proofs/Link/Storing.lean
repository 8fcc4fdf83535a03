import ScriptHost.Conversion
import ScriptHost.Proofs.Link.Looking
import ScriptHost.Proofs.Text.Numerals

set_option autoImplicit false

/-!
Setting a property.

The container takes a reference of its own to the new value, and the value that it had before is freed.
-/

namespace ScriptHost

/-- With a property set, and the references that were given up for it. -/
def Value.put : Value -> String -> Ptr -> Option (Value × List Ptr)
  | object cls props, key, p => some (object cls (props.set key p), (props.get? key).toList)
  | array items, key, p => (Heap.arrayIndex? key).map fun i => (array (Heap.setItem items i p), items[i]?.toList)
  | _, _, _ => none

theorem Value.put_push (items : Array Ptr) (p : Ptr) (small : items.size < UInt64.size) :
    (array items).put (Nat.repr items.size) p = some (array (items.push p), []) := by
  simp [put, Heap.arrayIndex?_repr small, Heap.setItem]

theorem Heap.setProp_puts {h : Heap} {p child : Ptr} {key : String} {v v' : Value} {olds : List Ptr}
    (there : h.get? p = some v) (put : v.put key child = some (v', olds)) (known : h.contains child = true) :
    h.setProp p key child = .ok (((h.setValue p v').retain child).releaseAll olds) := by
  unfold Heap.setProp
  rw [there, known]
  cases v with
  | object cls props =>
    obtain ⟨rfl, rfl⟩ := Prod.mk.inj (Option.some.inj put)
    rfl
  | array items =>
    obtain ⟨i, index, both⟩ := Option.map_eq_some_iff.1 put
    obtain ⟨rfl, rfl⟩ := Prod.mk.inj both
    simp only [index, Bool.not_true, Bool.false_eq_true, if_false]
  | _ => cases put

namespace Link

variable {l l' mid : Link} {container child k : Ptr} {key : String} {c : Cell} {v : Value} {olds ks : List Ptr} {bytes : Nat}

theorem setProp_outcome (made : Made l (.string (Text.untilNul key)) bytes k mid) {w : Value}
    (there : l.engine.heap.get? container = some w) (put : w.put (Text.untilNul key) child = some (v, olds))
    (known : l.engine.heap.contains child = true) :
    outcome (Engine.perform (.setProp container k child)) mid.engine =
      (.ok (.i32 1),
        { mid.engine with heap := ((mid.engine.heap.setValue container v).retain child).releaseAll olds }) := by
  have named : mid.engine.heap.display k = Text.untilNul key := Heap.display_string made.big made.get?_new
  have still : mid.engine.heap.contains child = true := by
    refine Heap.contains_iff.2 ((Heap.contains_iff.1 known).imp_right fun ⟨d, found⟩ => ?_)
    obtain ⟨e, here, -⟩ := Heap.get?_eq_some.1 (made.get?_old (Heap.get?_eq_some.2 ⟨d, found, rfl⟩))
    exact ⟨e, here⟩
  have stored := Heap.setProp_puts (made.get?_old there) put still
  simp only [Engine.perform, Engine.setProp, Engine.attempt, outcome_bind, outcome_get, named, stored, Except.map,
    outcome_modify, outcome_pure]
  rfl

/-- A property is set, or else the new value that it was meant to have is given up. -/
theorem store_ends (ready : l.Ready) (there : l.cells.get? container = some c)
    (put : c.value.put (Text.untilNul key) child = some (v, olds)) (known : l.engine.heap.contains child = true)
    (forest : Heap.Forest l.cells olds ks) (nodup : ks.Nodup) (apart : container ∉ ks) (apart' : child ∉ ks) :
    (∃ l', answered (Conversion.store container key child) l = (.ok (), l') ∧ Changed [] l l' ∧
        l'.cells = (l.cells.modify container fun c => { c with value := v }).without ks ∧
        l'.memory.next ≤ l.memory.next + (key.utf8ByteSize + 8)) ∨
      (∃ e l', answered (Conversion.store container key child) l = (.error e, l') ∧ Changed [] l l' ∧
        l'.cells = Heap.freeAll l.cells [child] ∧ ¬l.Roomy (key.utf8ByteSize + 8) 1) := by
  have makes := newString_makes ready key
  simp only [Conversion.store, setProp, withKey, answered_bind, answered_attempt]
  generalize answered (newString key) l = r at *
  cases makes with
  | @error e l' same unfit =>
    have clear := (same.ready ready).clear
    dsimp only
    simp only [answered_free_value clear, answered_ofExcept]
    refine .inr ⟨e, _, rfl, same.1.release child, ?_, unfit⟩
    change Heap.freeAll l'.cells [child] = _
    rw [same.2]
  | @ok k mid made =>
    have clear := (made.ready ready).clear
    have held : l.engine.heap.get? container = some c.value := Heap.get?_eq_some.2 ⟨c, there, rfl⟩
    -- The key is freed after the property has been set, and the reference to the child in any case.
    let stored := mid.withEngine
      { mid.engine with heap := ((mid.engine.heap.setValue container v).retain child).releaseAll olds }
    have asked : answered (int (.setProp container k child)) mid = (.ok 1, stored) :=
      answered_int clear (setProp_outcome made held put known)
    dsimp only
    simp only [asked, answered_free_value (l := stored) clear, answered_free_value (l := stored.released k) clear,
      answered_ofExcept, answered_pure, if_true]
    refine .inl ⟨_, rfl, ?_, ?_, made.next⟩
    · obtain ⟨cells, n, m, next, atop, rfl⟩ := made.changed
      exact ⟨_, n, m, next, atop, rfl⟩
    · have names := (Heap.contains_iff.1 known).imp_left Heap.small_of_static
      rw [← Heap.freeAll_stored ready.counted made.big made.absent (Text.untilNul key) there names forest nodup apart
        apart' v, ← made.cells]
      rfl

end Link

end ScriptHost
