import ScriptHost.Conversion
import ScriptHost.Proofs.Link.Looking
import ScriptHost.Proofs.Text.Numerals

set_option autoImplicit false

/-!
Reading values of the engine leaves everything as it was.

Properties are borrowed: the reference to one is freed again once it has been read, however that went.
-/

namespace ScriptHost

namespace Conversion

open Link

variable {α β : Type} {l l' : Link} {p object v : Ptr} {key : String} {held : Value} {b : Budget}

section Borrowing

theorem answered_consume (read : Ptr -> LinkM α) (v : Ptr) (clear : l.faults = Table.empty) :
    answered (consume v read) l = ((answered (read v) l).1, (answered (read v) l).2.released v) := by
  have later := answered_faultless (read v) clear
  simp only [consume, answered_bind, answered_attempt, answered_free_value later, answered_ofExcept]

theorem returned (lent : Lent l v l') {l'' : Link} (same : Same l' l'') : Same l (l''.released v) := by
  refine ⟨(lent.changed.trans same.1).release v, ?_⟩
  change Heap.freeAll l''.cells [v] = l.cells
  rw [same.2, lent.freed]

theorem clean_borrow (there : l.engine.heap.get? object = some held)
    (found : l.engine.heap.lookup object (Text.untilNul key) = .ok (.existing v)) {read : Ptr -> LinkM α}
    (clean : ∀ l', Lent l v l' -> Clean (read v) l') : Clean (getProp object key >>= fun child => consume child read) l := by
  intro ready legible
  rw [answered_bind] at legible ⊢
  rcases getProp_ends ready there found with ⟨l', got, lent, -⟩ | ⟨e, l', failed, same, -⟩
  · have ready' := lent.changed.ready ready lent.counted
    rw [got] at legible ⊢
    dsimp only at legible ⊢
    rw [answered_consume read v ready'.clear] at legible ⊢
    exact returned lent (clean l' lent ready' (Legible.after ⟨legible.spare, legible.last⟩ lent.changed))
  · rw [failed]
    exact same

theorem clean_assoc {γ : Type} {first : LinkM α} {then' : α -> LinkM β} {rest : β -> LinkM γ}
    (clean : Clean ((first >>= then') >>= rest) l) : Clean (first >>= fun a => then' a >>= rest) l := by
  intro ready legible
  rw [answered_assoc] at legible ⊢
  exact clean ready legible

end Borrowing

section Clean

theorem clean_entered (b : Budget) : Clean b.entered l := by
  unfold Budget.entered
  split
  next => exact clean_pure _
  next => exact clean_throw _

theorem clean_charged (b : Budget) (n : Nat) : Clean (b.charged n) l := by
  unfold Budget.charged
  split
  next => exact clean_pure _
  next => exact clean_throw _

theorem clean_refuseCircle (p : Ptr) (ancestors : List Ptr) : Clean (refuseCircle p ancestors) l := by
  induction ancestors generalizing l with
  | nil => exact clean_pure _
  | cons ancestor rest ih =>
    have looked : Clean (isEqual ancestor p .sameValue) l :=
      clean_of_eq fun ready => by rw [answered_same ready.clear]
    refine clean_bind looked fun equal l' _ _ => ?_
    cases equal with
    | true => exact clean_bind (clean_throw _) fun _ _ _ _ => ih
    | false => exact ih

variable {read : Budget -> Ptr -> LinkM (Snapshot × Budget)}

theorem lookup_object {cls : ObjectClass} {props : Table String Ptr} (found : l.engine.heap.get? p = some (.object cls props))
    (key : String) : l.engine.heap.lookup p (Text.untilNul key) =
      .ok (.existing ((props.get? (Text.untilNul key)).getD Ptr.undefined)) := by
  simp only [Heap.lookup, found]

theorem lookup_array {items : Array Ptr} (found : l.engine.heap.get? p = some (.array items)) (index : Nat) :
    l.engine.heap.lookup p (Text.untilNul (Nat.repr index)) =
      .ok (.existing (((Heap.arrayIndex? (Nat.repr index)).bind fun i => items[i]?).getD Ptr.undefined)) := by
  simp only [Text.untilNul_repr, Heap.lookup, found, Heap.repr_ne_lengthKey, if_false]

theorem clean_readItems (clean : ∀ b p l, Clean (read b p) l) {items : Array Ptr} (count index : Nat) (b : Budget)
    (found : l.engine.heap.get? p = some (.array items)) : Clean (readItems read p count index b) l := by
  induction count generalizing index b l with
  | zero => exact clean_pure _
  | succ count ih =>
    refine clean_assoc (clean_bind (clean_borrow found (lookup_array found index) fun _ _ => clean _ _ _) fun r l' same _ => ?_)
    refine clean_bind (ih _ _ ?_) fun _ _ _ _ => clean_pure _
    rw [same.get?, found]

theorem clean_readFields (clean : ∀ b p l, Clean (read b p) l) {cls : ObjectClass} {props : Table String Ptr}
    (keys : List String) (b : Budget) (found : l.engine.heap.get? p = some (.object cls props)) :
    Clean (readFields read p keys b) l := by
  induction keys generalizing b l with
  | nil => exact clean_pure _
  | cons key rest ih =>
    refine clean_bind (clean_charged _ _) fun b l' same _ => ?_
    have found' := (same.get? p).trans found
    refine clean_assoc (clean_bind (clean_borrow found' (lookup_object found' key) fun _ _ => clean _ _ _) fun r l'' same' _ => ?_)
    refine clean_bind (ih _ ?_) fun _ _ _ _ => clean_pure _
    rw [same'.get?, found']

/-- Whatever is read, however far it gets: nothing is left of it. -/
theorem clean_read (levels : Nat) (ancestors : List Ptr) (b : Budget) (p : Ptr) :
    Clean (Conversion.read levels ancestors b p) l := by
  induction levels generalizing ancestors b p l with
  | zero => exact clean_throw _
  | succ levels ih =>
    unfold Conversion.read
    refine clean_bind (clean_entered b) fun b l _ _ => clean_kind_bind fun k found => ?_
    cases k
    case undefined => exact clean_pure _
    case null => exact clean_pure _
    case boolean =>
      refine clean_bind (clean_charged _ _) fun b l _ _ => ?_
      refine clean_bind (clean_of_eq fun ready => by rw [answered_boolean ready.clear]) fun yes l _ _ => ?_
      exact clean_bind (clean_of_eq fun ready => by rw [answered_same ready.clear]) fun _ _ _ _ => clean_pure _
    case number =>
      refine clean_bind (clean_charged _ _) fun b l _ _ => ?_
      exact clean_bind (clean_of_eq fun ready => by rw [answered_number ready.clear]) fun _ _ _ _ => clean_pure _
    case string =>
      refine clean_bind (Reads.clean fun ready => toText_reads ready p) fun s l _ _ => ?_
      exact clean_bind (clean_charged _ _) fun _ _ _ _ => clean_pure _
    case bytes =>
      obtain ⟨content, held⟩ := Heap.bytes_of_kind found
      refine clean_bind (Reads.clean fun ready => bytes_reads ready held) fun x l _ _ => ?_
      exact clean_bind (clean_charged _ _) fun _ _ _ _ => clean_pure _
    case error =>
      obtain ⟨cls, props, held⟩ := Heap.object_of_kind (.inr found)
      refine clean_assoc (clean_bind (clean_borrow held (lookup_object held _) fun l' _ => ?_) fun message l _ _ => ?_)
      next => exact Reads.clean fun ready => toText_reads ready _
      next => exact clean_bind (clean_charged _ _) fun _ _ _ _ => clean_pure _
    case array =>
      obtain ⟨items, held⟩ := Heap.array_of_kind found
      refine clean_bind (clean_refuseCircle p ancestors) fun _ l₁ same _ => ?_
      -- Every step leaves the list as it was, so it is still the same list at the next one.
      have held₁ := (same.get? p).trans held
      have length : l₁.engine.heap.length p = .ok items.size := by simp only [Heap.length, held₁]
      refine clean_bind (Reads.clean fun ready => length_reads ready length) fun count l₂ same _ => ?_
      refine clean_bind (clean_charged _ _) fun b l₃ same' _ => ?_
      have held₃ := (same'.get? p).trans ((same.get? p).trans held₁)
      exact clean_bind (clean_readItems (fun b child _ => ih _ b child) count 0 b held₃) fun _ _ _ _ => clean_pure _
    case object =>
      obtain ⟨cls, props, held⟩ := Heap.object_of_kind (.inl found)
      refine clean_bind (clean_refuseCircle p ancestors) fun _ l₁ same _ => ?_
      have held₁ := (same.get? p).trans held
      have keys : l₁.engine.heap.ownKeys p = .ok props.keys := by simp only [Heap.ownKeys, held₁]
      refine clean_bind (clean_ownKeys keys) fun keys l₂ same _ => ?_
      refine clean_bind (clean_charged _ _) fun b l₃ same' _ => ?_
      have held₃ := (same'.get? p).trans ((same.get? p).trans held₁)
      exact clean_bind (clean_readFields (fun b child _ => ih _ b child) keys b held₃) fun _ _ _ _ => clean_pure _
    case function => exact clean_throw _
    case promise => exact clean_throw _

end Clean

end Conversion

end ScriptHost
