import ScriptHost.Conversion
import ScriptHost.Proofs.Link.Properties

set_option autoImplicit false

/-!
What converting a snapshot takes, in either direction.
-/

namespace ScriptHost

/-- Levels of nesting, bytes of the budget, and a number of bytes of memory and of pointers that suffices. -/
structure Need where
  depth : Nat
  bytes : Nat
  space : Nat

namespace Need

def none : Need :=
  ⟨0, 0, 0⟩

def beside (m n : Need) : Need :=
  ⟨max m.depth n.depth, m.bytes + n.bytes, m.space + n.space⟩

def within (n : Need) (bytes space : Nat) : Need :=
  ⟨n.depth + 1, bytes + n.bytes, space + n.space⟩

end Need

namespace Snapshot

mutual

/-- What converting takes. Reading charges for a truth value, which making one does not. -/
def need (truth : Nat) : Snapshot -> Need
  | .undefined => Need.none.within 0 0
  | .null => Need.none.within 0 0
  | .bool _ => Need.none.within truth 0
  | .int _ => Need.none.within Budget.numberCharge 1
  | .float _ => Need.none.within Budget.numberCharge 1
  | .text s => Need.none.within (Budget.blobCharge s.utf8ByteSize) (s.utf8ByteSize + 8)
  | .bytes x => Need.none.within (Budget.blobCharge x.size) (x.size + 16)
  | .error message => Need.none.within (Budget.blobCharge message.utf8ByteSize) (message.utf8ByteSize + 24)
  | .list items => (needItems truth 0 items).within (Budget.listCharge items.length) 8
  | .record fields => 
      (needFields truth fields).within (Budget.recordCharge fields.length) (Link.keyBytes (fields.map Prod.fst))

def needItems (truth index : Nat) : List Snapshot -> Need
  | [] => .none
  | item :: rest =>
      (need truth item).beside
        (Need.beside ⟨0, 0, (Nat.repr index).utf8ByteSize + 9⟩ (needItems truth (index + 1) rest))

def needFields (truth : Nat) : List (String × Snapshot) -> Need
  | [] => .none
  | (key, item) :: rest =>
      Need.beside ⟨0, key.utf8ByteSize, 0⟩
        ((need truth item).beside
          (Need.beside ⟨0, 0, key.utf8ByteSize + 9⟩ (needFields truth rest)))

end

theorem length_le_space (truth index : Nat) (items : List Snapshot) : items.length ≤ (needItems truth index items).space := by
  induction items generalizing index with
  | nil => exact Nat.zero_le _
  | cons item rest ih =>
    have := ih (index + 1)
    simp only [needItems, Need.beside, List.length_cons]
    omega

variable {v : Snapshot} {items : List Snapshot} {fields : List (String × Snapshot)}

theorem need_le_items (truth index : Nat) (member : v ∈ items) :
    (v.need truth).depth ≤ (needItems truth index items).depth ∧ (v.need truth).space ≤ (needItems truth index items).space := by
  induction items generalizing index with
  | nil => exact nomatch member
  | cons item rest ih =>
    simp only [needItems, Need.beside]
    rcases List.mem_cons.1 member with rfl | member
    next => omega
    next =>
      have := ih (index + 1) member
      omega

theorem need_le_fields (truth : Nat) {field : String × Snapshot} (member : field ∈ fields) :
    (field.2.need truth).depth ≤ (needFields truth fields).depth ∧
      (field.2.need truth).space ≤ (needFields truth fields).space := by
  induction fields with
  | nil => exact nomatch member
  | cons first rest ih =>
    obtain ⟨key, item⟩ := first
    simp only [needFields, Need.beside]
    rcases List.mem_cons.1 member with rfl | member
    next =>
      dsimp only
      omega
    next =>
      have := ih member
      omega

end Snapshot

namespace Budget

def spent (b : Budget) (bytes : Nat) : Budget :=
  { b with bytes := b.bytes + bytes }

def opened (b : Budget) (bytes : Nat) : Budget :=
  { b with depth := b.depth + 1, bytes := b.bytes + bytes }

theorem opened_leave (b : Budget) (bytes : Nat) : (b.opened bytes).leave = b.spent bytes := by
  simp only [opened, leave, spent, Nat.add_sub_cancel]

theorem spent_spent (b : Budget) (m n : Nat) : (b.spent m).spent n = b.spent (m + n) := by
  simp only [spent, Nat.add_assoc]

theorem opened_spent (b : Budget) (m n : Nat) : (b.opened m).spent n = b.opened (m + n) := by
  simp only [spent, opened, Nat.add_assoc]

end Budget

namespace Link

variable {α : Type} {l l' : Link} {b : Budget} {m n : Need} {bytes : Nat}

/-- A conversion has moved the link this far at most. -/
structure Near (l l' : Link) (space : Nat) : Prop where
  next : l'.memory.next ≤ l.memory.next + space
  cells : l'.cells.size ≤ l.cells.size + space

/-- The budget and the link have what is needed. -/
structure Enough (b : Budget) (l : Link) (n : Need) : Prop where
  depth : b.depth + n.depth ≤ b.maxDepth
  bytes : b.bytes + n.bytes ≤ b.maxBytes
  room : l.Roomy n.space n.space

theorem Near.trans {l'' : Link} {first second : Nat} (near : l.Near l' first) (near' : l'.Near l'' second) :
    l.Near l'' (first + second) := by
  have := near.next
  have := near.cells
  have := near'.next
  have := near'.cells
  exact ⟨by omega, by omega⟩

theorem Near.mono {few more : Nat} (near : l.Near l' few) (le : few ≤ more) : l.Near l' more :=
  ⟨Nat.le_trans near.next (Nat.add_le_add_left le _), Nat.le_trans near.cells (Nat.add_le_add_left le _)⟩

theorem Roomy.near {space rest : Nat} (room : l.Roomy (space + rest) (space + rest)) (changed : Changed [] l l')
    (near : l.Near l' space) : l'.Roomy rest rest := by
  have := room.bytes
  have := room.cells
  have := near.next
  have := near.cells
  exact ⟨⟨changed.limit.trans room.unlimited, by omega⟩, by omega⟩

theorem Enough.mono {few more : Need} (enough : Enough b l more) (depth : few.depth ≤ more.depth)
    (bytes : few.bytes ≤ more.bytes)
    (space : few.space ≤ more.space) : Enough b l few := by
  have := enough.depth
  have := enough.bytes
  exact ⟨by omega, by omega, enough.room.mono space space⟩

theorem Enough.first (enough : Enough b l (m.beside n)) : Enough b l m := by
  have := enough.depth
  have := enough.bytes
  have le : m.space ≤ (m.beside n).space := Nat.le_add_right _ _
  refine ⟨?_, ?_, enough.room.mono le le⟩
  all_goals
    simp only [Need.beside] at *
    omega

theorem Enough.rest (enough : Enough b l (m.beside n)) (changed : Changed [] l l') (near : l.Near l' m.space) :
    Enough (b.spent m.bytes) l' n := by
  have := enough.depth
  have := enough.bytes
  refine ⟨?_, ?_, enough.room.near changed near⟩
  all_goals
    simp only [Need.beside, Budget.spent] at *
    omega

theorem Enough.inside {space : Nat} (enough : Enough b l (n.within bytes space)) (changed : Changed [] l l')
    (near : l.Near l' space) : Enough (b.opened bytes) l' n := by
  have := enough.depth
  have := enough.bytes
  refine ⟨?_, ?_, enough.room.near changed near⟩
  all_goals
    simp only [Need.within, Budget.opened] at *
    omega

theorem Near.refl (l : Link) : l.Near l 0 :=
  ⟨Nat.le_refl _, Nat.le_refl _⟩

section Charging

theorem answered_entered (b : Budget) (l : Link) :
    answered b.entered l =
      if b.maxDepth < b.depth + 1 then (.error (.conversion (.tooDeep b.maxDepth)), l) else (.ok (b.opened 0), l) := by
  unfold Budget.entered Budget.enter
  by_cases deep : b.maxDepth < b.depth + 1
  next =>
    simp only [deep, if_true]
    rfl
  next =>
    simp only [deep, if_false]
    rfl

theorem answered_charged (b : Budget) (bytes : Nat) (l : Link) :
    answered (b.charged bytes) l =
      if b.maxBytes < b.bytes + bytes then (.error (.conversion (.tooLarge (b.bytes + bytes) b.maxBytes)), l)
      else (.ok (b.spent bytes), l) := by
  unfold Budget.charged Budget.charge
  by_cases large : b.maxBytes < b.bytes + bytes
  next =>
    simp only [large, if_true]
    rfl
  next =>
    simp only [large, if_false]
    rfl

end Charging

end Link

end ScriptHost
