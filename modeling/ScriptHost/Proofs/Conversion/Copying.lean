import ScriptHost.Proofs.Conversion.Plain
import ScriptHost.Proofs.Conversion.Reading
import ScriptHost.Proofs.Conversion.Shapes

set_option autoImplicit false

/-!
Copying a graph of values.

A copy comes to what the value unfolds to, if that keeps to the budget. Otherwise it fails: because of a circle,
of something that is no data, of the budget, or for lack of room.
-/

namespace ScriptHost

namespace Heap

variable {h h' : Heap} {p q : Ptr}

theorem isEqual_container {v : Value} (found : h.get? p = some v) (container : v.kind = .array ∨ v.kind = .object)
    (op : Equality) :
    h.isEqual q p op = (q == p) := by
  unfold isEqual
  split
  next here =>
    obtain rfl := Option.some.inj (found.symm.trans here)
    simp [Value.kind] at container
  next here =>
    obtain rfl := Option.some.inj (found.symm.trans here)
    simp [Value.kind] at container
  next => rfl

/-- Nothing is ever kept at the zero pointer. -/
theorem not_unfolds_zero (alike : Alike h h') (counted : Counted h'.cells) (zero : p = 0) (v : Snapshot) : ¬v.Unfolds h.graph p := by
  intro unfolds
  obtain ⟨s, shape⟩ := unfolds.shape
  subst zero
  have unknown : h'.get? 0 = none := by simp [get?, counted.absent zero_small]
  have absent : h.graph 0 = none := by
    rw [← alike.graph, graph, unknown]
    rfl
  cases absent.symm.trans shape

end Heap

namespace Need

/-- Beside what was needed before. -/
def past (n : Need) (space : Nat) : Need :=
  { n with space := space + n.space }

end Need

namespace Budget

def Within (b : Budget) : Prop :=
  b.depth ≤ b.maxDepth ∧ b.bytes ≤ b.maxBytes

structure Affords (b : Budget) (n : Need) : Prop where
  depth : b.depth + n.depth ≤ b.maxDepth
  bytes : b.bytes + n.bytes ≤ b.maxBytes

end Budget

namespace Conversion

open Link Snapshot

variable {α β γ : Type} {l l' : Link} {p q object : Ptr} {key : String} {b : Budget} {v : Snapshot} {h : Heap}
variable {ancestors : List Ptr} {levels bytes space : Nat}

/-- What copying comes to. -/
inductive Copies (l : Link) (b : Budget) (shown : α -> Prop) (need : α -> Need) : Except Error (α × Budget) × Link -> Prop
  | ok {a : α} {l' : Link} (right : shown a) (affords : b.Affords (need a)) (same : Same l l')
      (next : l'.memory.next ≤ l.memory.next + (need a).space) :
      Copies l b shown need (.ok (a, b.spent (need a).bytes), l')
  | error {e : Error} {l' : Link} (unfit : ∀ a, shown a -> ¬Enough b l (need a)) : Copies l b shown need (.error e, l')

abbrev reading : Snapshot -> Need :=
  Snapshot.need Budget.boolCharge

theorem one_le_depth (truth : Nat) (v : Snapshot) : 1 ≤ (v.need truth).depth := by
  cases v <;> simp [need, Need.within, Need.none]

section Leaves

theorem copies_leaf (space : Nat) (shape : l.engine.heap.graph p = some (.leaf v)) (n : reading v = Need.none.within bytes space)
    (shallow : b.depth + 1 ≤ b.maxDepth) (same : Same l l') (next : l'.memory.next ≤ l.memory.next + space)
    {f : Budget -> LinkM (Snapshot × Budget)} (rest : ∀ b, answered (f b) l' = (.ok (v, b.leave), l')) :
    Copies l b (Unfolds l.engine.heap.graph · p) reading (answered ((b.opened 0).charged bytes >>= f) l') := by
  have only {w : Snapshot} (unfolds : w.Unfolds l.engine.heap.graph p) : w = v :=
    (unfolds_of_leaf (Heap.graph_flat _) shape).1 unfolds
  rw [answered_bind, answered_charged]
  by_cases large : (b.opened 0).maxBytes < (b.opened 0).bytes + bytes
  next =>
    rw [if_pos large]
    refine .error fun w unfolds enough => ?_
    have := enough.bytes
    rw [only unfolds, n] at this
    simp only [Need.within, Need.none, Budget.opened] at this large
    omega
  next =>
    rw [if_neg large]
    dsimp only
    rw [rest, Budget.opened_spent, Budget.opened_leave]
    have spent : b.spent (0 + bytes) = b.spent (reading v).bytes := by
      rw [n]
      simp [Need.within, Need.none]
    rw [spent]
    refine .ok ((unfolds_of_leaf (Heap.graph_flat _) shape).2 rfl) ⟨?_, ?_⟩ same (by rw [n]; exact next)
    all_goals
      rw [n]
      simp only [Need.within, Need.none, Budget.opened] at large ⊢
      omega

/-- What is read first, and then charged for. -/
theorem copies_read {act : LinkM α} {content : α} {room : Prop} {few : Nat}
    (space : Nat) (shape : l.engine.heap.graph p = some (.leaf v)) (n : reading v = Need.none.within bytes space)
    (shallow : b.depth + 1 ≤ b.maxDepth) (reads : Reads l room content few (answered act l)) (le : few ≤ space)
    (roomy : l.Roomy space space -> room) {f : α -> Budget -> LinkM (Snapshot × Budget)} {charge : α -> Nat}
    (cost : charge content = bytes) (rest : ∀ b l, answered (f content b) l = (.ok (v, b.leave), l)) :
    Copies l b (Unfolds l.engine.heap.graph · p) reading
      (answered (act >>= fun a => (b.opened 0).charged (charge a) >>= f a) l) := by
  rw [answered_bind]
  generalize answered act l = r at *
  cases reads with
  | ok same next =>
    subst cost
    exact copies_leaf space shape n shallow same (by omega) fun b => rest b _
  | error _ unfit =>
    refine .error fun w unfolds enough => unfit (roomy ?_)
    obtain rfl := (unfolds_of_leaf (Heap.graph_flat _) shape).1 unfolds
    have room := enough.room
    rw [n] at room
    exact room

/-- The text of a property, borrowed for the time being. -/
theorem borrowed_reads {held : Value} (ready : l.Ready) (there : l.engine.heap.get? object = some held)
    (found : l.engine.heap.lookup object (Text.untilNul key) = .ok (.existing q)) (known : l.engine.heap.contains q = true) :
    Reads l (l.Roomy (key.utf8ByteSize + 8 + ((l.engine.heap.display q).utf8ByteSize + 8)) 1)
      (Text.untilNul (l.engine.heap.display q)) (key.utf8ByteSize + 8 + ((l.engine.heap.display q).utf8ByteSize + 8))
      (answered (getProp object key >>= fun child => consume child toText) l) := by
  have some : q ≠ 0 := by
    rintro rfl
    rcases Heap.contains_iff.1 known with static | ⟨c, present⟩
    · exact absurd static (by decide)
    · exact absurd (ready.counted 0 c present).1 (by decide)
  rw [answered_bind]
  rcases getProp_ends ready there found with ⟨l', got, lent, next⟩ | ⟨e, l', failed, same, zero | unfit⟩
  next =>
    have ready' := lent.changed.ready ready lent.counted
    have reads := toText_reads ready' q
    rw [(lent.alike (Heap.known_of_contains known)).display] at reads
    rw [got]
    dsimp only
    rw [answered_consume toText q ready'.clear]
    generalize answered (toText q) l' = r at *
    cases reads with
    | @ok l'' same next' =>
      refine .ok (returned lent same) ?_
      change l''.memory.next ≤ _
      omega
    | @error e l'' same unfit =>
      refine .error (fun legible => returned lent (same (Legible.after ⟨legible.spare, legible.last⟩ lent.changed))) fun room => ?_
      exact unfit (room.toSpacious.after lent.changed next)
  next => exact absurd zero some
  next =>
    rw [failed]
    exact .error (fun _ => same) fun room => unfit (room.mono (by omega) (Nat.le_refl 1))

end Leaves

section Parts

/-- A part is borrowed, copied and given back. -/
theorem copies_part {shown : α -> Prop} (need : α -> Need) (read : Ptr -> LinkM (α × Budget)) {held : Value}
    (ready : l.Ready) (there : l.engine.heap.get? object = some held)
    (found : l.engine.heap.lookup object (Text.untilNul key) = .ok (.existing q)) (known : l.engine.heap.Known q)
    (nothing : q = 0 -> ∀ a, ¬shown a)
    (reads : ∀ l', l'.Ready -> Heap.Alike l.engine.heap l'.engine.heap -> Copies l' b shown need (answered (read q) l')) :
    Copies l b shown (fun a => (need a).past (key.utf8ByteSize + 9))
      (answered (getProp object key >>= fun child => consume child read) l) := by
  rw [answered_bind]
  rcases getProp_ends ready there found with ⟨l', got, lent, next⟩ | ⟨e, l', failed, same, zero | unfit⟩
  next =>
    have ready' := lent.changed.ready ready lent.counted
    have copies := reads l' ready' (lent.alike known)
    have size := lent.size
    rw [got]
    dsimp only
    rw [answered_consume read q ready'.clear]
    generalize answered (read q) l' = r at *
    cases copies with
    | @ok a l'' right affords same next' =>
      refine @Copies.ok α l b shown (fun a => (need a).past (key.utf8ByteSize + 9)) a _ right ⟨affords.depth, affords.bytes⟩
        (returned lent same) ?_
      change l''.memory.next ≤ l.memory.next + (key.utf8ByteSize + 9 + (need a).space)
      omega
    | @error e l'' unfit =>
      refine .error fun a right enough => unfit a right ⟨enough.depth, enough.bytes, ?_⟩
      exact enough.room.near lent.changed ⟨by omega, by omega⟩
  next =>
    rw [failed]
    exact .error fun a right => absurd right (nothing zero a)
  next =>
    rw [failed]
    refine .error fun a right enough => unfit (enough.room.mono ?_ ?_) <;> dsimp only [Need.past] <;> omega

/-- One part after the other. -/
theorem Copies.cons {first : LinkM (α × Budget)} {shown : α -> Prop} {both : γ -> Prop} {need : α -> Need} {total : γ -> Need}
    (make : α -> β -> γ) (rest : Budget -> LinkM (β × Budget)) (shown' : β -> Prop) (need' : β -> Need)
    (head : Copies l b shown need (answered first l))
    (tail : ∀ a l', shown a -> Same l l' -> b.Affords (need a) ->
      Copies l' (b.spent (need a).bytes) shown' need' (answered (rest (b.spent (need a).bytes)) l'))
    (unique : ∀ a a', shown a -> shown a' -> a = a')
    (shows : ∀ c, both c ↔ ∃ a d, c = make a d ∧ shown a ∧ shown' d)
    (sum : ∀ a d, total (make a d) = (need a).beside (need' d)) :
    Copies l b both total (answered (first >>= fun r => rest r.2 >>= fun s => pure (make r.1 s.1, s.2)) l) := by
  rw [answered_bind]
  generalize answered first l = r at *
  cases head with
  | error unfit =>
    refine .error fun c right enough => ?_
    obtain ⟨a, d, rfl, here, -⟩ := (shows c).1 right
    exact unfit a here (sum a d ▸ enough).first
  | @ok a l' right affords same next =>
    have later := tail a l' right same affords
    dsimp only
    rw [answered_bind]
    generalize answered (rest (b.spent (need a).bytes)) l' = r at *
    cases later with
    | error unfit =>
      refine .error fun c right' enough => ?_
      obtain ⟨a', d, rfl, here, there⟩ := (shows c).1 right'
      obtain rfl := unique a a' right here
      exact unfit d there ((sum a d ▸ enough).rest same.1 ⟨next, by rw [same.2]; exact Nat.le_add_right _ _⟩)
    | @ok d l'' right' affords' same' next' =>
      have spent : (b.spent (need a).bytes).spent (need' d).bytes = b.spent (total (make a d)).bytes := by
        rw [sum, Budget.spent_spent]
        rfl
      dsimp only
      rw [answered_pure, spent]
      have := affords.depth
      have := affords'.depth
      have := affords'.bytes
      refine .ok ((shows _).2 ⟨a, d, rfl, right, right'⟩) ⟨?_, ?_⟩ (same.trans same') ?_
      all_goals
        rw [sum]
        simp only [Need.beside, Budget.spent] at *
        omega

/-- What was charged before is part of what is needed. -/
theorem Copies.paid {shown : α -> Prop} {total : α -> Need} {r : Except Error (α × Budget) × Link} (n : Nat) (need : α -> Need)
    (copies : Copies l (b.spent n) shown need r) (sum : ∀ a, shown a -> total a = Need.beside ⟨0, n, 0⟩ (need a))
    (ready : l.Ready) : Copies l b shown total r := by
  cases copies with
  | error unfit =>
    refine .error fun a right enough => unfit a right ?_
    exact (sum a right ▸ enough).rest (.refl ready) (.refl l)
  | @ok a l' right affords same next =>
    have spent : (b.spent n).spent (need a).bytes = b.spent (total a).bytes := by
      rw [sum a right, Budget.spent_spent]
      rfl
    rw [spent]
    have := affords.depth
    have := affords.bytes
    refine .ok right ⟨?_, ?_⟩ same ?_
    all_goals
      rw [sum a right]
      simp only [Need.beside, Budget.spent] at *
      omega

end Parts

section Containers

variable {read : Budget -> Ptr -> LinkM (Snapshot × Budget)}

theorem needItems_cons (truth index : Nat) (item : Snapshot) (rest : List Snapshot) :
    needItems truth index (item :: rest) =
      ((item.need truth).past ((Nat.repr index).utf8ByteSize + 9)).beside (needItems truth (index + 1) rest) := by
  simp only [needItems, Need.beside, Need.past, Need.mk.injEq]
  refine ⟨?_, ?_, ?_⟩ <;> omega

/-- What fields need once the first key is paid for. -/
def needPaid (truth : Nat) : List (String × Snapshot) -> Need
  | [] => .none
  | (key, item) :: rest => ((item.need truth).past (key.utf8ByteSize + 9)).beside (needFields truth rest)

theorem needFields_cons (truth : Nat) (key : String) (item : Snapshot) (rest : List (String × Snapshot)) :
    needFields truth ((key, item) :: rest) =
      Need.beside ⟨0, key.utf8ByteSize, 0⟩ (needPaid truth ((key, item) :: rest)) := by
  simp only [needFields, needPaid, Need.beside, Need.past, Need.mk.injEq]
  refine ⟨?_, ?_, ?_⟩ <;> omega

/-- Each part of a container is copied, wherever the budget has come to. -/
def CopiesEach (h : Heap) (levels : Nat) (read : Budget -> Ptr -> LinkM (Snapshot × Budget)) (ps : List Ptr) : Prop :=
  ∀ q ∈ ps, ∀ b l, l.Ready -> Heap.Alike h l.engine.heap -> b.Within -> b.maxDepth < levels + b.depth ->
    Copies l b (Unfolds h.graph · q) reading (answered (read b q) l)

theorem copies_items {items : Array Ptr} (held : h.get? p = some (.array items)) (few : items.size < UInt32.size)
    (known : ∀ q ∈ items, h.Known q) (each : CopiesEach h levels read items.toList) (count index : Nat)
    (upto : index + count = items.size) (ready : l.Ready) (alike : Heap.Alike h l.engine.heap) (within : b.Within)
    (levelled : b.maxDepth < levels + b.depth) :
    Copies l b (UnfoldsItems h.graph · (items.toList.drop index)) (needItems Budget.boolCharge index)
      (answered (readItems read p count index b) l) := by
  induction count generalizing index b l with
  | zero =>
    have none_left : items.toList.drop index = [] := by simp [← upto]
    exact .ok (a := []) none_left ⟨within.1, within.2⟩ (.refl ready) (Nat.le_refl _)
  | succ count ih =>
    have inside : index < items.size := by omega
    have next : items.toList.drop index = items[index] :: items.toList.drop (index + 1) :=
      List.drop_eq_getElem_cons (by simpa using inside)
    have there : l.engine.heap.get? p = some (.array items) := by rw [alike.get?, held]
    have property : l.engine.heap.lookup p (Text.untilNul (Nat.repr index)) = .ok (.existing items[index]) := by
      have small : index < UInt64.size := by
        unfold UInt32.size at few
        unfold UInt64.size
        omega
      rw [lookup_array there, Heap.arrayIndex?_repr small, Option.bind_some, Array.getElem?_eq_getElem inside, Option.getD_some]
    have member : items[index] ∈ items := Array.getElem_mem inside
    have first := copies_part reading (read b) ready there property
      (alike.known.2 (known _ member)) (Heap.not_unfolds_zero alike ready.counted) fun l' ready' alike' =>
        each _ (Array.mem_toList_iff.2 member) b l' ready' (alike.trans alike') within levelled
    rw [readItems, answered_assoc, next]
    refine Copies.cons (fun item rest => item :: rest) (fun b => readItems read p count (index + 1) b)
      (UnfoldsItems h.graph · (items.toList.drop (index + 1))) (needItems Budget.boolCharge (index + 1)) first
      (fun item l' _ same affords => ?_) (fun _ _ => Unfolds.unique (Heap.graph_flat h)) (fun items => ?_) (needItems_cons _ _)
    next =>
      exact ih (index + 1) (by omega) (same.ready ready) (alike.trans same.alike) ⟨within.1, affords.bytes⟩ levelled
    next =>
      cases items with
      | nil => simp [UnfoldsItems]
      | cons item rest => simp [UnfoldsItems]

theorem copies_fields {props : Table String Ptr} (held : h.get? p = some (.object .plain props))
    (known : ∀ e ∈ props.entries, Text.NulFree e.1 ∧ h.Known e.2)
    (each : CopiesEach h levels read (props.entries.map Prod.snd)) {es : List (String × Ptr)} (upto : es <:+ props.entries)
    (ready : l.Ready) (alike : Heap.Alike h l.engine.heap) (within : b.Within) (levelled : b.maxDepth < levels + b.depth) :
    Copies l b (UnfoldsFields h.graph · es) (needFields Budget.boolCharge) (answered (readFields read p (es.map Prod.fst) b) l) := by
  induction es generalizing b l with
  | nil => exact .ok (a := []) (rfl : [] = []) ⟨within.1, within.2⟩ (.refl ready) (Nat.le_refl _)
  | cons e rest ih =>
    obtain ⟨key, q⟩ := e
    have member : (key, q) ∈ props.entries := upto.subset List.mem_cons_self
    have there : l.engine.heap.get? p = some (.object .plain props) := by rw [alike.get?, held]
    have property : l.engine.heap.lookup p (Text.untilNul key) = .ok (.existing q) := by
      have found : props.get? key = some q := Table.find_of_mem props.nodup member
      rw [lookup_object there, Text.untilNul_of_nulFree (known _ member).1, found, Option.getD_some]
    have first_key {fields : List (String × Snapshot)} (right : UnfoldsFields h.graph fields ((key, q) :: rest)) :
        ∃ item others, fields = (key, item) :: others ∧ item.Unfolds h.graph q ∧ UnfoldsFields h.graph others rest := by
      cases fields with
      | nil => exact nomatch (right : (key, q) :: rest = [])
      | cons field others =>
        obtain ⟨key', item⟩ := field
        obtain ⟨p', qs, same, here, below⟩ := right
        obtain ⟨pair, rfl⟩ := List.cons.inj same
        obtain ⟨rfl, rfl⟩ := Prod.mk.inj pair
        exact ⟨item, others, rfl, here, below⟩
    rw [List.map_cons, readFields, answered_bind, answered_charged]
    by_cases large : b.maxBytes < b.bytes + key.utf8ByteSize
    next =>
      rw [if_pos large]
      refine .error fun fields right enough => ?_
      obtain ⟨item, others, rfl, -⟩ := first_key right
      have := enough.bytes
      rw [needFields_cons] at this
      simp only [Need.beside] at this
      omega
    next =>
      rw [if_neg large]
      dsimp only
      have within' : (b.spent key.utf8ByteSize).Within := ⟨within.1, Nat.not_lt.1 large⟩
      have first := copies_part reading (read (b.spent key.utf8ByteSize)) ready there property
        (alike.known.2 (known _ member).2) (Heap.not_unfolds_zero alike ready.counted) fun l' ready' alike' =>
          each q (List.mem_map_of_mem member) _ l' ready' (alike.trans alike') within' levelled
      rw [answered_assoc]
      refine Copies.paid key.utf8ByteSize (needPaid Budget.boolCharge) ?_ (fun fields right => ?_) ready
      next =>
        refine Copies.cons (fun item rest => (key, item) :: rest) (fun b => readFields read p (rest.map Prod.fst) b)
          (UnfoldsFields h.graph · rest) (needFields Budget.boolCharge) first (fun item l' _ same affords => ?_)
          (fun _ _ => Unfolds.unique (Heap.graph_flat h)) (fun fields => ?_) fun _ _ => rfl
        next =>
          exact ih ((List.suffix_cons _ _).trans upto) (same.ready ready) (alike.trans same.alike)
            ⟨within.1, affords.bytes⟩ levelled
        next =>
          constructor
          next => exact first_key
          next =>
            rintro ⟨item, others, rfl, here, below⟩
            exact ⟨q, rest, rfl, here, below⟩
      next =>
        obtain ⟨item, others, rfl, -⟩ := first_key right
        exact needFields_cons ..

/-- What a container holds is found out and charged for, and then its parts are copied. -/
theorem copies_container {κ : Type} {act : LinkM κ} {content : κ} {room : Prop} {few : Nat} {charge : κ -> Nat}
    (make : α -> Snapshot) (shown : α -> Prop) (need : α -> Need) (fill : κ -> Budget -> LinkM (α × Budget)) (space : Nat)
    (unfolds : ∀ w, Unfolds l.engine.heap.graph w p ↔ ∃ a, w = make a ∧ shown a)
    (sum : ∀ a, shown a -> reading (make a) = (need a).within bytes space) (cost : charge content = bytes)
    (shallow : b.depth + 1 ≤ b.maxDepth) (reads : Reads l room content few (answered act l)) (le : few ≤ space)
    (roomy : l.Roomy space space -> room)
    (fills : ∀ l', Same l l' -> (b.opened bytes).Within ->
      Copies l' (b.opened bytes) shown need (answered (fill content (b.opened bytes)) l')) :
    Copies l b (Unfolds l.engine.heap.graph · p) reading
      (answered (act >>= fun k => (b.opened 0).charged (charge k) >>= fun b =>
        fill k b >>= fun r => pure (make r.1, r.2.leave)) l) := by
  rw [answered_bind]
  generalize answered act l = r at *
  cases reads with
  | error _ unfit =>
    refine .error fun w right enough => unfit (roomy ?_)
    obtain ⟨a, rfl, shows⟩ := (unfolds w).1 right
    exact (sum a shows ▸ enough).room.mono (Nat.le_add_right _ _) (Nat.le_add_right _ _)
  | @ok l' same next =>
    dsimp only
    rw [answered_bind, answered_charged, cost]
    by_cases large : (b.opened 0).maxBytes < (b.opened 0).bytes + bytes
    next =>
      rw [if_pos large]
      refine .error fun w right enough => ?_
      obtain ⟨a, rfl, shows⟩ := (unfolds w).1 right
      have := (sum a shows ▸ enough).bytes
      simp only [Need.within, Budget.opened] at this large
      omega
    next =>
      rw [if_neg large]
      dsimp only
      have within : (b.opened bytes).Within := by
        simp only [Budget.opened, Budget.Within] at large ⊢
        omega
      have filled := fills l' same within
      have opened : (b.opened 0).spent bytes = b.opened bytes := by rw [Budget.opened_spent, Nat.zero_add]
      rw [opened, answered_bind]
      generalize answered (fill content (b.opened bytes)) l' = r at *
      cases filled with
      | error unfit =>
        refine .error fun w right enough => ?_
        obtain ⟨a, rfl, shows⟩ := (unfolds w).1 right
        have near : l.Near l' space := ⟨by omega, by rw [same.2]; exact Nat.le_add_right _ _⟩
        exact unfit a shows ((sum a shows ▸ enough).inside same.1 near)
      | @ok a l'' right affords same' next' =>
        have spent : ((b.opened bytes).spent (need a).bytes).leave = b.spent (reading (make a)).bytes := by
          rw [sum a right, Budget.opened_spent, Budget.opened_leave]
          rfl
        dsimp only
        rw [answered_pure, spent]
        have := affords.depth
        have := affords.bytes
        refine .ok ((unfolds _).2 ⟨a, rfl, right⟩) ⟨?_, ?_⟩ (same.trans same') ?_
        all_goals
          rw [sum a right]
          simp only [Need.within, Budget.opened] at *
          omega

theorem answered_refuseCircle_iff (clear : l.faults = Table.empty) {held : Value} (found : l.engine.heap.get? p = some held)
    (container : held.kind = .array ∨ held.kind = .object) :
    answered (refuseCircle p ancestors) l = if p ∈ ancestors then (.error (.conversion .circular), l) else (.ok (), l) := by
  induction ancestors with
  | nil => rfl
  | cons ancestor rest ih =>
    have looked := answered_same clear ancestor p .sameValue
    rw [Heap.isEqual_container found container] at looked
    by_cases same : ancestor = p
    next =>
      subst same
      rw [beq_self_eq_true] at looked
      simp only [refuseCircle, answered_bind, looked, if_true, answered_throw, List.mem_cons_self]
    next =>
      rw [beq_false_of_ne same] at looked
      simp only [refuseCircle, answered_bind, looked, Bool.false_eq_true, if_false, List.mem_cons, Ne.symm same, false_or]
      exact ih

end Containers

section Values

theorem copies_uncopyable (none_there : l.engine.heap.graph p = none) {e : Error} :
    Copies l b (Unfolds l.engine.heap.graph · p) reading (.error e, l') := by
  refine .error fun w unfolds => ?_
  obtain ⟨s, shape⟩ := unfolds.shape
  cases none_there.symm.trans shape

/-- A container in which it is found itself unfolds to nothing. -/
theorem copies_circle (above : l.engine.heap.graph.Above p p) {e : Error} :
    Copies l b (Unfolds l.engine.heap.graph · p) reading (.error e, l') :=
  .error fun _ unfolds => absurd above (unfolds.not_above (Heap.graph_flat _))

theorem copies_constant (ready : l.Ready) (shape : l.engine.heap.graph p = some (.leaf v))
    (n : reading v = Need.none.within 0 0) (shallow : b.depth + 1 ≤ b.maxDepth) (within : b.Within) :
    Copies l b (Unfolds l.engine.heap.graph · p) reading (.ok (v, (b.opened 0).leave), l) := by
  have spent : (b.opened 0).leave = b.spent (reading v).bytes := by rw [n, Budget.opened_leave]; rfl
  rw [spent]
  refine .ok ((unfolds_of_leaf (Heap.graph_flat _) shape).2 rfl) ⟨?_, ?_⟩ (.refl ready) (Nat.le_add_right _ _)
  · rw [n]
    exact shallow
  · rw [n]
    exact within.2

theorem copies_bool (ready : l.Ready) (x : Bool) (shallow : b.depth + 1 ≤ b.maxDepth) :
    Copies l b (Unfolds l.engine.heap.graph · (Ptr.ofBool x)) reading (answered (do
      let b <- (b.opened 0).charged Budget.boolCharge
      pure (.bool (<- isEqual (Ptr.ofBool x) (<- boolean true) .strict), b.leave)) l) := by
  have unknown : l.engine.heap.get? (Ptr.ofBool x) = none := by
    have small : Ptr.ofBool x < Ptr.firstCounted := by cases x <;> decide
    simp [Heap.get?, ready.counted.absent small]
  have equal : l.engine.heap.isEqual (Ptr.ofBool x) (Ptr.ofBool true) .strict = x := by
    simp only [Heap.isEqual, unknown]
    cases x <;> rfl
  have shape : l.engine.heap.graph (Ptr.ofBool x) = some (.leaf (.bool x)) := by cases x <;> rfl
  refine copies_leaf 0 shape rfl shallow (.refl ready) (Nat.le_refl _) fun b => ?_
  simp only [answered_bind, answered_boolean ready.clear, answered_same ready.clear, equal, answered_pure]

theorem reading_number (x : Binary64) : reading (.ofNumber x) = Need.none.within Budget.numberCharge 1 := by
  unfold Snapshot.ofNumber
  split <;> rfl

theorem copies_number (ready : l.Ready) (kind : l.engine.heap.kind p = some .number) (shallow : b.depth + 1 ≤ b.maxDepth) :
    Copies l b (Unfolds l.engine.heap.graph · p) reading (answered (do
      let b <- (b.opened 0).charged Budget.numberCharge
      pure (.ofNumber (<- number p), b.leave)) l) := by
  obtain ⟨v, found, same, shape⟩ := Heap.graph_of_kind ready.counted kind (by decide)
  cases v with
  | object cls => cases cls <;> cases same
  | number x =>
    have content : l.engine.heap.number p = x := by simp only [Heap.number, found]
    refine copies_leaf 1 shape (reading_number x) shallow (.refl ready) (Nat.le_add_right _ _) fun b => ?_
    simp only [answered_bind, answered_number ready.clear, content, answered_pure]
  | _ => cases same

theorem copies_text (ready : l.Ready) (readable : l.engine.heap.Readable p) (kind : l.engine.heap.kind p = some .string)
    (shallow : b.depth + 1 ≤ b.maxDepth) :
    Copies l b (Unfolds l.engine.heap.graph · p) reading (answered (do
      let s <- toText p
      let b <- (b.opened 0).charged (Budget.blobCharge s.utf8ByteSize)
      pure (.text s, b.leave)) l) := by
  obtain ⟨v, found, same, shape⟩ := Heap.graph_of_kind ready.counted kind (by decide)
  cases v with
  | object cls => cases cls <;> cases same
  | string s =>
    obtain ⟨c, there, -⟩ := Heap.get?_eq_some.1 found
    have plain : Text.NulFree s := by simpa [Heap.Readable, found] using readable
    have reads := toText_reads ready p
    rw [Heap.display_string (ready.counted p c there).1 found, Text.untilNul_of_nulFree plain] at reads
    exact copies_read _ shape rfl shallow reads (Nat.le_refl _) (fun room => room.toSpacious) rfl fun _ _ => rfl
  | _ => cases same

theorem copies_bytes (ready : l.Ready) (kind : l.engine.heap.kind p = some .bytes) (shallow : b.depth + 1 ≤ b.maxDepth) :
    Copies l b (Unfolds l.engine.heap.graph · p) reading (answered (do
      let x <- Link.bytes p
      let b <- (b.opened 0).charged (Budget.blobCharge x.size)
      pure (.bytes x, b.leave)) l) := by
  obtain ⟨content, found⟩ := Heap.bytes_of_kind kind
  exact copies_read _ (Heap.graph_of_found ready.counted found) rfl shallow (bytes_reads ready found) (Nat.le_refl _)
    (fun room => room.toSpacious) rfl fun _ _ => rfl

theorem copies_error (ready : l.Ready) (readable : l.engine.heap.Readable p) (kind : l.engine.heap.kind p = some .error)
    (shallow : b.depth + 1 ≤ b.maxDepth) :
    Copies l b (Unfolds l.engine.heap.graph · p) reading (answered (do
      let message <- consume (<- getProp p Heap.messageKey) toText
      let b <- (b.opened 0).charged (Budget.blobCharge message.utf8ByteSize)
      pure (.error message, b.leave)) l) := by
  obtain ⟨v, found, same, shape⟩ := Heap.graph_of_kind ready.counted kind (by decide)
  cases v with
  | object cls props =>
    cases cls with
    | plain => cases same
    | error =>
      obtain ⟨known, plain⟩ : l.engine.heap.contains (Heap.messageOf props) = true ∧
          Text.NulFree (l.engine.heap.display (Heap.messageOf props)) := by simpa [Heap.Readable, found] using readable
      have key : Text.untilNul Heap.messageKey = Heap.messageKey := Text.untilNul_of_nulFree (by decide)
      have property : l.engine.heap.lookup p (Text.untilNul Heap.messageKey) = .ok (.existing (Heap.messageOf props)) := by
        rw [lookup_object found, key]
        rfl
      have reads := borrowed_reads ready found property known
      rw [Text.untilNul_of_nulFree plain] at reads
      have size : Heap.messageKey.utf8ByteSize = 7 := rfl
      rw [answered_assoc]
      exact copies_read ((l.engine.heap.display (Heap.messageOf props)).utf8ByteSize + 24) shape rfl shallow reads (by omega)
        (fun room => room.mono (by omega) (by omega)) rfl fun _ _ => rfl
  | _ => cases same

theorem copies_list {read : Budget -> Ptr -> LinkM (Snapshot × Budget)} (ready : l.Ready)
    (readable : l.engine.heap.Readable p) (kind : l.engine.heap.kind p = some .array)
    (parts : ∀ s, l.engine.heap.graph p = some s -> CopiesEach l.engine.heap levels read s.parts)
    {around : List Ptr} (above : ∀ a ∈ around, l.engine.heap.graph.Above a p) (shallow : b.depth + 1 ≤ b.maxDepth)
    (levelled : b.maxDepth < levels + (b.depth + 1)) :
    Copies l b (Unfolds l.engine.heap.graph · p) reading (answered (do
      refuseCircle p around
      let count <- Link.length p
      let b <- (b.opened 0).charged (Budget.listCharge count)
      let (items, b) <- readItems read p count 0 b
      pure (.list items, b.leave)) l) := by
  obtain ⟨items, found⟩ := Heap.array_of_kind kind
  have shape : l.engine.heap.graph p = some (.list items.toList) := Heap.graph_of_found ready.counted found
  obtain ⟨known, few⟩ : (∀ q ∈ items, l.engine.heap.Known q) ∧ items.size < UInt32.size := by
    simpa [Heap.Readable, found] using readable
  rw [answered_bind, answered_refuseCircle_iff ready.clear found (.inl rfl)]
  by_cases circle : p ∈ around
  next =>
    rw [if_pos circle]
    exact copies_circle (above p circle)
  rw [if_neg circle]
  dsimp only
  have reads := length_reads ready (by rw [Heap.length, found] : l.engine.heap.length p = .ok items.size)
  rw [UInt32.toNat_ofNat', Nat.mod_eq_of_lt few] at reads
  refine copies_container .list (UnfoldsItems l.engine.heap.graph · items.toList) (needItems Budget.boolCharge 0)
    (fun count b => readItems read p count 0 b) 8
    (fun w => unfolds_of_list shape) (fun a shown => ?_) rfl shallow reads (Nat.le_refl 8) (fun room => room.toSpacious)
    fun l' same within => ?_
  next =>
    have length : items.size = a.length := by simpa using shown.length
    rw [length]
    rfl
  next =>
    exact copies_items found few known (parts _ shape) items.size 0 (Nat.zero_add _) (same.ready ready) same.alike within levelled

theorem copies_record {read : Budget -> Ptr -> LinkM (Snapshot × Budget)} (ready : l.Ready)
    (readable : l.engine.heap.Readable p) (kind : l.engine.heap.kind p = some .object)
    (parts : ∀ s, l.engine.heap.graph p = some s -> CopiesEach l.engine.heap levels read s.parts)
    {around : List Ptr} (above : ∀ a ∈ around, l.engine.heap.graph.Above a p) (shallow : b.depth + 1 ≤ b.maxDepth)
    (levelled : b.maxDepth < levels + (b.depth + 1)) :
    Copies l b (Unfolds l.engine.heap.graph · p) reading (answered (do
      refuseCircle p around
      let keys <- ownKeys p
      let b <- (b.opened 0).charged (Budget.recordCharge keys.length)
      let (fields, b) <- readFields read p keys b
      pure (.ofFields fields, b.leave)) l) := by
  obtain ⟨v, found, same, shape⟩ := Heap.graph_of_kind ready.counted kind (by decide)
  cases v with
  | object cls props =>
    cases cls with
    | error => cases same
    | plain =>
      have shape : l.engine.heap.graph p = some (.record props.entries) := shape
      obtain ⟨known, pointers⟩ : (∀ e ∈ props.entries, Text.NulFree e.1 ∧ l.engine.heap.Known e.2) ∧
          l.engine.heap.cells.size + props.entries.length + 16 ≤ UInt32.size := by
        simpa only [Heap.Readable, found] using readable
      rw [answered_bind, answered_refuseCircle_iff ready.clear found (.inr rfl)]
      by_cases circle : p ∈ around
      next =>
        rw [if_pos circle]
        exact copies_circle (above p circle)
      rw [if_neg circle]
      dsimp only
      have names : (props.keys.map Text.untilNul) = props.keys := by
        conv_rhs => rw [← List.map_id props.keys]
        refine List.map_congr_left fun key member => ?_
        obtain ⟨e, inside, rfl⟩ := List.mem_map.1 member
        exact Text.untilNul_of_nulFree (known e inside).1
      have reads := ownKeys_reads ready (by rw [Heap.ownKeys, found] : l.engine.heap.ownKeys p = .ok props.keys)
        (by simpa [Table.keys] using pointers)
      rw [names] at reads
      have ofFields {fields : List (String × Snapshot)} (shown : UnfoldsFields l.engine.heap.graph fields props.entries) :
          Snapshot.ofFields fields = .record fields := by
        rw [Snapshot.ofFields, Table.entries_ofList (shown.keys ▸ props.nodup)]
      refine copies_container .ofFields (UnfoldsFields l.engine.heap.graph · props.entries) (needFields Budget.boolCharge)
        (fun keys b => readFields read p keys b) (keyBytes props.keys) (fun w => ?_) (fun a shown => ?_) rfl
        shallow reads (Nat.le_refl _) (fun room => room.toSpacious) fun l' same within => ?_
      next =>
        rw [unfolds_of_record shape]
        refine exists_congr fun fields => and_congr_left fun shown => ?_
        rw [ofFields shown]
      next =>
        have keys : props.keys = a.map Prod.fst := shown.keys
        rw [ofFields shown, keys, List.length_map]
        rfl
      next => exact copies_fields found known (parts _ shape) List.suffix_rfl (same.ready ready) same.alike within levelled
  | _ => cases same

/-- A value is copied as deep as its budget allows, whatever is shared in it. -/
theorem copies_value (levels : Nat) {ancestors : List Ptr} {b : Budget} {p : Ptr} {l : Link} (ready : l.Ready)
    (readable : ∀ q, l.engine.heap.graph.Reaches p q -> l.engine.heap.Readable q)
    (around : ∀ a ∈ ancestors, l.engine.heap.graph.Above a p) (within : b.Within) (levelled : b.maxDepth < levels + b.depth) :
    Copies l b (Unfolds l.engine.heap.graph · p) reading (answered (Conversion.read levels ancestors b p) l) := by
  induction levels generalizing ancestors b p l with
  | zero =>
    have := within.1
    omega
  | succ levels ih =>
    rw [Conversion.read, answered_bind, answered_entered]
    by_cases deep : b.maxDepth < b.depth + 1
    next =>
      rw [if_pos deep]
      refine .error fun v _ enough => ?_
      have := enough.depth
      have : 1 ≤ (reading v).depth := one_le_depth Budget.boolCharge v
      omega
    rw [if_neg deep]
    have shallow : b.depth + 1 ≤ b.maxDepth := Nat.not_lt.1 deep
    dsimp only
    rw [answered_bind]
    have counted := ready.counted
    cases kind : l.engine.heap.kind p with
    | none =>
      obtain ⟨e, failed⟩ := answered_kind_none ready.clear kind
      rw [failed]
      exact copies_uncopyable ((Heap.graph_eq_none_iff counted).2 (.inl kind))
    | some k =>
      rw [answered_kind ready.clear kind]
      dsimp only
      have below : b.maxDepth < levels + (b.depth + 1) := by omega
      have parts (s : Shape) (shape : l.engine.heap.graph p = some s) :
          CopiesEach l.engine.heap levels (fun b child => Conversion.read levels (ancestors ++ [p]) b child) s.parts := by
        intro q member b' l' ready' alike within' levelled'
        have part : l.engine.heap.graph.Part p q := ⟨s, shape, member⟩
        have copies := @ih (ancestors ++ [p]) b' q l' ready'
          (fun r reaches => alike.readable.2 (readable r (.head part (alike.graph ▸ reaches))))
          (fun a inside => ?_) within' levelled'
        next => rwa [alike.graph] at copies
        next =>
          rw [alike.graph]
          rcases List.mem_append.1 inside with above | here
          next => exact (around a above).tail part
          next => exact List.mem_singleton.1 here ▸ .single part
      cases k
      case undefined =>
        obtain ⟨-, rfl⟩ | ⟨other, -⟩ | ⟨other, -⟩ := Heap.constant_of_kind kind (by decide)
        next => exact copies_constant ready rfl rfl shallow within
        next => cases other
        next => cases other
      case null =>
        obtain ⟨other, -⟩ | ⟨-, rfl⟩ | ⟨other, -⟩ := Heap.constant_of_kind kind (by decide)
        next => cases other
        next => exact copies_constant ready rfl rfl shallow within
        next => cases other
      case boolean =>
        obtain ⟨other, -⟩ | ⟨other, -⟩ | ⟨-, x, rfl⟩ := Heap.constant_of_kind kind (by decide)
        next => cases other
        next => cases other
        next => exact copies_bool ready x shallow
      case number => exact copies_number ready kind shallow
      case string => exact copies_text ready (readable p .refl) kind shallow
      case bytes => exact copies_bytes ready kind shallow
      case error => exact copies_error ready (readable p .refl) kind shallow
      case array => exact copies_list ready (readable p .refl) kind parts around shallow below
      case object => exact copies_record ready (readable p .refl) kind parts around shallow below
      case function => exact copies_uncopyable ((Heap.graph_eq_none_iff counted).2 (.inr (.inl kind)))
      case promise => exact copies_uncopyable ((Heap.graph_eq_none_iff counted).2 (.inr (.inr kind)))

end Values

end Conversion

end ScriptHost
