import ScriptHost.Proofs.Conversion.Building
import ScriptHost.Proofs.Conversion.Copying
import ScriptHost.Proofs.Conversion.Tidy

set_option autoImplicit false

/-!
What is built from a snapshot is read back as that snapshot.
-/

namespace ScriptHost

namespace Conversion

open Link Snapshot

variable {α : Type} {l l' l'' : Link} {p list object v : Ptr} {key : String} {held : Value} {b : Budget} {a : α}
variable {ks : List Ptr} {ancestors : List Ptr}

theorem answered_refuseCircle (clear : l.faults = Table.empty) {v : Value} (found : l.engine.heap.get? p = some v)
    (container : v.kind = .array ∨ v.kind = .object) (apart : ∀ a ∈ ancestors, a ≠ p) :
    answered (refuseCircle p ancestors) l = (.ok (), l) := by
  induction ancestors with
  | nil => rfl
  | cons ancestor rest ih =>
    have other : (ancestor == p) = false := beq_false_of_ne (apart ancestor List.mem_cons_self)
    have looked := answered_same clear ancestor p .sameValue
    rw [Heap.isEqual_container found container, other] at looked
    simp only [refuseCircle, answered_bind, looked, Bool.false_eq_true, if_false]
    exact ih fun a member => apart a (List.mem_cons_of_mem _ member)

theorem borrowed (ready : l.Ready) (there : l.engine.heap.get? object = some held)
    (found : l.engine.heap.lookup object (Text.untilNul key) = .ok (.existing v)) (some : v ≠ 0)
    (room : l.Roomy (key.utf8ByteSize + 9) (key.utf8ByteSize + 9)) (read : Ptr -> LinkM α) :
    ∃ l', Lent l v l' ∧ l.Near l' (key.utf8ByteSize + 9) ∧ ∀ a l'', answered (read v) l' = (.ok a, l'') -> Same l' l'' ->
      answered (getProp object key >>= fun child => consume child read) l = (.ok a, l''.released v) ∧
        Same l (l''.released v) := by
  rcases getProp_ends ready there found with ⟨l', got, lent, next⟩ | ⟨e, l', -, -, zero | unfit⟩
  · have size := lent.size
    refine ⟨l', lent, ⟨by omega, by omega⟩, fun a l'' done same => ⟨?_, returned lent same⟩⟩
    rw [answered_bind, got]
    dsimp only
    rw [answered_consume read v (lent.changed.ready ready lent.counted).clear, done]
  · exact absurd zero some
  · exact absurd (room.mono (by omega) (by omega)) unfit

theorem found_of_holds {w : Value} (holds : Holds l.cells p w) : l.engine.heap.get? p = some w :=
  Heap.get?_eq_some.2 holds

theorem big_of_holds {w : Value} (ready : l.Ready) (holds : Holds l.cells p w) : Ptr.firstCounted ≤ p := by
  obtain ⟨c, found, -⟩ := holds
  exact (ready.counted p c found).1

theorem kind_of_holds {w : Value} (ready : l.Ready) (holds : Holds l.cells p w) : l.engine.heap.kind p = some w.kind := by
  rw [Heap.kind_of_big (big_of_holds ready holds), found_of_holds holds]
  rfl

/-- What reading a snapshot that is shown comes to. -/
def Returns (v : Snapshot) (b : Budget) (l : Link) (act : LinkM (Snapshot × Budget)) : Prop :=
  ∃ l', answered act l = (.ok (v.norm, b.spent (v.need Budget.boolCharge).bytes), l') ∧ Same l l' ∧
    l'.memory.next ≤ l.memory.next + (v.need Budget.boolCharge).space

section Leaves

variable {bytes space levels : Nat} {n : Need}

theorem entered_of_enough (enough : Enough b l (n.within bytes space)) : answered b.entered l = (.ok (b.opened 0), l) := by
  have := enough.depth
  simp only [Need.within] at this
  rw [answered_entered, if_neg (by omega)]

theorem charged_of_enough (enough : Enough b l (n.within bytes space)) (l' : Link) :
    answered ((b.opened 0).charged bytes) l' = (.ok (b.opened bytes), l') := by
  have := enough.bytes
  simp only [Need.within] at this
  rw [answered_charged, if_neg (by simp only [Budget.opened]; omega), Budget.opened_spent, Nat.zero_add]

theorem undefined_returns (ready : l.Ready) (enough : Enough b l (Snapshot.undefined.need Budget.boolCharge)) :
    Returns .undefined b l (Conversion.read (levels + 1) ancestors b Ptr.undefined) := by
  have kind := answered_kind ready.clear (p := Ptr.undefined) (k := .undefined) rfl
  refine ⟨l, ?_, .refl ready, Nat.le_add_right _ _⟩
  simp only [Conversion.read, answered_bind, entered_of_enough enough, kind, answered_pure, Budget.opened_leave]
  rfl

theorem null_returns (ready : l.Ready) (enough : Enough b l (Snapshot.null.need Budget.boolCharge)) :
    Returns .null b l (Conversion.read (levels + 1) ancestors b Ptr.null) := by
  have kind := answered_kind ready.clear (p := Ptr.null) (k := .null) rfl
  refine ⟨l, ?_, .refl ready, Nat.le_add_right _ _⟩
  simp only [Conversion.read, answered_bind, entered_of_enough enough, kind, answered_pure, Budget.opened_leave]
  rfl

theorem bool_returns (ready : l.Ready) (x : Bool) (enough : Enough b l ((Snapshot.bool x).need Budget.boolCharge)) :
    Returns (.bool x) b l (Conversion.read (levels + 1) ancestors b (Ptr.ofBool x)) := by
  have kind := answered_kind ready.clear (p := Ptr.ofBool x) (k := .boolean) (by cases x <;> rfl)
  have unknown : l.engine.heap.get? (Ptr.ofBool x) = none := by
    have absent := ready.counted.absent (p := Ptr.ofBool x) (by cases x <;> decide)
    simp [Heap.get?, absent]
  have equal : l.engine.heap.isEqual (Ptr.ofBool x) (Ptr.ofBool true) .strict = x := by
    simp only [Heap.isEqual, unknown]
    cases x <;> rfl
  refine ⟨l, ?_, .refl ready, Nat.le_add_right _ _⟩
  simp only [Conversion.read, answered_bind, entered_of_enough enough, kind, charged_of_enough enough,
    answered_boolean ready.clear, answered_same ready.clear, equal, answered_pure, Budget.opened_leave]
  rfl

theorem number_returns (ready : l.Ready) {x : Binary64} (here : Holds l.cells p (.number x))
    (enough : Enough b l ((Snapshot.float x).need Budget.boolCharge)) :
    Returns (.float x) b l (Conversion.read (levels + 1) ancestors b p) := by
  have kind := answered_kind ready.clear (kind_of_holds ready here)
  have number : l.engine.heap.number p = x := by simp only [Heap.number, found_of_holds here]
  refine ⟨l, ?_, .refl ready, Nat.le_add_right _ _⟩
  simp only [Conversion.read, answered_bind, entered_of_enough enough, kind, Value.kind, charged_of_enough enough,
    answered_number ready.clear, number, answered_pure, Budget.opened_leave]
  rfl

theorem text_returns (ready : l.Ready) {s : String} (plain : Text.NulFree s) (here : Holds l.cells p (.string s))
    (enough : Enough b l ((Snapshot.text s).need Budget.boolCharge)) :
    Returns (.text s) b l (Conversion.read (levels + 1) ancestors b p) := by
  have kind := answered_kind ready.clear (kind_of_holds ready here)
  have reads := toText_reads ready p
  rw [Heap.display_string (big_of_holds ready here) (found_of_holds here), Text.untilNul_of_nulFree plain] at reads
  obtain ⟨l', got, same, next⟩ := reads.done enough.room.toSpacious
  refine ⟨l', ?_, same, next⟩
  simp only [Conversion.read, answered_bind, entered_of_enough enough, kind, Value.kind, got, charged_of_enough enough,
    answered_pure, Budget.opened_leave]
  rfl

theorem bytes_returns (ready : l.Ready) {x : ByteArray} (here : Holds l.cells p (.bytes x))
    (enough : Enough b l ((Snapshot.bytes x).need Budget.boolCharge)) :
    Returns (.bytes x) b l (Conversion.read (levels + 1) ancestors b p) := by
  have kind := answered_kind ready.clear (kind_of_holds ready here)
  obtain ⟨l', got, same, next⟩ := (bytes_reads ready (found_of_holds here)).done enough.room.toSpacious
  refine ⟨l', ?_, same, next⟩
  simp only [Conversion.read, answered_bind, entered_of_enough enough, kind, Value.kind, got, charged_of_enough enough,
    answered_pure, Budget.opened_leave]
  rfl

theorem error_returns (ready : l.Ready) {message : String} {text : Ptr} (plain : Text.NulFree message)
    (here : Holds l.cells p (Heap.errorValue text)) (there : Holds l.cells text (.string message))
    (enough : Enough b l ((Snapshot.error message).need Budget.boolCharge)) :
    Returns (.error message) b l (Conversion.read (levels + 1) ancestors b p) := by
  have kind := answered_kind ready.clear (kind_of_holds ready here)
  have key : Text.untilNul Heap.messageKey = Heap.messageKey := Text.untilNul_of_nulFree (by decide)
  have property : l.engine.heap.lookup p (Text.untilNul Heap.messageKey) = .ok (.existing text) := by
    rw [lookup_object (found_of_holds here), key]
    simp
  have space : ((Snapshot.error message).need Budget.boolCharge).space =
      (Heap.messageKey.utf8ByteSize + 9) + (message.utf8ByteSize + 8) := by
    change message.utf8ByteSize + 24 + 0 = 7 + 9 + _
    omega
  have room := enough.room
  rw [space] at room
  obtain ⟨l', lent, near, lends⟩ := borrowed ready (found_of_holds here) property (nonzero_of_big (big_of_holds ready there))
    (room.mono (Nat.le_add_right _ _) (Nat.le_add_right _ _)) toText
  have ready' := lent.changed.ready ready lent.counted
  have reads := toText_reads ready' text
  rw [Heap.display_string (big_of_holds ready there) (lent.kept _ _ (found_of_holds there)),
    Text.untilNul_of_nulFree plain] at reads
  obtain ⟨l'', got, same, next⟩ := reads.done (room.near lent.changed near).toSpacious
  obtain ⟨read, same'⟩ := lends _ _ got same
  refine ⟨l''.released text, ?_, same', ?_⟩
  · rw [Conversion.read, answered_bind, entered_of_enough enough]
    dsimp only
    rw [answered_bind, kind]
    simp only [Heap.errorValue, Value.kind]
    rw [answered_assoc, answered_bind, read]
    simp only [answered_bind, charged_of_enough enough, answered_pure, Budget.opened_leave]
    rfl
  · have := near.next
    rw [space]
    change l''.memory.next ≤ _
    omega

end Leaves

theorem child_returns {item : Snapshot} (read : Budget -> Ptr -> LinkM (Snapshot × Budget)) (ready : l.Ready)
    (there : l.engine.heap.get? object = some held)
    (found : l.engine.heap.lookup object (Text.untilNul key) = .ok (.existing v)) (shown : item.Shows l.cells v ks)
    (enough : Enough b l (Need.beside ⟨0, 0, key.utf8ByteSize + 9⟩ (item.need Budget.boolCharge)))
    (reads : ∀ l', l'.Ready -> item.Shows l'.cells v ks -> Enough b l' (item.need Budget.boolCharge) ->
      Returns item b l' (read b v)) :
    ∃ l', answered (getProp object key >>= fun child => consume child (read b)) l =
        (.ok (item.norm, b.spent (item.need Budget.boolCharge).bytes), l') ∧ Same l l' ∧
      l'.memory.next ≤ l.memory.next + (key.utf8ByteSize + 9 + (item.need Budget.boolCharge).space) := by
  have some : v ≠ 0 := by
    rcases shown.root with static | ⟨-, w, here⟩
    · rintro rfl
      exact absurd static (by decide)
    · exact nonzero_of_big (big_of_holds ready here)
  obtain ⟨l', lent, near, lends⟩ := borrowed ready there found some enough.first.room (read b)
  have shown' := shown.congr fun k _ w here => Heap.get?_eq_some.1 (lent.kept k w (found_of_holds here))
  obtain ⟨l'', got, same, next⟩ := reads l' (lent.changed.ready ready lent.counted) shown' (enough.rest lent.changed near)
  obtain ⟨done, same'⟩ := lends _ _ got same
  refine ⟨l''.released v, done, same', ?_⟩
  have := near.next
  change l''.memory.next ≤ _
  omega

theorem ancestors_apart (apart : ∀ a ∈ ancestors, a ∉ p :: ks) (unlisted : p ∉ ks) : ∀ a ∈ ancestors ++ [p], a ∉ ks := by
  intro a member listed
  rcases List.mem_append.1 member with above | here
  · exact apart a above (List.mem_cons_of_mem p listed)
  · exact unlisted (List.mem_singleton.1 here ▸ listed)

mutual

/-- A snapshot that is shown is read, as long as no container around it is met again. -/
theorem read_returns (v : Snapshot) {levels : Nat} {ancestors ks : List Ptr} {b : Budget} {p : Ptr} {l : Link}
    (plain : v.Plain) (ready : l.Ready) (shown : v.Shows l.cells p ks) (nodup : ks.Nodup)
    (apart : ∀ a ∈ ancestors, a ∉ ks) (levelled : b.maxDepth < levels + b.depth)
    (enough : Enough b l (v.need Budget.boolCharge)) : Returns v b l (Conversion.read levels ancestors b p) := by
  have deep := enough.depth
  -- There are more levels than the budget lets anyone enter, so reading never runs out of them.
  obtain ⟨levels, rfl⟩ : ∃ n, levels = n + 1 := by
    refine Nat.exists_eq_add_one_of_ne_zero fun zero => ?_
    omega
  have levelled' (bytes : Nat) : (b.opened bytes).maxDepth < levels + (b.opened bytes).depth := by
    simp only [Budget.opened]
    omega
  cases v
  case undefined =>
    obtain ⟨rfl, rfl⟩ := shown
    exact undefined_returns ready enough
  case null =>
    obtain ⟨rfl, rfl⟩ := shown
    exact null_returns ready enough
  case bool x =>
    obtain ⟨rfl, rfl⟩ := shown
    exact bool_returns ready x enough
  case int n => exact number_returns ready shown.2 enough
  case float x => exact number_returns ready shown.2 enough
  case text s => exact text_returns ready plain shown.2 enough
  case bytes x => exact bytes_returns ready shown.2 enough
  case error message =>
    obtain ⟨text, -, here, there⟩ := shown
    exact error_returns ready plain here there enough
  case list items =>
    simp only [Shows] at shown
    simp only [Plain] at plain
    obtain ⟨ps, js, rfl, here, rest⟩ := shown
    obtain ⟨unlisted, nodup'⟩ := List.nodup_cons.1 nodup
    have found := found_of_holds here
    have kind := answered_kind ready.clear (kind_of_holds ready here)
    have met := answered_refuseCircle ready.clear found (.inl rfl) fun a member same => apart a member (by simp [same])
    have size : ps.size = items.length := rest.length
    -- The length travels as a word. The address space that the items take bounds it.
    have few : items.length < UInt32.size := by
      have := length_le_space Budget.boolCharge 0 items
      have := enough.room.bytes
      simp only [need, Need.within, Memory.lastAddress] at this
      unfold UInt32.size
      omega
    have whole : (UInt32.ofNat ps.size).toNat = items.length := by
      rw [size, UInt32.toNat_ofNat']
      exact Nat.mod_eq_of_lt few
    have room : l.Spacious 8 := enough.room.toSpacious.mono (Nat.le_add_right _ _)
    obtain ⟨l', got, same, next⟩ := (length_reads ready (by rw [Heap.length, found])).done room
    rw [whole] at got
    have enough' := enough.inside same.1 ⟨next, by rw [same.2]; exact Nat.le_add_right _ _⟩
    obtain ⟨l'', got', same', next'⟩ := readItems_returns items (b := b.opened _) plain (same.ready ready)
      ((same.get? p).trans found) (by unfold UInt64.size; unfold UInt32.size at few; omega) (fun i => by simp)
      (same.2.symm ▸ rest) nodup' (ancestors_apart apart unlisted) (levelled' _) enough'
    refine ⟨l'', ?_, same.trans same', ?_⟩
    · simp only [Conversion.read, answered_bind, entered_of_enough enough, kind, Value.kind, met, got,
        charged_of_enough enough, got', answered_pure, Budget.opened_spent, Budget.opened_leave]
      rfl
    · simp only [need, Need.within]
      omega
  case record fields =>
    simp only [Shows] at shown
    simp only [Plain] at plain
    obtain ⟨props, js, rfl, here, rest⟩ := shown
    obtain ⟨unlisted, nodup'⟩ := List.nodup_cons.1 nodup
    have found := found_of_holds here
    have kind := answered_kind ready.clear (kind_of_holds ready here)
    have met := answered_refuseCircle ready.clear found (.inr rfl) fun a member same => apart a member (by simp [same])
    have keys : props.keys = fields.map Prod.fst := rest.keys
    have room : l.Roomy (keyBytes (fields.map Prod.fst)) (fields.map Prod.fst).length :=
      enough.room.mono (Nat.le_add_right _ _) (by simp only [need, Need.within, keyBytes]; omega)
    have reads := ownKeys_reads ready (by rw [Heap.ownKeys, found] : l.engine.heap.ownKeys p = .ok props.keys)
      (by rw [keys]; exact room.cells)
    rw [keys, untilNul_keys plain.2] at reads
    obtain ⟨l', got, same, next⟩ := reads.done room.toSpacious
    have enough' := enough.inside same.1 ⟨next, by rw [same.2]; exact Nat.le_add_right _ _⟩
    obtain ⟨l'', got', same', next'⟩ := readFields_returns fields (b := b.opened _) plain.2 (same.ready ready)
      ((same.get? p).trans found) (fun e member => Table.find_of_mem props.nodup member) (same.2.symm ▸ rest) nodup'
      (ancestors_apart apart unlisted) (levelled' _) enough'
    refine ⟨l'', ?_, same.trans same', ?_⟩
    · simp only [Conversion.read, answered_bind, entered_of_enough enough, kind, Value.kind, met, got, List.length_map,
        charged_of_enough enough, got', answered_pure, Budget.opened_spent, Budget.opened_leave, ofFields_norm plain.1]
      rfl
    · simp only [need, Need.within]
      omega

theorem readItems_returns (items : List Snapshot) {levels index : Nat} {ancestors ps ks : List Ptr} {b : Budget} {list : Ptr}
    {l : Link} {held : Array Ptr} (plain : PlainItems items) (ready : l.Ready)
    (found : l.engine.heap.get? list = some (.array held)) (few : index + items.length ≤ UInt64.size)
    (placed : ∀ i : Nat, ps[i]? = held[index + i]?) (shown : ShowsItems l.cells items ps ks) (nodup : ks.Nodup)
    (apart : ∀ a ∈ ancestors, a ∉ ks) (levelled : b.maxDepth < levels + b.depth)
    (enough : Enough b l (needItems Budget.boolCharge index items)) :
    ∃ l', answered (readItems (fun b child => Conversion.read levels ancestors b child) list items.length index b) l =
        (.ok (normItems items, b.spent (needItems Budget.boolCharge index items).bytes), l') ∧ Same l l' ∧
      l'.memory.next ≤ l.memory.next + (needItems Budget.boolCharge index items).space := by
  cases items with
  | nil => exact ⟨l, rfl, .refl ready, Nat.le_add_right _ _⟩
  | cons item rest =>
    simp only [ShowsItems] at shown
    obtain ⟨p, qs, js, ls, rfl, rfl, first, others⟩ := shown
    simp only [PlainItems] at plain
    obtain ⟨nodup', nodup'', -⟩ := List.nodup_append.1 nodup
    have here : held[index]? = some p := by simpa using (placed 0).symm
    have property : l.engine.heap.lookup list (Text.untilNul (Nat.repr index)) = .ok (.existing p) := by
      have small : index < UInt64.size := by
        simp only [List.length_cons] at few
        omega
      rw [lookup_array found, Heap.arrayIndex?_repr small, Option.bind_some, here, Option.getD_some]
    -- Reading needs the key before the item, building the other way round.
    have both : Enough b l ((Need.beside ⟨0, 0, (Nat.repr index).utf8ByteSize + 9⟩ (item.need Budget.boolCharge)).beside
        (needItems Budget.boolCharge (index + 1) rest)) := by
      refine enough.mono ?_ ?_ ?_ <;> simp only [needItems, Need.beside] <;> omega
    obtain ⟨l', got, same, next⟩ := child_returns (fun b child => Conversion.read levels ancestors b child) ready found
      property first both.first fun l' ready' shown' enough' => read_returns item plain.1 ready' shown' nodup'
        (fun a member listed => apart a member (List.mem_append_left _ listed)) levelled enough'
    have near : l.Near l' ((Nat.repr index).utf8ByteSize + 9 + (item.need Budget.boolCharge).space) :=
      ⟨next, by rw [same.2]; exact Nat.le_add_right _ _⟩
    have enough' : Enough (b.spent (item.need Budget.boolCharge).bytes) l' (needItems Budget.boolCharge (index + 1) rest) := by
      have left := both.rest same.1 near
      rwa [Need.beside, Nat.zero_add] at left
    have placed' (i : Nat) : qs[i]? = held[index + 1 + i]? := by
      rw [← List.getElem?_cons_succ (a := p), placed (i + 1), Nat.add_right_comm, Nat.add_assoc]
    obtain ⟨l'', got', same', next'⟩ := readItems_returns rest (b := b.spent _) plain.2 (same.ready ready)
      ((same.get? list).trans found) (by simp only [List.length_cons] at few; omega) placed' (same.2.symm ▸ others)
      nodup'' (fun a member listed => apart a member (List.mem_append_right _ listed)) levelled enough'
    refine ⟨l'', ?_, same.trans same', ?_⟩
    · rw [List.length_cons, readItems, answered_assoc, answered_bind, got]
      simp only [answered_bind, got', answered_pure, Budget.spent_spent, normItems, needItems, Need.beside, Nat.zero_add]
    · simp only [needItems, Need.beside]
      omega

theorem readFields_returns (fields : List (String × Snapshot)) {levels : Nat} {ancestors ks : List Ptr}
    {es : List (String × Ptr)} {b : Budget} {object : Ptr} {l : Link} {cls : ObjectClass} {props : Table String Ptr}
    (plain : PlainFields fields) (ready : l.Ready) (found : l.engine.heap.get? object = some (.object cls props))
    (placed : ∀ e ∈ es, props.get? e.1 = some e.2) (shown : ShowsFields l.cells fields es ks) (nodup : ks.Nodup)
    (apart : ∀ a ∈ ancestors, a ∉ ks) (levelled : b.maxDepth < levels + b.depth)
    (enough : Enough b l (needFields Budget.boolCharge fields)) :
    ∃ l', answered (readFields (fun b child => Conversion.read levels ancestors b child) object (fields.map Prod.fst) b) l =
        (.ok (normFields fields, b.spent (needFields Budget.boolCharge fields).bytes), l') ∧ Same l l' ∧
      l'.memory.next ≤ l.memory.next + (needFields Budget.boolCharge fields).space := by
  cases fields with
  | nil => exact ⟨l, rfl, .refl ready, Nat.le_add_right _ _⟩
  | cons field rest =>
    obtain ⟨key, item⟩ := field
    simp only [ShowsFields] at shown
    obtain ⟨p, qs, js, ls, rfl, rfl, first, others⟩ := shown
    simp only [PlainFields] at plain
    obtain ⟨nodup', nodup'', -⟩ := List.nodup_append.1 nodup
    have charged : answered (b.charged key.utf8ByteSize) l = (.ok (b.spent key.utf8ByteSize), l) := by
      have := enough.bytes
      simp only [needFields, Need.beside] at this
      rw [answered_charged, if_neg (by omega)]
    have property : l.engine.heap.lookup object (Text.untilNul key) = .ok (.existing p) := by
      have here : props.get? key = some p := placed (key, p) List.mem_cons_self
      rw [lookup_object found, Text.untilNul_of_nulFree plain.1, here, Option.getD_some]
    have paid : Enough (b.spent key.utf8ByteSize) l _ := enough.rest (.refl ready) (.refl l)
    have both : Enough (b.spent key.utf8ByteSize) l
        ((Need.beside ⟨0, 0, key.utf8ByteSize + 9⟩ (item.need Budget.boolCharge)).beside
          (needFields Budget.boolCharge rest)) := by
      refine paid.mono ?_ ?_ ?_ <;> simp only [Need.beside] <;> omega
    obtain ⟨l', got, same, next⟩ := child_returns (fun b child => Conversion.read levels ancestors b child) ready found
      property first both.first fun l' ready' shown' enough' => read_returns item plain.2.1 ready' shown' nodup'
        (fun a member listed => apart a member (List.mem_append_left _ listed)) levelled enough'
    have near : l.Near l' (key.utf8ByteSize + 9 + (item.need Budget.boolCharge).space) :=
      ⟨next, by rw [same.2]; exact Nat.le_add_right _ _⟩
    have enough' : Enough ((b.spent key.utf8ByteSize).spent (item.need Budget.boolCharge).bytes) l'
        (needFields Budget.boolCharge rest) := by
      have left := both.rest same.1 near
      rwa [Need.beside, Nat.zero_add] at left
    obtain ⟨l'', got', same', next'⟩ := readFields_returns rest (b := (b.spent _).spent _) plain.2.2 (same.ready ready)
      ((same.get? object).trans found) (fun e member => placed e (List.mem_cons_of_mem _ member)) (same.2.symm ▸ others)
      nodup'' (fun a member listed => apart a member (List.mem_append_right _ listed)) levelled enough'
    refine ⟨l'', ?_, same.trans same', ?_⟩
    · rw [List.map_cons, readFields, answered_bind, charged]
      dsimp only
      rw [answered_assoc, answered_bind, got]
      simp only [answered_bind, got', answered_pure]
      simp only [Budget.spent_spent, normFields, needFields, Need.beside, Nat.zero_add, Nat.add_assoc]
    · simp only [needFields, Need.beside]
      omega

end

def nested : Snapshot :=
  .record [
    ("name", .text "tenant"),
    ("items", .list [.int 1, .float ⟨0x7ff0000000000000⟩]),
    ("meta", .record [("ok", .bool true), ("ratio", .float ⟨0x3fd0000000000000⟩), ("nothing", .null)]),
    ("raw", .bytes ⟨#[0, 255]⟩),
    ("err", .error "bad input")]

end Conversion

end ScriptHost
