import ScriptHost.Proofs.Conversion.RoundTrip
import ScriptHost.Proofs.Conversion.Unfolding

set_option autoImplicit false

/-!
What the two ways across charge for a value.

They agree on the nesting, and on the bytes of everything but truth values: one is made for free, and costs a
byte when it is read. So a value can be accepted under limits under which it cannot be read back.
-/

namespace ScriptHost

namespace Snapshot

mutual

/-- How many truth values there are in a snapshot. -/
def truths : Snapshot -> Nat
  | .bool _ => 1
  | .list items => truthsItems items
  | .record fields => truthsFields fields
  | _ => 0

def truthsItems : List Snapshot -> Nat
  | [] => 0
  | item :: rest => truths item + truthsItems rest

def truthsFields : List (String × Snapshot) -> Nat
  | [] => 0
  | (_, item) :: rest => truths item + truthsFields rest

end

mutual

/-- Whatever a truth value costs, it makes for the only difference. -/
theorem need_truth (truth : Nat) (v : Snapshot) : v.need truth = (v.need 0).beside ⟨0, truth * v.truths, 0⟩ := by
  cases v
  case bool => simp [need, truths, Need.within, Need.none, Need.beside]
  case list items =>
    simp only [need, truths, needItems_truth truth 0 items, Need.within, Need.beside, Nat.max_zero, Nat.add_zero,
      Nat.add_assoc]
  case record fields =>
    simp only [need, truths, needFields_truth truth fields, Need.within, Need.beside, Nat.max_zero, Nat.add_zero,
      Nat.add_assoc]
  all_goals rfl

theorem needItems_truth (truth index : Nat) (items : List Snapshot) :
    needItems truth index items = (needItems 0 index items).beside ⟨0, truth * truthsItems items, 0⟩ := by
  cases items with
  | nil => rfl
  | cons item rest =>
    simp only [needItems, truthsItems, need_truth truth item, needItems_truth truth (index + 1) rest, Need.beside,
      Nat.mul_add, Nat.max_zero, Nat.add_zero, Need.mk.injEq, true_and, and_true]
    omega

theorem needFields_truth (truth : Nat) (fields : List (String × Snapshot)) :
    needFields truth fields = (needFields 0 fields).beside ⟨0, truth * truthsFields fields, 0⟩ := by
  cases fields with
  | nil => rfl
  | cons field rest =>
    obtain ⟨key, item⟩ := field
    simp only [needFields, truthsFields, need_truth truth item, needFields_truth truth rest, Need.beside, Nat.mul_add,
      Nat.max_zero, Nat.add_zero, Need.mk.injEq, true_and, and_true]
    omega

end

theorem length_normItems (items : List Snapshot) : (normItems items).length = items.length := by
  induction items with
  | nil => rfl
  | cons item rest ih => simp only [normItems, List.length_cons, ih]

mutual

/-- Numbers cost the same, whichever way they are kept. -/
theorem need_norm (truth : Nat) (v : Snapshot) : v.norm.need truth = v.need truth := by
  cases v
  case int | float =>
    unfold Snapshot.norm ofNumber
    split <;> rfl
  case list items => simp only [Snapshot.norm, need, needItems_norm truth 0 items, length_normItems]
  case record fields =>
    have length : (normFields fields).length = fields.length := by
      simpa using congrArg List.length (keys_normFields fields)
    simp only [Snapshot.norm, need, needFields_norm truth fields, keys_normFields, length]
  all_goals rfl

theorem needItems_norm (truth index : Nat) (items : List Snapshot) :
    needItems truth index (normItems items) = needItems truth index items := by
  cases items with
  | nil => rfl
  | cons item rest => simp only [normItems, needItems, need_norm truth item, needItems_norm truth (index + 1) rest]

theorem needFields_norm (truth : Nat) (fields : List (String × Snapshot)) :
    needFields truth (normFields fields) = needFields truth fields := by
  cases fields with
  | nil => rfl
  | cons field rest =>
    obtain ⟨key, item⟩ := field
    simp only [normFields, needFields, need_norm truth item, needFields_norm truth rest]

end

end Snapshot

namespace Budget

variable {b b' b'' : Budget} {m n : Need} {bytes space : Nat}

/-- What a conversion that succeeds does to its budget. -/
structure Pays (b : Budget) (n : Need) (b' : Budget) : Prop where
  affords : b.Affords n
  left : b' = b.spent n.bytes

theorem Within.pays (within : b.Within) (space : Nat) : b.Pays ⟨0, 0, space⟩ b :=
  ⟨⟨within.1, within.2⟩, rfl⟩

theorem Pays.within (pays : b.Pays n b') : b'.Within := by
  obtain ⟨⟨depth, bytes⟩, rfl⟩ := pays
  exact ⟨Nat.le_trans (Nat.le_add_right _ _) depth, bytes⟩

theorem Pays.beside (first : b.Pays m b') (rest : b'.Pays n b'') : b.Pays (m.beside n) b'' := by
  obtain ⟨⟨depth, bytes⟩, rfl⟩ := first
  obtain ⟨⟨depth', bytes'⟩, rfl⟩ := rest
  simp only [spent] at depth' bytes'
  refine ⟨⟨?_, ?_⟩, spent_spent b _ _⟩
  all_goals
    simp only [Need.beside]
    omega

theorem Pays.inside (pays : (b.opened bytes).Pays n b') : b.Pays (n.within bytes space) b'.leave := by
  obtain ⟨⟨depth, few⟩, rfl⟩ := pays
  simp only [opened] at depth few
  refine ⟨⟨?_, ?_⟩, ?_⟩
  · simp only [Need.within]
    omega
  · simp only [Need.within]
    omega
  · rw [opened_spent, opened_leave]
    rfl

end Budget

namespace Conversion

open Link Snapshot

variable {α β : Type} {l l' : Link} {b b' : Budget} {p q : Ptr} {ks : List Ptr} {v : Snapshot} {bytes space : Nat}
variable {r : Ptr × Budget}

section Making

theorem answered_pure_ok {a c : α} (done : answered (pure a) l = (.ok c, l')) : c = a :=
  (Except.ok.inj (Prod.mk.inj done).1).symm

theorem entered_ok {f : Budget -> LinkM α} {c : α} (within : b.Within) (done : answered (b.entered >>= f) l = (.ok c, l')) :
    (b.opened 0).Within ∧ answered (f (b.opened 0)) l = (.ok c, l') := by
  rw [answered_bind, answered_entered] at done
  by_cases deep : b.maxDepth < b.depth + 1
  next =>
    rw [if_pos deep] at done
    cases done
  next =>
    rw [if_neg deep] at done
    exact ⟨⟨Nat.not_lt.1 deep, within.2⟩, done⟩

theorem charged_ok {f : Budget -> LinkM α} {c : α} (within : b.Within)
    (done : answered (b.charged bytes >>= f) l = (.ok c, l')) :
    (b.spent bytes).Within ∧ answered (f (b.spent bytes)) l = (.ok c, l') := by
  rw [answered_bind, answered_charged] at done
  by_cases large : b.maxBytes < b.bytes + bytes
  next =>
    rw [if_pos large] at done
    cases done
  next =>
    rw [if_neg large] at done
    exact ⟨⟨within.1, Nat.not_lt.1 large⟩, done⟩

theorem opened_ok {f : Budget -> LinkM α} {c : α} (within : b.Within)
    (done : answered (b.entered >>= fun b => b.charged bytes >>= f) l = (.ok c, l')) :
    (b.opened bytes).Within ∧ answered (f (b.opened bytes)) l = (.ok c, l') := by
  obtain ⟨within, done⟩ := entered_ok within done
  have charged := charged_ok within done
  rwa [Budget.opened_spent, Nat.zero_add] at charged

theorem keepFilled_ok {fill : LinkM α} {a : α} (done : answered (keepFilled p fill) l = (.ok a, l')) :
    answered fill l = (.ok a, l') := by
  rw [keepFilled, answered_bind, answered_attempt] at done
  generalize answered fill l = r at *
  obtain ⟨e | c, mid⟩ := r
  next =>
    obtain ⟨_, _, -, failed⟩ := answered_bind_ok done
    cases failed
  next => exact done

theorem constant_pays {make : LinkM Ptr} (within : b.Within)
    (done : answered (b.entered >>= fun b => make >>= fun p => pure (p, b.leave)) l = (.ok r, l')) :
    b.Pays (Need.none.within 0 space) r.2 := by
  obtain ⟨within, done⟩ := entered_ok within done
  obtain ⟨p, mid, -, done⟩ := answered_bind_ok done
  obtain rfl := answered_pure_ok done
  exact (within.pays 0).inside

theorem leaf_pays {make : LinkM Ptr} (within : b.Within)
    (done : answered (b.entered >>= fun b => b.charged bytes >>= fun b => make >>= fun p => pure (p, b.leave)) l =
      (.ok r, l')) :
    b.Pays (Need.none.within bytes space) r.2 := by
  obtain ⟨within, done⟩ := opened_ok within done
  obtain ⟨p, mid, -, done⟩ := answered_bind_ok done
  obtain rfl := answered_pure_ok done
  exact (within.pays 0).inside

theorem container_pays {make : LinkM Ptr} {fill : Budget -> Ptr -> LinkM Budget} {n : Need} (within : b.Within)
    (done : answered (b.entered >>= fun b => b.charged bytes >>= fun b => make >>= fun p =>
      keepFilled p (fill b p) >>= fun b => pure (p, b.leave)) l = (.ok r, l'))
    (fills : ∀ p mid left last, (b.opened bytes).Within -> answered (fill (b.opened bytes) p) mid = (.ok left, last) ->
      (b.opened bytes).Pays n left) : b.Pays (n.within bytes space) r.2 := by
  obtain ⟨within, done⟩ := opened_ok within done
  obtain ⟨p, mid, -, done⟩ := answered_bind_ok done
  obtain ⟨left, last, filled, done⟩ := answered_bind_ok done
  obtain rfl := answered_pure_ok done
  exact (fills p mid left last within (keepFilled_ok filled)).inside

mutual

/-- Whatever has been built was within its budget, wherever it was built. -/
theorem build_pays (v : Snapshot) {b : Budget} {l l' : Link} {r : Ptr × Budget} (within : b.Within)
    (built : answered (build b v) l = (.ok r, l')) : b.Pays (v.need 0) r.2 := by
  cases v
  case undefined | null | bool => exact constant_pays within built
  case int | float | text | bytes | error => exact leaf_pays within built
  case list items => exact container_pays within built fun p mid left last within => buildItems_pays items 0 within
  case record fields => exact container_pays within built fun p mid left last within => buildFields_pays fields within

theorem buildItems_pays (items : List Snapshot) (index : Nat) {b left : Budget} {l l' : Link} {list : Ptr} (within : b.Within)
    (filled : answered (buildItems b list index items) l = (.ok left, l')) : b.Pays (needItems 0 index items) left := by
  cases items with
  | nil =>
    obtain rfl := answered_pure_ok filled
    exact within.pays 0
  | cons item rest =>
    obtain ⟨⟨child, b₁⟩, l₁, built, filled⟩ := answered_bind_ok filled
    obtain ⟨_, l₂, -, filled⟩ := answered_bind_ok filled
    have first := build_pays item within built
    have others := buildItems_pays rest (index + 1) first.within filled
    exact first.beside ((first.within.pays _).beside others)

theorem buildFields_pays (fields : List (String × Snapshot)) {b left : Budget} {l l' : Link} {object : Ptr}
    (within : b.Within) (filled : answered (buildFields b object fields) l = (.ok left, l')) : b.Pays (needFields 0 fields) left := by
  cases fields with
  | nil =>
    obtain rfl := answered_pure_ok filled
    exact within.pays 0
  | cons field rest =>
    obtain ⟨key, item⟩ := field
    obtain ⟨within', filled⟩ := charged_ok within filled
    obtain ⟨⟨child, b₁⟩, l₁, built, filled⟩ := answered_bind_ok filled
    obtain ⟨_, l₂, -, filled⟩ := answered_bind_ok filled
    have key : b.Pays ⟨0, key.utf8ByteSize, 0⟩ (b.spent key.utf8ByteSize) := ⟨⟨within.1, within'.2⟩, rfl⟩
    have first := build_pays item within' built
    have others := buildFields_pays rest first.within filled
    exact key.beside (first.beside ((first.within.pays _).beside others))

end

/-- What is accepted keeps to the limits. -/
theorem toEngine_affords {maxDepth maxBytes : Nat} {l' : Link} (made : answered (toEngine maxDepth maxBytes v) l = (.ok p, l')) :
    (v.need 0).depth ≤ maxDepth ∧ (v.need 0).bytes ≤ maxBytes := by
  obtain ⟨r, mid, built, -⟩ := answered_bind_ok made
  have within : (Budget.ofLimits maxDepth maxBytes).Within := ⟨Nat.zero_le _, Nat.zero_le _⟩
  have affords := (build_pays v within built).affords
  exact ⟨(Nat.zero_add _).symm.trans_le affords.depth, (Nat.zero_add _).symm.trans_le affords.bytes⟩

/-- With room for it, a snapshot is accepted exactly if it keeps to the limits. -/
theorem toEngine_ok_iff {maxDepth maxBytes : Nat} (ready : l.Ready) (word : maxBytes < UInt64.size)
    (room : l.Roomy (v.need 0).space (v.need 0).space) :
    (∃ p l', answered (toEngine maxDepth maxBytes v) l = (.ok p, l')) ↔
      (v.need 0).depth ≤ maxDepth ∧ (v.need 0).bytes ≤ maxBytes := by
  constructor
  next =>
    rintro ⟨p, l', made⟩
    exact toEngine_affords made
  next =>
    rintro ⟨depth, bytes⟩
    have ends := toEngine_ends ready maxDepth word v
    generalize answered (toEngine maxDepth maxBytes v) l = r at *
    cases ends with
    | error _ unfit => exact absurd (enough_of_limits depth bytes room) unfit
    | ok _ => exact ⟨_, _, rfl⟩

end Making

section Reading

theorem reading_truths (v : Snapshot) : reading v = (v.need 0).beside ⟨0, v.truths, 0⟩ := by
  rw [reading, need_truth, Budget.boolCharge, Nat.one_mul]

theorem graph_of_holds {h : Heap} {held : Value} (counted : Heap.Counted h.cells) (holds : Holds h.cells p held) :
    h.graph p = h.shapeOf held :=
  Heap.graph_of_found counted (Heap.get?_eq_some.2 holds)

theorem display_of_holds {h : Heap} {s : String} (counted : Heap.Counted h.cells) (holds : Holds h.cells p (.string s)) :
    h.display p = s := by
  have found := Heap.get?_eq_some.2 holds
  obtain ⟨c, there, -⟩ := holds
  exact Heap.display_string (counted p c there).1 found

mutual

/-- What is shown is what the value unfolds to, its numbers told apart. -/
theorem shows_unfolds (v : Snapshot) {h : Heap} {p : Ptr} {ks : List Ptr} (counted : Heap.Counted h.cells)
    (shown : v.Shows h.cells p ks) : v.norm.Unfolds h.graph p := by
  cases v
  case undefined | null =>
    obtain ⟨rfl, -⟩ := shown
    rfl
  case bool x =>
    obtain ⟨rfl, -⟩ := shown
    cases x <;> rfl
  case int n => exact (unfolds_of_leaf (Heap.graph_flat h) (graph_of_holds counted shown.2)).2 rfl
  case float x => exact (unfolds_of_leaf (Heap.graph_flat h) (graph_of_holds counted shown.2)).2 rfl
  case text s => exact graph_of_holds counted shown.2
  case bytes x => exact graph_of_holds counted shown.2
  case error message =>
    obtain ⟨text, -, here, there⟩ := shown
    have shape : h.graph p = some (.leaf (.error (h.display text))) := graph_of_holds counted here
    rw [display_of_holds counted there] at shape
    exact shape
  case list items =>
    simp only [Shows] at shown
    obtain ⟨ps, js, -, here, rest⟩ := shown
    exact ⟨ps.toList, graph_of_holds counted here, showsItems_unfolds items counted rest⟩
  case record fields =>
    simp only [Shows] at shown
    obtain ⟨props, js, -, here, rest⟩ := shown
    exact ⟨props.entries, graph_of_holds counted here, showsFields_unfolds fields counted rest⟩

theorem showsItems_unfolds (items : List Snapshot) {h : Heap} {ps ks : List Ptr} (counted : Heap.Counted h.cells)
    (shown : ShowsItems h.cells items ps ks) : UnfoldsItems h.graph (normItems items) ps := by
  cases items with
  | nil => exact shown.1
  | cons item rest =>
    simp only [ShowsItems] at shown
    obtain ⟨p, qs, js, ls, rfl, -, first, others⟩ := shown
    exact ⟨p, qs, rfl, shows_unfolds item counted first, showsItems_unfolds rest counted others⟩

theorem showsFields_unfolds (fields : List (String × Snapshot)) {h : Heap} {es : List (String × Ptr)} {ks : List Ptr}
    (counted : Heap.Counted h.cells) (shown : ShowsFields h.cells fields es ks) :
    UnfoldsFields h.graph (normFields fields) es := by
  cases fields with
  | nil => exact shown.1
  | cons field rest =>
    obtain ⟨key, item⟩ := field
    simp only [ShowsFields] at shown
    obtain ⟨p, qs, js, ls, rfl, -, first, others⟩ := shown
    exact ⟨p, qs, rfl, shows_unfolds item counted first, showsFields_unfolds rest counted others⟩

end

theorem showsItems_part {items : List Snapshot} {ps : List Ptr} (plain : PlainItems items)
    (shown : ShowsItems l.cells items ps ks) (part : q ∈ ps) :
    ∃ item ∈ items, item.Plain ∧ ∃ js, item.Shows l.cells q js := by
  induction items generalizing ps ks with
  | nil =>
    obtain ⟨rfl, -⟩ := shown
    exact nomatch part
  | cons item rest ih =>
    simp only [PlainItems] at plain
    simp only [ShowsItems] at shown
    obtain ⟨p, qs, js, ls, rfl, -, first, others⟩ := shown
    rcases List.mem_cons.1 part with rfl | part
    next => exact ⟨item, List.mem_cons_self, plain.1, js, first⟩
    next =>
      obtain ⟨other, member, below⟩ := ih plain.2 others part
      exact ⟨other, List.mem_cons_of_mem item member, below⟩

theorem showsFields_part {fields : List (String × Snapshot)} {es : List (String × Ptr)} {e : String × Ptr}
    (plain : PlainFields fields) (shown : ShowsFields l.cells fields es ks) (part : e ∈ es) :
    ∃ field ∈ fields, Text.NulFree e.1 ∧ field.2.Plain ∧ ∃ js, field.2.Shows l.cells e.2 js := by
  induction fields generalizing es ks with
  | nil =>
    obtain ⟨rfl, -⟩ := shown
    exact nomatch part
  | cons field rest ih =>
    obtain ⟨key, item⟩ := field
    simp only [PlainFields] at plain
    simp only [ShowsFields] at shown
    obtain ⟨p, qs, js, ls, rfl, -, first, others⟩ := shown
    rcases List.mem_cons.1 part with rfl | part
    next => exact ⟨(key, item), List.mem_cons_self, plain.1, plain.2.1, js, first⟩
    next =>
      obtain ⟨other, member, below⟩ := ih plain.2.2 others part
      exact ⟨other, List.mem_cons_of_mem _ member, below⟩

/-- A plain snapshot is kept at the pointer, and there is room for a copy of it. -/
def Kept (l : Link) (p : Ptr) : Prop :=
  ∃ (v : Snapshot) (ks : List Ptr), v.Plain ∧ v.Shows l.cells p ks ∧ l.Roomy (reading v).space (reading v).space

theorem known_of_shows (shown : v.Shows l.cells p ks) : l.engine.heap.Known p := by
  intro big
  rcases shown.root with static | ⟨-, held, c, found, -⟩
  next => exact absurd big (UInt32.not_le.2 (Heap.small_of_static static))
  next => exact ⟨c, found⟩

theorem Kept.part (ready : l.Ready) (kept : Kept l p) (part : l.engine.heap.graph.Part p q) : Kept l q := by
  obtain ⟨v, ks, plain, shown, room⟩ := kept
  obtain ⟨s, shape, member⟩ := part
  have same {s' : Shape} (unfolded : l.engine.heap.graph p = some s') : q ∈ s'.parts := by
    rwa [← Option.some.inj (shape.symm.trans unfolded)]
  cases v
  case list items =>
    simp only [Plain] at plain
    simp only [Shows] at shown
    obtain ⟨ps, js, -, here, rest⟩ := shown
    have inside : q ∈ ps.toList := same (graph_of_holds ready.counted here)
    obtain ⟨item, member, plain', js', shown'⟩ := showsItems_part plain rest inside
    have few : (reading item).space ≤ (reading (.list items)).space :=
      Nat.le_trans (need_le_items Budget.boolCharge 0 member).2 (Nat.le_add_left _ _)
    exact ⟨item, js', plain', shown', room.mono few few⟩
  case record fields =>
    simp only [Plain] at plain
    simp only [Shows] at shown
    obtain ⟨props, js, -, here, rest⟩ := shown
    have inside : q ∈ props.entries.map Prod.snd := same (graph_of_holds ready.counted here)
    obtain ⟨e, entry, rfl⟩ := List.mem_map.1 inside
    obtain ⟨field, member, -, plain', js', shown'⟩ := showsFields_part plain.2 rest entry
    have few : (reading field.2).space ≤ (reading (.record fields)).space :=
      Nat.le_trans (need_le_fields Budget.boolCharge member).2 (Nat.le_add_left _ _)
    exact ⟨field.2, js', plain', shown', room.mono few few⟩
  all_goals
    -- A part would be less deep than what has one level only.
    obtain ⟨w, -, less⟩ := (shows_unfolds _ ready.counted shown).part 0 ⟨s, shape, member⟩
    have := one_le_depth 0 w
    rw [need_norm] at less
    simp only [need, Need.within, Need.none] at less
    omega

theorem Kept.reaches (ready : l.Ready) (kept : Kept l p) (reaches : l.engine.heap.graph.Reaches p q) : Kept l q := by
  induction reaches with
  | refl => exact kept
  | tail _ part ih => exact ih.part ready part

theorem Kept.readable (ready : l.Ready) (kept : Kept l p) : l.engine.heap.Readable p := by
  obtain ⟨v, ks, plain, shown, room⟩ := kept
  have constant (small : p < Ptr.firstCounted) : l.engine.heap.Readable p := by
    have absent : l.engine.heap.get? p = none := by simp [Heap.get?, ready.counted.absent small]
    simp only [Heap.Readable, absent]
  cases v
  case undefined | null =>
    obtain ⟨rfl, -⟩ := shown
    exact constant (by decide)
  case bool x =>
    obtain ⟨rfl, -⟩ := shown
    exact constant (by cases x <;> decide)
  case int | float | bytes => simp only [Heap.Readable, found_of_holds shown.2]
  case text s =>
    simp only [Heap.Readable, found_of_holds shown.2]
    exact plain
  case error message =>
    obtain ⟨text, -, here, there⟩ := shown
    simp only [Heap.Readable, Heap.errorValue, found_of_holds here]
    have known : l.engine.heap.contains text = true := by
      obtain ⟨c, found, -⟩ := there
      exact Heap.contains_iff.2 (.inr ⟨c, found⟩)
    refine ⟨known, ?_⟩
    change Text.NulFree (l.engine.heap.display text)
    rw [display_of_holds ready.counted there]
    exact plain
  case list items =>
    simp only [Plain] at plain
    simp only [Shows] at shown
    obtain ⟨ps, js, -, here, rest⟩ := shown
    simp only [Heap.Readable, found_of_holds here]
    refine ⟨fun q member => ?_, ?_⟩
    next =>
      obtain ⟨item, -, -, js', shown'⟩ := showsItems_part plain rest (Array.mem_toList_iff.2 member)
      exact known_of_shows shown'
    next =>
      have length : ps.size = items.length := rest.length
      have few := length_le_space Budget.boolCharge 0 items
      have bytes := room.bytes
      simp only [reading, need, Need.within, Memory.lastAddress] at bytes
      unfold UInt32.size
      omega
  case record fields =>
    simp only [Plain] at plain
    simp only [Shows] at shown
    obtain ⟨props, js, -, here, rest⟩ := shown
    simp only [Heap.Readable, found_of_holds here]
    refine ⟨fun e member => ?_, ?_⟩
    next =>
      obtain ⟨field, -, free, -, js', shown'⟩ := showsFields_part plain.2 rest member
      exact ⟨free, known_of_shows shown'⟩
    next =>
      have length : props.entries.length = fields.length := by simpa using congrArg List.length rest.keys
      have cells := room.cells
      simp only [reading, need, Need.within, keyBytes, List.length_map] at cells
      have fits : l.cells.size + props.entries.length + 16 ≤ UInt32.size := by omega
      exact fits

/-- What a plain snapshot is kept as is read back exactly if it keeps to the limits, a byte for each truth value
included. -/
theorem shown_read_iff {maxDepth maxBytes : Nat} (ready : l.Ready) (plain : v.Plain) (shown : v.Shows l.cells p ks)
    (room : l.Roomy (reading v).space (reading v).space) :
    (∃ w l', answered (fromEngine maxDepth maxBytes p) l = (.ok w, l')) ↔
      (v.need 0).depth ≤ maxDepth ∧ (v.need 0).bytes + v.truths ≤ maxBytes := by
  have unfolds := shows_unfolds v ready.counted shown
  have only {w : Snapshot} (other : w.Unfolds l.engine.heap.graph p) : w = v.norm := other.unique (Heap.graph_flat _) unfolds
  have readable (q : Ptr) (reaches : l.engine.heap.graph.Reaches p q) : l.engine.heap.Readable q :=
    (Kept.reaches ready ⟨v, ks, plain, shown, room⟩ reaches).readable ready
  have spacious (w : Snapshot) (other : w.Unfolds l.engine.heap.graph p) : l.Roomy (reading w).space (reading w).space := by
    rwa [only other, reading, need_norm]
  have cost : reading v.norm = (v.need 0).beside ⟨0, v.truths, 0⟩ := (need_norm _ v).trans (reading_truths v)
  have copied (w : Snapshot) : (∃ l', answered (fromEngine maxDepth maxBytes p) l = (.ok w, l')) ↔ _ :=
    fromEngine_ok_iff ready readable spacious w
  constructor
  next =>
    rintro ⟨w, l', done⟩
    obtain ⟨other, depth, bytes⟩ := (copied w).1 ⟨l', done⟩
    rw [only other, cost] at depth bytes
    exact ⟨Nat.le_trans (Nat.le_max_left _ _) depth, bytes⟩
  next =>
    rintro ⟨depth, bytes⟩
    refine ⟨v.norm, (copied v.norm).2 ⟨unfolds, ?_, ?_⟩⟩
    all_goals rw [cost]
    next => exact Nat.max_le.2 ⟨depth, Nat.zero_le _⟩
    next => exact bytes

end Reading

section There

variable {maxDepth maxBytes maxDepth' maxBytes' : Nat}

/-- What the value that has been made of a plain snapshot is charged when it is read, under any limits. -/
theorem made_read_iff (plain : v.Plain) (ready : l.Ready) (word : maxBytes < UInt64.size)
    (room : l.Roomy ((v.need 0).space + (reading v).space) ((v.need 0).space + (reading v).space))
    (made : answered (toEngine maxDepth maxBytes v) l = (.ok p, l')) :
    (∃ w l'', answered (fromEngine maxDepth' maxBytes' p) l' = (.ok w, l'')) ↔
      (v.need 0).depth ≤ maxDepth' ∧ (v.need 0).bytes + v.truths ≤ maxBytes' := by
  obtain ⟨⟨child, left⟩, mid, built, done⟩ := answered_bind_ok made
  obtain ⟨rfl, rfl⟩ : p = child ∧ l' = mid := by
    cases done
    exact ⟨rfl, rfl⟩
  have ends := build_ends v (b := .ofLimits maxDepth maxBytes) ready word
  rw [built] at ends
  obtain ⟨-, grown, near⟩ : Built (.ofLimits maxDepth maxBytes) l v (p, left) l' := by
    cases ends with
    | ok done => exact done
  rw [engraved_plain plain] at grown
  obtain ⟨ks, -, shown⟩ := grown.planted
  exact shown_read_iff (grown.ready ready) plain shown (room.near grown.changed near)

/-- What the ways to the engine and back charge for a snapshot: the same nesting, and the same bytes but for its
truth values. -/
structure Charged (v : Snapshot) (l : Link) (maxDepth maxBytes : Nat) : Prop where
  accepted : (∃ p made, answered (toEngine maxDepth maxBytes v) l = (.ok p, made)) ↔
    (v.need 0).depth ≤ maxDepth ∧ (v.need 0).bytes ≤ maxBytes
  returned : ∀ p made, answered (toEngine maxDepth maxBytes v) l = (.ok p, made) -> ∀ maxDepth' maxBytes',
    (∃ w read, answered (fromEngine maxDepth' maxBytes' p) made = (.ok w, read)) ↔
      (v.need 0).depth ≤ maxDepth' ∧ (v.need 0).bytes + v.truths ≤ maxBytes'
  -- Under the limits it was accepted under, it may be refused on its way back.
  again : ∀ p made, answered (toEngine maxDepth maxBytes v) l = (.ok p, made) ->
    ((∃ w read, answered (fromEngine maxDepth maxBytes p) made = (.ok w, read)) ↔
      (v.need 0).bytes + v.truths ≤ maxBytes)

theorem snapshot_charges (plain : v.Plain) (ready : l.Ready) (word : maxBytes < UInt64.size)
    (room : l.Roomy ((v.need 0).space + (reading v).space) ((v.need 0).space + (reading v).space)) :
    Charged v l maxDepth maxBytes := by
  have accepted : (∃ p made, answered (toEngine maxDepth maxBytes v) l = (.ok p, made)) ↔ _ :=
    toEngine_ok_iff ready word (room.mono (Nat.le_add_right _ _) (Nat.le_add_right _ _))
  refine ⟨accepted, fun p made done _ _ => made_read_iff plain ready word room done, fun p made done => ?_⟩
  have deep := (accepted.1 ⟨p, made, done⟩).1
  rw [made_read_iff plain ready word room done, and_iff_right deep]

theorem empty_ready : Link.empty.Ready := by
  have counted : Heap.Counted Table.empty := by simp [Heap.Counted]
  exact ⟨rfl, Memory.wellFormed_empty, counted, rfl⟩

theorem nested_charges : Charged nested Link.empty 8 1000 := by
  have plain : nested.Plain := by
    simp only [nested, Plain, PlainItems, PlainFields]
    decide
  exact snapshot_charges plain empty_ready (by decide) ⟨⟨rfl, by decide⟩, by decide⟩

/-- A list of one truth value is accepted under limits under which it is not read back. -/
def flag : Snapshot :=
  .list [.bool true]

theorem flag_refused : flag.Plain ∧ ∃ p made, answered (toEngine 2 24 flag) Link.empty = (.ok p, made) ∧
    ∀ w read, answered (fromEngine 2 24 p) made ≠ (.ok w, read) := by
  have plain : flag.Plain := by simp only [flag, Plain, PlainItems, and_self]
  have word : 24 < UInt64.size := by decide
  have room : Link.empty.Roomy ((flag.need 0).space + (reading flag).space) ((flag.need 0).space + (reading flag).space) :=
    ⟨⟨rfl, by decide⟩, by decide⟩
  have little : Link.empty.Roomy (flag.need 0).space (flag.need 0).space :=
    room.mono (Nat.le_add_right _ _) (Nat.le_add_right _ _)
  obtain ⟨p, made, done⟩ := (toEngine_ok_iff empty_ready word little).2
    (by decide : (flag.need 0).depth ≤ 2 ∧ (flag.need 0).bytes ≤ 24)
  refine ⟨plain, p, made, done, fun w read returned => ?_⟩
  have affords := (made_read_iff plain empty_ready word room done).1 ⟨w, read, returned⟩
  exact absurd affords.2 (by decide)

end There

end Conversion

end ScriptHost
