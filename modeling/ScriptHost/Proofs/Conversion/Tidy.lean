import ScriptHost.Proofs.Conversion.Building
import ScriptHost.Proofs.Conversion.Reading
import ScriptHost.Proofs.Engine.Hosting

set_option autoImplicit false

/-!
What conversions leave behind.

A conversion that fails, and every conversion to a snapshot, leaves the engine as it was. One that makes a
value leaves a tree of new values, whose root is referred to by the host.
-/

namespace ScriptHost

namespace Heap

variable {cells cells' : Cells} {ks outside : List Ptr} {p : Ptr}

def childrenAt (cells : Cells) (p : Ptr) : List Ptr :=
  (cells.get? p).elim [] fun c => c.value.children

theorem count_held_without (nodup : ks.Nodup) (there : ∀ k ∈ ks, ∃ c, cells.get? k = some c) (q : Ptr) :
    (held (cells.without ks).entries).count q + (ks.flatMap (childrenAt cells)).count q = (held cells.entries).count q := by
  induction ks generalizing cells with
  | nil => simp [Table.without_nil]
  | cons k rest ih =>
    obtain ⟨first, others⟩ := List.nodup_cons.1 nodup
    obtain ⟨c, found⟩ := there k List.mem_cons_self
    have still {j : Ptr} (member : j ∈ rest) : (cells.erase k).get? j = cells.get? j := by
      have other : k ≠ j := fun same => first (same ▸ member)
      simp [other]
    have there' : ∀ j ∈ rest, ∃ c, (cells.erase k).get? j = some c := fun j member => by
      rw [still member]
      exact there j (List.mem_cons_of_mem k member)
    -- One cell after the other is taken away, and what it holds with it.
    have later := ih others there'
    have one := count_held_filter cells.nodup found q
    have same : rest.flatMap (childrenAt (cells.erase k)) = rest.flatMap (childrenAt cells) := by
      apply List.flatMap_congr
      intro j member
      rw [childrenAt, still member, childrenAt]
    have gone : (cells.erase k).without rest = cells.without (k :: rest) := by
      rw [Table.erase_eq_without, Table.without_without, List.singleton_append]
    have here : childrenAt cells k = c.value.children := by rw [childrenAt, found, Option.elim_some]
    rw [same, gone] at later
    change (held (cells.erase k).entries).count q + _ = _ at one
    rw [List.flatMap_cons, List.count_append, here]
    omega

/-- New values that are a tree are referred to by each other, and the host has one more reference, to the
root. -/
theorem Planted.balanced (planted : Planted cells cells' ks) (forest : Forest cells' [p] ks) (counted : Counted cells')
    (balanced : Balanced 0 outside cells) : Balanced 0 (p :: outside) cells' := by
  have inside {q : Ptr} (big : Ptr.firstCounted ≤ q) :
      (p :: outside).count q + (held cells'.entries).count q =
        ks.count q + (outside.count q + (held cells.entries).count q) := by
    have total := count_held_without planted.nodup (fun k member => (planted.there k member).imp fun _ => And.left) q
    have once := forest.count big
    rw [planted.old] at total
    change List.count q (p :: ks.flatMap (childrenAt cells')) = _ at once
    simp only [List.count_cons] at once ⊢
    omega
  have unused {q : Ptr} (big : Ptr.firstCounted ≤ q) (absent : cells.get? q = none) :
      outside.count q + (held cells.entries).count q = 0 :=
    (balanced.absent q big absent).resolve_left (Nat.not_lt_zero _)
  constructor
  · intro q c found
    obtain ⟨big, some⟩ := counted q c found
    refine ⟨big, some, ?_⟩
    rw [inside big]
    by_cases listed : q ∈ ks
    next =>
      obtain ⟨d, here, once⟩ := planted.there q listed
      obtain rfl := Option.some.inj (found.symm.trans here)
      rw [unused big (planted.new q listed), List.count_eq_one_of_mem planted.nodup listed, once]
    next =>
      rw [planted.get?_old listed] at found
      rw [List.count_eq_zero_of_not_mem listed, Nat.zero_add]
      exact (balanced.counted q c found).2.2
  · intro q big absent
    have unlisted : q ∉ ks := fun listed => by
      obtain ⟨d, here, -⟩ := planted.there q listed
      simp [absent] at here
    rw [inside big, List.count_eq_zero_of_not_mem unlisted, unused big (planted.get?_old unlisted ▸ absent)]
    exact .inr rfl

end Heap

namespace Link

variable {l l' : Link} {p : Ptr}

/-- Nothing has changed, but that the counters of pointers and of addresses may have moved on. -/
def Advanced (l l' : Link) : Prop :=
  ∃ n k, l.engine.heap.next ≤ n ∧ l.memory.next ≤ k ∧
    l' = { l with engine := { l.engine with
      heap := { l.engine.heap with next := n }
      memory := { l.memory with next := k } } }

def withCells (l : Link) (cells : Cells) : Link :=
  { l with engine := { l.engine with heap := { l.engine.heap with cells } } }

/-- There are new values, all of them reachable from one, and the host has one more reference, to that one.
Nothing else has changed. -/
structure Added (l : Link) (p : Ptr) (l' : Link) : Prop where
  others : Advanced (l.withCells l'.cells) l'
  known : l'.engine.heap.contains p = true
  planted : ∃ ks, Heap.Planted l.cells l'.cells ks ∧ ∀ k ∈ ks, Relation.ReflTransGen (Heap.Refers l'.cells) p k
  balanced : ∀ outside, Heap.Balanced 0 outside l.cells -> Heap.Balanced 0 (p :: outside) l'.cells

def Delivers (l : Link) : Except Error Ptr × Link -> Prop
  | (.ok p, l') => Added l p l'
  | (.error _, l') => Advanced l l'

theorem Same.advanced (same : Same l l') : Advanced l l' :=
  same.eq

theorem Changed.others (changed : Changed [] l l') : Advanced (l.withCells l'.cells) l' := by
  obtain ⟨cells, n, m, next, atop, rfl⟩ := changed
  exact ⟨n, m.next, next, atop.next, congrArg (l.moved cells n) atop.settled⟩

theorem Grown.added {v : Snapshot} (grown : Grown l v p l') : Added l p l' := by
  obtain ⟨ks, planted, shown⟩ := grown.planted
  have forest := shown.forest planted.there
  refine ⟨grown.changed.others, ?_, ⟨ks, planted, fun k member => ?_⟩, fun outside => planted.balanced forest grown.counted⟩
  · exact Heap.contains_iff.2 (shown.root.imp_right fun ⟨_, _, c, found, _⟩ => ⟨c, found⟩)
  · obtain ⟨q, root, path⟩ := forest.reached k member
    rwa [List.mem_singleton.1 root] at path

end Link

namespace Conversion

open Link

variable {l : Link}

/-- However a host has used the engine, conversions find it ready once its last error has been taken. -/
theorem ready_of_run (d : Discipline) (moves : List Move) (allowed : Hosting.start.Disciplined d moves)
    (numbered : d = .any -> (Hosting.start.run moves).engine.heap.next ≤ UInt32.size)
    (there : l.engine = (Hosting.start.run moves).engine) (clear : l.faults = Table.empty)
    (calm : l.engine.heap.exception = none) : l.Ready where
  clear := clear
  memory := by
    rw [Link.memory, there]
    exact (Hosting.run_sound moves Hosting.start_sound allowed).memory
  counted p c found := by
    have exact := (Hosting.run_sound moves Hosting.start_sound allowed).exact numbered
    obtain ⟨big, some, -⟩ := exact.counted p c (there ▸ found)
    exact ⟨big, some⟩
  calm := calm

theorem enough_of_limits {maxDepth maxBytes : Nat} {v : Snapshot} (depth : (v.need 0).depth ≤ maxDepth)
    (bytes : (v.need 0).bytes ≤ maxBytes) (room : l.Roomy (v.need 0).space (v.need 0).space) :
    Enough (.ofLimits maxDepth maxBytes) l (v.need 0) :=
  ⟨(Nat.zero_add _).trans_le depth, (Nat.zero_add _).trans_le bytes, room⟩

theorem toEngine_built (ready : l.Ready) (maxDepth : Nat) {maxBytes : Nat} (word : maxBytes < UInt64.size) (v : Snapshot) :
    Ends l (Enough (.ofLimits maxDepth maxBytes) l (v.need 0)) (fun p l' => Grown l v.engraved p l' ∧ l.Near l' (v.need 0).space)
      (answered (toEngine maxDepth maxBytes v) l) := by
  have ends := build_ends v (b := .ofLimits maxDepth maxBytes) ready word
  rw [toEngine, answered_bind]
  generalize answered (build (.ofLimits maxDepth maxBytes) v) l = r at *
  cases ends with
  | ok built => exact .ok built.2
  | error same unfit => exact .error same unfit

theorem toEngine_ends (ready : l.Ready) (maxDepth : Nat) {maxBytes : Nat} (word : maxBytes < UInt64.size) (v : Snapshot) :
    Ends l (Enough (.ofLimits maxDepth maxBytes) l (v.need 0)) (Grown l v.engraved)
      (answered (toEngine maxDepth maxBytes v) l) :=
  (toEngine_built ready maxDepth word v).imp id fun _ _ => And.left

theorem toEngine_delivers (ready : l.Ready) (maxDepth : Nat) {maxBytes : Nat} (word : maxBytes < UInt64.size) (v : Snapshot) :
    Delivers l (answered (toEngine maxDepth maxBytes v) l) := by
  have ends := toEngine_ends ready maxDepth word v
  generalize answered (toEngine maxDepth maxBytes v) l = r at *
  cases ends with
  | ok grown => exact grown.added
  | error same _ => exact same.advanced

theorem clean_fromEngine (maxDepth maxBytes : Nat) (p : Ptr) : Clean (fromEngine maxDepth maxBytes p) l :=
  clean_bind (clean_read _ _ _ _) fun _ _ _ _ => clean_pure _

def cramped : Link :=
  { Link.empty with engine := { Engine.empty with
    memory := { Memory.empty with limit := some 30 }
    heap := { Heap.empty with
      cells := Table.empty.set 16 ⟨1, .string "more than thirty bytes of text at once"⟩
      next := 17 } } }

theorem cramped_ready : cramped.Ready where
  clear := rfl
  memory := Memory.wellFormed_empty.of_layout rfl rfl rfl
  counted := Heap.Counted.set (by simp [Heap.Counted]) (by decide) (Nat.le_refl 1)
  calm := rfl

end Conversion

end ScriptHost
