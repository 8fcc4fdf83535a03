import Mathlib.Data.List.Range
import ScriptHost.Proofs.Engine.Fates

set_option autoImplicit false

/-!
A ticket for every reaction that is attached.

A reaction is stored with its promise until that settles, and then becomes a job. If the promise goes first, so
does the reaction. `Books` says that tickets and promises agree; a dealing is one thing that happens to both.
-/

namespace ScriptHost

/-- Where a reaction is, as far as its promise has to do with it. -/
inductive Place where
  | stored
  -- In the job with this number, for what its promise has settled with.
  | job (n : Nat) (v : Ptr) (rejected : Bool)
  | discarded
  deriving DecidableEq

structure Ticket where
  source : Ptr
  reaction : Reaction
  place : Place
  deriving DecidableEq

namespace Ticket

/-- What the ticket is for. -/
def attachment (t : Ticket) : Ptr × Reaction :=
  (t.source, t.reaction)

def number? (t : Ticket) : Option Nat :=
  match t.place with
  | .job n _ _ => some n
  | _ => none

def isStored (p : Ptr) (t : Ticket) : Bool :=
  decide (t.source = p) && decide (t.place = .stored)

/-- Once its promise is gone, a reaction that was stored is discarded. -/
def without (a : Affairs) (t : Ticket) : Ticket :=
  if t.place = .stored ∧ a.promises.get? t.source = none then { t with place := .discarded } else t

/-- Reactions of one promise become jobs in the order of their attachment. -/
def Before (t u : Ticket) : Prop :=
  t.source = u.source -> ∀ n, u.number? = some n -> t.place ≠ .stored ∧ ∀ m, t.number? = some m -> m < n

/-- What a promise that settles makes of its reactions. -/
def turned (p v : Ptr) (rejected : Bool) : Nat -> List Ticket -> List Ticket
  | _, [] => []
  | n, t :: rest =>
      if t.isStored p then { t with place := .job n v rejected } :: turned p v rejected (n + 1) rest
      else t :: turned p v rejected n rest

variable {p q v : Ptr} {rejected : Bool} {T : List Ticket} {t t' : Ticket} {a : Affairs} {n : Nat}

theorem isStored_iff : t.isStored p = true ↔ t.source = p ∧ t.place = .stored := by
  simp [isStored]

theorem without_source : (t.without a).source = t.source := by
  unfold without
  split <;> rfl

theorem without_reaction : (t.without a).reaction = t.reaction := by
  unfold without
  split <;> rfl

theorem without_number : (t.without a).number? = t.number? := by
  unfold without
  split
  next gone => simp [number?, gone.1]
  next => rfl

theorem without_stored (stored : (t.without a).place = .stored) : t.without a = t ∧ ∃ r, a.promises.get? t.source = some r := by
  unfold without at stored ⊢
  split at stored
  next => cases stored
  next kept =>
    rw [if_neg kept]
    exact ⟨rfl, Option.ne_none_iff_exists'.1 fun gone => kept ⟨stored, gone⟩⟩

theorem without_job {m : Nat} (placed : (t.without a).place = .job m v rejected) : t.place = .job m v rejected := by
  unfold without at placed
  split at placed
  next => cases placed
  next => exact placed

theorem without_eq : t.without a = t ∨ t.place = .stored ∧ a.promises.get? t.source = none ∧ t.without a = { t with place := .discarded } := by
  unfold without
  split
  next gone => exact .inr ⟨gone.1, gone.2, rfl⟩
  next => exact .inl rfl

theorem attachment_without : (t.without a).attachment = t.attachment :=
  Prod.ext without_source without_reaction

theorem attachment_turned (p v : Ptr) (rejected : Bool) (n : Nat) (T : List Ticket) :
    (turned p v rejected n T).map attachment = T.map attachment := by
  induction T generalizing n with
  | nil => rfl
  | cons t rest ih =>
    rw [turned]
    split
    next => exact congrArg (t.attachment :: ·) (ih _)
    next => exact congrArg (t.attachment :: ·) (ih _)

theorem map_source (T : List Ticket) : T.map source = (T.map attachment).map Prod.fst := by
  rw [List.map_map]
  rfl

theorem filter_turned (other : q ≠ p) (n : Nat) : (turned p v rejected n T).filter (isStored q) = T.filter (isStored q) := by
  induction T generalizing n with
  | nil => rfl
  | cons t rest ih =>
    rw [turned]
    split
    next stored =>
      obtain ⟨source, -⟩ := isStored_iff.1 stored
      have elsewhere : t.isStored q = false := by simp [isStored, source, Ne.symm other]
      have placed : isStored q { t with place := .job n v rejected } = false := by simp [isStored]
      rw [List.filter_cons_of_neg (by simp [placed]), List.filter_cons_of_neg (by simp [elsewhere]), ih]
    next => rw [List.filter_cons, List.filter_cons, ih]

/-- The tickets that were stored with the promise are numbered one after the other. -/
theorem mem_turned (member : t' ∈ turned p v rejected n T) :
    (t' ∈ T ∧ t'.isStored p = false) ∨
      ∃ (i : Nat) (t : Ticket), (T.filter (isStored p))[i]? = some t ∧ t' = { t with place := .job (n + i) v rejected } := by
  induction T generalizing n with
  | nil => cases member
  | cons t rest ih =>
    rw [turned] at member
    split at member
    next stored =>
      rcases List.mem_cons.1 member with rfl | later
      next => exact .inr ⟨0, t, by simp [stored], rfl⟩
      next =>
        refine (ih later).imp (.imp_left (List.mem_cons_of_mem _)) ?_
        rintro ⟨i, u, found, same⟩
        refine ⟨i + 1, u, by simpa [stored] using found, ?_⟩
        rw [same, Nat.add_assoc, Nat.add_comm 1]
    next unstored =>
      rcases List.mem_cons.1 member with rfl | later
      next => exact .inl ⟨List.mem_cons_self, Bool.eq_false_iff.2 unstored⟩
      next =>
        refine (ih later).imp (.imp_left (List.mem_cons_of_mem _)) ?_
        rintro ⟨i, u, found, same⟩
        exact ⟨i, u, by simpa [unstored] using found, same⟩

/-- A ticket that is not stored with the promise stays what it is. -/
theorem getElem?_turned {i : Nat} (n : Nat) (found : T[i]? = some t) :
    (turned p v rejected n T)[i]? = some t ∨
      t.isStored p = true ∧ ∃ m, (turned p v rejected n T)[i]? = some { t with place := .job m v rejected } := by
  induction T generalizing n i with
  | nil => cases found
  | cons first rest ih =>
    rw [turned]
    cases i with
    | zero =>
      obtain rfl := Option.some.inj found
      split
      next stored => exact .inr ⟨stored, n, rfl⟩
      next => exact .inl rfl
    | succ i =>
      split
      next => exact ih (n + 1) found
      next => exact ih n found

theorem numbers_turned (n : Nat) :
    ((turned p v rejected n T).filterMap number?).Perm
      (T.filterMap number? ++ List.range' n (T.filter (isStored p)).length) := by
  induction T generalizing n with
  | nil => exact .refl _
  | cons t rest ih =>
    rw [turned]
    split
    next stored =>
      have unnumbered : t.number? = none := by simp [number?, (isStored_iff.1 stored).2]
      rw [List.filterMap_cons_none unnumbered, List.filter_cons_of_pos stored, List.length_cons, List.range'_succ]
      exact ((ih (n + 1)).cons n).trans List.perm_middle.symm
    next unstored =>
      rw [List.filter_cons_of_neg (by simpa using unstored)]
      cases number : t.number? with
      | none =>
        rw [List.filterMap_cons_none number, List.filterMap_cons_none number]
        exact ih n
      | some m =>
        rw [List.filterMap_cons_some number, List.filterMap_cons_some number]
        exact (ih n).cons m

/-- Where all numbers so far are smaller, new ones keep the order. -/
theorem ordered_turned (ordered : T.Pairwise Before) (small : ∀ t ∈ T, ∀ m, t.number? = some m -> m < n) {k : Nat} (later : n ≤ k) :
    (turned p v rejected k T).Pairwise Before := by
  induction T generalizing k with
  | nil => exact .nil
  | cons t rest ih =>
    obtain ⟨first, others⟩ := List.pairwise_cons.1 ordered
    have below := fun (k : Nat) => @ih others (fun u member => small u (List.mem_cons_of_mem _ member)) k
    have numbers {u : Ticket} {k : Nat} (member : u ∈ turned p v rejected k rest) (m : Nat) (number : u.number? = some m) :
        (∃ u' ∈ rest, u'.source = u.source ∧ u'.number? = some m) ∨ k ≤ m ∧ u.source = p ∧ ∃ u' ∈ rest, u'.isStored p = true := by
      rcases mem_turned member with ⟨old, -⟩ | ⟨i, u', found, rfl⟩
      next => exact .inl ⟨u, old, rfl, number⟩
      next =>
        obtain ⟨inside, stored⟩ := List.mem_filter.1 (List.mem_of_getElem? found)
        obtain rfl : k + i = m := by simpa [number?] using number
        exact .inr ⟨Nat.le_add_right k i, (isStored_iff.1 stored).1, u', inside, stored⟩
    rw [turned]
    split
    next stored =>
      obtain ⟨source, place⟩ := isStored_iff.1 stored
      refine List.pairwise_cons.2 ⟨fun u member same m number => ⟨by simp, fun m' own => ?_⟩, below (k + 1) (by omega)⟩
      obtain rfl : k = m' := by simpa [number?] using own
      rcases numbers member m number with ⟨u', inside, sources, old⟩ | ⟨more, -⟩
      next => exact absurd place (first u' inside (same.trans sources.symm) m old).1
      next => exact more
    next unstored =>
      refine List.pairwise_cons.2 ⟨fun u member same m number => ?_, below k later⟩
      rcases numbers member m number with ⟨u', inside, sources, old⟩ | ⟨more, source, -⟩
      next => exact first u' inside (same.trans sources.symm) m old
      next =>
        refine ⟨fun place => unstored (isStored_iff.2 ⟨same.trans source, place⟩), fun m' own => ?_⟩
        have := small t List.mem_cons_self m' own
        omega

end Ticket

end ScriptHost
