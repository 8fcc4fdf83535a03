import ScriptHost.Proofs.Dispatcher.Callings
import ScriptHost.Proofs.Engine.Resolving
import ScriptHost.Proofs.Link.Looking

set_option autoImplicit false

/-!
What host code on the worker has at its desk: handles, and through them references to values.

A handle that was made in passing is gone without a trace once it is discarded.
-/

namespace ScriptHost

namespace Desk

variable {s s' t u : Desk} {h x f e : Handle} {p q : Ptr} {l : Link} {outside : List Ptr} {r : ReferenceId}

/-- The worker may use the engine, which is ready, and references are numbered. -/
structure Usable (s : Desk) : Prop where
  opened : s.vault.closed = false
  ready : s.link.Ready
  fresh : ∀ r ∈ s.vault.alive, r < s.vault.nextReference

/-- All references to values from outside of the engine are these. -/
structure Sound (outside : List Ptr) (s : Desk) : Prop extends Usable s where
  accounted : s.heap.Accounted 0 outside

structure Owns (s : Desk) (h : Handle) (r : ReferenceId) : Prop where
  owned : h.ownership = .owned
  reference : h.reference = some r
  alive : r ∈ s.vault.alive

def owning (s : Desk) : Desk :=
  s.withVault s.vault.withNew

/-- The handle that is made next. -/
def fresh (s : Desk) (p : Ptr) : Handle :=
  ⟨p, .owned, some s.vault.nextReference⟩

/-- Everything but the link is as it was, except that references may have been named in between. -/
structure Kept (s t : Desk) : Prop where
  closed : t.vault.closed = s.vault.closed
  alive : t.vault.alive = s.vault.alive
  next : s.vault.nextReference ≤ t.vault.nextReference
  deferreds : t.deferreds = s.deferreds
  config : t.config = s.config

/-- There is one more handle. -/
structure Gained (s t : Desk) (x : Handle) (r : ReferenceId) : Prop where
  owned : x.ownership = .owned
  reference : x.reference = some r
  new : s.vault.nextReference ≤ r
  closed : t.vault.closed = s.vault.closed
  alive : t.vault.alive = r :: s.vault.alive
  next : r < t.vault.nextReference
  deferreds : t.deferreds = s.deferreds
  config : t.config = s.config

theorem Owns.isAlive (owns : s.Owns h r) : h.isAlive s.vault = true := by
  simp [Handle.isAlive, owns.reference, owns.alive]

theorem Usable.unnamed (usable : s.Usable) (new : s.vault.nextReference ≤ r) : ∀ a ∈ s.vault.alive, a ≠ r :=
  fun a member => Nat.ne_of_lt (Nat.lt_of_lt_of_le (usable.fresh a member) new)

theorem Kept.refl (s : Desk) : s.Kept s :=
  ⟨rfl, rfl, Nat.le_refl _, rfl, rfl⟩

theorem Kept.withLink (kept : s.Kept t) (l : Link) : s.Kept (t.withLink l) :=
  ⟨kept.closed, kept.alive, kept.next, kept.deferreds, kept.config⟩

theorem Kept.gained (kept : s.Kept t) (p : Ptr) : s.Gained t.owning (t.fresh p) t.vault.nextReference where
  owned := rfl
  reference := rfl
  new := kept.next
  closed := kept.closed
  alive := congrArg (List.cons t.vault.nextReference) kept.alive
  next := Nat.lt_succ_self _
  deferreds := kept.deferreds
  config := kept.config

namespace Gained

theorem withLink (gained : s.Gained t x r) (l : Link) : s.Gained (t.withLink l) x r :=
  { gained with }

theorem owns (gained : s.Gained t x r) : t.Owns x r :=
  ⟨gained.owned, gained.reference, gained.alive ▸ List.mem_cons_self⟩

theorem still (gained : s.Gained t x r) (kept : t.Kept u) : s.Gained u x r where
  owned := gained.owned
  reference := gained.reference
  new := gained.new
  closed := kept.closed.trans gained.closed
  alive := kept.alive.trans gained.alive
  next := Nat.lt_of_lt_of_le gained.next kept.next
  deferreds := kept.deferreds.trans gained.deferreds
  config := kept.config.trans gained.config

end Gained

section Discarding

theorem released_granted (opened : s.vault.closed = false) (clear : s.link.faults = Table.empty)
    (alive : h.isAlive s.vault = true) (owned : h.ownership = .owned) :
    outcome (h.release .worker) s.vault = (.ok (), { s.vault.without h with link := s.link.released h.ptr }) := by
  rw [Handle.release_granted alive owned opened (Link.direct_of_faultless clear _), Link.freed_released]

theorem discarding_owned (opened : s.vault.closed = false) (clear : s.link.faults = Table.empty) (owns : s.Owns h r) :
    s.discarding h = s.withVault { s.vault.without h with link := s.link.released h.ptr } := by
  rw [discarding, Handle.discard_run, if_pos ⟨owns.isAlive, owns.owned, opened, rfl⟩,
    released_granted opened clear owns.isAlive owns.owned]

/-- A handle that is discarded either goes with its reference or does nothing. -/
theorem discarding_cases (opened : s.vault.closed = false) (clear : s.link.faults = Table.empty) (h : Handle) :
    s.discarding h = s ∨ s.discarding h = s.withVault { s.vault.without h with link := s.link.released h.ptr } := by
  rw [discarding, Handle.discard_run]
  split
  next granted =>
    rw [released_granted opened clear granted.1 granted.2.1]
    exact .inr rfl
  next => exact .inl rfl

theorem filter_new {alive : List ReferenceId} (new : ∀ a ∈ alive, a ≠ r) :
    (r :: alive).filter (fun a => !decide (some r = some a)) = alive := by
  rw [List.filter_cons_of_neg (by simp), List.filter_eq_self]
  intro a member
  simpa using Ne.symm (new a member)

/-- Whatever the engine says to it, the reference of a handle that is discarded is gone. -/
theorem discarding_without (opened : s.vault.closed = false) (owned : h.ownership = .owned) :
    ∃ l, s.discarding h = s.withVault { s.vault.without h with link := l } := by
  rw [discarding, Handle.discard_run]
  cases alive : h.isAlive s.vault with
  | true =>
    rw [if_pos ⟨rfl, owned, opened, rfl⟩, Handle.release_alive alive owned opened]
    exact ⟨_, rfl⟩
  | false =>
    rw [if_neg fun granted => Bool.false_ne_true granted.1]
    refine ⟨s.link, congrArg s.withVault ?_⟩
    unfold Handle.isAlive at alive
    split at alive
    next => cases alive
    next r reference =>
      have none_left : s.vault.alive.filter (fun a => !decide (h.reference = some a)) = s.vault.alive := by
        rw [List.filter_eq_self]
        intro a member
        rw [reference, Bool.not_eq_true', decide_eq_false_iff_not, Option.some.injEq]
        rintro rfl
        rw [List.contains_eq_mem, decide_eq_false_iff_not] at alive
        exact alive member
      simp only [Vault.without, none_left]

/-- What is gained is lost again. -/
theorem Gained.lost (gained : s.Gained t x r) (opened : s.vault.closed = false)
    (fresh : ∀ a ∈ s.vault.alive, a < s.vault.nextReference) : s.Kept (t.discarding x) := by
  obtain ⟨l, without⟩ := discarding_without (gained.closed.trans opened) gained.owned
  rw [without]
  refine ⟨gained.closed, ?_, Nat.le_trans gained.new (Nat.le_of_lt gained.next), gained.deferreds, gained.config⟩
  have unnamed (a : ReferenceId) (member : a ∈ s.vault.alive) : a ≠ r :=
    Nat.ne_of_lt (Nat.lt_of_lt_of_le (fresh a member) gained.new)
  change t.vault.alive.filter (fun a => !decide (x.reference = some a)) = s.vault.alive
  rw [gained.reference, gained.alive, filter_new unnamed]

theorem Gained.discarding (gained : s.Gained t x r) (usable : s.Usable) (clear : t.link.faults = Table.empty) :
    s.Kept (t.discarding x) ∧ (t.discarding x).link = t.link.released x.ptr := by
  refine ⟨gained.lost usable.opened usable.fresh, ?_⟩
  rw [discarding_owned (gained.closed.trans usable.opened) clear gained.owns]
  rfl

/-- Of two handles that were gained the first goes. -/
theorem Gained.passing {r' : ReferenceId} (first : s.Gained t f r) (second : t.Gained u e r') (usable : s.Usable)
    (clear : u.link.faults = Table.empty) :
    s.Gained (u.discarding f) e r' ∧ (u.discarding f).link = u.link.released f.ptr := by
  have owns : u.Owns f r := ⟨first.owned, first.reference, by simp [second.alive, first.alive]⟩
  have later : r < r' := Nat.lt_of_lt_of_le first.next second.new
  rw [discarding_owned (second.closed.trans (first.closed.trans usable.opened)) clear owns]
  refine ⟨⟨second.owned, second.reference, Nat.le_trans first.new (Nat.le_of_lt later), second.closed.trans first.closed, ?_,
    second.next, second.deferreds.trans first.deferreds, second.config.trans first.config⟩, rfl⟩
  change u.vault.alive.filter (fun a => !decide (f.reference = some a)) = r' :: s.vault.alive
  have other : (!decide (some r = some r')) = true := by simpa using Nat.ne_of_lt later
  rw [first.reference, second.alive, List.filter_cons_of_pos (p := fun a => !decide (some r = some a)) other, first.alive,
    filter_new (usable.unnamed first.new)]

end Discarding

section Sound

theorem Usable.still (usable : s.Usable) (kept : s.Kept t) (ready : t.link.Ready) : t.Usable where
  opened := kept.closed.trans usable.opened
  ready := ready
  fresh a member := Nat.lt_of_lt_of_le (usable.fresh a (kept.alive ▸ member)) kept.next

theorem Usable.more (usable : s.Usable) (gained : s.Gained t x r) (ready : t.link.Ready) : t.Usable where
  opened := gained.closed.trans usable.opened
  ready := ready
  fresh a member := by
    rcases List.mem_cons.1 (gained.alive ▸ member) with rfl | old
    · exact gained.next
    · exact Nat.lt_trans (Nat.lt_of_lt_of_le (usable.fresh a old) gained.new) gained.next

theorem Sound.congr {outside' : List Ptr} (sound : s.Sound outside)
    (same : ∀ q, Ptr.firstCounted ≤ q -> outside'.count q = outside.count q) : s.Sound outside' :=
  ⟨sound.toUsable, sound.accounted.congr same⟩

theorem Sound.discarding {before : List Ptr} (sound : s.Sound (before ++ h.ptr :: outside)) :
    ∃ more, (s.discarding h).Sound (more ++ outside) ∧ s.heap.Sheds (s.discarding h).heap := by
  rcases discarding_cases sound.opened sound.ready.clear h with same | gone
  · rw [same]
    refine ⟨before ++ [h.ptr], ?_, .refl _⟩
    rwa [List.append_assoc]
  · rw [gone]
    have held : s.heap.Accounted 0 (h.ptr :: (before ++ outside)) := sound.accounted.congr fun q _ => by
      simp only [List.count_append, List.count_cons]
      omega
    have accounted : (s.heap.release h.ptr).Accounted 0 (before ++ outside) := held.release
    have ready : (s.link.released h.ptr).Ready :=
      ⟨sound.ready.clear, sound.ready.memory, accounted.counted, sound.ready.calm⟩
    refine ⟨before, ⟨⟨sound.opened, ready, fun a member => ?_⟩, accounted⟩, Heap.sheds_releaseAll _ _⟩
    exact sound.fresh a (List.mem_filter.1 member).1

theorem owns_discarding (opened : s.vault.closed = false) (clear : s.link.faults = Table.empty) (owns : s.Owns x r)
    (other : h.reference ≠ some r) : (s.discarding h).Owns x r := by
  rcases discarding_cases opened clear h with same | gone
  · rw [same]
    exact owns
  · rw [gone]
    exact ⟨owns.owned, owns.reference, List.mem_filter.2 ⟨owns.alive, by simpa using other⟩⟩

/-- Two functions are let go, and then what a call returned. -/
theorem Sound.letting_go {c c' : Handle} (sound : s.Sound (c.ptr :: c'.ptr :: outside)) (owns : s.Owns x r)
    (other : c.reference ≠ some r) (other' : c'.reference ≠ some r) (undefined : x.ptr = Ptr.undefined) :
    ((s.discarding c).discarding c').Usable ∧ ((s.discarding c).discarding c').Owns x r ∧
      ∃ more, (((s.discarding c).discarding c').discarding x).Sound (more ++ outside) ∧
        s.heap.Sheds (((s.discarding c).discarding c').discarding x).heap := by
  have sound₁ : s.Sound ([] ++ c.ptr :: c'.ptr :: x.ptr :: outside) := sound.congr fun q big => by
    have small : x.ptr ≠ q := by
      rintro rfl
      exact absurd big (undefined ▸ by decide)
    simp [List.count_cons, small]
  obtain ⟨more₂, sound₂, sheds₂⟩ := sound₁.discarding
  obtain ⟨more₃, sound₃, sheds₃⟩ := sound₂.discarding
  obtain ⟨more₄, sound₄, sheds₄⟩ := sound₃.discarding
  have owns₂ := owns_discarding sound₁.opened sound₁.ready.clear owns other
  have owns₃ := owns_discarding sound₂.opened sound₂.ready.clear owns₂ other'
  exact ⟨sound₃.toUsable, owns₃, more₄, sound₄, sheds₂.trans (sheds₃.trans sheds₄)⟩

end Sound

end Desk

end ScriptHost
