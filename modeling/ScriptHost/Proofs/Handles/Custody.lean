import ScriptHost.Proofs.Engine.Hosting
import ScriptHost.Proofs.Handles.Operations

set_option autoImplicit false

/-!
A program that holds values of the engine by handles.

What the program does with handles, on any thread, mixes with whatever else goes on in the engine. The
references of handles that are alive are part of what the program owns, and nobody else gives them up.
-/

namespace ScriptHost

/-- What is done with the handles made so far, or elsewhere to the engine. -/
inductive Deed where
  | own (p : Ptr)
  | duplicate (i : Nat) (t : Thread)
  | borrow (i : Nat)
  | release (i : Nat) (t : Thread)
  | handOver (i : Nat) (t : Thread)
  | sameValue (i j : Nat) (t : Thread)
  | discard (i : Nat) (t : Thread)
  | close (t : Thread)
  | elsewhere (m : Move)

structure Custody where
  vault : Vault
  -- All references that the program owns, by handles or without.
  owned : List Ptr
  waiting : List Waiting
  handles : List Handle
  -- The references of all owned handles there ever were, with their pointers.
  opened : List (ReferenceId × Ptr)
  -- Those that handles had the engine free.
  freed : List ReferenceId
  -- Those that handles have given away.
  handedOver : List ReferenceId

namespace Custody

def start : Custody :=
  ⟨.ofLink .empty, [], [], [], [], [], []⟩

def hosting (s : Custody) : Hosting :=
  ⟨s.vault.link.engine, s.owned, s.waiting⟩

def heldBy (alive : List ReferenceId) (opened : List (ReferenceId × Ptr)) : List Ptr :=
  (opened.filter fun e => alive.contains e.1).map Prod.snd

def held (s : Custody) : List Ptr :=
  heldBy s.vault.alive s.opened

def enroll (s : Custody) (h : Handle) : Custody :=
  { s with handles := s.handles ++ [h], opened := h.reference.toList.map (fun r => (r, h.ptr)) ++ s.opened }

def spend (s : Custody) (h : Handle) : Custody :=
  { s with owned := s.owned.erase h.ptr, freed := h.reference.toList ++ s.freed }

def duplicate (s : Custody) (h : Handle) (t : Thread) : Custody :=
  match outcome (h.duplicate t) s.vault with
  | (.ok d, vault) => { s with vault, owned := d.ptr :: s.owned }.enroll d
  | (.error _, vault) => { s with vault }

def borrow (s : Custody) (h : Handle) : Custody :=
  match h.borrow s.vault with
  | .ok view => { s with handles := s.handles ++ [view] }
  | .error _ => s

def release (s : Custody) (h : Handle) (t : Thread) : Custody :=
  match outcome (h.release t) s.vault with
  | (.ok (), vault) => { s with vault }.spend h
  | (.error _, vault) => { s with vault }

/-- The pointer that is handed over stands for a reference that is the program's own from then on. -/
def handOver (s : Custody) (h : Handle) (t : Thread) : Custody :=
  match outcome (h.handOver t) s.vault with
  | (.ok p, vault) =>
      if h.isOwned then { s with vault, handedOver := h.reference.toList ++ s.handedOver }
      else { s with vault, owned := p :: s.owned }
  | (.error _, vault) => { s with vault }

def discard (s : Custody) (h : Handle) (t : Thread) : Custody :=
  let vault := ((h.discard t).run s.vault).2
  if h.isOwned && h.isAlive s.vault && !h.isAlive vault then { s with vault }.spend h else { s with vault }

def close (s : Custody) (t : Thread) : Custody :=
  match s.vault.access t "close engine" with
  | .ok () => { s with vault := { s.vault with closed := true } }
  | .error _ => s

def elsewhere (s : Custody) (m : Move) : Custody :=
  let h := s.hosting.step m
  { s with
    vault := { s.vault with link := s.vault.link.withEngine h.engine }
    owned := h.owned
    waiting := h.waiting }

def withHandle (s : Custody) (i : Nat) (f : Handle -> Custody) : Custody :=
  match s.handles[i]? with
  | some h => f h
  | none => s

def step (s : Custody) : Deed -> Custody
  | .own p =>
      let (h, vault) := (Vault.own p).run s.vault
      { s with vault }.enroll h
  | .duplicate i t => s.withHandle i fun h => s.duplicate h t
  | .borrow i => s.withHandle i s.borrow
  | .release i t => s.withHandle i fun h => s.release h t
  | .handOver i t => s.withHandle i fun h => s.handOver h t
  | .sameValue i j t =>
      s.withHandle i fun a => s.withHandle j fun b =>
        { s with vault := (outcome (a.sameValue b t) s.vault).2 }
  | .discard i t => s.withHandle i fun h => s.discard h t
  | .close t => s.close t
  | .elsewhere m => s.elsewhere m

def run (s : Custody) (deeds : List Deed) : Custody :=
  deeds.foldl step s

/-- A handle is made for a reference that no other handle has, and nobody gives up the references of
handles while the engine is open. -/
def Allowed (s : Custody) : Deed -> Prop
  | .own p =>
      s.vault.closed = false ->
        p.isStatic = true ∨ (Ptr.firstCounted ≤ p ∧ s.held.count p < s.owned.count p)
  | .elsewhere m =>
      s.vault.closed = false ->
        s.hosting.Allowed .owning m ∧
          ∀ p, Ptr.firstCounted ≤ p -> s.held.count p ≤ (s.hosting.step m).owned.count p
  | _ => True

def Disciplined (s : Custody) : List Deed -> Prop
  | [] => True
  | d :: rest => s.Allowed d ∧ Disciplined (s.step d) rest

/-- What the program can rely on. An operation that is refused does not reach the engine: it comes to the same
whatever the link, which it leaves alone. -/
structure Lawful (s : Custody) : Prop where
  counted : s.vault.liveHandles + (s.freed.length + s.handedOver.length) = s.opened.length
  once : (s.freed ++ s.handedOver).Nodup ∧ ∀ r ∈ s.freed ++ s.handedOver, r ∈ s.opened.map Prod.fst
  exact : s.vault.closed = false -> s.hosting.Exact .owning
  backed : s.vault.closed = false -> ∀ p, Ptr.firstCounted ≤ p -> s.held.count p ≤ s.owned.count p
  live : s.vault.closed = false -> ∀ h ∈ s.handles, h.isAlive s.vault = true ->
    s.vault.link.engine.heap.contains h.ptr = true
  views : ∀ h view : Handle, h.borrow s.vault = .ok view ->
    view.reference = h.reference ∧ view.ptr = h.ptr
  dead : ∀ r ∈ s.freed ++ s.handedOver, ∀ h : Handle, h.reference = some r ->
    ∀ (link : Link) (v : Vault), v = { s.vault with link } ->
      h.raw v = .error Handle.deadError ∧ h.borrow v = .error Handle.deadError ∧
        ∀ t, outcome (h.duplicate t) v = (.error Handle.deadError, v) ∧
          outcome (h.release t) v = (.error Handle.deadError, v)
  refused : ∀ t, s.vault.closed = true ∨ t = .other -> ∀ h : Handle, h.isAlive s.vault = true ->
    ∀ (link : Link) (v : Vault), v = { s.vault with link } ->
      outcome (h.duplicate t) v = (.error (v.refusal "duplicate handle"), v) ∧
        (h.ownership = .owned -> outcome (h.release t) v = (.error (v.refusal "release handle"), v)) ∧
        ∀ h' : Handle, h'.isAlive s.vault = true ->
          outcome (h.sameValue h' t) v = (.error (v.refusal "compare handles"), v)
  retried : s.vault.closed = false -> ∀ h : Handle, h.isAlive s.vault = true -> h.ownership = .owned ->
    h.reference ≠ none -> (outcome (h.release .worker) s.vault).1 = .ok () ∧
      h.isAlive (outcome (h.release .worker) s.vault).2 = false

structure Kept (s : Custody) : Prop where
  direct : s.vault.link.faults = Table.empty
  fresh : ∀ e ∈ s.opened, e.1 < s.vault.nextReference
  distinct : (s.opened.map Prod.fst).Nodup
  known : ∀ h ∈ s.handles, ∃ r, h.reference = some r ∧ (r, h.ptr) ∈ s.opened
  parted : (s.vault.alive ++ (s.freed ++ s.handedOver)).Perm (s.opened.map Prod.fst)
  sound : s.vault.closed = false -> s.hosting.Sound .owning
  nameable : s.vault.closed = false -> ∀ e ∈ s.opened, e.2.isStatic = true ∨ Ptr.firstCounted ≤ e.2
  backed : s.vault.closed = false -> ∀ p, Ptr.firstCounted ≤ p -> s.held.count p ≤ s.owned.count p

variable {s : Custody} {h : Handle} {t : Thread} {p : Ptr} {r : ReferenceId} {link : Link}
  {owned : List Ptr}

theorem heldBy_new {alive : List ReferenceId} {opened : List (ReferenceId × Ptr)} {n : ReferenceId}
    (fresh : ∀ e ∈ opened, e.1 < n) : heldBy (n :: alive) ((n, p) :: opened) = p :: heldBy alive opened := by
  have rest : opened.filter (fun e => (n :: alive).contains e.1) =
      opened.filter fun e => alive.contains e.1 := by
    apply List.filter_congr
    intro e member
    have other : e.1 ≠ n := Nat.ne_of_lt (fresh e member)
    simp [other]
  simp only [heldBy]
  rw [List.filter_cons_of_pos (by simp), rest, List.map_cons]

theorem count_heldBy_without {alive : List ReferenceId} {opened : List (ReferenceId × Ptr)}
    (distinct : (opened.map Prod.fst).Nodup) (member : (r, p) ∈ opened) (alive_ : r ∈ alive) (q : Ptr) :
    (heldBy alive opened).count q =
      (heldBy (alive.filter fun a => !decide (r = a)) opened).count q + [p].count q := by
  induction opened with
  | nil => simp at member
  | cons e rest ih =>
    obtain ⟨first, others⟩ := List.nodup_cons.1 distinct
    by_cases same : e.1 = r
    next =>
      subst same
      obtain rfl : e.2 = p := by
        rcases List.mem_cons.1 member with here | later
        · rw [← here]
        · exact absurd (List.mem_map_of_mem later) first
      have kept : rest.filter (fun e' => (alive.filter fun a => !decide (e.1 = a)).contains e'.1) =
          rest.filter fun e' => alive.contains e'.1 := by
        apply List.filter_congr
        intro e' among
        have other : e.1 ≠ e'.1 := fun h => first (h ▸ List.mem_map_of_mem among)
        simp [other]
      simp only [heldBy]
      rw [List.filter_cons_of_pos (by simpa using alive_), List.filter_cons_of_neg (by simp), kept]
      simp only [List.map_cons, List.count_cons, List.count_nil]
      omega
    next =>
      have later : (r, p) ∈ rest := by
        rcases List.mem_cons.1 member with here | later
        · exact absurd (by rw [← here]) same
        · exact later
      have counted := ih others later
      have apart : r ≠ e.1 := fun h => same h.symm
      simp only [heldBy, List.filter_cons] at *
      by_cases lives : alive.contains e.1 = true
      next =>
        have kept : (alive.filter fun a => !decide (r = a)).contains e.1 = true := by
          simpa [apart] using lives
        rw [if_pos lives, if_pos kept]
        simp only [List.map_cons, List.count_cons, List.count_nil] at *
        omega
      next =>
        have gone : ¬(alive.filter fun a => !decide (r = a)).contains e.1 = true := by
          simpa [apart] using lives
        rw [if_neg lives, if_neg gone]
        exact counted

theorem alive_iff (known : h.reference = some r) (v : Vault) : h.isAlive v = true ↔ r ∈ v.alive := by
  simp [Handle.isAlive, known]

theorem dead_of_not_mem (known : h.reference = some r) {v : Vault} (gone : r ∉ v.alive) :
    h.isAlive v = false := by
  simp [Handle.isAlive, known, gone]

theorem perm_without {alive : List ReferenceId} (distinct : alive.Nodup) (member : r ∈ alive) :
    (r :: alive.filter fun a => !decide (r = a)).Perm alive := by
  have same : (alive.filter fun a => !decide (r = a)) = alive.erase r := by
    rw [distinct.erase_eq_filter]
    apply List.filter_congr
    intro a _
    by_cases h : r = a
    next => simp [h]
    next => simp [h, Ne.symm h]
  rw [same]
  exact (List.perm_cons_erase member).symm

namespace Kept

theorem alive_nodup (k : s.Kept) : s.vault.alive.Nodup :=
  (List.nodup_append.1 (k.parted.nodup_iff.2 k.distinct)).1

theorem gone (k : s.Kept) (ended : r ∈ s.freed ++ s.handedOver) : r ∉ s.vault.alive := by
  intro alive
  have apart := (List.nodup_append.1 (k.parted.nodup_iff.2 k.distinct)).2.2
  exact apart r alive r ended rfl

theorem enrolled (k : s.Kept) (direct : link.faults = Table.empty)
    (sound : s.vault.closed = false -> Hosting.Sound .owning ⟨link.engine, owned, s.waiting⟩)
    (nameable : s.vault.closed = false -> p.isStatic = true ∨ Ptr.firstCounted ≤ p)
    (backed : s.vault.closed = false -> ∀ q, Ptr.firstCounted ≤ q ->
      (p :: s.held).count q ≤ owned.count q) :
    ({ s with vault := { s.vault.withNew with link }, owned }.enroll
      ⟨p, .owned, some s.vault.nextReference⟩).Kept := by
  -- The new reference has a number of its own, greater than all before.
  constructor
  case direct => exact direct
  case fresh =>
    intro e member
    rcases List.mem_cons.1 member with rfl | old
    · exact Nat.lt_succ_self _
    · exact Nat.lt_succ_of_lt (k.fresh e old)
  case distinct =>
    refine List.nodup_cons.2 ⟨fun old => ?_, k.distinct⟩
    obtain ⟨e, member, same⟩ := List.mem_map.1 old
    exact absurd (k.fresh e member) (by simp [same])
  case known =>
    intro h member
    rcases List.mem_append.1 member with old | new
    · obtain ⟨r, known, among⟩ := k.known h old
      exact ⟨r, known, List.mem_cons_of_mem _ among⟩
    · obtain rfl := List.mem_singleton.1 new
      exact ⟨_, rfl, List.mem_cons_self⟩
  case parted => exact k.parted.cons _
  case sound => exact sound
  case nameable =>
    intro opened e member
    rcases List.mem_cons.1 member with rfl | old
    · exact nameable opened
    · exact k.nameable opened e old
  case backed =>
    intro opened q big
    have held : (({ s with vault := { s.vault.withNew with link }, owned }.enroll
        ⟨p, .owned, some s.vault.nextReference⟩).held) = p :: s.held := heldBy_new k.fresh
    rw [held]
    exact backed opened q big

theorem moved (k : s.Kept) (direct : link.faults = Table.empty) {waiting : List Waiting}
    (sound : s.vault.closed = false -> Hosting.Sound .owning ⟨link.engine, owned, waiting⟩)
    (backed : s.vault.closed = false -> ∀ q, Ptr.firstCounted ≤ q ->
      s.held.count q ≤ owned.count q) :
    ({ s with vault := { s.vault with link }, owned, waiting } : Custody).Kept :=
  { direct, fresh := k.fresh, distinct := k.distinct, known := k.known, parted := k.parted, sound,
    nameable := k.nameable, backed }

theorem ended (k : s.Kept) (known : h.reference = some r) (member : (r, h.ptr) ∈ s.opened)
    (alive : r ∈ s.vault.alive) (direct : link.faults = Table.empty)
    {freed handedOver : List ReferenceId}
    (more : (freed ++ handedOver).Perm (r :: (s.freed ++ s.handedOver)))
    (sound : s.vault.closed = false -> Hosting.Sound .owning ⟨link.engine, owned, s.waiting⟩)
    (backed : s.vault.closed = false -> ∀ q, Ptr.firstCounted ≤ q ->
      s.held.count q ≤ owned.count q + [h.ptr].count q) :
    ({ s with vault := { s.vault.without h with link }, owned, freed, handedOver } : Custody).Kept := by
  have filtered : (s.vault.without h).alive = s.vault.alive.filter fun a => !decide (r = a) := by
    simp [Vault.without, known]
  constructor
  case direct => exact direct
  case fresh => exact k.fresh
  case distinct => exact k.distinct
  case known => exact k.known
  case parted =>
    have rest := perm_without k.alive_nodup alive
    dsimp only
    rw [filtered]
    refine List.Perm.trans ((more.append_left _).trans ?_) k.parted
    exact List.perm_middle.trans (rest.append_right _)
  case sound => exact sound
  case nameable => exact k.nameable
  case backed =>
    intro opened q big
    have before := count_heldBy_without k.distinct member alive q
    have enough := backed opened q big
    simp only [held] at *
    rw [filtered]
    omega

theorem contains (k : s.Kept) (opened : s.vault.closed = false) (member : h ∈ s.handles)
    (alive : h.isAlive s.vault = true) : s.vault.link.engine.heap.contains h.ptr = true := by
  obtain ⟨r, known, among⟩ := k.known h member
  rcases k.nameable opened _ among with static | big
  · have small : h.ptr.isStatic = true := static
    simp [Heap.contains, small]
  · have held : h.ptr ∈ s.held := by
      refine List.mem_map.2 ⟨(r, h.ptr), List.mem_filter.2 ⟨among, ?_⟩, rfl⟩
      simpa using (alive_iff known s.vault).1 alive
    have backed := k.backed opened h.ptr big
    have counted := List.count_pos_iff.2 held
    have owned : h.ptr ∈ s.owned := List.count_pos_iff.1 (by omega)
    have exact_ := (k.sound opened).exact (fun other => by cases other)
    obtain ⟨c, found⟩ := exact_.live rfl h.ptr big (.inl owned)
    have here : s.vault.link.engine.heap.cells.get? h.ptr = some c := found
    simp [Heap.contains, Table.contains, here]

theorem ptr_ne_zero (k : s.Kept) (opened : s.vault.closed = false) (member : h ∈ s.handles) : h.ptr ≠ 0 := by
  obtain ⟨r, _, among⟩ := k.known h member
  intro zero
  rcases k.nameable opened _ among with static | big
  · simp only [zero] at static
    exact absurd static (by decide)
  · simp only [zero] at big
    exact absurd big (by decide)

theorem retaining (k : s.Kept) (opened : s.vault.closed = false) (member : h ∈ s.handles)
    (alive : h.isAlive s.vault = true) :
    Hosting.Sound .owning ⟨(s.vault.link.retaining h.ptr).engine, h.ptr :: s.owned, s.waiting⟩ := by
  have sound := k.sound opened
  exact ⟨sound.memory, sound.heap.retain (Heap.names_of_contains (k.contains opened member alive))⟩

theorem direct_call (k : s.Kept) (name : String) : s.vault.link.faults.get? name = none := by
  rw [k.direct]
  rfl

theorem duplicate (k : s.Kept) (member : h ∈ s.handles) (t : Thread) : (s.duplicate h t).Kept := by
  unfold Custody.duplicate
  by_cases alive : h.isAlive s.vault = true
  next =>
    rcases s.vault.barred_or_granted t with barred | ⟨opened, rfl⟩
    · rw [Handle.duplicate_refused alive barred]
      exact k
    · rw [Handle.duplicate_granted alive opened (k.direct_call _) (k.contains opened member alive)
        (k.ptr_ne_zero opened member)]
      obtain ⟨r, known, among⟩ := k.known h member
      refine k.enrolled k.direct (fun _ => k.retaining opened member alive)
        (fun _ => k.nameable opened _ among) fun _ q big => ?_
      have := k.backed opened q big
      simp only [List.count_cons]
      omega
  next =>
    rw [Handle.duplicate_dead (by simpa using alive)]
    exact k

theorem freeing (k : s.Kept) (known : h.reference = some r) (among : (r, h.ptr) ∈ s.opened)
    (alive : r ∈ s.vault.alive) (opened : s.vault.closed = false) :
    ({ s with vault := { s.vault.without h with
        link := s.vault.link.withEngine (outcome (Engine.perform (.freeValue h.ptr)) s.vault.link.engine).2 } }.spend
      h).Kept := by
  have held : h.ptr ∈ s.held := by
    refine List.mem_map.2 ⟨(r, h.ptr), List.mem_filter.2 ⟨among, ?_⟩, rfl⟩
    simpa using alive
  have owns : s.hosting.Owns h.ptr := by
    by_cases big : Ptr.firstCounted ≤ h.ptr
    next =>
      have := k.backed opened h.ptr big
      have := List.count_pos_iff.2 held
      exact .inr (List.count_pos_iff.1 (show 0 < s.owned.count h.ptr by omega))
    next => exact .inl (UInt32.not_le.1 big)
  -- A handle that is alive stands for a reference the program owns, so the engine may be asked to free it.
  have allowed : s.hosting.Allowed .owning (.request (.freeValue h.ptr)) := by
    refine ⟨by simp [Request.passedOn], fun p given => ?_,
      by simp [Request.Writable, Request.outPointers], by simp [Request.clears]⟩
    obtain rfl : p = h.ptr := by simpa [Request.givenUp] using given
    exact owns
  have sound := Hosting.step_sound (k.sound opened) allowed
  have freed : s.hosting.step (.request (.freeValue h.ptr)) =
      ⟨(outcome (Engine.perform (.freeValue h.ptr)) s.vault.link.engine).2, s.owned.erase h.ptr,
        s.waiting⟩ := by
    simp only [Hosting.step, Hosting.request, hosting]
    cases (outcome (Engine.perform (.freeValue h.ptr)) s.vault.link.engine).1 <;> rfl
  rw [freed] at sound
  have more : (h.reference.toList ++ s.freed ++ s.handedOver).Perm (r :: (s.freed ++ s.handedOver)) := by
    rw [known]
    exact List.Perm.refl _
  have direct : (s.vault.link.withEngine
      (outcome (Engine.perform (.freeValue h.ptr)) s.vault.link.engine).2).faults = Table.empty := k.direct
  refine k.ended known among alive direct more (fun _ => sound) fun _ q big => ?_
  have enough := k.backed opened q big
  by_cases same : h.ptr = q
  next =>
    subst same
    simp only [List.count_erase_self, List.count_cons_self]
    omega
  next =>
    have other : q ≠ h.ptr := fun h => same h.symm
    have kept : (s.owned.erase h.ptr).count q = s.owned.count q := List.count_erase_of_ne other
    exact Nat.le_add_right_of_le (kept ▸ enough)

theorem release (k : s.Kept) (member : h ∈ s.handles) (t : Thread) : (s.release h t).Kept := by
  unfold Custody.release
  by_cases alive : h.isAlive s.vault = true
  next =>
    cases kind : h.ownership with
    | borrowed =>
      rw [Handle.release_borrowed alive kind]
      exact k
    | owned =>
      rcases s.vault.barred_or_granted t with barred | ⟨opened, rfl⟩
      · rw [Handle.release_refused alive kind barred]
        exact k
      · rw [Handle.release_granted alive kind opened (k.direct_call _)]
        obtain ⟨r, known, among⟩ := k.known h member
        exact k.freeing known among ((alive_iff known s.vault).1 alive) opened
  next =>
    rw [Handle.release_dead (by simpa using alive)]
    exact k

theorem handOver (k : s.Kept) (member : h ∈ s.handles) (t : Thread) : (s.handOver h t).Kept := by
  unfold Custody.handOver
  by_cases alive : h.isAlive s.vault = true
  next =>
    rcases s.vault.barred_or_granted t with barred | ⟨opened, rfl⟩
    · rw [Handle.handOver_refused alive barred]
      exact k
    · cases kind : h.ownership with
      | owned =>
        rw [Handle.handOver_owned alive kind opened]
        have mine : h.isOwned = true := by simp [Handle.isOwned, kind]
        simp only [mine, if_true]
        obtain ⟨r, known, among⟩ := k.known h member
        have more : (s.freed ++ (h.reference.toList ++ s.handedOver)).Perm
            (r :: (s.freed ++ s.handedOver)) := by
          rw [known]
          exact List.perm_middle
        refine k.ended known among ((alive_iff known s.vault).1 alive) k.direct more k.sound
          fun opened q big => ?_
        have := k.backed opened q big
        omega
      | borrowed =>
        rw [Handle.handOver_view alive kind opened (k.direct_call _) (k.contains opened member alive)
          (k.ptr_ne_zero opened member)]
        have view : h.isOwned = false := by simp [Handle.isOwned, kind]
        simp only [view, Bool.false_eq_true, if_false]
        have direct : (s.vault.link.retaining h.ptr).faults = Table.empty := k.direct
        refine k.moved direct (fun _ => k.retaining opened member alive) fun opened q big => ?_
        have := k.backed opened q big
        simp only [List.count_cons]
        omega
  next =>
    rw [Handle.handOver_dead (by simpa using alive)]
    exact k

theorem discard (k : s.Kept) (member : h ∈ s.handles) (t : Thread) : (s.discard h t).Kept := by
  unfold Custody.discard
  rw [Handle.discard_run]
  split
  next granted =>
    obtain ⟨alive, kind, opened, rfl⟩ := granted
    obtain ⟨r, known, among⟩ := k.known h member
    have freed := k.freeing known among ((alive_iff known s.vault).1 alive) opened
    rw [Handle.release_granted alive kind opened (k.direct_call _)]
    have mine : h.isOwned = true := by simp [Handle.isOwned, kind]
    have gone : h.isAlive { s.vault.without h with
        link := s.vault.link.withEngine
          (outcome (Engine.perform (.freeValue h.ptr)) s.vault.link.engine).2 } = false := by
      apply dead_of_not_mem known
      simp [Vault.without, known]
    simp only [mine, alive, gone, Bool.not_false, Bool.and_self, if_true]
    exact freed
  next =>
    have same : (h.isOwned && h.isAlive s.vault && !h.isAlive s.vault) = false := by
      cases h.isAlive s.vault <;> simp
    simp only [same, Bool.false_eq_true, if_false]
    exact k

theorem sameValue (k : s.Kept) (a b : Handle) (t : Thread) :
    (outcome (a.sameValue b t) s.vault).2 = s.vault := by
  by_cases alive : a.isAlive s.vault = true
  next =>
    by_cases alive' : b.isAlive s.vault = true
    next =>
      rcases s.vault.barred_or_granted t with barred | ⟨opened, rfl⟩
      · rw [Handle.sameValue_refused alive alive' barred]
      · rw [Handle.sameValue_granted alive alive' opened (k.direct_call _)]
    next =>
      simp only [Handle.sameValue, outcome_bind, Handle.outcome_rawM alive,
        Handle.outcome_rawM_dead (by simpa using alive')]
  next => simp only [Handle.sameValue, outcome_bind, Handle.outcome_rawM_dead (by simpa using alive)]

theorem borrow (k : s.Kept) (member : h ∈ s.handles) : (s.borrow h).Kept := by
  unfold Custody.borrow
  by_cases alive : h.isAlive s.vault = true
  next =>
    rw [Handle.borrow_alive alive]
    refine { k with known := fun view among => ?_ }
    rcases List.mem_append.1 among with old | new
    · exact k.known view old
    · obtain rfl := List.mem_singleton.1 new
      exact k.known h member
  next =>
    rw [Handle.borrow_dead (by simpa using alive)]
    exact k

theorem close (k : s.Kept) (t : Thread) : (s.close t).Kept := by
  unfold Custody.close
  split
  next =>
    exact {
      direct := k.direct, fresh := k.fresh, distinct := k.distinct, known := k.known, parted := k.parted
      sound := fun opened => by cases opened
      nameable := fun opened => by cases opened
      backed := fun opened => by cases opened }
  next => exact k

theorem own (k : s.Kept) (allowed : s.Allowed (.own p)) : (s.step (.own p)).Kept := by
  refine k.enrolled k.direct k.sound (fun opened => ?_) fun opened q big => ?_
  · exact (allowed opened).imp_right And.left
  · have enough := k.backed opened q big
    by_cases same : p = q
    next =>
      subst same
      rcases allowed opened with static | ⟨_, free⟩
      · simp only [Ptr.isStatic, Bool.and_eq_true, decide_eq_true_eq] at static
        have small : p < Ptr.firstCounted := UInt32.lt_of_le_of_lt static.2 (by decide)
        exact absurd big (UInt32.not_le.2 small)
      · simp only [List.count_cons_self]
        omega
    next =>
      rw [List.count_cons_of_ne same]
      exact enough

theorem step (k : s.Kept) {d : Deed} (allowed : s.Allowed d) : (s.step d).Kept := by
  have at_ : ∀ i f, (∀ h ∈ s.handles, (f h).Kept) -> (s.withHandle i f).Kept := by
    intro i f each
    unfold withHandle
    split
    next h found => exact each h (List.mem_of_getElem? found)
    next => exact k
  cases d with
  | own p => exact k.own allowed
  | duplicate i t => exact at_ i _ fun h member => k.duplicate member t
  | borrow i => exact at_ i _ fun h member => k.borrow member
  | release i t => exact at_ i _ fun h member => k.release member t
  | handOver i t => exact at_ i _ fun h member => k.handOver member t
  | sameValue i j t =>
    refine at_ i _ fun a _ => at_ j _ fun b _ => ?_
    rw [k.sameValue a b t]
    exact k
  | discard i t => exact at_ i _ fun h member => k.discard member t
  | close t => exact k.close t
  | elsewhere m =>
    have direct : (s.vault.link.withEngine (s.hosting.step m).engine).faults = Table.empty := k.direct
    exact k.moved direct (fun opened => Hosting.step_sound (k.sound opened) (allowed opened).1)
      fun opened => (allowed opened).2

end Kept

theorem start_kept : start.Kept where
  direct := rfl
  fresh := by simp [start]
  distinct := List.nodup_nil
  known := by simp [start]
  parted := List.Perm.refl _
  sound := fun _ => Hosting.start_sound
  nameable := by simp [start]
  backed := fun _ _ _ => Nat.le_refl _

theorem run_kept (deeds : List Deed) (k : s.Kept) (allowed : s.Disciplined deeds) : (s.run deeds).Kept := by
  induction deeds generalizing s with
  | nil => exact k
  | cons d rest ih => exact ih (k.step allowed.1) allowed.2

theorem Kept.lawful (k : s.Kept) : s.Lawful where
  counted := by
    have total := k.parted.length_eq
    simpa [Vault.liveHandles] using total
  once := ⟨(List.nodup_append.1 (k.parted.nodup_iff.2 k.distinct)).2.1,
    fun _ ended => k.parted.mem_iff.1 (List.mem_append_right _ ended)⟩
  exact := fun opened => (k.sound opened).exact fun other => by cases other
  backed := k.backed
  live := fun opened h member alive => k.contains opened member alive
  views := by
    intro h view taken
    cases alive : h.isAlive s.vault with
    | true =>
      rw [Handle.borrow_alive alive] at taken
      obtain rfl := Except.ok.inj taken
      exact ⟨rfl, rfl⟩
    | false => simp [Handle.borrow_dead alive] at taken
  dead := by
    rintro r ended h known link _ rfl
    have gone : h.isAlive { s.vault with link } = false := dead_of_not_mem known (k.gone ended)
    exact ⟨Handle.raw_dead gone, Handle.borrow_dead gone,
      fun t => ⟨Handle.duplicate_dead gone t, Handle.release_dead gone t⟩⟩
  refused := by
    rintro t barred h lives link _ rfl
    have alive : h.isAlive { s.vault with link } = true := lives
    refine ⟨Handle.duplicate_refused alive barred, fun owned => Handle.release_refused alive owned barred, ?_⟩
    exact fun h' alive' => Handle.sameValue_refused alive alive' barred
  retried := by
    intro opened h alive owned named
    obtain ⟨r, known⟩ := Option.ne_none_iff_exists'.1 named
    rw [Handle.release_granted alive owned opened (k.direct_call _)]
    refine ⟨rfl, dead_of_not_mem known ?_⟩
    simp [Vault.without, known]

/-- Makes a handle for a new value, duplicates it off its thread and on it, and hands the copy over. -/
def lending : List Deed :=
  [.elsewhere (.request .newObject), .own 16, .borrow 0, .duplicate 1 .other, .duplicate 1 .worker,
    .handOver 2 .worker, .release 0 .worker, .close .worker]

theorem lending_disciplined : start.Disciplined lending := by
  refine ⟨fun _ => ⟨Hosting.allowed_plain rfl rfl rfl rfl, fun p _ => Nat.zero_le _⟩, fun _ => .inr ?_,
    trivial, trivial, trivial, trivial, trivial, trivial, trivial⟩
  decide

end Custody

end ScriptHost
