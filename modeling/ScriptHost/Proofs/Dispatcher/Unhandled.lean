import ScriptHost.Dispatcher.Rejections
import ScriptHost.Proofs.Dispatcher.Reports
import ScriptHost.Proofs.Link.Recording

set_option autoImplicit false

/-!
Which rejections count as unhandled.

The worker goes through the recorded events in their order. What it comes to depends only on what has happened:
it keeps the promises that have been rejected since, that nobody waits for and that have no reaction by then.
-/

namespace ScriptHost

/-- What is left of the promises kept so far after another event. -/
def sift (held kept : List Ptr) (e : Ptr × Bool) : List Ptr :=
  if e.2 then kept.erase e.1 else if e.1 ∈ held then kept else kept ++ [e.1]

/-- The promises that were rejected after the past, oldest first, that are not held and have no reaction. -/
def unhandled (held : List Ptr) (past recent : List Happening) : List Ptr :=
  (recent.reverse.filterMap Happening.rejected?).filter fun p => p ∉ held ∧ .reacted p ∉ recent ++ past

section Sift

variable {held : List Ptr} {past recent : List Happening} {p v : Ptr}

theorem unhandled_sublist (held : List Ptr) (past recent : List Happening) :
    (unhandled held past recent).reverse.Sublist (recent.filterMap Happening.rejected?) := by
  unfold unhandled
  rw [List.filterMap_reverse, ← List.filter_reverse, List.reverse_reverse]
  exact List.filter_sublist

theorem unhandled_nodup (once : ((recent ++ past).filterMap Happening.settled?).Nodup) :
    (unhandled held past recent).Nodup := by
  rw [List.filterMap_append] at once
  have few := (unhandled_sublist held past recent).trans (rejected_sublist recent)
  exact List.pairwise_reverse.1 ((few.nodup (List.nodup_append.1 once).1).imp Ne.symm)

theorem unhandled_settled (rejected : Bool) :
    unhandled held past (.settled p v rejected :: recent) = unhandled held past recent ++
      if rejected = true ∧ p ∉ held ∧ .reacted p ∉ recent ++ past then [p] else [] := by
  have reacted (q : Ptr) :
      .reacted q ∈ .settled p v rejected :: recent ++ past <-> .reacted q ∈ recent ++ past := by simp
  unfold unhandled
  simp only [reacted, List.reverse_cons, List.filterMap_append, List.filter_append]
  congr 1
  cases rejected with
  | false => simp [Happening.rejected?]
  | true => simp [Happening.rejected?, List.filter_singleton]

theorem unhandled_reacted :
    unhandled held past (.reacted p :: recent) = (unhandled held past recent).filter fun q => q ≠ p := by
  have reacted (q : Ptr) :
      .reacted q ∈ .reacted p :: recent ++ past <-> q = p ∨ .reacted q ∈ recent ++ past := by simp
  unfold unhandled
  simp only [reacted, List.reverse_cons, List.filterMap_append, List.filter_append, List.filter_filter]
  rw [show [Happening.reacted p].filterMap Happening.rejected? = [] from rfl, List.filter_nil, List.append_nil]
  apply List.filter_congr
  intro q _
  by_cases same : q = p <;> simp [same]

/-- One event after the other, what is kept follows from what has happened. -/
theorem foldl_sift (once : ((recent ++ past).filterMap Happening.settled?).Nodup) :
    (eventsAfter past recent).foldl (sift held) [] = unhandled held past recent := by
  induction recent with
  | nil => rfl
  | cons x older ih =>
    have before : ((older ++ past).filterMap Happening.settled?).Nodup := by
      rw [List.cons_append, List.filterMap_cons] at once
      split at once
      next => exact once
      next => exact once.of_cons
    rw [eventsAfter, List.foldl_append, ih before]
    cases x with
    | settled p v rejected =>
      rw [unhandled_settled]
      by_cases recorded : rejected = true ∧ .reacted p ∉ older ++ past
      next =>
        simp only [Happening.event?, recorded, not_false_eq_true, and_self, if_true, Option.toList_some,
          List.foldl_cons, List.foldl_nil, sift, Bool.false_eq_true, if_false, and_true, true_and]
        split <;> simp_all
      next =>
        have silent : ¬ (rejected = true ∧ p ∉ held ∧ .reacted p ∉ older ++ past) := fun all =>
          recorded ⟨all.1, all.2.2⟩
        simp only [Happening.event?, recorded, silent, if_false, Option.toList_none, List.foldl_nil, List.append_nil]
    | reacted p =>
      have once : (unhandled held past older).Nodup := unhandled_nodup before
      rw [unhandled_reacted, Happening.event?]
      split
      next =>
        simp only [Option.toList_some, List.foldl_cons, List.foldl_nil, sift, if_true, once.erase_eq_filter]
        exact List.filter_congr fun q _ => by simp [bne, beq_eq_decide]
      next silent =>
        -- It has a reaction already, or was never rejected, so it is not among those kept.
        refine (List.filter_eq_self.2 fun q kept => ?_).symm
        obtain ⟨member, free⟩ := List.mem_filter.1 kept
        have rejected : q ∈ older.filterMap Happening.rejected? := by
          rwa [List.filterMap_reverse, List.mem_reverse] at member
        rw [decide_eq_true_eq] at free ⊢
        rintro rfl
        refine silent ⟨free.2, ?_⟩
        rw [List.filterMap_append]
        exact List.mem_append_left _ rejected

end Sift

/-- Only numbers and texts are compared by their contents. -/
theorem Heap.isEqual_plain {h : Heap} {p q : Ptr} {op : Equality} (plain : h.isLiteral q = false) :
    h.isEqual p q op = (p == q) := by
  unfold isLiteral at plain
  unfold isEqual
  split
  next there => simp [there, Value.isLiteral] at plain
  next there => simp [there, Value.isLiteral] at plain
  next => rfl

def promisesOf (pairs : List (Handle × Handle)) : List Ptr :=
  pairs.map fun e => e.1.ptr

namespace Vault

variable {v v' v'' : Vault} {p q promise : Ptr} {held : List Ptr} {kept pairs : List (Handle × Handle)}

structure Ready (v : Vault) : Prop where
  opened : v.closed = false
  clear : v.link.faults = Table.empty

/-- What asking the engine and counting references leave. -/
structure Kept (v v' : Vault) : Prop where
  closed : v'.closed = v.closed
  faults : v'.link.faults = Table.empty <-> v.link.faults = Table.empty
  forgets : v.link.engine.heap.Forgets v'.link.engine.heap
  onward : v.link.engine.Onward v'.link.engine

theorem Kept.ready (same : Kept v v') (ready : v.Ready) : v'.Ready :=
  ⟨same.closed.trans ready.opened, same.faults.2 ready.clear⟩

theorem Kept.refl (v : Vault) : Kept v v :=
  ⟨rfl, Iff.rfl, .refl _, .refl _⟩

theorem Kept.trans (first : Kept v v') (second : Kept v' v'') : Kept v v'' :=
  ⟨second.closed.trans first.closed, second.faults.trans first.faults, first.forgets.trans second.forgets,
    first.onward.trans second.onward⟩

theorem custodial_kept : Custodial Kept :=
  .of_asks ⟨.refl, .trans⟩ (fun q quiet v => ⟨rfl, q.perform_faultless, quiet v.link, q.perform_onward v.link⟩)
    fun _ _ _ => ⟨rfl, Iff.rfl, .refl _, .refl _⟩

section Ready

variable (ready : v.Ready) (plain : v.link.engine.heap.isLiteral promise = false)
include ready plain

theorem outcome_same (p : Ptr) : outcome (same p promise) v = (.ok (p == promise), v) := by
  simp only [same, outcome_withLink _ (access_granted _ ready.opened),
    Link.answered_isEqual (Link.direct_of_faultless ready.clear _), Heap.isEqual_plain plain]

theorem outcome_isAmong (ps : List Ptr) : outcome (isAmong promise ps) v = (.ok (decide (promise ∈ ps)), v) := by
  induction ps with
  | nil => rfl
  | cons p rest ih =>
    simp only [isAmong, outcome_bind, outcome_same ready plain, beq_iff_eq]
    by_cases found : p = promise
    next => simp [found]
    next => simp [found, Ne.symm found, ih]

theorem outcome_takePair (pairs : List (Handle × Handle)) :
    ∃ found others, outcome (takePair promise pairs) v = (.ok (found, others), v) ∧
      promisesOf others = (promisesOf pairs).erase promise := by
  induction pairs with
  | nil => exact ⟨none, [], rfl, rfl⟩
  | cons e rest ih =>
    simp only [takePair, outcome_bind, outcome_same ready plain, beq_iff_eq]
    by_cases found : e.1.ptr = promise
    next => exact ⟨some e, rest, by simp [found], by simp [promisesOf, found]⟩
    next =>
      obtain ⟨there, others, taken, left⟩ := ih
      refine ⟨there, e :: others, by simp only [found, if_false, outcome_bind, taken, outcome_pure], ?_⟩
      simp only [promisesOf, List.map_cons] at left ⊢
      rw [left, List.erase_cons_tail (by simpa using found)]

/-- Sorting out an event sifts the promises kept so far. -/
theorem sortOut_sifts {e : Rejection} {pair : Handle × Handle} (same : pair.1.ptr = e.promise) (here : e.promise = promise)
    (kept : List (Handle × Handle)) :
    ∃ next, (outcome (sortOut held e pair kept) v).1 = .ok next ∧
      promisesOf next = sift held (promisesOf kept) e.event := by
  subst here
  unfold sortOut
  split
  next handled =>
    obtain ⟨found, others, taken, left⟩ := outcome_takePair ready plain kept
    refine ⟨others, by simp only [outcome_bind, taken, outcome_lift, outcome_pure], ?_⟩
    simp only [left, sift, Rejection.event, handled, if_true]
  next first =>
    simp only [outcome_bind, outcome_isAmong ready plain held, decide_eq_true_eq]
    simp only [sift, Rejection.event, first]
    split
    next => exact ⟨kept, by simp only [outcome_bind, outcome_lift, outcome_pure], rfl⟩
    next => exact ⟨kept ++ [pair], rfl, by simp [promisesOf, same]⟩

end Ready

theorem collectUnhandled_sifts (events : List Rejection) (ready : v.Ready) (kept : List (Handle × Handle))
    (plain : ∀ e ∈ events, v.link.engine.heap.isLiteral e.promise = false ∧
      e.promise.toNat < v.link.engine.heap.next)
    (room : (outcome (collectUnhandled held events kept) v).2.link.engine.heap.next ≤ UInt32.size) :
    ∃ pairs, (outcome (collectUnhandled held events kept) v).1 = .ok pairs ∧
      promisesOf pairs = (events.map Rejection.event).foldl (sift held) (promisesOf kept) := by
  induction events generalizing v kept with
  | nil => exact ⟨kept, rfl, rfl⟩
  | cons e rest ih =>
    obtain ⟨plain_here, small⟩ := plain e (List.mem_cons_self ..)
    -- The handles for the event are new, and nothing else has changed so far.
    let pair : Handle × Handle :=
      (⟨e.promise, .owned, some v.nextReference⟩, ⟨e.reason, .owned, some (v.nextReference + 1)⟩)
    let owned : Vault :=
      { v with alive := (v.nextReference + 1) :: v.nextReference :: v.alive, nextReference := v.nextReference + 1 + 1 }
    have unfolded (next : List (Handle × Handle)) (v' : Vault)
        (done : outcome (sortOut held e pair kept) owned = (.ok next, v')) :
        outcome (collectUnhandled held (e :: rest) kept) v = outcome (collectUnhandled held rest next) v' := by
      have ran : (sortOut held e (((own e.promise).run v).1, ((own e.reason).run ((own e.promise).run v).2).1)
          kept).run.run ((own e.reason).run ((own e.promise).run v).2).2 = (.ok next, v') := done
      simp only [collectUnhandled, outcome_bind, outcome_lift]
      rw [ran]
    have ready' : owned.Ready := ⟨ready.opened, ready.clear⟩
    obtain ⟨next, done, sifted⟩ : ∃ next, (outcome (sortOut held e pair kept) owned).1 = .ok next ∧ _ :=
      sortOut_sifts ready' plain_here rfl rfl kept
    have sorted : Kept owned _ := custodial_kept.leads_sortOut held e pair kept owned
    generalize outcome (sortOut held e pair kept) owned = r at unfolded done sorted
    obtain ⟨result, v'⟩ := r
    obtain rfl : result = .ok next := done
    rw [unfolded next v' rfl] at room ⊢
    have collected := custodial_kept.leads_collectUnhandled held rest next v'
    have room' : v'.link.engine.heap.next ≤ UInt32.size := Nat.le_trans collected.forgets.next room
    obtain ⟨pairs, ended, all⟩ := ih (sorted.ready ready') next (fun e' later => by
      obtain ⟨plain', small'⟩ := plain e' (List.mem_cons_of_mem _ later)
      exact ⟨sorted.forgets.plain room' small' plain', Nat.lt_of_lt_of_le small' sorted.forgets.next⟩) room
    exact ⟨pairs, ended, by rw [all, sifted]; rfl⟩

/-- What is taken is what has happened to promises since the last time, and from then on recording starts
afresh. -/
theorem takeUnhandled_takes {past : List Happening} (ready : v.Ready) (records : v.link.engine.Records past)
    (room : (outcome (takeUnhandled held) v).2.link.engine.heap.next ≤ UInt32.size)
    (space : v.link.engine.memory.next + 12 * v.link.engine.heap.history.length + 24 ≤ Memory.lastAddress) :
    (outcome (takeUnhandled held) v).2.Ready ∧
      (outcome (takeUnhandled held) v).2.link.engine.Records v.link.engine.heap.history ∧
      ∃ recent pairs, v.link.engine.heap.history = recent ++ past ∧
        (outcome (takeUnhandled held) v).1 = .ok pairs ∧ promisesOf pairs = unhandled held past recent := by
  obtain ⟨recent, split⟩ := records.recent
  have events : v.link.engine.heap.rejections.map Rejection.event = eventsAfter past recent := by
    have all := records.chronicle.events
    rw [show v.link.engine.heap.affairs.history = recent ++ past from split.symm, recordedEvents_append] at all
    exact (List.append_cancel_left all).symm
  have few : v.link.engine.heap.rejections.length ≤ v.link.engine.heap.history.length := by
    rw [← List.length_map, events, ← split, List.length_append]
    exact Nat.le_trans (length_eventsAfter past recent) (Nat.le_add_right _ _)
  have plain (e : Rejection) (recorded : e ∈ v.link.engine.heap.rejections) :
      v.link.engine.heap.isLiteral e.promise = false ∧ e.promise.toNat < v.link.engine.heap.next := by
    obtain ⟨x, happened, same⟩ := mem_eventsAfter (events ▸ List.mem_map_of_mem recorded)
    have known : x ∈ v.link.engine.heap.history := split ▸ List.mem_append_left past happened
    obtain ⟨small, plain⟩ := records.chronicle.told x known
    rw [same] at small plain
    exact ⟨plain, small⟩
  obtain ⟨m, later, taken⟩ :=
    OwnerM.takeRejections_takes ready.clear records.memory records.unlimited (by omega)
  let v' : Vault := { v with
    link := v.link.withEngine { v.link.engine with memory := m, heap := v.link.engine.heap.takeRejections.2 } }
  have unfolded : outcome (takeUnhandled held) v =
      outcome (collectUnhandled held v.link.engine.heap.rejections []) v' := by
    have linked : outcome (ExceptT.mk (onLink OwnerM.takeRejections.run) : VaultM (List Rejection)) v =
        ((outcome OwnerM.takeRejections v.link).1,
          { v with link := (outcome OwnerM.takeRejections v.link).2 }) := rfl
    simp only [takeUnhandled, outcome_bind, outcome_checkAccess_ok (access_granted _ ready.opened), linked, taken]
    rfl
  have ready' : v'.Ready := ⟨ready.opened, ready.clear⟩
  have records' : v'.link.engine.Records v.link.engine.heap.history :=
    { memory := later.wellFormed records.memory
      unlimited := later.limit.trans records.unlimited
      chronicle := records.chronicle.take
      recent := List.suffix_refl _ }
  rw [unfolded] at room ⊢
  have collected := custodial_kept.leads_collectUnhandled held v.link.engine.heap.rejections [] v'
  obtain ⟨pairs, ended, all⟩ := collectUnhandled_sifts _ ready' [] plain room
  refine ⟨collected.ready ready', collected.onward.records _ room records', recent, pairs, split.symm, ended, ?_⟩
  rw [all, events]
  exact foldl_sift (split ▸ records.chronicle.once)

end Vault

end ScriptHost
