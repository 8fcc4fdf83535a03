import ScriptHost.Proofs.Engine.Tickets

set_option autoImplicit false

/-!
Tickets and promises, kept in step.

A dealing is one thing that happens to both: promises come and go, one of them settles, or a reaction is attached to one.
`Books` says that they agree, and every dealing keeps to that.
-/

namespace ScriptHost

/-- The promise that a reaction was attached to. -/
def Happening.source? : Happening -> Option Ptr
  | settled _ _ _ => none
  | reacted p => some p

namespace Affairs

def queue (a : Affairs) (js : List Job) : Affairs :=
  { a with
    jobs := a.jobs ++ js
    queued := js.reverse ++ a.queued }

/-- Promises may be gone. The others and their reactions are as they were, and no job has come or gone. -/
structure Keeps (a b : Affairs) : Prop where
  history : b.history = a.history
  queued : b.queued = a.queued
  taken : b.taken = a.taken
  promises : ∀ p r', b.promises.get? p = some r' ->
    ∃ r, a.promises.get? p = some r ∧ r'.settlement = r.settlement ∧ r'.reactions = r.reactions

theorem Forgets.keeps {a b : Affairs} (less : a.Forgets b) : a.Keeps b where
  history := less.history
  queued := less.queued
  taken := less.taken
  promises _ r' found := ⟨r', less.promise found, rfl, rfl⟩

theorem keeps_mark {a : Affairs} {p : Ptr} {r : PromiseRecord} (here : a.promises.get? p = some r) : a.Keeps (a.mark p r) where
  history := rfl
  queued := rfl
  taken := rfl
  promises q r' found := by
    simp only [mark, Table.get?_set] at found
    split at found
    next same =>
      obtain rfl := Option.some.inj found
      exact ⟨r, same ▸ here, rfl, rfl⟩
    next => exact ⟨r', found, rfl, rfl⟩

end Affairs

/-- The tickets are those of all reactions ever attached, and each is where its ticket says. -/
structure Books (T : List Ticket) (a : Affairs) : Prop where
  attached : T.map Ticket.source = a.history.reverse.filterMap Happening.source?
  stored : ∀ p r, a.promises.get? p = some r -> r.settlement = .pending ->
    (T.filter (Ticket.isStored p)).map Ticket.reaction = r.reactions
  pending : ∀ t ∈ T, t.place = .stored -> ∃ r, a.promises.get? t.source = some r ∧ r.settlement = .pending
  settled : ∀ p r v rejected, a.promises.get? p = some r -> r.settlement = .ofPayload rejected v ->
    .settled p v rejected ∈ a.history
  numbered : (T.filterMap Ticket.number?).Perm (List.range a.queued.length)
  jobs : ∀ t ∈ T, ∀ n v rejected, t.place = .job n v rejected ->
    a.queued.reverse[n]? = some (t.reaction.job v rejected) ∧ .settled t.source v rejected ∈ a.history
  ordered : T.Pairwise Ticket.Before

/-- One thing that happens to tickets and promises. What `may` be attached depends on who does it. -/
inductive Dealing (may : Ptr -> Reaction -> Prop) : List Ticket × Affairs -> List Ticket × Affairs -> Prop where
  | keep {T : List Ticket} {a b : Affairs} (kept : a.Keeps b) : Dealing may (T, a) (T.map (Ticket.without b), b)
  | make {T : List Ticket} {a : Affairs} {n : Nat} (absent : a.promises.get? (UInt32.ofNat n) = none) :
      Dealing may (T, a) (T, a.begin n)
  | settle {T : List Ticket} {a : Affairs} {p : Ptr} {r : PromiseRecord} (here : a.promises.get? p = some r)
      (pending : r.settlement = .pending) (v : Ptr) (rejected : Bool) :
      Dealing may (T, a) (Ticket.turned p v rejected a.queued.length T,
        (a.settle p r v rejected).queue (r.reactions.map fun x => x.job v rejected))
  | store {T : List Ticket} {a : Affairs} {p : Ptr} {r : PromiseRecord} {x : Reaction} (here : a.promises.get? p = some r)
      (pending : r.settlement = .pending) (allowed : may p x) :
      Dealing may (T, a) (T ++ [⟨p, x, .stored⟩], a.react p { r with reactions := r.reactions ++ [x] } [])
  | react {T : List Ticket} {a : Affairs} {p v : Ptr} {r : PromiseRecord} {x : Reaction} {rejected : Bool}
      (here : a.promises.get? p = some r) (settled : r.settlement = .ofPayload rejected v) (allowed : may p x)
      (events : List Rejection) :
      Dealing may (T, a) (T ++ [⟨p, x, .job a.queued.length v rejected⟩], (a.react p r events).queue [x.job v rejected])

abbrev Dealings (may : Ptr -> Reaction -> Prop) : List Ticket × Affairs -> List Ticket × Affairs -> Prop :=
  Relation.ReflTransGen (Dealing may)

variable {may : Ptr -> Reaction -> Prop} {T : List Ticket} {a b : Affairs} {p q v : Ptr} {r : PromiseRecord} {x : Reaction}
variable {rejected : Bool} {s s' : List Ticket × Affairs} {n : Nat}

namespace Books

theorem empty : Books [] Heap.empty.affairs where
  attached := rfl
  stored p r found := by cases found
  pending t member := absurd member List.not_mem_nil
  settled p r v rejected found := by cases found
  numbered := .refl _
  jobs t member := absurd member List.not_mem_nil
  ordered := .nil

theorem small (books : Books T a) {t : Ticket} (member : t ∈ T) {n : Nat} (number : t.number? = some n) : n < a.queued.length := by
  have inside := books.numbered.mem_iff.1 (List.mem_filterMap.2 ⟨t, member, number⟩)
  exact List.mem_range.1 inside

theorem filter_without (there : b.promises.get? p = some r) (T : List Ticket) :
    (T.map (Ticket.without b)).filter (Ticket.isStored p) = T.filter (Ticket.isStored p) := by
  induction T with
  | nil => rfl
  | cons t rest ih =>
    have same : (t.without b).isStored p = t.isStored p ∧ (t.isStored p = true -> t.without b = t) := by
      unfold Ticket.without
      split
      next gone =>
        have elsewhere : t.source ≠ p := by
          rintro rfl
          simp [there] at gone
        simp [Ticket.isStored, elsewhere]
      next => exact ⟨rfl, fun _ => rfl⟩
    rw [List.map_cons, List.filter_cons, List.filter_cons, same.1, ih]
    split
    next stored => rw [same.2 stored]
    next => rfl

theorem keep (books : Books T a) (kept : a.Keeps b) : Books (T.map (Ticket.without b)) b where
  attached := by
    rw [List.map_map, kept.history, ← books.attached]
    exact List.map_congr_left fun t _ => Ticket.without_source
  stored p r' found pending := by
    obtain ⟨r, here, settlement, reactions⟩ := kept.promises p r' found
    rw [filter_without found, reactions]
    exact books.stored p r here (settlement ▸ pending)
  pending t member stored := by
    obtain ⟨u, inside, rfl⟩ := List.mem_map.1 member
    obtain ⟨same, r', found⟩ := Ticket.without_stored stored
    rw [same] at stored ⊢
    obtain ⟨r, here, settlement, -⟩ := kept.promises u.source r' found
    obtain ⟨x, there, pending⟩ := books.pending u inside stored
    obtain rfl := Option.some.inj (here.symm.trans there)
    exact ⟨r', found, settlement.trans pending⟩
  settled p r' v rejected found settlement := by
    obtain ⟨r, here, same, -⟩ := kept.promises p r' found
    rw [kept.history]
    exact books.settled p r v rejected here (same.symm.trans settlement)
  numbered := by
    have same : Ticket.number? ∘ Ticket.without b = Ticket.number? := funext fun t => Ticket.without_number
    rw [List.filterMap_map, same, kept.queued]
    exact books.numbered
  jobs t member n v rejected placed := by
    obtain ⟨u, inside, rfl⟩ := List.mem_map.1 member
    rw [Ticket.without_reaction, Ticket.without_source, kept.queued, kept.history]
    exact books.jobs u inside n v rejected (Ticket.without_job placed)
  ordered := by
    refine List.pairwise_map.2 (books.ordered.imp fun {t u} before same n number => ?_)
    simp only [Ticket.without_source, Ticket.without_number] at same number ⊢
    obtain ⟨unstored, less⟩ := before same n number
    exact ⟨fun stored => unstored ((Ticket.without_stored stored).1 ▸ stored), less⟩

theorem settle (books : Books T a) (here : a.promises.get? p = some r) (waits : r.settlement = .pending) (v : Ptr) (rejected : Bool) :
    Books (Ticket.turned p v rejected a.queued.length T)
      ((a.settle p r v rejected).queue (r.reactions.map fun x => x.job v rejected)) where
  attached := by
    rw [Ticket.map_source, Ticket.attachment_turned, ← Ticket.map_source, books.attached]
    simp [Affairs.queue, Affairs.settle, Happening.source?]
  stored q r' found pending := by
    simp only [Affairs.queue, Affairs.settle, Table.get?_set] at found
    split at found
    next =>
      obtain rfl := Option.some.inj found
      exact absurd pending (ofPayload_ne_pending rejected v)
    next other =>
      rw [Ticket.filter_turned (Ne.symm other)]
      exact books.stored q r' found pending
  pending t member stored := by
    rcases Ticket.mem_turned member with ⟨old, unstored⟩ | ⟨i, u, -, rfl⟩
    next =>
      have elsewhere : p ≠ t.source := by
        rintro rfl
        simp [Ticket.isStored, stored] at unstored
      simpa [Affairs.queue, Affairs.settle, elsewhere] using books.pending t old stored
    next => cases stored
  settled q r' w rejected' found settlement := by
    simp only [Affairs.queue, Affairs.settle, Table.get?_set] at found
    split at found
    next same =>
      subst same
      obtain rfl := Option.some.inj found
      obtain ⟨rfl, rfl⟩ := ofPayload_inj settlement
      exact List.mem_cons_self
    next => exact List.mem_cons_of_mem _ (books.settled q r' w rejected' found settlement)
  numbered := by
    have length : r.reactions.length = (T.filter (Ticket.isStored p)).length := by
      rw [← books.stored p r here waits, List.length_map]
    refine (Ticket.numbers_turned _).trans ?_
    simp only [Affairs.queue, Affairs.settle, List.length_append, List.length_reverse, List.length_map, length]
    rw [Nat.add_comm, List.range_add, ← List.range'_eq_map_range]
    exact books.numbered.append_right _
  jobs t member n w rejected' placed := by
    simp only [Affairs.queue, Affairs.settle, List.reverse_append, List.reverse_reverse]
    rcases Ticket.mem_turned member with ⟨old, -⟩ | ⟨i, u, found, rfl⟩
    next =>
      obtain ⟨before, told⟩ := books.jobs t old n w rejected' placed
      refine ⟨?_, List.mem_cons_of_mem _ told⟩
      rw [List.getElem?_append_left (List.getElem?_eq_some_iff.1 before).1, before]
    next =>
      obtain ⟨rfl, rfl, rfl⟩ := Place.job.inj placed
      have source : u.source = p := (Ticket.isStored_iff.1 (List.mem_filter.1 (List.mem_of_getElem? found)).2).1
      refine ⟨?_, source ▸ List.mem_cons_self⟩
      have reaction : r.reactions[i]? = some u.reaction := by
        rw [← books.stored p r here waits, List.getElem?_map, found, Option.map_some]
      rw [List.getElem?_append_right (by simp), List.length_reverse, Nat.add_sub_cancel_left, List.getElem?_map, reaction,
        Option.map_some]
  ordered := Ticket.ordered_turned books.ordered (fun _ member _ => books.small member) (Nat.le_refl _)

theorem store (books : Books T a) (here : a.promises.get? p = some r) (waits : r.settlement = .pending) (x : Reaction) :
    Books (T ++ [⟨p, x, .stored⟩]) (a.react p { r with reactions := r.reactions ++ [x] } []) where
  attached := by simp [books.attached, Affairs.react, Happening.source?]
  stored q r' found pending := by
    simp only [Affairs.react, Table.get?_set] at found
    rw [List.filter_append, List.map_append]
    split at found
    next same =>
      subst same
      obtain rfl := Option.some.inj found
      simp [books.stored p r here waits, Ticket.isStored]
    next other => simp [books.stored q r' found pending, Ticket.isStored, other]
  pending t member stored := by
    simp only [Affairs.react, Table.get?_set]
    rcases List.mem_append.1 member with old | new
    next =>
      split
      next => exact ⟨_, rfl, waits⟩
      next => exact books.pending t old stored
    next =>
      obtain rfl := List.mem_singleton.1 new
      exact ⟨_, if_pos rfl, waits⟩
  settled q r' v rejected found settlement := by
    simp only [Affairs.react, Table.get?_set] at found
    split at found
    next =>
      obtain rfl := Option.some.inj found
      exact absurd (settlement.symm.trans waits) (ofPayload_ne_pending rejected v)
    next => exact List.mem_cons_of_mem _ (books.settled q r' v rejected found settlement)
  numbered := by
    have unnumbered : Ticket.number? ⟨p, x, .stored⟩ = none := rfl
    rw [List.filterMap_append, List.filterMap_cons_none unnumbered, List.filterMap_nil, List.append_nil]
    exact books.numbered
  jobs t member n v rejected placed := by
    rcases List.mem_append.1 member with old | new
    next => exact (books.jobs t old n v rejected placed).imp_right (List.mem_cons_of_mem _)
    next =>
      obtain rfl := List.mem_singleton.1 new
      cases placed
  ordered := by
    refine List.pairwise_append.2 ⟨books.ordered, List.pairwise_singleton .., fun t _ u new _ n number => ?_⟩
    obtain rfl := List.mem_singleton.1 new
    cases number

theorem react (books : Books T a) (here : a.promises.get? p = some r) (settled : r.settlement = .ofPayload rejected v)
    (x : Reaction) (events : List Rejection) :
    Books (T ++ [⟨p, x, .job a.queued.length v rejected⟩]) ((a.react p r events).queue [x.job v rejected]) where
  attached := by simp [books.attached, Affairs.react, Affairs.queue, Happening.source?]
  stored q r' found pending := by
    simp only [Affairs.react, Affairs.queue, Table.get?_set] at found
    rw [List.filter_append, List.map_append]
    split at found
    next =>
      obtain rfl := Option.some.inj found
      exact absurd (settled.symm.trans pending) (ofPayload_ne_pending rejected v)
    next => simp [books.stored q r' found pending, Ticket.isStored]
  pending t member stored := by
    rcases List.mem_append.1 member with old | new
    next =>
      obtain ⟨r', found, pending⟩ := books.pending t old stored
      have elsewhere : p ≠ t.source := by
        rintro rfl
        obtain rfl := Option.some.inj (here.symm.trans found)
        exact ofPayload_ne_pending rejected v (settled.symm.trans pending)
      exact ⟨r', by simpa [Affairs.react, Affairs.queue, elsewhere] using found, pending⟩
    next =>
      obtain rfl := List.mem_singleton.1 new
      cases stored
  settled q r' w rejected' found settlement := by
    simp only [Affairs.react, Affairs.queue, Table.get?_set] at found
    split at found
    next same =>
      subst same
      obtain rfl := Option.some.inj found
      exact List.mem_cons_of_mem _ (books.settled p r w rejected' here settlement)
    next => exact List.mem_cons_of_mem _ (books.settled q r' w rejected' found settlement)
  numbered := by
    have number : Ticket.number? ⟨p, x, .job a.queued.length v rejected⟩ = some a.queued.length := rfl
    simp only [List.filterMap_append, List.filterMap_cons_some number, List.filterMap_nil, Affairs.queue, Affairs.react,
      List.reverse_singleton, List.singleton_append, List.length_cons, List.range_succ]
    exact books.numbered.append_right _
  jobs t member n w rejected' placed := by
    simp only [Affairs.queue, Affairs.react, List.reverse_append, List.reverse_reverse]
    rcases List.mem_append.1 member with old | new
    next =>
      obtain ⟨before, told⟩ := books.jobs t old n w rejected' placed
      refine ⟨?_, List.mem_cons_of_mem _ told⟩
      rw [List.getElem?_append_left (List.getElem?_eq_some_iff.1 before).1, before]
    next =>
      obtain rfl := List.mem_singleton.1 new
      obtain ⟨rfl, rfl, rfl⟩ := Place.job.inj placed
      exact ⟨by simp, List.mem_cons_of_mem _ (books.settled p r _ _ here settled)⟩
  ordered := by
    refine List.pairwise_append.2 ⟨books.ordered, List.pairwise_singleton .., fun t old u new same n number => ?_⟩
    obtain rfl := List.mem_singleton.1 new
    obtain rfl : a.queued.length = n := Option.some.inj number
    refine ⟨fun stored => ?_, fun m own => books.small old own⟩
    obtain ⟨r', found, pending⟩ := books.pending t old stored
    obtain rfl := Option.some.inj (here.symm.trans ((congrArg a.promises.get? same).symm.trans found))
    exact ofPayload_ne_pending rejected v (settled.symm.trans pending)

/-- A new promise comes without reactions. -/
theorem begin (books : Books T a) (absent : a.promises.get? (UInt32.ofNat n) = none) : Books T (a.begin n) where
  attached := books.attached
  stored p r found pending := by
    simp only [Affairs.begin, Table.get?_set] at found
    split at found
    next same =>
      subst same
      obtain rfl := Option.some.inj found
      have nobody : T.filter (Ticket.isStored (UInt32.ofNat n)) = [] := by
        refine List.filter_eq_nil_iff.2 fun t member stored => ?_
        obtain ⟨source, place⟩ := Ticket.isStored_iff.1 stored
        obtain ⟨r, there, -⟩ := books.pending t member place
        rw [source, absent] at there
        cases there
      rw [nobody]
      rfl
    next => exact books.stored p r found pending
  pending t member stored := by
    obtain ⟨r, there, pending⟩ := books.pending t member stored
    have other : UInt32.ofNat n ≠ t.source := fun same => by simp [same, there] at absent
    exact ⟨r, by simpa [Affairs.begin, other] using there, pending⟩
  settled p r v rejected found settlement := by
    simp only [Affairs.begin, Table.get?_set] at found
    split at found
    next =>
      obtain rfl := Option.some.inj found
      exact absurd settlement.symm (ofPayload_ne_pending rejected v)
    next => exact books.settled p r v rejected found settlement
  numbered := books.numbered
  jobs := books.jobs
  ordered := books.ordered

end Books

/-- Jobs may leave the queue. -/
theorem Books.take (books : Books T a) {jobs taken : List Job} : Books T { a with jobs, taken } :=
  ⟨books.attached, books.stored, books.pending, books.settled, books.numbered, books.jobs, books.ordered⟩

theorem Dealing.books (dealing : Dealing may s s') (books : Books s.1 s.2) : Books s'.1 s'.2 := by
  cases dealing with
  | keep kept => exact books.keep kept
  | make absent => exact books.begin absent
  | settle here pending v rejected => exact books.settle here pending v rejected
  | store here pending => exact books.store here pending _
  | react here settled _ events => exact books.react here settled _ events

theorem Dealings.books (dealings : Dealings may s s') (books : Books s.1 s.2) : Books s'.1 s'.2 := by
  induction dealings with
  | refl => exact books
  | tail _ dealing ih => exact dealing.books ih

/-- The old tickets are for what they were, and there may be new ones behind them. -/
structure Posted (may : Ptr -> Reaction -> Prop) (T T' : List Ticket) : Prop where
  kept : (T'.take T.length).map Ticket.attachment = T.map Ticket.attachment
  added : ∀ t ∈ T'.drop T.length, may t.source t.reaction

namespace Posted

variable {T' T'' old new : List Ticket}

theorem of_append (kept : old.map Ticket.attachment = T.map Ticket.attachment)
    (added : ∀ t ∈ new, may t.source t.reaction) : Posted may T (old ++ new) := by
  have length : T.length = old.length := by simpa using (congrArg List.length kept).symm
  constructor
  next => rwa [length, List.take_left]
  next => rwa [length, List.drop_left]

theorem of_same (kept : T'.map Ticket.attachment = T.map Ticket.attachment) : Posted may T T' :=
  List.append_nil T' ▸ of_append kept fun _ member => absurd member List.not_mem_nil

theorem trans (first : Posted may T T') (second : Posted may T' T'') : Posted may T T'' := by
  have split : T'' = (T''.take T'.length).take T.length ++ ((T''.take T'.length).drop T.length ++ T''.drop T'.length) := by
    rw [← List.append_assoc, List.take_append_drop, List.take_append_drop]
  rw [split]
  refine of_append ?_ fun t member => ?_
  next => rw [List.map_take, second.kept, ← List.map_take, first.kept]
  next =>
    rcases List.mem_append.1 member with before | now
    next =>
      have same := congrArg (List.drop T.length) second.kept
      rw [← List.map_drop, ← List.map_drop] at same
      obtain ⟨u, inside, here⟩ := List.mem_map.1 (same ▸ List.mem_map_of_mem before)
      obtain ⟨source, reaction⟩ := Prod.mk.inj here
      exact source ▸ reaction ▸ first.added u inside
    next => exact second.added t now

/-- There is a new ticket for everything that was attached meanwhile. -/
theorem sources (posted : Posted may T T') (books : Books T a) (books' : Books T' b) {recent : List Happening}
    (told : b.history = recent ++ a.history) :
    (T'.drop T.length).map Ticket.source = recent.reverse.filterMap Happening.source? := by
  have all := books'.attached
  rw [← List.take_append_drop T.length T', List.map_append, Ticket.map_source (T'.take T.length), posted.kept,
    ← Ticket.map_source, told, List.reverse_append, List.filterMap_append, books.attached] at all
  exact List.append_cancel_left all

theorem exists_of_news (posted : Posted may T T') (books : Books T a) (books' : Books T' b)
    (news : News a.history b.history (.reacted v)) : ∃ t ∈ T'.drop T.length, t.source = v := by
  obtain ⟨recent, told, member⟩ := news
  have inside : v ∈ (T'.drop T.length).map Ticket.source := by
    rw [posted.sources books books' told]
    exact List.mem_filterMap.2 ⟨.reacted v, List.mem_reverse.2 member, rfl⟩
  exact List.mem_map.1 inside

end Posted

theorem Dealing.posted (dealing : Dealing may s s') : Posted may s.1 s'.1 := by
  cases dealing with
  | keep kept =>
    refine .of_same ?_
    rw [List.map_map]
    exact List.map_congr_left fun t _ => Ticket.attachment_without
  | make => exact .of_same rfl
  | settle here pending v rejected => exact .of_same (Ticket.attachment_turned ..)
  | store here pending allowed =>
    refine .of_append rfl fun t member => ?_
    obtain rfl := List.mem_singleton.1 member
    exact allowed
  | react here settled allowed events =>
    refine .of_append rfl fun t member => ?_
    obtain rfl := List.mem_singleton.1 member
    exact allowed

theorem Dealings.posted (dealings : Dealings may s s') : Posted may s.1 s'.1 := by
  induction dealings with
  | refl => exact .of_same rfl
  | tail _ dealing ih => exact ih.trans dealing.posted

/-- Jobs are queued behind those there are, and none is taken. -/
theorem Dealing.jobs (dealing : Dealing may s s') : s.2.queued <:+ s'.2.queued ∧ s'.2.taken = s.2.taken := by
  cases dealing with
  | keep kept => exact ⟨kept.queued ▸ List.suffix_refl _, kept.taken⟩
  | make => exact ⟨List.suffix_refl _, rfl⟩
  | settle => exact ⟨List.suffix_append _ _, rfl⟩
  | store => exact ⟨List.suffix_refl _, rfl⟩
  | react => exact ⟨List.suffix_append _ _, rfl⟩

theorem Dealings.jobs (dealings : Dealings may s s') : s.2.queued <:+ s'.2.queued ∧ s'.2.taken = s.2.taken := by
  induction dealings with
  | refl => exact ⟨List.suffix_refl _, rfl⟩
  | tail _ dealing ih => exact ⟨ih.1.trans dealing.jobs.1, dealing.jobs.2.trans ih.2⟩

theorem Dealing.history (dealing : Dealing may s s') : s.2.history <:+ s'.2.history := by
  cases dealing with
  | keep kept => exact kept.history ▸ List.suffix_refl _
  | make => exact List.suffix_refl _
  | settle => exact List.suffix_cons _ _
  | store => exact List.suffix_cons _ _
  | react => exact List.suffix_cons _ _

theorem Dealings.history (dealings : Dealings may s s') : s.2.history <:+ s'.2.history := by
  induction dealings with
  | refl => exact List.suffix_refl _
  | tail _ dealing ih => exact ih.trans dealing.history

/-- What may become of a ticket: it turns when its promise settles, and goes when that goes. -/
inductive Ticket.Becomes (may : Ptr -> Reaction -> Prop) (s s' : List Ticket × Affairs) (t : Ticket) : Ticket -> Prop where
  | stays : Becomes may s s' t t
  | turns (stored : t.place = .stored) (n : Nat) (v : Ptr) (rejected : Bool)
      (news : News s.2.history s'.2.history (.settled t.source v rejected)) :
      Becomes may s s' t { t with place := .job n v rejected }
  | goes (stored : t.place = .stored) (b : List Ticket × Affairs) (before : Dealings may s b) (later : Dealings may b s')
      (gone : b.2.promises.get? t.source = none) : Becomes may s s' t { t with place := .discarded }

theorem Dealing.becomes {i : Nat} {t : Ticket} (dealing : Dealing may s s') (found : s.1[i]? = some t) :
    ∃ t', s'.1[i]? = some t' ∧ t.Becomes may s s' t' := by
  have appended {t : Ticket} {T : List Ticket} (new : Ticket) (found : T[i]? = some t) : (T ++ [new])[i]? = some t :=
    (List.getElem?_append_left (List.getElem?_eq_some_iff.1 found).1).trans found
  cases dealing with
  | @keep T a b kept =>
    refine ⟨t.without b, (List.getElem?_map ..).trans (congrArg _ found), ?_⟩
    rcases Ticket.without_eq (t := t) (a := b) with same | ⟨stored, gone, same⟩
    next =>
      rw [same]
      exact .stays
    next =>
      rw [same]
      exact .goes stored _ (.single (.keep kept)) .refl gone
  | make => exact ⟨t, found, .stays⟩
  | settle here pending v rejected =>
    rcases Ticket.getElem?_turned _ found with same | ⟨stored, m, turned⟩
    next => exact ⟨t, same, .stays⟩
    next =>
      obtain ⟨source, place⟩ := Ticket.isStored_iff.1 stored
      exact ⟨_, turned, .turns place m v rejected (source ▸ .of_cons (List.suffix_refl _))⟩
  | store => exact ⟨t, appended _ found, .stays⟩
  | react => exact ⟨t, appended _ found, .stays⟩

theorem Dealings.becomes {i : Nat} {t : Ticket} (dealings : Dealings may s s') (found : s.1[i]? = some t) :
    ∃ t', s'.1[i]? = some t' ∧ t.Becomes may s s' t' := by
  induction dealings with
  | refl => exact ⟨t, found, .stays⟩
  | tail earlier dealing ih =>
    obtain ⟨u, between, before⟩ := ih
    obtain ⟨t', there, now⟩ := dealing.becomes between
    refine ⟨t', there, ?_⟩
    -- What has turned or gone is not stored any more.
    cases before with
    | stays =>
      cases now with
      | stays => exact .stays
      | turns stored n v rejected news => exact .turns stored n v rejected (news.earlier (Dealings.history earlier))
      | goes stored b first later gone => exact .goes stored b (Relation.ReflTransGen.trans earlier first) later gone
    | turns stored n v rejected news =>
      cases now with
      | stays => exact .turns stored n v rejected (news.later dealing.history)
      | turns stored' => cases stored'
      | goes stored' => cases stored'
    | goes stored b first later gone =>
      cases now with
      | stays => exact .goes stored b first (.tail later dealing) gone
      | turns stored' => cases stored'
      | goes stored' => cases stored'

end ScriptHost
