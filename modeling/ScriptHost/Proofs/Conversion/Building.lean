import ScriptHost.Proofs.Conversion.Needs
import ScriptHost.Proofs.Conversion.Shown
import ScriptHost.Proofs.Link.Storing
import ScriptHost.Proofs.Text.Numerals

set_option autoImplicit false

/-!
Making values of the engine from snapshots.

What is made is a tree of new cells that shows the snapshot. If anything fails on the way, all that was
made for it is freed again by whoever made it.
-/

namespace ScriptHost

namespace Link

open Snapshot

variable {α : Type} {base l l' l'' : Link} {p q container child : Ptr} {v w : Snapshot} {value : Value} {b : Budget}
variable {bytes space : Nat} {ks js : List Ptr} {room : Prop}

/-- A snapshot has grown under a pointer, and nothing else has changed. -/
structure Grown (l : Link) (v : Snapshot) (p : Ptr) (l' : Link) : Prop where
  changed : Changed [] l l'
  counted : Heap.Counted l'.cells
  planted : ∃ ks, Heap.Planted l.cells l'.cells ks ∧ v.Shows l'.cells p ks

namespace Grown

theorem ready (grown : Grown l v p l') (ready : l.Ready) : l'.Ready :=
  grown.changed.ready ready grown.counted

theorem freed (grown : Grown l v p l') : Heap.freeAll l'.cells [p] = l.cells := by
  obtain ⟨ks, planted, shown⟩ := grown.planted
  rw [(shown.forest planted.there).freed grown.counted planted.nodup, planted.old]

theorem undone (grown : Grown l v p l') : Same l (l'.released p) :=
  ⟨grown.changed.release p, grown.freed⟩

theorem still (grown : Grown l v p l') (changed : Changed [] l' l'') (same : l''.cells = l'.cells) : Grown l v p l'' where
  changed := grown.changed.trans changed
  counted := same ▸ grown.counted
  planted := same ▸ grown.planted

theorem patient (grown : Grown l v p l') (polls : Option Nat) :
    Grown { l with patience := polls } v p { l' with patience := polls } := by
  refine ⟨?_, grown.counted, grown.planted⟩
  obtain ⟨cells, n, m, next, atop, rfl⟩ := grown.changed
  exact ⟨cells, n, m, next, atop, rfl⟩

end Grown

section Leaves

variable {r : Except Error Ptr × Link}

theorem Made.grown (made : Made l value bytes p l') (ready : l.Ready) (shown : v.Shows l'.cells p [p]) : Grown l v p l' where
  changed := made.changed
  counted := made.counted ready
  planted := ⟨[p], made.cells ▸ Heap.Planted.set made.absent value, shown⟩

theorem Made.near (made : Made l value bytes p l') (few : bytes ≤ space) (some : 1 ≤ space) : l.Near l' space := by
  refine ⟨Nat.le_trans made.next (Nat.add_le_add_left few _), ?_⟩
  have cells := congrArg Table.size made.cells
  rw [Table.size_set_new made.absent] at cells
  omega

theorem Ends.leaf (ready : l.Ready) (ends : Ends l (l.Roomy bytes 1) (Made l value bytes) r) (few : bytes ≤ space)
    (some : 1 ≤ space) (shown : ∀ cells p, Holds cells p value -> v.Shows cells p [p]) :
    Ends l (l.Roomy space space) (fun p l' => Grown l v p l' ∧ l.Near l' space) r := by
  refine ends.imp (fun room => room.mono few some) fun p l' made => ?_
  have here : Holds l'.cells p value := ⟨⟨1, value⟩, by simp [made.cells], rfl⟩
  exact ⟨made.grown ready (shown _ _ here), made.near few some⟩

theorem constant_ends (ready : l.Ready) {act : LinkM Ptr} (static : p.isStatic = true)
    (got : answered act l = (.ok p, l)) (shown : ∀ cells, v.Shows cells p []) :
    Ends l room (fun p l' => Grown l v p l' ∧ l.Near l' 0) (answered (Conversion.constant act) l) := by
  simp only [Conversion.constant, answered_bind, got, answered_dup_constant ready static]
  exact .ok ⟨⟨.refl ready, ready.counted, [], .refl _, shown _⟩, .refl l⟩

theorem newError_makes (ready : l.Ready) (message : String) :
    Ends l (l.Roomy (message.utf8ByteSize + 24) (message.utf8ByteSize + 24))
      (fun p l' => Grown l (.error (Text.untilNul message)) p l' ∧ l.Near l' (message.utf8ByteSize + 24))
      (answered (newError message) l) := by
  have few := span_terminated message
  by_cases fits : l.memory.Fits (Memory.terminated message).size
  next =>
    let mid := l.withMemory (l.memory.topped (Memory.terminated message).size (Memory.terminated message))
    have ready' : mid.Ready := ready.scratched fits _
    have read := Memory.topped_readCString (Memory.toNat_next ready.memory) message
    have done : outcome (Engine.perform (.newError (UInt32.ofNat l.memory.next))) mid.engine =
        (.ok (.ofWord (l.engine.heap.newError (Text.untilNul message)).1),
          { mid.engine with heap := (l.engine.heap.newError (Text.untilNul message)).2 }) := by
      simp only [Engine.perform, outcome_bind, Engine.outcome_readMemory, mid, withMemory, withEngine, read,
        Engine.outcome_onHeap, outcome_pure]
    rw [newError, answered_withCString_fits ready.clear ready.memory fits]
    rcases Heap.newError_plants ready.counted (Text.untilNul message) with
      ⟨p, text, n, later, big, big', absent, absent', apart, made⟩ | ⟨full, n, later, made⟩
    · rw [made] at done
      let cells := Heap.withError l.cells p text (Text.untilNul message)
      have asked : answered (value (.newError (UInt32.ofNat l.memory.next))) mid = (.ok p, mid.moved cells n mid.memory) :=
        answered_value ready'.clear done (nonzero_of_big big)
      have changed : Changed [(l.memory.next, (Memory.terminated message).size)] l (mid.moved cells n mid.memory) :=
        ⟨cells, n, mid.memory, later, Memory.topped_atop ready.memory fits.2 _, rfl⟩
      obtain ⟨found, there⟩ := Heap.withError_get? l.cells (Text.untilNul message) apart
      have planted := Heap.withError_planted (Text.untilNul message) absent absent' apart
      have counted : Heap.Counted cells := (ready.counted.set big' (Nat.le_refl 1)).set big (Nat.le_refl 1)
      have size : cells.size = l.cells.size + 2 := by
        simp only [cells, Heap.withError]
        rw [Table.size_set_new (by simpa [Ne.symm apart] using absent'), Table.size_set_new absent]
      rw [asked]
      refine .ok ⟨⟨changed.free (Memory.toNat_next ready.memory), counted, [p, text], planted, text, rfl, ⟨_, found, rfl⟩,
        ⟨_, there, rfl⟩⟩, ?_, ?_⟩
      · exact Nat.add_le_add_left (Nat.le_trans few (by omega)) _
      · exact size.trans_le (by omega)
    · rw [made] at done
      have later' : Same mid (mid.moved mid.cells n mid.memory) := ⟨⟨_, n, _, later, .refl ready'.memory, rfl⟩, rfl⟩
      have asked : answered (value (.newError (UInt32.ofNat l.memory.next))) mid = (.error _, mid.moved mid.cells n mid.memory) :=
        answered_value_none ready' done (later'.ready ready')
      rw [asked]
      refine .error (later'.unscratched ready fits) fun room => ?_
      have := room.cells
      change _ < l.cells.size + 18 at full
      omega
  next =>
    rw [newError, answered_withCString_refused ready.clear fits]
    exact .error (.refl ready) fun room => fits (room.fits (by omega))

end Leaves

section Opening

variable {n : Need}

theorem Ends.entered {f : Budget -> LinkM α} {good : α -> Link -> Prop} (ready : l.Ready)
    (rest : Ends l room good (answered (f (b.opened 0)) l)) (enough : Enough b l (n.within bytes space) -> room) :
    Ends l (Enough b l (n.within bytes space)) good (answered (b.entered >>= f) l) := by
  rw [answered_bind, answered_entered]
  by_cases deep : b.maxDepth < b.depth + 1
  next =>
    rw [if_pos deep]
    refine .error (.refl ready) fun enough => ?_
    have := enough.depth
    simp only [Need.within] at this
    omega
  next =>
    rw [if_neg deep]
    exact rest.imp enough fun _ _ good => good

theorem Ends.opening {f : Budget -> LinkM α} {good : α -> Link -> Prop} (ready : l.Ready)
    (rest : b.bytes + bytes ≤ b.maxBytes -> Ends l room good (answered (f (b.opened bytes)) l))
    (enough : Enough b l (n.within bytes space) -> room) :
    Ends l (Enough b l (n.within bytes space)) good (answered (b.entered >>= fun b => b.charged bytes >>= f) l) := by
  have charged : Ends l (Enough b l (n.within bytes space)) good (answered ((b.opened 0).charged bytes >>= f) l) := by
    rw [answered_bind, answered_charged]
    by_cases large : (b.opened 0).maxBytes < (b.opened 0).bytes + bytes
    next =>
      rw [if_pos large]
      refine .error (.refl ready) fun enough => ?_
      have := enough.bytes
      simp only [Need.within, Budget.opened] at this large
      omega
    next =>
      rw [if_neg large]
      dsimp only
      rw [Budget.opened_spent, Nat.zero_add]
      exact (rest (Nat.not_lt.1 large)).imp enough fun _ _ good => good
  exact .entered ready charged id

/-- A snapshot is built within the budget and the space that it needs. -/
def Built (b : Budget) (l : Link) (v : Snapshot) (r : Ptr × Budget) (l' : Link) : Prop :=
  r.2 = b.spent (v.need 0).bytes ∧ Grown l v.engraved r.1 l' ∧ l.Near l' (v.need 0).space

theorem Ends.closing {make : LinkM Ptr} (needs : v.need 0 = Need.none.within bytes space)
    (makes : Ends l room (fun p l' => Grown l v.engraved p l' ∧ l.Near l' space) (answered make l)) :
    Ends l room (Built b l v) (answered (make >>= fun p => pure (p, (b.opened bytes).leave)) l) := by
  rw [answered_bind]
  generalize answered make l = r at *
  cases makes with
  | ok made =>
    refine .ok ⟨?_, ?_⟩
    · rw [Budget.opened_leave, needs]
      rfl
    · rw [needs]
      exact made
  | error same unfit => exact .error same unfit

theorem Ends.built {make : LinkM Ptr} (ready : l.Ready) (needs : v.need 0 = Need.none.within bytes space)
    (makes : Ends l (l.Roomy space space) (fun p l' => Grown l v.engraved p l' ∧ l.Near l' space) (answered make l)) :
    Ends l (Enough b l (v.need 0)) (Built b l v)
      (answered (b.entered >>= fun b => b.charged bytes >>= fun b => make >>= fun p => pure (p, b.leave)) l) := by
  rw [needs]
  exact .opening ready (fun _ => makes.closing needs) fun enough => enough.room

theorem Ends.built_constant {make : LinkM Ptr} (ready : l.Ready) (needs : v.need 0 = Need.none.within 0 0)
    (makes : Ends l True (fun p l' => Grown l v.engraved p l' ∧ l.Near l' 0) (answered make l)) :
    Ends l (Enough b l (v.need 0)) (Built b l v)
      (answered (b.entered >>= fun b => make >>= fun p => pure (p, b.leave)) l) := by
  rw [needs]
  exact .entered ready (makes.closing needs) fun _ => trivial

end Opening

section Filling

variable {n : Need} {good : Budget -> Link -> Prop}

/-- What filling a container comes to. It can fail half-way. -/
inductive Filled (base : Link) (p : Ptr) (room : Prop) (good : Budget -> Link -> Prop) : Except Error Budget × Link -> Prop
  | ok {b' : Budget} {l' : Link} (done : good b' l') : Filled base p room good (.ok b', l')
  | error {e : Error} {l' : Link} {v : Snapshot} (partly : Grown base v p l') (unfit : ¬room) :
      Filled base p room good (.error e, l')

theorem Filled.imp {more : Prop} {better : Budget -> Link -> Prop} {r : Except Error Budget × Link}
    (filled : Filled base p room good r) (enough : more -> room) (weaker : ∀ b l, good b l -> better b l) :
    Filled base p more better r := by
  cases filled with
  | ok done => exact .ok (weaker _ _ done)
  | error partly unfit => exact .error partly fun room => unfit (enough room)

theorem Filled.kept {fill : LinkM Budget} (ready : base.Ready) (filled : Filled base p room good (answered fill l)) :
    Ends base room good (answered (Conversion.keepFilled p fill) l) := by
  rw [Conversion.keepFilled, answered_bind, answered_attempt]
  generalize answered fill l = r at *
  cases filled with
  | ok done => exact .ok done
  | error partly unfit =>
    have clear := (partly.ready ready).clear
    simp only [answered_bind, answered_free_value clear, answered_throw]
    exact .error partly.undone unfit

/-- A value that has grown is stored in a container that has grown before it, in place of an older one
perhaps. If that fails, it is gone again. -/
theorem Grown.stored {item : Snapshot} {key : String} (value' : Value) (before old after : List Ptr)
    {olds js : List Ptr} {items : List Snapshot} (grown : Grown base v container l) (ready : base.Ready)
    (planted : Heap.Planted base.cells l.cells (container :: (before ++ old ++ after)))
    (changed : Changed [] l l') (counted : Heap.Counted l'.cells) (more : Heap.Planted l.cells l'.cells js)
    (shown : item.Shows l'.cells child js) (holds : Holds l'.cells container value)
    (put : value.put (Text.untilNul key) child = some (value', olds)) (gone : ShowsItems l'.cells items olds old)
    (shows' : ∀ cells, Holds cells container value' ->
      (∀ k ∈ before ++ js ++ after, ∀ x, Holds l'.cells k x -> Holds cells k x) ->
        w.Shows cells container (container :: (before ++ js ++ after))) :
    (∃ l'', answered (Conversion.store container key child) l' = (.ok (), l'') ∧ Grown base w container l'' ∧
        Changed [] l' l'' ∧ l'.Near l'' (key.utf8ByteSize + 8)) ∨
      (∃ e l'', answered (Conversion.store container key child) l' = (.error e, l'') ∧ Grown base v container l'' ∧
        ¬l'.Roomy (key.utf8ByteSize + 8) 1) := by
  have ready' : l'.Ready := changed.ready (grown.ready ready) counted
  have both := planted.trans more
  obtain ⟨planted', unlisted, kept⟩ := planted.stored more value'
  have sole : Sole l'.cells old := fun k member => both.there k (by simp [member])
  have nodup : old.Nodup := by
    have whole := both.nodup
    simp only [List.cons_append, List.nodup_cons, List.nodup_append] at whole
    exact whole.2.1.1.2.1
  have apart : child ∉ old := by
    intro member
    rcases shown.root with static | ⟨listed, -⟩
    · obtain ⟨c, found, -⟩ := sole child member
      exact absurd (counted child c found).1 (UInt32.not_le.2 (Heap.small_of_static static))
    · exact kept child (by simp [listed]) member
  have known : l'.engine.heap.contains child = true := by
    exact Heap.contains_iff.2 (shown.root.imp_right fun ⟨_, _, c, found, _⟩ => ⟨c, found⟩)
  obtain ⟨c, there, rfl⟩ := holds
  rcases store_ends ready' there put known (gone.forest sole) nodup (kept container List.mem_cons_self) apart with
    ⟨l'', done, changed', cells, next⟩ | ⟨e, l'', failed, changed', cells, unfit⟩
  · refine .inl ⟨l'', done, ⟨(grown.changed.trans changed).trans changed', ?_, ?_⟩, changed', next, ?_⟩
    · rw [cells]
      exact (counted.modify (f := fun c => { c with value := value' }) (fun _ => Nat.le_refl _) container).without old
    · refine ⟨_, cells ▸ planted', cells ▸ shows' _ ⟨{ c with value := value' }, ?_, rfl⟩ fun k member x here => ?_⟩
      · simp [kept container List.mem_cons_self, there]
      · obtain ⟨d, found, value⟩ := here
        have other : container ≠ k := by
          rintro rfl
          exact unlisted member
        exact ⟨d, by simp [kept k (List.mem_cons_of_mem _ member), other, found], value⟩
    · rw [cells]
      have few := Table.size_without_le (l'.cells.modify container fun c => { c with value := value' }) old
      rw [Table.size_modify] at few
      omega
  · refine .inr ⟨e, l'', failed, grown.still (changed.trans changed') (cells.trans ?_), unfit⟩
    rw [(shown.forest more.there).freed counted more.nodup, more.old]

end Filling

theorem Grown.push {done : List Snapshot} {list : Ptr} (grown : Grown base (.list done) list l) (ready : base.Ready)
    (new : Grown l v child l') (few : done.length < UInt64.size) :
    (∃ l'', answered (Conversion.store list (Nat.repr done.length) child) l' = (.ok (), l'') ∧
        Grown base (.list (done ++ [v])) list l'' ∧ Changed [] l' l'' ∧
        l'.Near l'' ((Nat.repr done.length).utf8ByteSize + 8)) ∨
      (∃ e l'', answered (Conversion.store list (Nat.repr done.length) child) l' = (.error e, l'') ∧
        Grown base (.list done) list l'' ∧ ¬l'.Roomy ((Nat.repr done.length).utf8ByteSize + 8) 1) := by
  obtain ⟨ks, planted, shown⟩ := grown.planted
  obtain ⟨kc, more, shown'⟩ := new.planted
  simp only [Shows] at shown
  obtain ⟨ps, js, rfl, here, others⟩ := shown
  have size : ps.size = done.length := others.length
  have none : ShowsItems l'.cells [] [] [] := ⟨rfl, rfl⟩
  refine grown.stored (.array (ps.push child)) js [] [] ready (by simpa using planted) new.changed new.counted more shown'
    (here.planted more) ?_ none fun cells holds kept => ?_
  · rw [Text.untilNul_repr, ← size]
    exact Value.put_push ps child (size ▸ few)
  · have still := others.congr fun k member x holds => kept k (by simp [member]) x (holds.planted more)
    have last := shown'.congr fun k member x holds => kept k (by simp [member]) x holds
    simp only [Shows]
    refine ⟨ps.push child, js ++ kc ++ [], rfl, holds, ?_⟩
    rw [Array.toList_push, List.append_nil]
    exact still.concat last

theorem Grown.put {done : Table String Snapshot} {object : Ptr} {key : String}
    (grown : Grown base (.record done.entries) object l) (ready : base.Ready) (new : Grown l v child l') :
    (∃ l'', answered (Conversion.store object key child) l' = (.ok (), l'') ∧
        Grown base (.record (done.set (Text.untilNul key) v).entries) object l'' ∧ Changed [] l' l'' ∧
        l'.Near l'' (key.utf8ByteSize + 8)) ∨
      (∃ e l'', answered (Conversion.store object key child) l' = (.error e, l'') ∧
        Grown base (.record done.entries) object l'' ∧ ¬l'.Roomy (key.utf8ByteSize + 8) 1) := by
  obtain ⟨ks, planted, shown⟩ := grown.planted
  obtain ⟨kc, more, shown'⟩ := new.planted
  simp only [Shows] at shown
  obtain ⟨props, js, rfl, here, others⟩ := shown
  have there := others.congr fun _ _ _ holds => holds.planted more
  obtain ⟨before, gone, after, olds, rfl, gone', put⟩ := there.put shown' (Text.untilNul key)
  refine grown.stored (.object .plain (props.set (Text.untilNul key) child)) before gone after ready planted new.changed
    new.counted more shown' (here.planted more) rfl gone' fun cells holds kept => ?_
  simp only [Shows]
  exact ⟨props.set (Text.untilNul key) child, before ++ kc ++ after, rfl, holds, put.congr kept⟩

theorem Ends.built_container {n : Need} {make : LinkM Ptr} (empty : Snapshot) (fill : Budget -> Ptr -> LinkM Budget)
    (ready : l.Ready) (needs : v.need 0 = n.within bytes space) (some : 1 ≤ space)
    (makes : Ends l (l.Roomy 0 1) (Made l value 0) (answered make l))
    (shown : ∀ cells p, Holds cells p value -> empty.Shows cells p [p])
    (filled : b.bytes + bytes ≤ b.maxBytes -> ∀ p mid, Grown l empty p mid ->
      Filled l p (Enough (b.opened bytes) mid n) (fun b' l' => b' = (b.opened bytes).spent n.bytes ∧
        Grown l v.engraved p l' ∧ mid.Near l' n.space) (answered (fill (b.opened bytes) p) mid)) :
    Ends l (Enough b l (v.need 0)) (Built b l v)
      (answered (b.entered >>= fun b => b.charged bytes >>= fun b => make >>= fun p =>
        Conversion.keepFilled p (fill b p) >>= fun b => pure (p, b.leave)) l) := by
  rw [needs]
  refine .opening ready (fun fits => ?_) id
  rw [answered_bind]
  generalize answered make l = r at *
  cases makes with
  | error same unfit =>
    exact .error same fun enough => unfit (enough.room.mono (Nat.zero_le _) (Nat.le_trans some (Nat.le_add_right _ _)))
  | @ok p mid made =>
    have near := made.near (Nat.zero_le space) some
    -- From here on the container is there, and is freed if it cannot be filled.
    have grown := made.grown ready (shown _ _ ⟨⟨1, value⟩, by simp [made.cells], rfl⟩)
    have kept := (filled fits p mid grown).kept ready
    dsimp only
    rw [answered_bind]
    generalize answered (Conversion.keepFilled p (fill (b.opened bytes) p)) mid = r at *
    cases kept with
    | error same unfit => exact .error same fun enough => unfit (enough.inside made.changed near)
    | ok done =>
      obtain ⟨rfl, grown', near'⟩ := done
      refine .ok ⟨?_, grown', ?_⟩
      · rw [Budget.opened_spent, Budget.opened_leave, needs]
        rfl
      · rw [needs]
        exact near.trans near'

section Building

mutual

theorem build_ends (v : Snapshot) {b : Budget} {l : Link} (ready : l.Ready) (small : b.maxBytes < UInt64.size) :
    Ends l (Enough b l (v.need 0)) (Built b l v) (answered (Conversion.build b v) l) := by
  -- Structural recursion on the snapshot, the way it is built: leaves first make and then settle the budget.
  cases v
  case undefined =>
    exact .built_constant ready rfl (constant_ends ready rfl (answered_undefined ready.clear) fun _ => ⟨rfl, rfl⟩)
  case null =>
    exact .built_constant ready rfl (constant_ends ready rfl (answered_null ready.clear) fun _ => ⟨rfl, rfl⟩)
  case bool x =>
    have static : (Ptr.ofBool x).isStatic = true := by cases x <;> rfl
    exact .built_constant ready rfl (constant_ends ready static (answered_boolean ready.clear x) fun _ => ⟨rfl, rfl⟩)
  case int n =>
    refine .built ready rfl ((newNumber_makes ready (.ofInt n.toInt)).leaf ready ?_ (Nat.le_refl 1) fun _ _ here => ⟨rfl, here⟩)
    exact Nat.zero_le _
  case float x =>
    refine .built ready rfl ((newNumber_makes ready x).leaf ready (Nat.zero_le _) (Nat.le_refl 1) fun _ _ here => ⟨rfl, here⟩)
  case text s =>
    exact .built ready rfl ((newString_makes ready s).leaf ready (Nat.le_refl _) (by omega) fun _ _ here => ⟨rfl, here⟩)
  case bytes x =>
    exact .built ready rfl ((newBytes_makes ready x).leaf ready (by omega) (by omega) fun _ _ here => ⟨rfl, here⟩)
  case error message => exact .built ready rfl (newError_makes ready message)
  case list items =>
    refine .built_container (.list []) (fun b list => Conversion.buildItems b list 0 items) ready rfl (by omega)
      (newArray_makes ready) (fun cells p here => ⟨#[], [], rfl, here, rfl, rfl⟩) fun fits p mid grown => ?_
    refine buildItems_filled items [] (b := b.opened _) ready small grown ?_
    unfold Budget.listCharge at fits
    simp only [List.length_nil]
    omega
  case record fields =>
    exact .built_container (.record []) (fun b object => Conversion.buildFields b object fields) ready rfl
      (by unfold keyBytes; omega)
      (newObject_makes ready) (fun cells p here => ⟨Table.empty, [], rfl, here, rfl, rfl⟩) fun _ p mid grown =>
        buildFields_filled fields Table.empty (b := b.opened _) ready small grown

theorem buildItems_filled (items done : List Snapshot) {b : Budget} {base l : Link} {list : Ptr} (ready : base.Ready)
    (small : b.maxBytes < UInt64.size) (grown : Grown base (.list done) list l)
    (few : done.length + items.length ≤ UInt64.size) :
    Filled base list (Enough b l (needItems 0 done.length items))
      (fun b' l' => b' = b.spent (needItems 0 done.length items).bytes ∧
        Grown base (.list (done ++ engravedItems items)) list l' ∧ l.Near l' (needItems 0 done.length items).space)
      (answered (Conversion.buildItems b list done.length items) l) := by
  cases items with
  | nil =>
    refine .ok ⟨rfl, ?_, .refl l⟩
    rw [engravedItems, List.append_nil]
    exact grown
  | cons item rest =>
    have child := build_ends item (b := b) (grown.ready ready) small
    simp only [Conversion.buildItems, answered_bind]
    generalize answered (Conversion.build b item) l = r at *
    cases child with
    | error same unfit => exact .error (grown.still same.1 same.2) fun enough => unfit enough.first
    | @ok r l₁ built =>
      obtain ⟨child, b₁⟩ := r
      obtain ⟨spent, new, near⟩ := built
      obtain rfl : b₁ = b.spent (item.need 0).bytes := spent
      dsimp only at new near ⊢
      -- The item stands on its own until it is stored. Whether or not that works, nobody else has to free it.
      rcases grown.push ready new (by simp only [List.length_cons] at few; omega) with
        ⟨l₂, stored, grown', changed, near'⟩ | ⟨e, l₂, failed, partly, unfit⟩
      · have next : (done ++ [item.engraved]).length = done.length + 1 := by simp
        have later := buildItems_filled rest (done ++ [item.engraved]) (b := b.spent (item.need 0).bytes) ready small grown'
          (by simp only [List.length_append, List.length_cons, List.length_nil] at few ⊢; omega)
        rw [next] at later
        rw [stored]
        dsimp only
        refine later.imp (fun enough => (enough.rest new.changed near).rest changed (near'.mono (Nat.le_succ _))) ?_
        rintro b' l' ⟨rfl, all, near''⟩
        refine ⟨?_, ?_, near.trans ((near'.mono (Nat.le_succ _)).trans near'')⟩
        · rw [Budget.spent_spent]
          simp only [needItems, Need.beside, Nat.zero_add]
        · rwa [List.append_assoc] at all
      · rw [failed]
        refine .error partly fun enough => unfit ?_
        exact (enough.rest new.changed near).first.room.mono (Nat.le_succ _) (Nat.le_add_left _ _)

theorem buildFields_filled (fields : List (String × Snapshot)) (done : Table String Snapshot) {b : Budget} {base l : Link}
    {object : Ptr} (ready : base.Ready) (small : b.maxBytes < UInt64.size)
    (grown : Grown base (.record done.entries) object l) :
    Filled base object (Enough b l (needFields 0 fields))
      (fun b' l' => b' = b.spent (needFields 0 fields).bytes ∧
        Grown base (.record ((engravedFields fields).foldl (fun t e => t.set e.1 e.2) done).entries) object l' ∧
        l.Near l' (needFields 0 fields).space)
      (answered (Conversion.buildFields b object fields) l) := by
  cases fields with
  | nil =>
    simp only [Conversion.buildFields, needFields, engravedFields, List.foldl_nil, answered_pure]
    exact .ok ⟨rfl, grown, .refl l⟩
  | cons field rest =>
    obtain ⟨key, item⟩ := field
    simp only [Conversion.buildFields, answered_bind, answered_charged]
    by_cases large : b.maxBytes < b.bytes + key.utf8ByteSize
    next =>
      rw [if_pos large]
      refine .error grown fun enough => ?_
      have fits := enough.first.bytes
      dsimp only at fits
      omega
    next =>
      rw [if_neg large]
      dsimp only
      have child := build_ends item (b := b.spent key.utf8ByteSize) (grown.ready ready) small
      generalize answered (Conversion.build (b.spent key.utf8ByteSize) item) l = r at *
      cases child with
      | error same unfit =>
        refine .error (grown.still same.1 same.2) fun enough => unfit ?_
        exact (enough.rest (.refl (grown.ready ready)) (.refl l)).first
      | @ok r l₁ built =>
        obtain ⟨child, b₁⟩ := r
        obtain ⟨spent, new, near⟩ := built
        obtain rfl : b₁ = (b.spent key.utf8ByteSize).spent (item.need 0).bytes := spent
        dsimp only at new near ⊢
        rcases grown.put ready new with ⟨l₂, stored, grown', changed, near'⟩ | ⟨e, l₂, failed, partly, unfit⟩
        · have later := buildFields_filled rest (done.set (Text.untilNul key) item.engraved)
            (b := (b.spent key.utf8ByteSize).spent (item.need 0).bytes) ready small grown'
          rw [stored]
          dsimp only
          have few : key.utf8ByteSize + 8 ≤ key.utf8ByteSize + 9 := Nat.le_succ _
          refine later.imp (fun enough => ?_) ?_
          · exact ((enough.rest (.refl (grown.ready ready)) (.refl l)).rest new.changed near).rest changed (near'.mono few)
          · rintro b' l' ⟨rfl, all, near''⟩
            refine ⟨?_, all, ?_⟩
            · rw [Budget.spent_spent, Budget.spent_spent]
              simp only [needFields, Need.beside, Nat.zero_add]
            · simpa only [needFields, Need.beside, Nat.zero_add] using near.trans ((near'.mono few).trans near'')
        · rw [failed]
          refine .error partly fun enough => unfit ?_
          have room := ((enough.rest (.refl (grown.ready ready)) (.refl l)).rest new.changed near).first.room
          exact room.mono (by dsimp only; omega) (by dsimp only; omega)

end

end Building

end Link

end ScriptHost
