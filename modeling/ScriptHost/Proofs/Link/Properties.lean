import ScriptHost.Proofs.Link.Reading

set_option autoImplicit false

/-!
Calls about the properties of values: listing their names, reading them and setting them.

The names are strings made for the host, and so is the key of a property that is read or set; all of them
are freed again.
-/

namespace ScriptHost

namespace Link

variable {α : Type} {l l' : Link} {p object : Ptr} {keys : List String} {names : List Ptr} {h : Heap}

section Names

/-- What the host finds of a list of names, and where. -/
structure Listed (l : Link) (names : List Ptr) (m : Memory) : Prop where
  atop : l.memory.Atop m [((l.placed 8).memory.next, max (names.length * 4) 4), (l.memory.next, 8)]
  next : m.next = (l.placed 8).memory.next + Memory.span (max (names.length * 4) 4)
  places : m.Inside l.memory.next 8
  table : m.Stores l.memory.next [UInt32.ofNat (l.placed 8).memory.next]
  count : m.Stores (l.memory.next + 4) [UInt32.ofNat names.length]
  inside : m.Inside (l.placed 8).memory.next (4 * names.length)
  names : m.Stores (l.placed 8).memory.next names

theorem toNat_second (small : l.memory.Fits 8) : (UInt32.ofNat l.memory.next + 4).toNat = l.memory.next + 4 := by
  have last := small.2
  have span : Memory.span 8 = 8 := rfl
  unfold Memory.lastAddress at last
  have four : (4 : UInt32).toNat = 4 := rfl
  rw [UInt32.toNat_add, four, UInt32.toNat_ofNat']
  omega

theorem getOwnPropertyNames_fits (ok : l.memory.WellFormed) (small : l.memory.Fits 8)
    (found : l.engine.heap.ownKeys object = .ok keys) (made : Engine.newStrings l.engine.heap keys = (names, h))
    (fits : (l.placed 8).memory.Fits (max (names.length * 4) 4)) :
    ∃ m, outcome (Engine.perform (.getOwnPropertyNames (UInt32.ofNat l.memory.next) (UInt32.ofNat l.memory.next + 4)
        object)) (l.placed 8).engine = (.ok Engine.statusOk, { l.engine with heap := h, memory := m }) ∧
      l.Listed names m := by
  have out := Memory.toNat_next ok
  have second := toNat_second small
  have wellFormed : (l.placed 8).memory.WellFormed := Memory.topped_wellFormed ok small.2 _
  have above : (l.placed 8).memory.next = l.memory.next + 8 := rfl
  have atop := (Memory.topped_atop ok small.2 ByteArray.empty).trans
    (Memory.topped_atop wellFormed fits.2 (Memory.encodeWords names))
  let tabled := (l.placed 8).memory.topped (max (names.length * 4) 4) (Memory.encodeWords names)
  -- The address of the table and its length are written side by side, below the table.
  have both : tabled.Inside l.memory.next 8 := (Memory.topped_inside l.memory 8 _).topped _ _
  obtain ⟨e, member, low, high, within⟩ := both
  have first : tabled.Inside (UInt32.ofNat l.memory.next).toNat 4 := ⟨e, member, by omega, by omega, by omega⟩
  have rest : tabled.Inside (UInt32.ofNat l.memory.next + 4).toNat 4 := ⟨e, member, by omega, by omega, by omega⟩
  obtain ⟨m, done, noted⟩ := Memory.writeWord_notes ok atop first
    ⟨(l.memory.next, 8), by simp, by omega, by dsimp only; omega⟩ (UInt32.ofNat (l.placed 8).memory.next)
  obtain ⟨m', done', noted'⟩ := Memory.writeWord_notes ok noted.atop (noted.inside rest)
    ⟨(l.memory.next, 8), by simp, by omega, by dsimp only; omega⟩ (UInt32.ofNat names.length)
  have stored : tabled.Stores (l.placed 8).memory.next names := Memory.topped_stores wellFormed fits.2 (by omega)
  refine ⟨m', ?_, ?_⟩
  next =>
    have read : (l.placed 8).engine.heap.ownKeys object = .ok keys := found
    have named : Engine.newStrings (l.placed 8).engine.heap keys = (names, h) := made
    simp only [Engine.perform, Engine.getOwnPropertyNames, outcome_bind, Engine.outcome_readHeap, read,
      Engine.outcome_onHeap, named]
    rw [Engine.outcome_onMemory (Memory.writeTable_fits wellFormed fits)]
    dsimp only
    rw [if_neg (Memory.next_nonzero wellFormed), outcome_bind, Engine.outcome_writeWord done]
    dsimp only
    rw [outcome_bind, Engine.outcome_writeWord done']
    rfl
  next =>
    have words : 4 * [UInt32.ofNat (l.placed 8).memory.next].length = 4 := rfl
    exact
      { atop := noted'.atop
        next := noted'.next.trans noted.next
        places := noted'.inside (noted.inside ⟨e, member, low, high, within⟩)
        table := out ▸ noted'.stores noted.there (.inl (by omega))
        count := second ▸ noted'.there
        inside := noted'.inside (noted.inside ((Memory.topped_inside _ _ _).shorten (by omega)))
        names := noted'.stores (noted.stores stored (.inr (by omega))) (.inr (by omega)) }

theorem foldl_release (ps : List Ptr) (h : Heap) : ps.foldl Heap.release h = h.releaseAll ps := by
  induction ps generalizing h with
  | nil => simp only [List.foldl_nil, Heap.releaseAll, Heap.freeAll_nil]
  | cons p rest ih =>
    have split := Heap.freeAll_append h.cells [p] rest
    simp only [List.singleton_append] at split
    simp only [List.foldl_cons, ih, Heap.release, Heap.releaseAll, split]

theorem getOwnPropertyNames_refused (outTable outCount : Addr) (found : l.engine.heap.ownKeys object = .ok keys)
    (made : Engine.newStrings l.engine.heap keys = (names, h)) (unfit : ¬l.memory.Fits (max (names.length * 4) 4)) :
    outcome (Engine.perform (.getOwnPropertyNames outTable outCount object)) l.engine =
      (.ok Engine.statusFailed,
        { l.engine with heap := (h.releaseAll names).raiseMessage Engine.outOfMemory }) := by
  simp only [Engine.perform, Engine.getOwnPropertyNames, outcome_bind, Engine.outcome_readHeap, found,
    Engine.outcome_onHeap, made]
  rw [Engine.outcome_onMemory (Memory.writeTable_refused unfit)]
  simp only [if_true, outcome_bind, Engine.outcome_modifyHeap, Engine.outcome_raising, foldl_release]

theorem confirm_refused (clear : l.faults = Table.empty) {r : Request} {c : r.isReserved = false} {n expected : Int32}
    {s : Engine} (done : outcome (Engine.perform r) l.engine = (.ok (.i32 n), s)) (other : n ≠ expected) {base : Link}
    (ready : base.Ready) (raised : l.withEngine s =
      base.withEngine { base.engine with heap := base.engine.heap.raiseMessage Engine.outOfMemory }) :
    ∃ e l', answered (confirm r expected c) l = (.error e, l') ∧
      (base.Spells (Heap.errorText Engine.outOfMemory) -> Same base l') := by
  have kept (fits : base.Spells (Heap.errorText Engine.outOfMemory)) :
      Same base (answered (failure r.name) (l.withEngine s)).2 := by
    obtain ⟨_, l', explained, same⟩ := failure_raised ready fits r.name
    rw [raised, explained]
    exact same
  simp only [confirm, answered_bind, answered_int clear done, other, if_false]
  generalize answered (failure r.name) (l.withEngine s) = r at *
  obtain ⟨_ | _, _⟩ := r <;> exact ⟨_, _, rfl, kept⟩

theorem length_newStrings (h : Heap) (keys : List String) : (Engine.newStrings h keys).1.length = keys.length := by
  induction keys generalizing h with
  | nil => rfl
  | cons key rest ih => simp only [Engine.newStrings, List.length_cons, ih]

theorem ownPropertyNames_fits (clear : l.faults = Table.empty) (ok : l.memory.WellFormed)
    (small : l.memory.Fits 8) {cells : Cells} {n : Nat} {m : Memory}
    (done : outcome (Engine.perform (.getOwnPropertyNames (UInt32.ofNat l.memory.next) (UInt32.ofNat l.memory.next + 4)
      object)) (l.placed 8).engine = (.ok Engine.statusOk, (l.moved cells n m).engine))
    (listed : l.Listed names m) :
    answered (ownPropertyNames object) l = (.ok names, l.moved cells n
      ((m.free (UInt32.ofNat (l.placed 8).memory.next)).free (UInt32.ofNat l.memory.next))) := by
  have out := Memory.toNat_next ok
  have second := toNat_second small
  have ok' : (l.placed 8).memory.WellFormed := Memory.topped_wellFormed ok small.2 _
  have table := Memory.toNat_next ok'
  have wellFormed := listed.atop.wellFormed
  have below := (listed.inside.le_next wellFormed)
  have last := wellFormed.last
  have count : (UInt32.ofNat names.length).toNat = names.length := Memory.toNat_address (by omega)
  obtain ⟨e, member, low, high, within⟩ := listed.places
  have asked : answered (confirm (.getOwnPropertyNames (UInt32.ofNat l.memory.next) (UInt32.ofNat l.memory.next + 4) object) 0)
      (l.placed 8) = (.ok (), l.moved cells n m) :=
    answered_confirm (l := l.placed 8) clear done
  have first : answered (readWord (UInt32.ofNat l.memory.next)) (l.moved cells n m) =
      (.ok (UInt32.ofNat (l.placed 8).memory.next), l.moved cells n m) :=
    answered_readWord (l := l.moved cells n m) clear wellFormed ⟨e, member, by omega, by omega, by omega⟩
      (out.symm ▸ listed.table)
  have rest : answered (readWord (UInt32.ofNat l.memory.next + 4)) (l.moved cells n m) =
      (.ok (UInt32.ofNat names.length), l.moved cells n m) :=
    answered_readWord (l := l.moved cells n m) clear wellFormed ⟨e, member, by omega, by omega, by omega⟩
      (second.symm ▸ listed.count)
  have read : answered (readTable (UInt32.ofNat (l.placed 8).memory.next) names.length) (l.moved cells n m) =
      (.ok names, l.moved cells n m) := by
    rw [answered_readTable (l := l.moved cells n m) clear]
    exact congrArg (·, _) (Memory.readWords_stores wellFormed (table.symm ▸ listed.inside) (table.symm ▸ listed.names))
  rw [ownPropertyNames, answered_withBlock_fits clear ok small]
  simp only [answered_bind, asked, first, rest, count, answered_attempt, read, ne_eq, Memory.next_nonzero ok',
    not_false_eq_true, if_true, answered_free, answered_ofExcept, unscratched]
  rfl

/-- Without room for the list, the engine frees the names that it has made and raises an error. -/
theorem ownPropertyNames_refused (ready : l.Ready) (small : l.memory.Fits 8)
    (found : l.engine.heap.ownKeys object = .ok keys) (unfit : ¬(l.placed 8).memory.Fits (max (keys.length * 4) 4)) :
    ∃ e l', answered (ownPropertyNames object) l = (.error e, l') ∧ (Legible l l' -> Same l l') := by
  have ready' : (l.placed 8).Ready := ready.scratched small _
  obtain ⟨cells, n, ks, later, others, counted, planted, forest, -⟩ := Heap.newStrings_plants ready.counted keys
  have freed := (forest.freed counted planted.nodup).trans planted.old
  have length := length_newStrings l.engine.heap keys
  let base := (l.placed 8).moved l.cells n (l.placed 8).memory
  have undone : Same (l.placed 8) base := ⟨⟨l.cells, n, _, later, .refl ready'.memory, rfl⟩, rfl⟩
  have done := getOwnPropertyNames_refused (l := l.placed 8) (UInt32.ofNat l.memory.next) (UInt32.ofNat l.memory.next + 4)
    found (Prod.eta _).symm (by rw [length_newStrings]; exact unfit)
  have restored : (Engine.newStrings l.engine.heap keys).2.releaseAll (Engine.newStrings l.engine.heap keys).1 =
      base.engine.heap := by
    rw [others, Heap.releaseAll, freed]
    rfl
  obtain ⟨e, l', failed, same⟩ := confirm_refused (l := l.placed 8) (c := rfl) ready.clear done
    (show (-1 : Int32) ≠ 0 by decide) (undone.ready ready') (by rw [← restored]; rfl)
  have later := answered_next (confirm (.getOwnPropertyNames (UInt32.ofNat l.memory.next) (UInt32.ofNat l.memory.next + 4)
    object) 0) (l.placed 8)
  rw [failed] at later
  have asked : answered (ownPropertyNames object) l = unscratched l.memory.next (.error e, l') := by
    rw [ownPropertyNames, answered_withBlock_fits ready.clear ready.memory small, answered_bind, failed]
  refine ⟨e, _, asked, ?_⟩
  exact unplaced_refused ready small (Nat.le_refl 8) (fun fits => undone.trans (same fits)) later

theorem ownPropertyNames_ends (ready : l.Ready) (found : l.engine.heap.ownKeys object = .ok keys) :
    (∃ names ks l', answered (ownPropertyNames object) l = (.ok names, l') ∧ Changed [] l l' ∧ Heap.Counted l'.cells ∧
        Heap.Planted l.cells l'.cells ks ∧ Heap.Forest l'.cells names ks ∧
        (l.cells.size + keys.length + 16 ≤ UInt32.size -> Heap.Strings l'.cells names keys) ∧
        l'.memory.next ≤ l.memory.next + 4 * keys.length + 19) ∨
      (∃ e l', answered (ownPropertyNames object) l = (.error e, l') ∧ (Legible l l' -> Same l l') ∧
        ¬l.Spacious (4 * keys.length + 19)) := by
  have span : Memory.span 8 = 8 := rfl
  have length := length_newStrings l.engine.heap keys
  have few := Memory.span_le (max (keys.length * 4) 4)
  by_cases small : l.memory.Fits 8
  next =>
    have ready' : (l.placed 8).Ready := ready.scratched small _
    by_cases fits : (l.placed 8).memory.Fits (max (keys.length * 4) 4)
    next =>
      obtain ⟨cells, n, ks, later, others, counted, planted, forest, strings⟩ := Heap.newStrings_plants ready.counted keys
      obtain ⟨m, done, listed⟩ := getOwnPropertyNames_fits ready.memory small found (Prod.eta _).symm (length.symm ▸ fits)
      rw [others] at done
      refine .inl ⟨_, ks, _, ownPropertyNames_fits ready.clear ready.memory small done listed,
        (Changed.free ⟨cells, n, m, later, listed.atop, rfl⟩ (Memory.toNat_next ready'.memory)).free
          (Memory.toNat_next ready.memory), counted, planted, forest, strings, ?_⟩
      change m.next ≤ _
      rw [listed.next, length]
      change l.memory.next + Memory.span 8 + _ ≤ _
      omega
    next =>
      obtain ⟨e, l', failed, same⟩ := ownPropertyNames_refused ready small found fits
      refine .inr ⟨e, l', failed, same, fun room => fits ?_⟩
      exact (room.mono (by omega) : l.Spacious (Memory.span 8 + (4 * keys.length + 11))).placed.fits (by omega)
  next =>
    have asked : answered (ownPropertyNames object) l = (.error (.allocation 8), l) :=
      answered_withBlock_refused ready.clear small
    exact .inr ⟨_, l, asked, fun _ => .refl ready, fun room => small (room.fits (by omega))⟩

end Names

section Keys

theorem Same.heap (same : Same l l') : ∃ n, l'.engine.heap = { l.engine.heap with next := n } := by
  obtain ⟨n, k, -, -, rfl⟩ := same.eq
  exact ⟨n, rfl⟩

theorem Same.get? (same : Same l l') (q : Ptr) : l'.engine.heap.get? q = l.engine.heap.get? q := by
  obtain ⟨n, heap⟩ := same.heap
  rw [heap]
  rfl

theorem Same.display (same : Same l l') (p : Ptr) : l'.engine.heap.display p = l.engine.heap.display p := by
  obtain ⟨n, heap⟩ := same.heap
  rw [heap]
  exact Heap.displayTo_congr l.engine.heap { l.engine.heap with next := n } (fun _ => rfl) (l.cells.size + 1) p

def textBytes (texts : List String) : Nat :=
  (texts.map fun s => s.utf8ByteSize + 8).sum

theorem texts_reads (names : List Ptr) (ready : l.Ready) :
    Reads l (l.Spacious (textBytes (names.map l.engine.heap.display)))
      ((names.map l.engine.heap.display).map Text.untilNul) (textBytes (names.map l.engine.heap.display))
      (answered (texts names) l) := by
  induction names generalizing l with
  | nil => exact .pure ready
  | cons p rest ih =>
    have first := toText_reads ready p
    have cost : textBytes ((p :: rest).map l.engine.heap.display) =
        (l.engine.heap.display p).utf8ByteSize + 8 + textBytes (rest.map l.engine.heap.display) := by
      simp [textBytes]
    rw [cost, texts]
    refine first.bind (fun l => l.Spacious (textBytes (rest.map l.engine.heap.display))) (fun l' same => ?_)
      (fun room => room.mono (by omega)) fun room l' same next => ?_
    · have later := (ih (same.ready ready)).bind (f := fun texts => pure (Text.untilNul (l.engine.heap.display p) :: texts))
        (fun _ => True) (fun l'' same' => .pure (same'.ready (same.ready ready))) id fun _ _ _ _ => trivial
      rwa [show l'.engine.heap.display = _ from funext same.display] at later ⊢
    · rw [show l'.engine.heap.display = _ from funext same.display]
      exact room.after same.1 next

def releasedAll (l : Link) (ps : List Ptr) : Link :=
  l.withEngine { l.engine with heap := l.engine.heap.releaseAll ps }

theorem answered_freeValues (ps : List Ptr) (clear : l.faults = Table.empty) :
    answered (freeValues ps) l = (.ok (), l.releasedAll ps) := by
  induction ps generalizing l with
  | nil =>
    simp only [freeValues, answered_pure, releasedAll, Heap.releaseAll, Heap.freeAll_nil]
    rfl
  | cons p rest ih =>
    have later := ih (l := l.released p) clear
    have split := Heap.freeAll_append l.cells [p] rest
    simp only [List.singleton_append] at split
    simp only [freeValues, answered_bind, answered_free_value clear, later, releasedAll, Heap.releaseAll, split]
    rfl

theorem Changed.releaseAll {scratch : List (Nat × Nat)} (changed : Changed scratch l l') (ps : List Ptr) :
    Changed scratch l (l'.releasedAll ps) := by
  obtain ⟨cells, n, m, next, atop, rfl⟩ := changed
  exact ⟨Heap.freeAll cells ps, n, m, next, atop, rfl⟩

theorem display_strings {texts : List String} (strings : Heap.Strings l.cells names texts) :
    names.map l.engine.heap.display = texts := by
  induction strings with
  | nil => rfl
  | cons here _ ih =>
    have text := Heap.display_string here.1 (Heap.get?_eq_some.2 ⟨_, here.2, rfl⟩ : l.engine.heap.get? _ = _)
    rw [List.map_cons, text, ih]

def keyBytes (keys : List String) : Nat :=
  4 * keys.length + 19 + textBytes keys

/-- The names are freed whether or not all their texts could be read. -/
theorem answered_ownKeys {mid : Link} (clear : mid.faults = Table.empty)
    (listed : answered (ownPropertyNames object) l = (.ok names, mid)) :
    answered (ownKeys object) l =
      ((answered (texts names) mid).1, (answered (texts names) mid).2.releasedAll names) := by
  simp only [ownKeys, answered_bind, listed, answered_attempt, answered_freeValues names (answered_faultless _ clear),
    answered_ofExcept]

theorem answered_ownKeys_failed {e : Error} (failed : answered (ownPropertyNames object) l = (.error e, l')) :
    answered (ownKeys object) l = (.error e, l') := by
  simp only [ownKeys, answered_bind, failed]

theorem Same.unlisted {mid : Link} {ks : List Ptr} (same : Same mid l') (changed : Changed [] l mid)
    (counted : Heap.Counted mid.cells) (planted : Heap.Planted l.cells mid.cells ks) (forest : Heap.Forest mid.cells names ks) :
    Same l (l'.releasedAll names) := by
  refine ⟨(changed.trans same.1).releaseAll names, ?_⟩
  change Heap.freeAll l'.cells names = l.cells
  rw [same.2]
  exact (forest.freed counted planted.nodup).trans planted.old

theorem clean_ownKeys (found : l.engine.heap.ownKeys object = .ok keys) : Clean (ownKeys object) l := by
  intro ready legible
  rcases ownPropertyNames_ends ready found with
    ⟨names, ks, mid, listed, changed, counted, planted, forest, -, -⟩ | ⟨e, l', failed, same, -⟩
  next =>
    have ready' := changed.ready ready counted
    rw [answered_ownKeys ready'.clear listed] at legible ⊢
    have read := Reads.clean (fun ready => texts_reads names ready) ready'
    exact (read (Legible.after ⟨legible.spare, legible.last⟩ changed)).unlisted changed counted planted forest
  next =>
    rw [answered_ownKeys_failed failed] at legible ⊢
    exact same legible

/-- As long as there are pointers for their names, all keys are listed. -/
theorem ownKeys_reads (ready : l.Ready) (found : l.engine.heap.ownKeys object = .ok keys)
    (pointers : l.cells.size + keys.length + 16 ≤ UInt32.size) :
    Reads l (l.Spacious (keyBytes keys)) (keys.map Text.untilNul) (keyBytes keys) (answered (ownKeys object) l) := by
  rcases ownPropertyNames_ends ready found with
    ⟨names, ks, mid, listed, changed, counted, planted, forest, strings, next⟩ | ⟨e, l', failed, same, unfit⟩
  next =>
    have ready' := changed.ready ready counted
    have reads := texts_reads names ready'
    rw [display_strings (strings pointers)] at reads
    rw [answered_ownKeys ready'.clear listed]
    generalize answered (texts names) mid = r at *
    cases reads with
    | @ok l' same next' =>
      refine .ok (same.unlisted changed counted planted forest) ?_
      change l'.memory.next ≤ _
      unfold keyBytes
      omega
    | @error e l' same unfit =>
      refine .error (fun legible => ?_) fun room => unfit ?_
      · exact (same (Legible.after ⟨legible.spare, legible.last⟩ changed)).unlisted changed counted planted forest
      · unfold keyBytes at room
        exact room.after changed (by omega)
  next =>
    rw [answered_ownKeys_failed failed]
    exact .error same fun room => unfit (room.mono (by unfold keyBytes; omega))

end Keys

section Lending

variable {v k : Ptr} {key : String} {held : Value} {mid : Link} {bytes : Nat}

/-- There is one more reference to this value, and freeing that leaves everything as it was. -/
structure Lent (l : Link) (v : Ptr) (l' : Link) : Prop where
  changed : Changed [] l l'
  counted : Heap.Counted l'.cells
  freed : Heap.freeAll l'.cells [v] = l.cells
  size : l'.cells.size ≤ l.cells.size + 1
  kept : ∀ q x, l.engine.heap.get? q = some x -> l'.engine.heap.get? q = some x
  counts : l.engine.heap.Known v -> l'.cells = l.cells.modify v fun c => { c with refs := c.refs + 1 }

theorem getProp_outcome (made : Made l (.string (Text.untilNul key)) bytes k mid)
    (there : l.engine.heap.get? object = some held)
    (found : l.engine.heap.lookup object (Text.untilNul key) = .ok (.existing v)) :
    outcome (Engine.perform (.getProp object k)) mid.engine =
      (.ok (.ofWord v), { mid.engine with heap := mid.engine.heap.retain v }) := by
  have named : mid.engine.heap.display k = Text.untilNul key :=
    Heap.display_string made.big (made.get?_new)
  have property : mid.engine.heap.lookup object (Text.untilNul key) = .ok (.existing v) := by
    rw [← found]
    exact Heap.lookup_held there (made.get?_old there) _
  simp only [Engine.perform, Engine.getProp, Engine.attempt, outcome_bind, outcome_get, named, Heap.getProp, property,
    Except.map, outcome_modify, outcome_pure]

theorem lent_of_made (counted : Heap.Counted l.cells) (made : Made l (.string (Text.untilNul key)) bytes k mid) :
    Lent l v ((mid.withEngine { mid.engine with heap := mid.engine.heap.retain v }).released k) := by
  -- A pointer that outlived its value may be that of the key by now.
  have cells : ((mid.withEngine { mid.engine with heap := mid.engine.heap.retain v }).released k).cells =
      if v = k then l.cells.set k ⟨1, .string (Text.untilNul key)⟩
      else l.cells.modify v fun c => { c with refs := c.refs + 1 } := by
    rw [← Heap.freeAll_key counted made.big made.absent, ← made.cells]
    rfl
  have changed : Changed [] l (mid.withEngine { mid.engine with heap := mid.engine.heap.retain v }) := by
    obtain ⟨cells, n, m, next, atop, rfl⟩ := made.changed
    exact ⟨_, n, m, next, atop, rfl⟩
  have changed' := changed.release k
  have other : l.engine.heap.Known v -> v ≠ k := by
    rintro known rfl
    obtain ⟨c, found⟩ := known made.big
    exact absurd (made.absent.symm.trans found) nofun
  generalize (mid.withEngine { mid.engine with heap := mid.engine.heap.retain v }).released k = l' at *
  split at cells
  next same =>
    refine ⟨changed', ?_, ?_, ?_, fun q x found => ?_, fun known => absurd same (other known)⟩
    · exact cells ▸ counted.set made.big (Nat.le_refl 1)
    · rw [cells, same]
      exact Heap.freeAll_planted made.absent rfl
    · rw [cells, Table.size_set_new made.absent]
    · obtain ⟨c, here, value⟩ := Heap.get?_eq_some.1 found
      have other : k ≠ q := by
        rintro rfl
        simp [made.absent] at here
      exact Heap.get?_eq_some.2 ⟨c, by simp [cells, other, here], value⟩
  next =>
    refine ⟨changed', ?_, ?_, ?_, fun q x found => ?_, fun _ => cells⟩
    · exact cells ▸ counted.modify (fun c => Nat.le_succ _) v
    · exact cells ▸ Heap.freeAll_retained counted v
    · rw [cells, Table.size_modify]
      exact Nat.le_succ _
    · obtain ⟨c, here, value⟩ := Heap.get?_eq_some.1 found
      by_cases same : v = q
      next => exact Heap.get?_eq_some.2 ⟨{ c with refs := c.refs + 1 }, by simp [cells, same, here], value⟩
      next => exact Heap.get?_eq_some.2 ⟨c, by simp [cells, same, here], value⟩

theorem getProp_ends (ready : l.Ready) (there : l.engine.heap.get? object = some held)
    (found : l.engine.heap.lookup object (Text.untilNul key) = .ok (.existing v)) :
    (∃ l', answered (getProp object key) l = (.ok v, l') ∧ Lent l v l' ∧
        l'.memory.next ≤ l.memory.next + (key.utf8ByteSize + 8)) ∨
      (∃ e l', answered (getProp object key) l = (.error e, l') ∧ Same l l' ∧
        (v = 0 ∨ ¬l.Roomy (key.utf8ByteSize + 8) 1)) := by
  have makes := newString_makes ready key
  simp only [getProp, withKey, answered_bind]
  generalize answered (newString key) l = r at *
  cases makes with
  | error same unfit => exact .inr ⟨_, _, rfl, same, .inr unfit⟩
  | @ok k mid made =>
    have ready' := made.ready ready
    have clear := ready'.clear
    have done := getProp_outcome made there found
    have undone : Same l (mid.released k) :=
      ⟨made.changed.release k, (congrArg (Heap.freeAll · [k]) made.cells).trans (Heap.freeAll_planted made.absent rfl)⟩
    -- What reads as the zero pointer is taken for a failure, though the engine has raised no error.
    by_cases zero : v = 0
    next =>
      have still : { mid.engine with heap := mid.engine.heap.retain v } = mid.engine := by
        have unknown : mid.cells.modify v (fun c => { c with refs := c.refs + 1 }) = mid.cells :=
          Table.modify_of_absent (ready'.counted.absent (zero ▸ Heap.zero_small)) _
        simp only [Heap.retain, unknown]
      rw [still, zero] at done
      have asked : answered (value (.getProp object k)) mid = (.error (unexplained (Request.getProp object k).name), mid) :=
        answered_value_none ready' done ready'
      simp only [answered_attempt, asked, answered_free_value clear, answered_ofExcept]
      exact .inr ⟨_, _, rfl, undone, .inl zero⟩
    next =>
      let lent := mid.withEngine { mid.engine with heap := mid.engine.heap.retain v }
      have asked : answered (value (.getProp object k)) mid = (.ok v, lent) := answered_value clear done zero
      simp only [answered_attempt, asked, answered_free_value (l := lent) clear, answered_ofExcept]
      exact .inl ⟨_, rfl, lent_of_made ready.counted made, made.next⟩

end Lending

end Link

end ScriptHost
