import ScriptHost.Proofs.Link.Texts

set_option autoImplicit false

/-!
Calls that read values.

A call that reads leaves everything as it was, also if it fails, as long as there is room for the text of
an error. It fails only for lack of room for what it reads.
-/

namespace ScriptHost

namespace Link

variable {α β : Type} {l l' l'' : Link} {p : Ptr} {r : Request} {bytes cells : Nat} {room : Prop}

/-- There is room for the text of an error beside what a call uses in passing: the memory in use stays
below the limit by as much, and addresses are left in the end. -/
structure Legible (l l' : Link) : Prop where
  spare : ∀ limit, l.memory.limit = some limit -> l.memory.used + 29 ≤ limit
  last : l'.memory.next + 24 ≤ Memory.lastAddress

instance (l l' : Link) : Decidable (Legible l l') :=
  decidable_of_iff ((∀ limit ∈ l.memory.limit, l.memory.used + 29 ≤ limit) ∧ l'.memory.next + 24 ≤ Memory.lastAddress)
    ⟨fun ⟨spare, last⟩ => ⟨fun limit set => spare limit set, last⟩, fun ⟨spare, last⟩ => ⟨spare, last⟩⟩

/-- Nothing is left of the action. -/
def Clean (act : LinkM α) (l : Link) : Prop :=
  l.Ready -> Legible l (answered act l).2 -> Same l (answered act l).2

/-- What reading comes to: what is expected, unless there is not enough room. -/
inductive Reads (l : Link) (room : Prop) (expected : α) (bytes : Nat) : Except Error α × Link -> Prop
  | ok {l' : Link} (same : Same l l') (next : l'.memory.next ≤ l.memory.next + bytes) :
      Reads l room expected bytes (.ok expected, l')
  | error {e : Error} {l' : Link} (same : Legible l l' -> Same l l') (unfit : ¬room) :
      Reads l room expected bytes (.error e, l')

theorem Reads.clean {act : LinkM α} {expected : α}
    (reads : l.Ready -> Reads l room expected bytes (answered act l)) : Clean act l := by
  intro ready legible
  have known := reads ready
  generalize answered act l = r at *
  cases known with
  | ok same _ => exact same
  | error same _ => exact same legible

theorem Reads.done {expected : α} {r : Except Error α × Link} (reads : Reads l room expected bytes r) (enough : room) :
    ∃ l', r = (.ok expected, l') ∧ Same l l' ∧ l'.memory.next ≤ l.memory.next + bytes := by
  cases reads with
  | ok same next => exact ⟨_, rfl, same, next⟩
  | error _ unfit => exact absurd enough unfit

theorem Reads.pure {a : α} (ready : l.Ready) : Reads l room a 0 (answered (pure a) l) :=
  .ok (.refl ready) (Nat.le_refl _)

theorem Spacious.after {bytes' : Nat} (room : l.Spacious (bytes + bytes')) (changed : Changed [] l l')
    (next : l'.memory.next ≤ l.memory.next + bytes) : l'.Spacious bytes' := by
  refine ⟨changed.limit.trans room.unlimited, ?_⟩
  have := room.bytes
  omega

section Clean

theorem clean_pure (a : α) : Clean (pure a) l :=
  fun ready _ => .refl ready

theorem clean_throw (e : Error) : Clean (throw e : LinkM α) l :=
  fun ready _ => .refl ready

theorem Legible.before {act : LinkM α} (legible : Legible l (answered act l').2) : Legible l l' :=
  ⟨legible.spare, Nat.le_trans (Nat.add_le_add_right (answered_next act l') 24) legible.last⟩

theorem Legible.after (legible : Legible l l'') (changed : Changed [] l l') : Legible l' l'' := by
  refine ⟨fun limit set => ?_, legible.last⟩
  have used : l'.memory.used = l.memory.used := by simpa using changed.atop.used
  rw [used]
  exact legible.spare limit (changed.limit ▸ set)

theorem clean_bind {act : LinkM α} {f : α -> LinkM β} (first : Clean act l)
    (rest : ∀ a l', Same l l' -> answered act l = (.ok a, l') -> Clean (f a) l') : Clean (act >>= f) l := by
  intro ready legible
  rw [answered_bind] at legible ⊢
  generalize done : answered act l = r at *
  obtain ⟨e | a, l'⟩ := r
  · have same := first ready
    rw [done] at same
    exact same legible
  · have same := first ready
    rw [done] at same
    have kept := same legible.before
    exact kept.trans (rest a l' kept rfl (kept.ready ready) (legible.after kept.1))

theorem Reads.bind {act : LinkM α} {f : α -> LinkM β} {a : α} {b : β} {total : Prop} {bytes' : Nat} (room' : Link -> Prop)
    (first : Reads l room a bytes (answered act l))
    (rest : ∀ l', Same l l' -> Reads l' (room' l') b bytes' (answered (f a) l')) (enough : total -> room)
    (enough' : total -> ∀ l', Same l l' -> l'.memory.next ≤ l.memory.next + bytes -> room' l') :
    Reads l total b (bytes + bytes') (answered (act >>= f) l) := by
  rw [answered_bind]
  generalize answered act l = r at *
  cases first with
  | error same unfit => exact .error same fun more => unfit (enough more)
  | @ok l' same next =>
    have later := rest l' same
    dsimp only
    generalize answered (f a) l' = r at *
    cases later with
    | ok same' next' => exact .ok (same.trans same') (by omega)
    | error same' unfit =>
      refine .error (fun legible => same.trans (same' (legible.after same.1))) fun more => ?_
      exact unfit (enough' more l' same next)

end Clean

section Texts

theorem size_outOfMemory : (Memory.terminated (Heap.errorText Engine.outOfMemory)).size = 21 := by
  rw [Memory.size_terminated]
  rfl

theorem Legible.spells {scratch : List (Nat × Nat)} (legible : Legible l l'') (changed : Changed scratch l l')
    (few : (scratch.map Prod.snd).sum ≤ 8) (later : l'.memory.next ≤ l''.memory.next) :
    l'.Spells (Heap.errorText Engine.outOfMemory) := by
  unfold Spells
  rw [size_outOfMemory]
  refine changed.atop.fits legible.spare (by omega) ?_
  have span : Memory.span 21 = 24 := rfl
  have := legible.last
  omega

/-- A call that found no memory answers with an error, which leaves nothing if its text can be taken. -/
theorem value_refused (ready : l.Ready) {c : r.isReserved = false}
    (done : outcome (Engine.perform r) l.engine =
      (.ok (.ofWord 0), { l.engine with heap := l.engine.heap.raiseMessage Engine.outOfMemory })) :
    ∃ e l', answered (value r c) l = (.error e, l') ∧
      (l.Spells (Heap.errorText Engine.outOfMemory) -> Same l l') := by
  rw [answered_value_zero ready.clear done]
  generalize found : answered (failure r.name) _ = answer
  obtain ⟨e | e, l'⟩ := answer
  all_goals
    refine ⟨e, l', rfl, fun fits => ?_⟩
    obtain ⟨_, _, explained, kept⟩ := failure_raised ready fits r.name
    cases found.symm.trans explained
  exact kept

theorem toText_reads (ready : l.Ready) (p : Ptr) :
    Reads l (l.Spacious ((l.engine.heap.display p).utf8ByteSize + 8)) (Text.untilNul (l.engine.heap.display p))
      ((l.engine.heap.display p).utf8ByteSize + 8) (answered (toText p) l) := by
  have few := span_terminated (l.engine.heap.display p)
  by_cases fits : l.Spells (l.engine.heap.display p)
  next =>
    rw [toText_fits ready.clear ready.memory fits]
    exact .ok (same_respelled ready fits) (Nat.add_le_add_left few _)
  next =>
    obtain ⟨e, l', failed, same⟩ := value_refused ready (r := .toCString p) (c := rfl) (outcome_toCString_refused fits)
    have asked : answered (toText p) l = (.error e, l') := by
      simp only [toText, answered_bind, failed]
    have later : l.memory.next ≤ l'.memory.next := by
      have := answered_next (toText p) l
      rwa [asked] at this
    rw [asked]
    exact .error (fun legible => same (legible.spells (.refl ready) (by simp) later)) fun room => fits (room.fits few)

end Texts

section Places

variable {m : Memory} {scratch : List (Nat × Nat)} {content : ByteArray} {size : Nat}

theorem answered_withBlock_refused (clear : l.faults = Table.empty) {act : Addr -> LinkM α}
    (unfit : ¬l.memory.Fits size) : answered (withBlock size act) l = (.error (.allocation size), l) := by
  simp only [withBlock, answered_bind, answered_allocate_refused clear unfit]

theorem copyArrayBuffer_fits (ok : l.memory.WellFormed) (small : l.memory.Fits 4)
    (found : l.engine.heap.get? p = some (.bytes content)) (fits : (l.placed 4).memory.Fits (max content.size 1)) :
    ∃ m, outcome (Engine.perform (.copyArrayBuffer p (UInt32.ofNat l.memory.next))) (l.placed 4).engine =
        (.ok (.ofWord (UInt32.ofNat (l.placed 4).memory.next)), { l.engine with memory := m }) ∧
      Memory.Noted l.memory ((l.placed 4).memory.topped (max content.size 1) content) m
        [((l.placed 4).memory.next, max content.size 1), (l.memory.next, 4)] (UInt32.ofNat l.memory.next)
        (UInt32.ofNat content.size) := by
  have out := Memory.toNat_next ok
  have wellFormed : (l.placed 4).memory.WellFormed := Memory.topped_wellFormed ok small.2 _
  -- The block for the length is below the one for the content, which is written to first.
  have atop := (Memory.topped_atop ok small.2 ByteArray.empty).trans
    (Memory.topped_atop wellFormed fits.2 content)
  have inside : ((l.placed 4).memory.topped (max content.size 1) content).Inside (UInt32.ofNat l.memory.next).toNat 4 := by
    rw [out]
    exact (Memory.topped_inside l.memory 4 _).topped _ _
  obtain ⟨m, done, noted⟩ := Memory.writeWord_notes ok atop inside
    ⟨(l.memory.next, 4), by simp, by omega, by dsimp only; omega⟩ (UInt32.ofNat content.size)
  refine ⟨m, ?_, noted⟩
  have read : (l.placed 4).engine.heap.get? p = some (.bytes content) := found
  simp only [Engine.perform, Engine.copyArrayBuffer, outcome_bind, Engine.outcome_readHeap, read]
  rw [Engine.outcome_onMemory (congrArg Except.ok (Memory.allocate_fits fits))]
  dsimp only
  have put := Memory.topped_write wellFormed (Memory.toNat_next wellFormed) (Nat.le_max_left content.size 1)
  rw [if_neg (Memory.next_nonzero wellFormed), outcome_bind, Engine.outcome_onMemory (by dsimp only; rw [put]; rfl)]
  dsimp only
  rw [outcome_bind, Engine.outcome_writeWord done]
  rfl

theorem copyArrayBuffer_refused {out : Addr} (found : l.engine.heap.get? p = some (.bytes content))
    (unfit : ¬l.memory.Fits (max content.size 1)) :
    outcome (Engine.perform (.copyArrayBuffer p out)) l.engine =
      (.ok (.ofWord 0), { l.engine with heap := l.engine.heap.raiseMessage Engine.outOfMemory }) := by
  simp only [Engine.perform, Engine.copyArrayBuffer, outcome_bind, Engine.outcome_readHeap, found]
  rw [Engine.outcome_onMemory (congrArg Except.ok (Memory.allocate_refused unfit))]
  rfl

theorem unplaced_refused (ready : l.Ready) (small : l.memory.Fits size) (few : size ≤ 8) {r : Except Error α × Link}
    (same : (l.placed size).Spells (Heap.errorText Engine.outOfMemory) -> Same (l.placed size) r.2)
    (later : (l.placed size).memory.next ≤ r.2.memory.next) (legible : Legible l (unscratched l.memory.next r).2) :
    Same l (unscratched l.memory.next r).2 := by
  refine (same ?_).unscratched ready small
  exact legible.spells (Changed.scratched ready.memory small ByteArray.empty) (by simpa using few) later

/-- What is copied of a byte buffer, when there is a place for its size. -/
def copied (p : Ptr) (out : Addr) : LinkM ByteArray := do
  let data <- value (.copyArrayBuffer p out) (rfl : false = false)
  let result <- attempt do readBytes data (<- readWord out).toNat
  free data
  ofExcept result

/-- With room for the content, it is copied. -/
theorem bytes_fits (clear : l.faults = Table.empty) (ok : l.memory.WellFormed) (small : l.memory.Fits 4)
    (found : l.engine.heap.get? p = some (.bytes content)) (fits : (l.placed 4).memory.Fits (max content.size 1)) :
    ∃ m, Memory.Noted l.memory ((l.placed 4).memory.topped (max content.size 1) content) m
        [((l.placed 4).memory.next, max content.size 1), (l.memory.next, 4)] (UInt32.ofNat l.memory.next)
        (UInt32.ofNat content.size) ∧
      answered (copied p (UInt32.ofNat l.memory.next)) (l.placed 4) =
        (.ok content, l.withMemory (m.free (UInt32.ofNat (l.placed 4).memory.next))) := by
  have ok' : (l.placed 4).memory.WellFormed := Memory.topped_wellFormed ok small.2 _
  obtain ⟨m, done, noted⟩ := copyArrayBuffer_fits ok small found fits
  have asked : answered (value (.copyArrayBuffer p (UInt32.ofNat l.memory.next))) (l.placed 4) =
      (.ok (UInt32.ofNat (l.placed 4).memory.next), l.withMemory m) :=
    answered_value (l := l.placed 4) clear done (Memory.next_nonzero ok')
  have out := Memory.toNat_next ok
  have data := Memory.toNat_next ok'
  have above : (l.placed 4).memory.next = l.memory.next + 8 := rfl
  have room := Memory.le_span (max content.size 1)
  have last := fits.2
  have size : (UInt32.ofNat content.size).toNat = content.size := Memory.toNat_address (by omega)
  have inside : ((l.placed 4).memory.topped (max content.size 1) content).Inside (UInt32.ofNat l.memory.next).toNat 4 := by
    rw [out]
    exact (Memory.topped_inside l.memory 4 _).topped _ _
  have inside' : ((l.placed 4).memory.topped (max content.size 1) content).Inside
      (UInt32.ofNat (l.placed 4).memory.next).toNat content.size := by
    rw [data]
    exact (Memory.topped_inside _ _ _).shorten (Nat.le_max_left _ _)
  have word : answered (readWord (UInt32.ofNat l.memory.next)) (l.withMemory m) =
      (.ok (UInt32.ofNat content.size), l.withMemory m) :=
    answered_readWord (l := l.withMemory m) clear noted.wellFormed (noted.inside inside) noted.there
  have copied : answered (readBytes (UInt32.ofNat (l.placed 4).memory.next) content.size) (l.withMemory m) =
      (.ok content, l.withMemory m) := by
    have read : (l.withMemory m).engine.memory.read (UInt32.ofNat (l.placed 4).memory.next) content.size = .ok content := by
      change m.read _ _ = _
      rw [noted.read _ _ inside' (.inr (by omega)), Memory.topped_read data (Nat.le_max_left _ _)]
    rw [answered_readBytes (l := l.withMemory m) clear, read]
  refine ⟨m, noted, ?_⟩
  simp only [Link.copied, answered_bind, asked, answered_attempt, word, size, copied, answered_free, answered_ofExcept]
  rfl

theorem bytes_reads (ready : l.Ready) (found : l.engine.heap.get? p = some (.bytes content)) :
    Reads l (l.Spacious (content.size + 16)) content (content.size + 16) (answered (Link.bytes p) l) := by
  have span : Memory.span 4 = 8 := rfl
  have few := Memory.span_le (max content.size 1)
  by_cases small : l.memory.Fits 4
  next =>
    have there : (l.placed 4).engine.heap.get? p = some (.bytes content) := found
    have ready' : (l.placed 4).Ready := ready.scratched small _
    have placed : answered (Link.bytes p) l =
        unscratched l.memory.next (answered (copied p (UInt32.ofNat l.memory.next)) (l.placed 4)) :=
      answered_withBlock_fits ready.clear ready.memory small
    rw [placed]
    by_cases fits : (l.placed 4).memory.Fits (max content.size 1)
    next =>
      obtain ⟨m, noted, copied⟩ := bytes_fits ready.clear ready.memory small found fits
      have out := Memory.toNat_next ready.memory
      have data := Memory.toNat_next ready'.memory
      have above : (l.placed 4).memory.next = l.memory.next + 8 := rfl
      rw [copied]
      refine .ok ⟨((Changed.withMemory noted.atop).free data).free out, rfl⟩ ?_
      change m.next ≤ _
      rw [noted.next]
      change (l.placed 4).memory.next + _ ≤ _
      omega
    next =>
      obtain ⟨e, l', failed, same⟩ := value_refused ready' (r := .copyArrayBuffer p (UInt32.ofNat l.memory.next))
        (c := rfl) (copyArrayBuffer_refused there fits)
      have asked : answered (value (.copyArrayBuffer p (UInt32.ofNat l.memory.next))) (l.placed 4) = (.error e, l') := failed
      have later := answered_next (value (.copyArrayBuffer p (UInt32.ofNat l.memory.next))) (l.placed 4)
      rw [asked] at later
      simp only [copied, answered_bind, asked]
      refine .error (unplaced_refused ready small (by omega) same later) fun room => fits ?_
      exact (room.mono (by omega) : l.Spacious (Memory.span 4 + (content.size + 8))).placed.fits (by omega)
  next =>
    rw [Link.bytes, answered_withBlock_refused ready.clear small]
    exact .error (fun _ => .refl ready) fun room => small (room.fits (by omega))

theorem answered_confirm (clear : l.faults = Table.empty) {c : r.isReserved = false} {n : Int32} {s : Engine}
    (done : outcome (Engine.perform r) l.engine = (.ok (.i32 n), s)) :
    answered (confirm r n c) l = (.ok (), l.withEngine s) := by
  simp only [confirm, answered_bind, answered_int clear done, if_true, answered_pure]

theorem length_reads (ready : l.Ready) {n : Nat} (found : l.engine.heap.length p = .ok n) :
    Reads l (l.Spacious 8) (UInt32.ofNat n).toNat 8 (answered (length p) l) := by
  have span : Memory.span 4 = 8 := rfl
  by_cases small : l.memory.Fits 4
  next =>
    have out := Memory.toNat_next ready.memory
    have inside : (l.placed 4).memory.Inside (UInt32.ofNat l.memory.next).toNat 4 := by
      rw [out]
      exact Memory.topped_inside l.memory 4 _
    obtain ⟨m, done, noted⟩ := Memory.writeWord_notes ready.memory (Memory.topped_atop ready.memory small.2 ByteArray.empty)
      inside ⟨(l.memory.next, 4), by simp, by omega, by dsimp only; omega⟩ (UInt32.ofNat n)
    have performed : outcome (Engine.perform (.getLength (UInt32.ofNat l.memory.next) p)) (l.placed 4).engine =
        (.ok (.i32 0), { l.engine with memory := m }) := by
      have read : (l.placed 4).engine.heap.length p = .ok n := found
      simp only [Engine.perform, Engine.getLength, outcome_bind, Engine.outcome_readHeap, read]
      rw [Engine.outcome_writeWord done]
      rfl
    have asked : answered (confirm (.getLength (UInt32.ofNat l.memory.next) p) 0) (l.placed 4) = (.ok (), l.withMemory m) :=
      answered_confirm (l := l.placed 4) ready.clear performed
    have word : answered (readWord (UInt32.ofNat l.memory.next)) (l.withMemory m) = (.ok (UInt32.ofNat n), l.withMemory m) :=
      answered_readWord ready.clear noted.wellFormed (noted.inside inside) noted.there
    rw [length, answered_withBlock_fits ready.clear ready.memory small]
    simp only [answered_bind, asked, word, answered_pure, unscratched]
    refine .ok ⟨(Changed.withMemory noted.atop).free out, rfl⟩ ?_
    exact Nat.le_of_eq noted.next
  next =>
    rw [length, answered_withBlock_refused ready.clear small]
    exact .error (fun _ => .refl ready) fun room => small (room.fits (by omega))

end Places

end Link

end ScriptHost
