import ScriptHost.Proofs.Engine.Listing
import ScriptHost.Proofs.Engine.Recording
import ScriptHost.Proofs.Handles.Operations

set_option autoImplicit false

/-!
Recording of rejections across the link, and how the owner of an engine takes what is recorded.
-/

namespace ScriptHost

namespace Ask

variable {l : Link}

theorem newBlock_granted {s : Engine} {size : Nat} (ok : s.memory.WellFormed) (fits : s.memory.Fits size) :
    outcome (newBlock size) s =
      (.ok (UInt32.ofNat s.memory.next), { s with memory := s.memory.topped size ByteArray.empty }) := by
  simp only [newBlock, outcome_bind]
  rw [Engine.outcome_onMemory (congrArg Except.ok (Memory.allocate_fits fits))]
  simp only [Memory.next_nonzero ok, if_false, outcome_pure]

theorem newBlock_refused {s : Engine} {size : Nat} (unfit : ¬ s.memory.Fits size) :
    outcome (newBlock size) s = (.error (.allocation size), s) := by
  simp only [newBlock, outcome_bind]
  rw [Engine.outcome_onMemory (congrArg Except.ok (Memory.allocate_refused unfit))]
  simp only [if_true, outcome_throw]

theorem perform_later (q : Ask) (l : Link) : l.engine.memory.Later (q.perform.run l).2.engine.memory := by
  have habit : Engine.Habit fun s t => s.memory.Later t.memory := {
    aside := fun later _ => later
    request := fun common => Engine.perform_remembers _ fun _ same => nomatch same ▸ common
    job := fun s => s.beginJob_memory ▸ .refl s.memory
    check := Engine.afterCheck_later
    resume := Engine.afterHost_later }
  exact q.perform_habit habit l

theorem perform_onward (q : Ask) (l : Link) : l.engine.Onward (q.perform.run l).2.engine := by
  have habit : Engine.Habit Engine.Onward := {
    aside := .of_same_heap
    request := Engine.perform_onward
    job := Engine.beginJob_onward
    check := Engine.afterCheck_onward
    resume := Engine.afterHost_onward }
  exact q.perform_habit habit l

end Ask

theorem OwnerM.law_grown : Law fun l l' => l.engine.Grown l'.engine where
  refl l := .refl l.engine
  trans := .trans
  ask q l := (q.perform_onward l).toGrown
  meet r _ := Link.unlessFaulty_leads .refl (Engine.perform_grown r)

namespace Link

variable {l : Link} {a : Addr} {w : UInt32}

theorem unlessFaulty_clear {α : Type} (clear : l.faults = Table.empty) (name : String)
    (answer : Replacement -> Except Error α) (act : EngineM α) :
    (unlessFaulty name answer act).run l = ((outcome act l.engine).1, l.withEngine (outcome act l.engine).2) := by
  simp only [unlessFaulty, StateT.run_bind, StateT.run_modifyGet, intercept_of_faultless clear]
  rfl

theorem answered_allocate (clear : l.faults = Table.empty) {size : Nat} (small : size ≤ largestBlock) :
    answered (allocate size) l =
      ((outcome (Ask.newBlock size) l.engine).1, l.withEngine (outcome (Ask.newBlock size) l.engine).2) := by
  have asked : answered (allocate size) l = (Ask.allocate size).perform.run l := by
    simp only [allocate, Nat.not_lt.2 small, if_false]
    rfl
  rw [asked]
  exact unlessFaulty_clear clear _ _ _

theorem answered_free (a : Addr) (l : Link) :
    answered (free a) l = (.ok (), l.withEngine { l.engine with memory := l.engine.memory.free a }) :=
  rfl

theorem answered_readBytes (clear : l.faults = Table.empty) (a : Addr) (count : Nat) :
    answered (readBytes a count) l = (l.engine.memory.read a count, l) := by
  have asked : answered (readBytes a count) l = (Ask.readBytes a count).perform.run l := rfl
  rw [asked, Ask.perform, unlessFaulty_clear clear, Engine.outcome_readMemory]
  rfl

theorem answered_readTable (clear : l.faults = Table.empty) (a : Addr) (count : Nat) :
    answered (readTable a count) l = (l.engine.memory.readWords a count, l) := by
  unfold readTable Memory.readWords
  split
  next => rfl
  next =>
    rw [answered_bind, answered_readBytes clear]
    cases l.engine.memory.read a (count * 4) <;> rfl

theorem answered_readWord (clear : l.faults = Table.empty) (ok : l.engine.memory.WellFormed)
    (inside : l.engine.memory.Inside a.toNat 4) (stored : l.engine.memory.Stores a.toNat [w]) :
    answered (readWord a) l = (.ok w, l) := by
  obtain ⟨bytes, got, content⟩ := Memory.read_inside ok inside
  have word : Memory.decodeWords bytes.data.toList = [w] := by
    rw [content, show l.engine.memory.bytesAt a.toNat 4 = _ from stored, Memory.decode_encode]
  simp only [readWord, answered_bind, answered_readBytes clear, got, word, answered_pure]

theorem rejectionsOfWords_words (events : List Rejection) :
    rejectionsOfWords (events.flatMap Engine.rejectionWords) = events := by
  induction events with
  | nil => rfl
  | cons e rest ih =>
    obtain ⟨promise, reason, handled⟩ := e
    simp only [List.flatMap_cons, Engine.rejectionWords, List.cons_append, List.nil_append, rejectionsOfWords, ih]
    cases handled <;> rfl

theorem readRejections_listed {events : List Rejection} {out table : Addr} (clear : l.faults = Table.empty)
    (listed : Engine.Listed events out table l.engine.memory) :
    ∃ m, l.engine.memory.Later m ∧
      answered (readRejections table out) l = (.ok events, l.withEngine { l.engine with memory := m }) := by
  simp only [readRejections, answered_bind, answered_readWord clear listed.wellFormed listed.place listed.count]
  by_cases none : events = []
  next =>
    refine ⟨l.engine.memory, .refl _, ?_⟩
    simp only [listed.some.2 none, decide_true, Bool.true_or, if_true, answered_pure, none]
    rfl
  next =>
    have length := Rejection.length_words events
    have fits := (listed.inside none).le_next listed.wellFormed
    have last := listed.wellFormed.last
    have count : (UInt32.ofNat events.length).toNat = events.length := Memory.toNat_address (by omega)
    have some : UInt32.ofNat events.length ≠ 0 := by
      intro zero
      rw [zero] at count
      exact none (List.length_eq_zero_iff.1 count.symm)
    have made : table ≠ 0 := fun zero => none (listed.some.1 zero)
    have read := Memory.readWords_stores listed.wellFormed (listed.inside none) (listed.stored none)
    rw [length, Nat.mul_comm] at read
    refine ⟨l.engine.memory.free table, l.engine.memory.later_free table, ?_⟩
    simp only [made, some, decide_false, Bool.or_self, Bool.false_eq_true, if_false, answered_bind, answered_attempt,
      answered_readTable clear, count, read, answered_free, answered_ofExcept, answered_pure, rejectionsOfWords_words]

end Link

namespace OwnerM

variable {l : Link}

theorem outcome_common {α : Type} (act : LinkM α) (l : Link) : outcome (common act) l = Link.answered act l :=
  rfl

theorem outcome_request (clear : l.faults = Table.empty) (r : Request) :
    outcome (request r) l =
      ((outcome (Engine.perform r) l.engine).1, l.withEngine (outcome (Engine.perform r) l.engine).2) :=
  Link.unlessFaulty_clear clear _ _ _

/-- The table is read as it was written, whatever the engine has listed in it. -/
theorem takeTable_listed {events : List Rejection} {out table : Addr} {m : Memory} {h : Heap} (clear : l.faults = Table.empty)
    (performed : outcome (Engine.takeRejectionEvents out) l.engine =
      (.ok (.ofWord table), { l.engine with memory := m, heap := h }))
    (listed : Engine.Listed events out table m) :
    ∃ m', m.Later m' ∧
      outcome (takeTable out) l = (.ok events, l.withEngine { l.engine with memory := m', heap := h }) := by
  obtain ⟨m', later, read⟩ := Link.readRejections_listed
    (l := l.withEngine { l.engine with memory := m, heap := h }) clear listed
  refine ⟨m', later, ?_⟩
  simp only [takeTable, outcome_bind, outcome_request clear, Engine.perform, performed, outcome_common,
    Link.answered_ofExcept, Link.wordOf_ofWord, read]
  rfl

/-- Recording goes on while an engine without a limit is made. -/
theorem openEngine_onward (l : Link) : l.engine.Onward (outcome (openEngine none) l).2.engine := by
  have way : Way fun l l' : Link => l.engine.Onward l'.engine := ⟨fun l => .refl l.engine, .trans⟩
  have sole {r : Request} (common : r.isReserved = false) :
      Leads (fun l l' : Link => l.engine.Onward l'.engine) (openEngine.sole r) := by
    refine way.bind (fun l => (Ask.request r common).perform_onward l) fun s => ?_
    split
    next => exact way.pure ()
    next => exact way.throw _
  exact way.bind (sole rfl) (fun _ => sole rfl) l

/-- The engine when there is a place for the number of rejections. -/
def countPlaced (s : Engine) : Engine :=
  { s with memory := s.memory.topped 4 ByteArray.empty }

theorem takeRejections_refused (clear : l.faults = Table.empty) (unfit : ¬ l.engine.memory.Fits 4) :
    outcome takeRejections l = (.error (.allocation 4), l) := by
  have answered := Link.answered_allocate clear (show 4 ≤ Link.largestBlock by decide)
  rw [Ask.newBlock_refused unfit] at answered
  simp only [takeRejections, outcome_bind, outcome_common, answered]
  rfl

/-- What the engine lists the owner gets. -/
theorem takeRejections_listed {events : List Rejection} {h : Heap} (clear : l.faults = Table.empty)
    (ok : l.engine.memory.WellFormed) (fits : l.engine.memory.Fits 4)
    (listed : ∀ out : Addr, (countPlaced l.engine).memory.Inside out.toNat 4 ->
      ∃ table m, outcome (Engine.takeRejectionEvents out) (countPlaced l.engine) =
        (.ok (.ofWord table), { countPlaced l.engine with memory := m, heap := h }) ∧ Engine.Listed events out table m) :
    ∃ m, l.engine.memory.Later m ∧
      outcome takeRejections l = (.ok events, l.withEngine { l.engine with memory := m, heap := h }) := by
  let mid := l.withEngine (countPlaced l.engine)
  have place : mid.engine.memory.Inside (UInt32.ofNat l.engine.memory.next).toNat 4 := by
    rw [Memory.toNat_next ok]
    exact Memory.topped_inside _ 4 _
  obtain ⟨table, m, performed, listed⟩ := listed _ place
  have remembered := Engine.remembers_takeRejectionEvents (UInt32.ofNat l.engine.memory.next) mid.engine
  rw [show outcome (Engine.takeRejectionEvents _) mid.engine = _ from performed] at remembered
  obtain ⟨m', later, read⟩ := takeTable_listed (l := mid) clear performed listed
  have placed : l.engine.memory.Later (countPlaced l.engine).memory := by
    have later := l.engine.memory.later_allocate 4
    rwa [Memory.allocate_fits fits] at later
  refine ⟨m'.free (UInt32.ofNat l.engine.memory.next), placed.trans (remembered.trans (later.trans (m'.later_free _))), ?_⟩
  have answered := Link.answered_allocate clear (show 4 ≤ Link.largestBlock by decide)
  rw [Ask.newBlock_granted ok fits] at answered
  have ran : (takeTable (UInt32.ofNat l.engine.memory.next)).run.run
      (l.withEngine { l.engine with memory := l.engine.memory.topped 4 ByteArray.empty }) = _ := read
  simp only [takeRejections, outcome_bind, outcome_common, outcome_lift, answered, ran, Link.answered_free,
    Link.answered_ofExcept]
  rfl

theorem takeRejections_lists (clear : l.faults = Table.empty) (ok : l.engine.memory.WellFormed) (fits : l.engine.memory.Fits 4)
    (more : l.engine.heap.rejections ≠ [] -> (countPlaced l.engine).memory.Fits (12 * l.engine.heap.rejections.length)) :
    ∃ m, l.engine.memory.Later m ∧ outcome takeRejections l = (.ok l.engine.heap.rejections,
      l.withEngine { l.engine with memory := m, heap := l.engine.heap.takeRejections.2 }) :=
  takeRejections_listed clear ok fits fun _ place =>
    Engine.takeRejectionEvents_lists (s := countPlaced l.engine) (Memory.topped_wellFormed ok fits.2 _) place more

/-- The owner of an engine without faults and without a limit gets all that has been recorded. -/
theorem takeRejections_takes (clear : l.faults = Table.empty) (ok : l.engine.memory.WellFormed)
    (unlimited : l.engine.memory.limit = none)
    (room : l.engine.memory.next + 12 * l.engine.heap.rejections.length + 24 ≤ Memory.lastAddress) :
    ∃ m, l.engine.memory.Later m ∧ outcome takeRejections l = (.ok l.engine.heap.rejections,
      l.withEngine { l.engine with memory := m, heap := l.engine.heap.takeRejections.2 }) := by
  have few := Memory.span_le 4
  have table := Memory.span_le (12 * l.engine.heap.rejections.length)
  refine takeRejections_lists clear ok (Memory.fits_unlimited unlimited (by omega)) fun _ =>
    Memory.fits_unlimited unlimited ?_
  change l.engine.memory.next + Memory.span 4 + _ ≤ _
  omega

end OwnerM

end ScriptHost
