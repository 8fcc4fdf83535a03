import ScriptHost.Proofs.Engine.Calls

set_option autoImplicit false

/-!
An engine in the hands of a host that keeps a list of the references it owns.

Calls and jobs wait on a stack for their host, which may make any other moves before it answers. The
engine's counts stay exact as long as the host only frees and answers with what it owns.
-/

namespace ScriptHost

inductive Waiting where
  | checking (c : Check)
  | calling (i : Invocation) (f : Frame)

namespace Waiting

def children : Waiting -> List Ptr
  | checking c => c.children
  | calling _ f => f.children

end Waiting

structure Hosting where
  engine : Engine
  -- With multiplicity.
  owned : List Ptr
  -- Innermost first.
  waiting : List Waiting

inductive Move where
  | request (r : Request)
  | call (function this : Ptr) (count : UInt32) (arguments : Addr)
  | job
  -- Answers whether the innermost call or job is to be interrupted.
  | poll (interrupted : Bool)
  -- Answers for the innermost host function.
  | answer (p : Ptr)
  | install
  | allocate (size : Nat)
  | deallocate (a : Addr)
  | write (a : Addr) (bytes : ByteArray)

namespace Hosting

def start : Hosting :=
  ⟨.empty, [], []⟩

def running (s : Hosting) : List Ptr :=
  s.waiting.flatMap Waiting.children

def enter (s : Hosting) (hands : Scalar -> List Ptr) : Stage × Engine -> Hosting
  | (.done (.ok answer), engine) => { s with engine, owned := hands answer ++ s.owned }
  | (.done (.error _), engine) => { s with engine }
  | (.checking c, engine) => { s with engine, waiting := .checking c :: s.waiting }
  | (.calling i f, engine) => { s with engine, waiting := .calling i f :: s.waiting }

def request (s : Hosting) (r : Request) : Hosting :=
  let (answer, engine) := outcome (Engine.perform r) s.engine
  { s with engine, owned := r.received engine.memory answer ++ r.remaining s.owned }

def poll (s : Hosting) (interrupted : Bool) : Hosting :=
  match s.waiting with
  | .checking c :: waiting => { s with waiting }.enter c.handedOver (s.engine.afterCheck interrupted c)
  | _ => s

def answer (s : Hosting) (p : Ptr) : Hosting :=
  match s.waiting with
  | .calling _ f :: waiting =>
      let (result, engine) := s.engine.afterHost p f
      ⟨engine, f.handedOver result ++ if p = 0 then s.owned else s.owned.erase p, waiting⟩
  | _ => s

def onMemory (s : Hosting) (f : Memory -> Memory) : Hosting :=
  { s with engine := { s.engine with memory := f s.engine.memory } }

/-- Moves for which there is no occasion change nothing. -/
def step (s : Hosting) : Move -> Hosting
  | .request r => s.request r
  | .call function this count arguments =>
      s.enter Scalar.pointers (s.engine.beginCall function this count arguments)
  | .job => s.enter (fun _ => []) s.engine.beginJob
  | .poll interrupted => s.poll interrupted
  | .answer p => s.answer p
  | .install => { s with engine := { s.engine with hosted := true } }
  | .allocate size => s.onMemory fun m => (m.allocate size).2
  | .deallocate a => s.onMemory fun m => m.free a
  | .write a bytes => s.onMemory fun m => ((m.write a bytes).toOption).getD m

def run (s : Hosting) (moves : List Move) : Hosting :=
  moves.foldl step s

end Hosting

/-- Which pointers a host passes to functions and reactions: only those that it owns or was lent by a job
under way, or any that the engine has ever made. -/
inductive Discipline where
  | owning
  | any
  deriving DecidableEq

namespace Discipline

def stale (d : Discipline) (h : Heap) : Nat :=
  match d with
  | owning => 0
  | any => h.next

end Discipline

namespace Hosting

variable {d : Discipline} {s : Hosting} {stale : Nat}

def Owns (s : Hosting) (p : Ptr) : Prop :=
  p < Ptr.firstCounted ∨ p ∈ s.owned

def Passable (d : Discipline) (s : Hosting) (p : Ptr) : Prop :=
  s.Owns p ∨ p ∈ s.running ∨ (d = .any ∧ p.toNat < s.engine.heap.next)

/-- What the host has to see to before it makes a move. -/
def Allowed (d : Discipline) (s : Hosting) : Move -> Prop
  | .request r =>
      (∀ p ∈ r.passedOn, s.Passable d p) ∧ (∀ p ∈ r.givenUp s.owned, s.Owns p) ∧
        r.Writable s.engine.memory ∧ (r.clears = true -> s.waiting = [])
  | .poll _ =>
      match s.waiting with
      | .checking c :: _ => ∀ p ∈ c.arguments, s.Passable d p
      | _ => True
  | .answer p => s.Owns p
  | _ => True

def Disciplined (d : Discipline) (s : Hosting) : List Move -> Prop
  | [] => True
  | m :: rest => s.Allowed d m ∧ Disciplined d (s.step m) rest

structure Exact (d : Discipline) (s : Hosting) : Prop where
  counted : ∀ p c, s.engine.heap.cells.get? p = some c ->
    Ptr.firstCounted ≤ p ∧ 1 ≤ c.refs ∧
      c.refs = s.owned.count p + (s.running.count p + s.engine.heap.references.count p)
  live : d = .owning -> ∀ p, Ptr.firstCounted ≤ p ->
    p ∈ s.owned ∨ p ∈ s.running ∨ p ∈ s.engine.heap.references ->
      ∃ c, s.engine.heap.cells.get? p = some c

def Sound (d : Discipline) (s : Hosting) : Prop :=
  Engine.Sound (d.stale s.engine.heap) (s.owned ++ s.running) s.engine

theorem start_sound : start.Sound d := by
  cases d with
  | owning => exact Engine.sound_empty
  | any => exact ⟨Engine.sound_empty.memory, Engine.sound_empty.heap.later⟩

theorem renew {h : Heap} {outside : List Ptr} {e : Engine} (ok : Engine.Sound (d.stale h) outside e) :
    Engine.Sound (d.stale e.heap) outside e := by
  cases d with
  | owning => exact ok
  | any => exact ⟨ok.memory, ok.heap.later⟩

theorem reorder {outside outside' : List Ptr} {e : Engine} (ok : Engine.Sound stale outside e)
    (same : ∀ q, outside'.count q = outside.count q) : Engine.Sound stale outside' e :=
  ⟨ok.memory, ok.heap.congr fun q _ => same q⟩

theorem Passable.lasting {p : Ptr} (passable : s.Passable d p) :
    Heap.Lasting (d.stale s.engine.heap) (s.owned ++ s.running) p := by
  rcases passable with owns | lent | ⟨rfl, made⟩
  · exact owns.imp_right fun owned => .inl (List.mem_append_left _ owned)
  · exact .inr (.inl (List.mem_append_right _ lent))
  · exact .inr (.inr made)

theorem give_up {p : Ptr} (owns : s.Owns p) (ok : s.Sound d) :
    Engine.Sound (d.stale s.engine.heap) (p :: (s.owned.erase p ++ s.running)) s.engine := by
  refine ⟨ok.memory, ?_⟩
  by_cases owned : p ∈ s.owned
  next =>
    refine ok.heap.congr fun q _ => ?_
    have := List.count_pos_iff.2 owned
    by_cases same : p = q
    next =>
      subst same
      simp only [List.count_cons_self, List.count_append, List.count_erase_self]
      omega
    next =>
      have other : q ≠ p := fun h => same h.symm
      simp only [List.count_cons_of_ne same, List.count_append, List.count_erase_of_ne other]
  next =>
    rw [List.erase_of_not_mem owned]
    exact ok.heap.ignore (owns.resolve_right owned)

theorem enter_sound {hands : Scalar -> List Ptr} {r : Stage × Engine} {h : Heap}
    (ok : Engine.Sound (d.stale h) (r.1.references hands ++ (s.owned ++ s.running)) r.2) :
    (s.enter hands r).Sound d := by
  obtain ⟨stage, engine⟩ := r
  rcases stage with (_ | answer) | c | ⟨i, f⟩ <;>
    refine renew (reorder ok fun q => ?_) <;>
    simp only [enter, running, Stage.references, Waiting.children, List.flatMap_cons,
      List.count_append, List.count_nil] <;> omega

theorem request_sound {r : Request} (ok : s.Sound d) (allowed : s.Allowed d (.request r)) :
    (s.step (.request r)).Sound d := by
  obtain ⟨passing, owns, room, alone⟩ := allowed
  have given : Engine.Sound (d.stale s.engine.heap)
      (r.givenUp s.owned ++ (r.remaining s.owned ++ s.running)) s.engine := by
    cases r with
    | freeValue p => exact give_up (owns p List.mem_cons_self) ok
    | _ => exact ok
  have kept : ∀ u ∈ r.passedOn,
      Heap.Lasting (d.stale s.engine.heap) (r.remaining s.owned ++ s.running) u := by
    intro u member
    have lasting := (passing u member).lasting
    cases r with
    | promiseThen => exact lasting
    | _ => simp [Request.passedOn] at member
  have emptied : r.clears = true -> r.remaining s.owned ++ s.running = [] := by
    intro clears
    rw [running, alone clears]
    cases r with
    | freeContext => rfl
    | freeRuntime => rfl
    | _ => simp [Request.clears] at clears
  have settled := Engine.perform_settled r s.owned given.memory given.heap kept room emptied
  have answered : Engine.Sound (d.stale s.engine.heap) _ (s.request r).engine :=
    ⟨settled.memory, settled.heap⟩
  refine reorder (renew answered) fun q => ?_
  simp only [step, request, running, List.append_assoc]

theorem poll_sound {interrupted : Bool} (ok : s.Sound d) (allowed : s.Allowed d (.poll interrupted)) :
    (s.step (.poll interrupted)).Sound d := by
  simp only [step, poll, Allowed] at *
  split
  next c rest waiting =>
    simp only [waiting] at allowed
    have given : Engine.Sound (d.stale s.engine.heap)
        (c.children ++ (s.owned ++ rest.flatMap Waiting.children)) s.engine := by
      refine reorder ok fun q => ?_
      simp only [running, waiting, Waiting.children, List.flatMap_cons, List.count_append]
      omega
    refine enter_sound (Engine.afterCheck_sound interrupted c given fun v member => ?_)
    have lasting := (allowed v member).lasting
    cases c with
    | call => simpa [running, waiting, Waiting.children, Check.children] using lasting
    | _ => simp [Check.arguments] at member
  next => exact ok

theorem answer_sound {p : Ptr} (ok : s.Sound d) (owns : s.Allowed d (.answer p)) :
    (s.step (.answer p)).Sound d := by
  simp only [step, answer]
  split
  next i f rest waiting =>
    -- An answer that is not zero comes with one of the references that the host owns.
    have given : Engine.Sound (d.stale s.engine.heap)
        ((Ptr.nonzero? p).toList ++
          (f.children ++ ((if p = 0 then s.owned else s.owned.erase p) ++ rest.flatMap Waiting.children)))
        s.engine := by
      by_cases none : p = 0
      next =>
        refine reorder ok fun q => ?_
        simp only [none, if_true, Ptr.nonzero?, Option.toList, running, waiting, Waiting.children,
          List.flatMap_cons, List.count_append, List.count_nil]
        omega
      next =>
        refine reorder (give_up owns ok) fun q => ?_
        simp only [none, if_false, Ptr.nonzero?, Option.toList, running, waiting, Waiting.children,
          List.flatMap_cons, List.count_append, List.count_cons, List.count_nil]
        omega
    have answered := renew (Engine.afterHost_sound f given)
    refine reorder answered fun q => ?_
    simp only [running, List.append_assoc]
  next => exact ok

theorem onMemory_sound {f : Memory -> Memory} (ok : s.Sound d)
    (kept : ∀ m : Memory, m.WellFormed -> (f m).WellFormed) : (s.onMemory f).Sound d :=
  ⟨kept _ ok.memory, ok.heap⟩

theorem step_sound {m : Move} (ok : s.Sound d) (allowed : s.Allowed d m) : (s.step m).Sound d := by
  cases m with
  | request r => exact request_sound ok allowed
  | call function this count arguments =>
    exact enter_sound (Engine.beginCall_sound function this count arguments ok)
  | job => exact enter_sound (Engine.beginJob_sound ok)
  | poll interrupted => exact poll_sound ok allowed
  | answer p => exact answer_sound ok allowed
  | install => exact ⟨ok.memory, ok.heap⟩
  | allocate size => exact onMemory_sound ok fun m fine => (Memory.allocate_spec fine size).wellFormed
  | deallocate a => exact onMemory_sound ok fun m fine => fine.free a
  | write a bytes =>
    refine onMemory_sound (f := fun m => ((m.write a bytes).toOption).getD m) ok fun m fine => ?_
    cases done : m.write a bytes with
    | error e => simpa [done, Except.toOption] using fine
    | ok m' => simpa [done, Except.toOption] using fine.write done

theorem run_sound (moves : List Move) (ok : s.Sound d) (allowed : s.Disciplined d moves) :
    (s.run moves).Sound d := by
  induction moves generalizing s with
  | nil => exact ok
  | cons m rest ih => exact ih (step_sound ok allowed.1) allowed.2

theorem numbered_of_few {h : Heap} (few : d = .any -> h.next ≤ UInt32.size) : Heap.Numbered (d.stale h) h := by
  cases d with
  | owning => exact .inl rfl
  | any => exact .inr (few rfl)

theorem Sound.exact (sound : s.Sound d) (numbered : d = .any -> s.engine.heap.next ≤ UInt32.size) :
    s.Exact d := by
  have balanced := sound.heap.balanced (numbered_of_few numbered)
  constructor
  next =>
    intro p c found
    obtain ⟨big, some, total⟩ := balanced.counted p c found
    refine ⟨big, some, ?_⟩
    simp only [Heap.references, List.count_append] at *
    omega
  next =>
    rintro rfl p big referred
    have counted : 1 ≤ (s.owned ++ s.running ++ s.engine.heap.references).count p := by
      apply List.count_pos_iff.2
      simpa [or_assoc] using referred
    have named : Heap.Nameable 0 s.engine.heap.cells p := by
      apply balanced.nameable
      simp only [Heap.references, List.count_append] at *
      omega
    rcases named with small | found | lost
    · exact absurd big (UInt32.not_le.2 small)
    · exact found
    · exact absurd lost (Nat.not_lt_zero _)

/-- Puts an array into an object, and frees the reference that came with the array. -/
def sharing : List Move :=
  [.request .newObject, .request .newArray, .request (.setProp 16 Ptr.undefined 17),
    .request (.freeValue 17)]

theorem allowed_plain {r : Request} (passed : r.passedOn = []) (given : r.givenUp s.owned = [])
    (places : r.outPointers = []) (kept : r.clears = false) : s.Allowed d (.request r) := by
  simp [Allowed, passed, given, Request.Writable, places, kept]

theorem sharing_disciplined : start.Disciplined .owning sharing := by
  have plain := fun (s : Hosting) r => allowed_plain (d := .owning) (s := s) (r := r)
  refine ⟨plain _ _ rfl rfl rfl rfl, plain _ _ rfl rfl rfl rfl, plain _ _ rfl rfl rfl rfl, ?_, trivial⟩
  refine ⟨by simp [Request.passedOn], fun p member => .inr ?_,
    by simp [Request.Writable, Request.outPointers], by simp [Request.clears]⟩
  obtain rfl : p = 17 := by simpa [Request.givenUp] using member
  decide

end Hosting

end ScriptHost
