import ScriptHost.Proofs.Engine.Bookkeeping

set_option autoImplicit false

/-!
Whatever the engine does to promises is a sequence of dealings, and all it attaches on its own account are adoptions.
-/

namespace ScriptHost

/-- Without handlers, the reaction that is attached to `v` hands its outcome on to `p`. -/
def Adopts (p v q : Ptr) (x : Reaction) : Prop :=
  q = v ∧ x = ⟨p, none, none⟩ ∧ v ≠ p

/-- Some promise adopts another one. -/
def Adoption (q : Ptr) (x : Reaction) : Prop :=
  ∃ p, Adopts p q q x

def Nothing (_ : Ptr) (_ : Reaction) : Prop :=
  False

theorem Adopts.adoption {p v q : Ptr} {x : Reaction} (adopts : Adopts p v q x) : Adoption q x := by
  obtain ⟨rfl, reaction, other⟩ := adopts
  exact ⟨p, rfl, reaction, other⟩

/-- A promise that is resolved with what a handler returns may adopt that. -/
def Completion.adopts (p : Ptr) : Completion -> Ptr -> Reaction -> Prop
  | returned v => Adopts p v
  | threw _ => Nothing

def Frame.adopts (answer : Ptr) : Frame -> Ptr -> Reaction -> Prop
  | call => Nothing
  | handler job _ => Adopts job.derived answer

theorem Dealing.mono {may may' : Ptr -> Reaction -> Prop} {s s' : List Ticket × Affairs} (dealing : Dealing may s s')
    (more : ∀ q x, may q x -> may' q x) : Dealing may' s s' := by
  cases dealing with
  | keep kept => exact .keep kept
  | make absent => exact .make absent
  | settle here pending v rejected => exact .settle here pending v rejected
  | store here pending allowed => exact .store here pending (more _ _ allowed)
  | react here settled allowed events => exact .react here settled (more _ _ allowed) events

namespace Affairs

variable {a b c : Affairs} {j : Job} {js : List Job}

theorem Keeps.refl (a : Affairs) : a.Keeps a :=
  (Forgets.refl a).keeps

theorem Keeps.trans (first : a.Keeps b) (second : b.Keeps c) : a.Keeps c where
  history := second.history.trans first.history
  queued := second.queued.trans first.queued
  taken := second.taken.trans first.taken
  promises p r' found := by
    obtain ⟨r, here, settlement, reactions⟩ := second.promises p r' found
    obtain ⟨x, there, settlement', reactions'⟩ := first.promises p r here
    exact ⟨x, there, settlement.trans settlement', reactions.trans reactions'⟩

theorem Forgets.queue (less : a.Forgets b) (js : List Job) : (a.queue js).Forgets (b.queue js) :=
  { less with
    jobs := congrArg (· ++ js) less.jobs
    queued := congrArg (js.reverse ++ ·) less.queued }

theorem queue_nil (a : Affairs) : a.queue [] = a := by
  simp [queue]

theorem queue_cons (a : Affairs) (j : Job) (js : List Job) : (a.queue [j]).queue js = a.queue (j :: js) := by
  simp [queue]

end Affairs

namespace Heap

variable {may : Ptr -> Reaction -> Prop} {h h' h'' : Heap} {p v : Ptr} {x : Reaction} {rejected : Bool}

/-- Whatever the tickets, one heap comes from the other by dealings. -/
def Does (may : Ptr -> Reaction -> Prop) (h h' : Heap) : Prop :=
  ∀ T, ∃ T', Dealings may (T, h.affairs) (T', h'.affairs)

theorem Does.trans (first : Does may h h') (second : Does may h' h'') : Does may h h'' := by
  intro T
  obtain ⟨T', before⟩ := first T
  obtain ⟨T'', after⟩ := second T'
  exact ⟨T'', Relation.ReflTransGen.trans before after⟩

theorem Does.refl (h : Heap) : Does may h h :=
  fun T => ⟨T, .refl⟩

theorem Does.mono {may' : Ptr -> Reaction -> Prop} (does : Does may h h') (more : ∀ q x, may q x -> may' q x) :
    Does may' h h' := by
  intro T
  obtain ⟨T', dealings⟩ := does T
  have wider : Dealing may ≤ Dealing may' := fun _ _ dealing => dealing.mono more
  exact ⟨T', Relation.ReflTransGen.mono wider _ _ dealings⟩

theorem Does.of_nothing (does : Does Nothing h h') : Does may h h' :=
  does.mono fun _ _ none => none.elim

theorem does_of_keeps (kept : h.affairs.Keeps h'.affairs) : Does may h h' :=
  fun _ => ⟨_, .single (.keep kept)⟩

theorem does_of_forgets (less : h.Forgets h') : Does may h h' :=
  does_of_keeps less.keeps

theorem enqueue_forgets (h : Heap) (x : Reaction) (v : Ptr) (rejected : Bool) :
    (h.affairs.queue [x.job v rejected]).Forgets (h.enqueue x v rejected).affairs := by
  have freed : h.affairs.Forgets ((h.releaseAll (x.handler (!rejected)).toList).retain v).affairs := by
    rw [affairs_retain]
    exact forgets_releaseAll h _
  exact freed.queue [x.job v rejected]

theorem enqueueAll_forgets (h : Heap) (xs : List Reaction) (v : Ptr) (rejected : Bool) :
    (h.affairs.queue (xs.map fun x => x.job v rejected)).Forgets (h.enqueueAll xs v rejected).affairs := by
  induction xs generalizing h with
  | nil =>
    rw [List.map_nil, Affairs.queue_nil]
    exact .refl _
  | cons x rest ih =>
    rw [List.map_cons, ← Affairs.queue_cons]
    exact ((enqueue_forgets h x v rejected).queue _).trans (ih (h.enqueue x v rejected))

theorem does_newPromise (h : Heap) : Does may h h.newPromise.2 := by
  rcases newPromise_cases h with ⟨n, -, -, absent, -, begun⟩ | full
  next =>
    have unused : h.affairs.promises.get? (UInt32.ofNat n) = none := by simp [affairs, promises, absent]
    intro T
    rw [begun]
    exact ⟨T, .single (.make unused)⟩
  next =>
    rw [full]
    exact .refl h

theorem does_settle (h : Heap) (p v : Ptr) (rejected : Bool) : Does may h (h.settle p v rejected) := by
  cases found : h.promise? p with
  | none =>
    simp only [settle, found]
    exact .refl h
  | some r =>
    by_cases pending : r.settlement = .pending
    next =>
      intro T
      obtain ⟨m, settled, told⟩ := settle_enqueues found pending v rejected
      have here : h.affairs.promises.get? p = some r := (get?_promises h p).trans found
      have less := enqueueAll_forgets m r.reactions v rejected
      rw [told, ← settled] at less
      exact ⟨_, .tail (.single (.settle here pending v rejected)) (.keep less.keeps)⟩
    next =>
      have kept : h.settle p v rejected = h := by simp only [settle, found]
      rw [kept]
      exact .refl h

theorem does_attach (h : Heap) (allowed : may p x) : Does may h (h.attach p x) := by
  cases found : h.promise? p with
  | none =>
    have retained := affairs_retainAll (x.onFulfilled.toList ++ x.onRejected.toList) h
    have absent := (promise?_retainAll (x.onFulfilled.toList ++ x.onRejected.toList) h p).trans found
    simp only [attach, absent]
    exact does_of_forgets (.of_eq retained)
  | some r =>
    intro T
    have here : h.affairs.promises.get? p = some r := (get?_promises h p).trans found
    rcases attach_enqueues found x with ⟨pending, stored⟩ | ⟨v, rejected, m, settled, attached, told⟩
    next =>
      rw [stored]
      exact ⟨_, .single (.store here pending allowed)⟩
    next =>
      have less := enqueue_forgets m x v rejected
      rw [told, ← attached] at less
      exact ⟨_, .tail (.single (.react here settled allowed _)) (.keep less.keeps)⟩

theorem does_resolveWith (h : Heap) (p v : Ptr) : Does (Adopts p v) h (h.resolveWith p v) := by
  unfold resolveWith
  split
  next =>
    refine (does_of_forgets (forgets_newError h selfResolution)).trans ?_
    exact (does_settle _ p _ true).trans (does_of_forgets (forgets_release _ _))
  next other =>
    split
    next =>
      refine (does_of_forgets (.of_eq (affairs_retain h p))).trans ?_
      exact does_attach _ ⟨rfl, rfl, other⟩
    next => exact does_settle h p v false

theorem does_callResolving (h : Heap) (p v : Ptr) (reject : Bool) : Does (Adopts p v) h (h.callResolving p v reject) := by
  unfold callResolving
  split
  next => exact .refl h
  next r found =>
    split
    next => exact .refl h
    next =>
      have marked : (h.setValue p (.promise { r with resolved := true })).affairs = h.affairs.mark p r :=
        affairs_setValue_promise found { r with resolved := true }
      have kept : h.affairs.Keeps (h.setValue p (.promise { r with resolved := true })).affairs := by
        rw [marked]
        exact Affairs.keeps_mark ((get?_promises h p).trans found)
      refine (does_of_keeps kept).trans ?_
      split
      next => exact does_settle _ p v true
      next => exact does_resolveWith _ p v

end Heap

namespace Engine

open Heap

variable {s : Engine}

theorem does_throwing (s : Engine) (message : String) : Does Nothing s.heap (s.throwing message).2.heap :=
  does_of_forgets (throwing_forgets s message)

theorem does_start (s : Engine) (interrupted : Bool) (function : Ptr) (args : List Ptr) :
    Does Adoption s.heap (s.start interrupted function args).2.heap := by
  have called (p v : Ptr) (reject : Bool) : Does Adoption s.heap (s.heap.callResolving p v reject) :=
    (does_callResolving s.heap p v reject).mono fun _ _ => Adopts.adoption
  unfold start
  split
  next => exact (does_throwing s _).of_nothing
  next =>
    split
    next =>
      split
      next => exact .refl s.heap
      next => exact (does_throwing s _).of_nothing
    next => exact called _ _ false
    next => exact called _ _ true
    next => exact (does_throwing s _).of_nothing

theorem does_endJob (s : Engine) (job : Job) (c : Completion) :
    Does (c.adopts job.derived) s.heap (s.endJob job c).2.heap := by
  cases c with
  | returned v =>
    refine (does_resolveWith s.heap job.derived v).trans (does_of_forgets ?_)
    exact Heap.Forgets.trans (forgets_release _ v) (forgets_releaseAll _ job.children)
  | threw exception =>
    refine (does_settle s.heap job.derived exception true).trans (does_of_forgets ?_)
    exact Heap.Forgets.trans (forgets_release _ exception) (forgets_releaseAll _ job.children)

theorem adoption_of_adopts {c : Completion} {p q : Ptr} {x : Reaction} (adopts : c.adopts p q x) : Adoption q x := by
  cases c with
  | returned v => exact Adopts.adoption adopts
  | threw exception => exact adopts.elim

theorem does_passThrough (s : Engine) (job : Job) : Does Adoption s.heap (s.passThrough job).2.heap := by
  simp only [passThrough]
  refine Does.trans ?_ (does_of_forgets (forgets_releaseAll _ job.children))
  split
  next => exact does_settle s.heap _ _ true
  next => exact (does_resolveWith s.heap _ _).mono fun _ _ => Adopts.adoption

theorem does_runHandler (s : Engine) (interrupted : Bool) (job : Job) (function : Ptr) :
    Does Adoption s.heap (s.runHandler interrupted job function).2.heap := by
  have started := does_start s interrupted function [job.argument]
  have ends (t : Engine) (c : Completion) : Does Adoption t.heap (t.endJob job c).2.heap :=
    (does_endJob t job c).mono fun _ _ => adoption_of_adopts
  have thrown (t : Engine) : Does Adoption t.heap ((t.throwing outOfMemory).2.endJob job (t.throwing outOfMemory).1).2.heap :=
    (does_throwing t outOfMemory).of_nothing.trans (ends _ _)
  unfold runHandler
  split
  next c t ended =>
    rw [ended] at started
    exact started.trans (ends t c)
  next id t hosted =>
    rw [hosted] at started
    split
    next table memory _ =>
      split
      next => exact started.trans (thrown { t with memory })
      next => exact started
    next => exact started.trans (thrown t)

theorem does_runCall (s : Engine) (interrupted : Bool) (function this : Ptr) (args : List Ptr) (table : Addr) :
    Does Adoption s.heap (s.runCall interrupted function this args table).2.heap := by
  have started := does_start s interrupted function args
  unfold runCall
  split
  next c t ended =>
    rw [ended] at started
    exact started.trans (does_of_forgets (endCall_forgets t c))
  next id t hosted =>
    rw [hosted] at started
    exact started

theorem does_afterCheck (s : Engine) (interrupted : Bool) (c : Check) :
    Does Adoption s.heap (s.afterCheck interrupted c).2.heap := by
  cases c with
  | job job =>
    simp only [afterCheck]
    split
    next =>
      refine does_of_forgets (Heap.Forgets.trans (forgets_releaseAll s.heap job.children) ?_)
      exact forgets_raiseMessage _ interruptedText
    next =>
      split
      next => exact does_passThrough s job
      next => exact .refl s.heap
  | call function this args table => exact does_runCall s interrupted function this args table
  | handler job function => exact does_runHandler s interrupted job function

/-- What the host answers with is all that a handler can have returned. -/
theorem completion_returned {answer v : Ptr} (returned : (s.completion answer).1 = .returned v) :
    v = answer ∧ answer ≠ 0 ∧ (s.completion answer).2 = s := by
  unfold completion throwing at *
  split at returned
  next => split at returned <;> cases returned
  next some =>
    rw [if_neg some]
    exact ⟨(Completion.returned.inj returned).symm, some, rfl⟩

theorem adopts_completion {answer p q : Ptr} {x : Reaction} (adopts : (s.completion answer).1.adopts p q x) :
    Adopts p answer q x := by
  cases ended : (s.completion answer).1 with
  | returned v =>
    rw [ended] at adopts
    exact (completion_returned ended).1 ▸ adopts
  | threw exception =>
    rw [ended] at adopts
    exact adopts.elim

theorem does_afterHost (s : Engine) (answer : Ptr) (f : Frame) : Does (f.adopts answer) s.heap (s.afterHost answer f).2.heap := by
  cases f with
  | call =>
    exact (does_of_forgets (completion_forgets s answer)).trans (does_of_forgets (endCall_forgets _ _))
  | handler job table =>
    let freed : Engine := { s with memory := s.memory.free table }
    exact (does_of_forgets (completion_forgets freed answer)).trans
      ((does_endJob _ job _).mono fun _ _ => adopts_completion)

end Engine

end ScriptHost
