import Mathlib.Logic.Relation
import ScriptHost.Proofs.Engine.Affairs

set_option autoImplicit false

/-!
Turns: what may happen to promises, one by one.

What is under way stands as a stack of tasks, each of which may yet settle one promise. Settling promises and
attaching reactions are sequences of turns, which work on the first task.
-/

namespace ScriptHost

def Reaction.job (r : Reaction) (argument : Ptr) (rejected : Bool) : Job :=
  ⟨r.handler rejected, r.derived, argument, rejected⟩

/-- Something under way that may settle a promise. -/
inductive Task where
  | job (j : Job)
  -- The handler of the job runs.
  | handling (j : Job)
  -- The promise is about to be settled, or to adopt another one.
  | resolution (p v : Ptr) (reject : Bool)
  -- The reaction is about to be attached.
  | reaction (source : Ptr) (r : Reaction)

def Task.target : Task -> Ptr
  | job j => j.derived
  | handling j => j.derived
  | resolution p _ _ => p
  | reaction _ r => r.derived

namespace Affairs

/-- What calling a resolving function does first. -/
def mark (a : Affairs) (p : Ptr) (r : PromiseRecord) : Affairs :=
  { a with promises := a.promises.set p { r with resolved := true } }

def settle (a : Affairs) (p : Ptr) (r : PromiseRecord) (v : Ptr) (rejected : Bool) : Affairs :=
  { a with
    promises := a.promises.set p { r with settlement := .ofPayload rejected v, reactions := [] }
    rejections := a.rejections ++ if rejected && !r.handled then [⟨p, v, false⟩] else []
    history := .settled p v rejected :: a.history }

def react (a : Affairs) (p : Ptr) (r : PromiseRecord) (events : List Rejection) : Affairs :=
  { a with
    promises := a.promises.set p { r with handled := true }
    rejections := a.rejections ++ events
    history := .reacted p :: a.history }

end Affairs

/-- What may happen to the first task and to promises. -/
inductive Turn : List Task × Affairs -> List Task × Affairs -> Prop where
  | forget {o : List Task} {a b : Affairs} (less : a.Forgets b) : Turn (o, a) (o, b)
  | drop {t : Task} {o : List Task} {a : Affairs} : Turn (t :: o, a) (o, a)
  -- Without a handler, the outcome is passed on.
  | pass {j : Job} {o : List Task} {a : Affairs} :
      Turn (.job j :: o, a) (.resolution j.derived j.argument j.rejected :: o, a)
  | handle {j : Job} {o : List Task} {a : Affairs} (handler : j.handler.isSome) :
      Turn (.job j :: o, a) (.handling j :: o, a)
  | finish {j : Job} {o : List Task} {a : Affairs} (v : Ptr) (reject : Bool) :
      Turn (.handling j :: o, a) (.resolution j.derived v reject :: o, a)
  | refuse {p : Ptr} {o : List Task} {a : Affairs} (error : Ptr) :
      Turn (.resolution p p false :: o, a) (.resolution p error true :: o, a)
  | adopt {p q : Ptr} {o : List Task} {a : Affairs} (other : q ≠ p) (promise : (a.promises.get? q).isSome) :
      Turn (.resolution p q false :: o, a) (.reaction q ⟨p, none, none⟩ :: o, a)
  | settle {p v : Ptr} {rejected : Bool} {r : PromiseRecord} {o : List Task} {a : Affairs}
      (here : a.promises.get? p = some r) (pending : r.settlement = .pending)
      (plain : rejected = false -> a.promises.get? v = none) :
      Turn (.resolution p v rejected :: o, a)
        (r.reactions.map (fun x => .job (x.job v rejected)) ++ o, a.settle p r v rejected)
  | store {p : Ptr} {x : Reaction} {r : PromiseRecord} {o : List Task} {a : Affairs}
      (here : a.promises.get? p = some r) (pending : r.settlement = .pending) :
      Turn (.reaction p x :: o, a) (o, a.react p { r with reactions := r.reactions ++ [x] } [])
  | react {p v : Ptr} {x : Reaction} {rejected : Bool} {r : PromiseRecord} {o : List Task} {a : Affairs}
      (here : a.promises.get? p = some r) (settled : r.settlement = .ofPayload rejected v) :
      Turn (.reaction p x :: o, a)
        (.job (x.job v rejected) :: o,
          a.react p r (if rejected && !r.handled then [⟨p, v, true⟩] else []))
  | enqueue {j : Job} {o : List Task} {a : Affairs} :
      Turn (.job j :: o, a) (o, { a with jobs := a.jobs ++ [j], queued := j :: a.queued })

abbrev Turns : List Task × Affairs -> List Task × Affairs -> Prop :=
  Relation.ReflTransGen Turn

namespace Heap

variable {h : Heap} {p v : Ptr} {r : PromiseRecord}
variable {o : List Task} {rejected : Bool} {x : Reaction}

theorem affairs_tell (h : Heap) (x : Happening) :
    (h.tell x).affairs = { h.affairs with history := x :: h.affairs.history } :=
  rfl

theorem affairs_record (h : Heap) (p v : Ptr) (handled : Bool) :
    (h.record p v handled).affairs =
      { h.affairs with rejections := h.affairs.rejections ++ [⟨p, v, handled⟩] } := by
  have kept : ((h.retain p).retain v).affairs = h.affairs := by simp only [affairs_retain]
  unfold record
  rw [← kept]
  rfl

theorem enqueue_turns (h : Heap) (x : Reaction) (v : Ptr) (rejected : Bool) :
    Turns (.job (x.job v rejected) :: o, h.affairs) (o, (h.enqueue x v rejected).affairs) := by
  have freed : h.affairs.Forgets ((h.releaseAll (x.handler (!rejected)).toList).retain v).affairs := by
    rw [affairs_retain]
    exact forgets_releaseAll h _
  exact (Relation.ReflTransGen.single (.forget freed)).tail .enqueue

theorem enqueueAll_turns (h : Heap) (xs : List Reaction) (v : Ptr) (rejected : Bool) :
    Turns (xs.map (fun x => .job (x.job v rejected)) ++ o, h.affairs) (o, (h.enqueueAll xs v rejected).affairs) := by
  unfold enqueueAll
  induction xs generalizing h with
  | nil => exact .refl
  | cons x rest ih => exact (enqueue_turns h x v rejected).trans (ih (h.enqueue x v rejected))

/-- A promise that settles hands over its reactions. -/
theorem settle_enqueues (found : h.promise? p = some r) (pending : r.settlement = .pending) (v : Ptr) (rejected : Bool) :
    ∃ m : Heap, h.settle p v rejected = m.enqueueAll r.reactions v rejected ∧ m.affairs = h.affairs.settle p r v rejected := by
  have settled := affairs_setValue_promise found { r with settlement := .ofPayload rejected v, reactions := [] }
  simp only [settle, found, pending]
  generalize h.setValue p _ = s at *
  refine ⟨_, rfl, ?_⟩
  have kept := (affairs_retain s v).trans settled
  split
  next recorded =>
    rw [affairs_record, affairs_tell, kept]
    simp only [Affairs.settle, recorded, if_true]
    rfl
  next unrecorded =>
    rw [affairs_tell, kept]
    simp only [Affairs.settle, unrecorded, Bool.false_eq_true, if_false, List.append_nil]
    rfl

theorem settle_pending (found : h.promise? p = some r) (pending : r.settlement = .pending) (v : Ptr) (rejected : Bool)
    (o : List Task) :
    Turns (r.reactions.map (fun x => .job (x.job v rejected)) ++ o, h.affairs.settle p r v rejected)
      (o, (h.settle p v rejected).affairs) := by
  obtain ⟨m, settled, told⟩ := settle_enqueues found pending v rejected
  rw [settled, ← told]
  exact enqueueAll_turns m r.reactions v rejected

theorem settle_turns (h : Heap) (p v : Ptr) (rejected : Bool) (plain : rejected = false -> h.promise? v = none) :
    Turns (.resolution p v rejected :: o, h.affairs) (o, (h.settle p v rejected).affairs) := by
  cases found : h.promise? p with
  | none =>
    simp only [settle, found]
    exact .single .drop
  | some r =>
    by_cases pending : r.settlement = .pending
    next =>
      have here : h.affairs.promises.get? p = some r := (get?_promises h p).trans found
      have clear : rejected = false -> h.affairs.promises.get? v = none := fun fulfilled =>
        (get?_promises h v).trans (plain fulfilled)
      exact .head (.settle here pending clear) (settle_pending found pending v rejected o)
    next =>
      have kept : h.settle p v rejected = h := by simp only [settle, found]
      rw [kept]
      exact .single .drop

theorem affairs_reacted (found : h.promise? p = some r) (r' : PromiseRecord) :
    ((h.tell (.reacted p)).setValue p (.promise r')).affairs =
      { h.affairs with
        promises := h.affairs.promises.set p r'
        history := .reacted p :: h.affairs.history } :=
  affairs_setValue_promise (h := h.tell (.reacted p)) found r'

/-- Attaching stores the reaction or, after the promise has settled, makes it a job. -/
theorem attach_enqueues (found : h.promise? p = some r) (x : Reaction) :
    (r.settlement = .pending ∧
      (h.attach p x).affairs = h.affairs.react p { r with reactions := r.reactions ++ [x] } []) ∨
    ∃ v rejected, ∃ m : Heap, r.settlement = .ofPayload rejected v ∧ h.attach p x = m.enqueue x v rejected ∧
      m.affairs = h.affairs.react p r (if rejected && !r.handled then [⟨p, v, true⟩] else []) := by
  have retained := affairs_retainAll (x.onFulfilled.toList ++ x.onRejected.toList) h
  have kept := (promise?_retainAll (x.onFulfilled.toList ++ x.onRejected.toList) h p).trans found
  unfold attach
  dsimp only
  generalize (x.onFulfilled.toList ++ x.onRejected.toList).foldl retain h = s at *
  have marked := affairs_reacted kept { r with handled := true }
  have stored := affairs_reacted kept { r with handled := true, reactions := r.reactions ++ [x] }
  simp only [kept, ← retained]
  obtain ⟨settlement, reactions, handled, resolved⟩ := r
  cases settlement with
  | pending =>
    refine .inl ⟨rfl, stored.trans ?_⟩
    simp only [Affairs.react, List.append_nil]
  | fulfilled v =>
    refine .inr ⟨v, false, _, rfl, rfl, marked.trans ?_⟩
    simp only [Affairs.react, Bool.false_and, Bool.false_eq_true, if_false, List.append_nil]
  | rejected v =>
    refine .inr ⟨v, true, _, rfl, rfl, ?_⟩
    generalize (s.tell (.reacted p)).setValue p _ = m at *
    cases handled with
    | true =>
      simp only [marked, Affairs.react, Bool.not_true, Bool.and_false, Bool.false_eq_true, if_false, if_true,
        List.append_nil]
    | false =>
      simp only [affairs_record, marked, Affairs.react, Bool.not_false, Bool.and_self, Bool.false_eq_true, if_false,
        if_true]

theorem attach_cases (found : h.promise? p = some r) (x : Reaction) :
    (r.settlement = .pending ∧
      (h.attach p x).affairs = h.affairs.react p { r with reactions := r.reactions ++ [x] } []) ∨
    ∃ v rejected, r.settlement = .ofPayload rejected v ∧ ∀ o,
      Turns (.job (x.job v rejected) :: o, h.affairs.react p r (if rejected && !r.handled then [⟨p, v, true⟩] else []))
        (o, (h.attach p x).affairs) := by
  refine (attach_enqueues found x).imp_right ?_
  rintro ⟨v, rejected, m, settled, attached, told⟩
  refine ⟨v, rejected, settled, fun o => ?_⟩
  rw [attached, ← told]
  exact enqueue_turns m x v rejected

theorem attach_turns (h : Heap) (p : Ptr) (x : Reaction) :
    Turns (.reaction p x :: o, h.affairs) (o, (h.attach p x).affairs) := by
  cases found : h.promise? p with
  | none =>
    have retained := affairs_retainAll (x.onFulfilled.toList ++ x.onRejected.toList) h
    have absent := (promise?_retainAll (x.onFulfilled.toList ++ x.onRejected.toList) h p).trans found
    simp only [attach, absent, retained]
    exact .single .drop
  | some r =>
    have here : h.affairs.promises.get? p = some r := (get?_promises h p).trans found
    rcases attach_cases found x with ⟨pending, stored⟩ | ⟨v, rejected, settled, later⟩
    next =>
      rw [stored]
      exact .single (.store here pending)
    next => exact .head (.react here settled) (later o)

theorem resolveWith_turns (h : Heap) (p v : Ptr) :
    Turns (.resolution p v false :: o, h.affairs) (o, (h.resolveWith p v).affairs) := by
  unfold resolveWith
  split
  next same =>
    subst same
    have settled := settle_turns (o := o) (h.newError selfResolution).2 v (h.newError selfResolution).1 true (by simp)
    refine .head (.forget (forgets_newError h selfResolution)) (.head (.refuse (h.newError selfResolution).1) ?_)
    exact settled.tail (.forget (forgets_release _ _))
  next other =>
    split
    next promise =>
      have there : (h.affairs.promises.get? v).isSome := by
        rw [show h.affairs.promises.get? v = h.promise? v from get?_promises h v]
        exact promise
      refine .head (.adopt other there) ?_
      rw [← affairs_retain h p]
      exact attach_turns (h.retain p) v ⟨p, none, none⟩
    next plain => exact settle_turns h p v false fun _ => by simpa [isPromise] using plain

theorem callResolving_turns {reject : Bool} (found : h.promise? p = some r) (first : r.resolved = false) :
    Turns (.resolution p v reject :: o, h.affairs.mark p r) (o, (h.callResolving p v reject).affairs) := by
  have marked : (h.setValue p (.promise { r with resolved := true })).affairs = h.affairs.mark p r :=
    affairs_setValue_promise found { r with resolved := true }
  simp only [callResolving, found, first, Bool.false_eq_true, if_false]
  rw [← marked]
  cases reject with
  | true => exact settle_turns _ p v true (by simp)
  | false => exact resolveWith_turns _ p v

end Heap

end ScriptHost
