import ScriptHost.Proofs.Engine.Settlements

set_option autoImplicit false

/-!
What a job leaves behind for its derived promise.

A job that ends settles the promise, hands it on to a reaction or another job, or finds that nobody refers to it
any more. Only a job that is interrupted before it starts does none of this, and its promise then never settles.
-/

namespace ScriptHost

/-- What has become of a promise that a job was to settle. -/
inductive Kept (h : Heap) (p : Ptr) : Prop
  | gone (absent : h.isPromise p = false)
  | settled (r : PromiseRecord) (here : h.promise? p = some r) (past : r.settlement ≠ .pending)
  | queued (j : Job) (waiting : j ∈ h.jobs) (target : j.derived = p)
  | attached (q : Ptr) (r : PromiseRecord) (x : Reaction) (here : h.promise? q = some r)
      (pending : r.settlement = .pending) (member : x ∈ r.reactions) (target : x.derived = p)

/-- What has become of a promise that is resolved with `v`. Unlike `Kept`, this names the only promise that may
have a reaction for it. -/
inductive Bound (v : Ptr) (h : Heap) (p : Ptr) : Prop
  | settled (past : ∀ r, h.promise? p = some r -> r.settlement ≠ .pending)
  | queued (j : Job) (waiting : j ∈ h.jobs) (target : j.derived = p)
  | attached (r : PromiseRecord) (x : Reaction) (here : h.promise? v = some r)
      (pending : r.settlement = .pending) (member : x ∈ r.reactions) (target : x.derived = p)

namespace Heap

variable {h h' : Heap} {p v : Ptr} {r : PromiseRecord} {x : Reaction} {rejected : Bool}

theorem settle_past (found : (h.settle p v rejected).promise? p = some r) : r.settlement ≠ .pending := by
  cases here : h.promise? p with
  | none =>
    simp only [settle, here] at found
    cases found
  | some old =>
    by_cases pending : old.settlement = .pending
    next => exact settle_settles here pending found ▸ ofPayload_ne_pending rejected v
    next =>
      have kept : h.settle p v rejected = h := by simp only [settle, here]
      rw [kept, here] at found
      exact Option.some.inj found ▸ pending

theorem isPromise_eq_false : h.isPromise p = false ↔ h.promise? p = none := by
  simp [isPromise]

/-- A reaction attached to a promise waits with it, or becomes a job at once. -/
theorem attach_bound (found : h.promise? v = some r) : Bound v (h.attach v x) x.derived := by
  by_cases pending : r.settlement = .pending
  next =>
    rcases attach_cases found x with ⟨-, stored⟩ | ⟨w, rejected, settled, -⟩
    next =>
      have here : (h.attach v x).promise? v = some { r with handled := true, reactions := r.reactions ++ [x] } := by
        rw [← get?_promises]
        change (h.attach v x).affairs.promises.get? v = _
        simp [stored, Affairs.react]
      exact .attached _ x here pending (by simp) rfl
    next => exact absurd (settled.symm.trans pending) (ofPayload_ne_pending rejected w)
  next =>
    have kept := (promise?_retainAll (x.onFulfilled.toList ++ x.onRejected.toList) h v).trans found
    unfold attach
    simp only [kept]
    split
    next same => exact absurd same pending
    next w _ => exact .queued (x.job w false) (by simp [enqueue, Reaction.job]) rfl
    next w _ => exact .queued (x.job w true) (by simp [enqueue, Reaction.job]) rfl

theorem resolveWith_bound (h : Heap) (p v : Ptr) : Bound v (h.resolveWith p v) p := by
  unfold resolveWith
  split
  next => exact .settled fun r found => settle_past (Forgets.promise? (forgets_release _ _) found)
  next =>
    split
    next promise =>
      obtain ⟨r, there⟩ := Option.isSome_iff_exists.1 promise
      have here : (h.retain p).promise? v = some r := by simpa [promise?_eq_some] using there
      exact attach_bound (x := ⟨p, none, none⟩) here
    next => exact .settled fun r found => settle_past found

end Heap

theorem Bound.of_settle {h : Heap} {p v w : Ptr} {rejected : Bool} : Bound w (h.settle p v rejected) p :=
  .settled fun _ found => Heap.settle_past found

/-- What is forgotten meanwhile may be the promise that the other one was bound to. -/
theorem Bound.kept {h h' : Heap} {p v : Ptr} (bound : Bound v h p) (less : h.Forgets h') :
    Kept h' p ∨ (∃ r, h.promise? v = some r ∧ r.settlement = .pending) ∧ h'.isPromise v = false := by
  cases bound with
  | settled past =>
    cases found : h'.promise? p with
    | none => exact .inl (.gone (Heap.isPromise_eq_false.2 found))
    | some r => exact .inl (.settled r found (past r (Heap.Forgets.promise? less found)))
  | queued j waiting target =>
    have same : h'.jobs = h.jobs := less.jobs
    exact .inl (.queued j (same ▸ waiting) target)
  | attached r x here pending member target =>
    cases found : h'.promise? v with
    | none => exact .inr ⟨⟨r, here, pending⟩, Heap.isPromise_eq_false.2 found⟩
    | some r' =>
      obtain rfl : r = r' := Option.some.inj (here.symm.trans (Heap.Forgets.promise? less found))
      exact .inl (.attached v r x found pending member target)

/-- `v` was pending, and is gone. -/
def Dropped (h h' : Heap) (v : Ptr) : Prop :=
  (∃ r, h.promise? v = some r ∧ r.settlement = .pending) ∧ h'.isPromise v = false

theorem Dropped.of_turns {h m h' : Heap} {v : Ptr} {o o' : List Task} (turns : Turns (o, h.affairs) (o', m.affairs))
    (dropped : Dropped m h' v) : Dropped h h' v := by
  obtain ⟨⟨r, found, pending⟩, gone⟩ := dropped
  obtain ⟨x, here, aged⟩ := Turns.aged turns ((Heap.get?_promises m v).trans found)
  refine ⟨⟨x, (Heap.get?_promises h v).symm.trans here, ?_⟩, gone⟩
  by_contra settled
  exact settled ((aged.settled settled).symm.trans pending)

namespace Engine

variable {s t : Engine} {job : Job} {c : Completion} {v : Ptr}

theorem endJob_kept (s : Engine) (job : Job) (c : Completion) :
    Kept (s.endJob job c).2.heap job.derived ∨
      ∃ v, c = .returned v ∧ Dropped s.heap (s.endJob job c).2.heap v := by
  cases c with
  | returned v =>
    have less := Heap.Forgets.trans (Heap.forgets_release (s.heap.resolveWith job.derived v) v)
      (Heap.forgets_releaseAll _ job.children)
    rcases (Heap.resolveWith_bound s.heap job.derived v).kept less with kept | dropped
    next => exact .inl kept
    next => exact .inr ⟨v, rfl, .of_turns (Heap.resolveWith_turns (o := []) s.heap job.derived v) dropped⟩
  | threw exception =>
    have less := Heap.Forgets.trans (Heap.forgets_release (s.heap.settle job.derived exception true) exception)
      (Heap.forgets_releaseAll _ job.children)
    -- An exception is not adopted, so no promise need outlive it.
    rcases (Bound.of_settle (w := job.derived)).kept less with kept | ⟨⟨r, found, pending⟩, -⟩
    next => exact .inl kept
    next => exact absurd pending (Heap.settle_past found)

theorem passThrough_kept (s : Engine) (job : Job) (plain : job.rejected = false -> s.heap.promise? job.argument = none) :
    Kept (s.passThrough job).2.heap job.derived := by
  have less := fun h => Heap.forgets_releaseAll h job.children
  simp only [passThrough]
  cases rejected : job.rejected with
  | true =>
    rcases (Bound.of_settle (w := job.derived)).kept (less (s.heap.settle job.derived job.argument true)) with
      kept | ⟨⟨r, found, pending⟩, -⟩
    next => exact kept
    next => exact absurd pending (Heap.settle_past found)
  | false =>
    rcases (Heap.resolveWith_bound s.heap job.derived job.argument).kept (less _) with kept | dropped
    next => exact kept
    next =>
      have before : Dropped s.heap _ _ :=
        .of_turns (Heap.resolveWith_turns (o := []) s.heap job.derived job.argument) dropped
      obtain ⟨⟨r, found, -⟩, -⟩ := before
      exact absurd ((plain rejected).symm.trans found) (by simp)

theorem start_ended {interrupted : Bool} {function : Ptr} {args : List Ptr}
    (ended : (s.start interrupted function args).1 = .ended c) :
    c = .returned Ptr.undefined ∨ ∃ exception, c = .threw exception := by
  unfold start throwing at ended
  split at ended
  next => exact .inr ⟨_, (Start.ended.inj ended).symm⟩
  next =>
    split at ended
    next =>
      split at ended
      next => cases ended
      next => exact .inr ⟨_, (Start.ended.inj ended).symm⟩
    next => exact .inl (Start.ended.inj ended).symm
    next => exact .inl (Start.ended.inj ended).symm
    next => exact .inr ⟨_, (Start.ended.inj ended).symm⟩

/-- Calling a function makes no promise of its own. -/
theorem start_promise? {interrupted : Bool} {function : Ptr} {r : PromiseRecord}
    (found : (s.start interrupted function [job.argument]).2.heap.promise? v = some r) :
    (s.heap.promise? v).isSome := by
  have less := start_forgets (s := s) interrupted (c := .handler job function) rfl
  have called := (Heap.get?_promises _ v).trans (Heap.Forgets.promise? less found)
  rcases afterCall_cases (.handler job function) interrupted s.heap with
    ⟨same, -⟩ | ⟨p, w, reject, x, f, -, -, -, here, -, turns⟩
  next =>
    rw [same, Heap.get?_promises] at called
    simp [called]
  next =>
    obtain ⟨y, there, -⟩ := Turns.aged (turns []) called
    simp only [Affairs.mark, Table.get?_set] at there
    rw [← Heap.get?_promises]
    change (s.heap.affairs.promises.get? v).isSome
    split at there
    next same => simp [← same, here]
    next => simp [there]

theorem runHandler_kept {interrupted : Bool} {function : Ptr} {answer : Except Error Scalar}
    (static : s.heap.promise? Ptr.undefined = none)
    (done : (s.runHandler interrupted job function).1 = .done answer) :
    Kept (s.runHandler interrupted job function).2.heap job.derived := by
  have still (r : PromiseRecord) :
      (s.start interrupted function [job.argument]).2.heap.promise? Ptr.undefined ≠ some r := by
    intro found
    have before := start_promise? found
    simp [static] at before
  have thrown (t : Engine) : Kept ((t.throwing outOfMemory).2.endJob job (t.throwing outOfMemory).1).2.heap job.derived := by
    rcases endJob_kept (t.throwing outOfMemory).2 job (t.throwing outOfMemory).1 with kept | ⟨v, returned, -⟩
    next => exact kept
    next => cases returned
  unfold runHandler at done ⊢
  split
  next c t started =>
    have ended : (s.start interrupted function [job.argument]).1 = .ended c := by rw [started]
    have after : (s.start interrupted function [job.argument]).2 = t := by rw [started]
    rcases endJob_kept t job c with kept | ⟨v, returned, ⟨r, found, -⟩, -⟩
    next => exact kept
    next =>
      rcases start_ended ended with nothing | ⟨exception, threw⟩
      next =>
        obtain rfl : v = Ptr.undefined := by simpa [returned] using nothing
        exact absurd (after ▸ found) (still r)
      next => simp [returned] at threw
  next id t started =>
    rw [started] at done
    dsimp only at done
    split
    next table memory written =>
      rw [written] at done
      dsimp only at done
      split at done
      next none =>
        simp only [none, if_true]
        exact thrown { t with memory }
      next => cases done
    next => exact thrown t

end Engine

end ScriptHost
