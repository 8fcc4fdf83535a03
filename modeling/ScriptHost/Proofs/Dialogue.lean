import ScriptHost.Dialogue

set_option autoImplicit false

/-!
What a dialogue asks for, and what is kept by answering it.
-/

namespace ScriptHost

namespace Dialogue

variable {ι : Type} {Answer : ι -> Type} {α β ε : Type}

section Through

variable {m : Type -> Type} [Monad m] [LawfulMonad m] {answer : (q : ι) -> m (Answer q)}

theorem through_bind (act : Dialogue Answer α) (f : α -> Dialogue Answer β) :
    (act >>= f).through answer = act.through answer >>= fun a => (f a).through answer := by
  induction act with
  | done a => exact (pure_bind a fun a => (f a).through answer).symm
  | ask q next ih =>
    have unfolded : ((ask q next).bind f).through answer =
        answer q >>= fun a => ((next a).bind f).through answer := rfl
    change ((ask q next).bind f).through answer = _
    simp only [unfolded, through, bind_assoc]
    congr
    funext a
    exact ih a

@[simp] theorem through_question (q : ι) :
    (question q : Dialogue Answer (Answer q)).through answer = answer q := by
  simp only [question, through, bind_pure]

end Through

def Only (allowed : ι -> Prop) : Dialogue Answer α -> Prop
  | done _ => True
  | ask q next => allowed q ∧ ∀ a, (next a).Only allowed

variable {allowed : ι -> Prop}

theorem only_pure (a : α) : (pure a : Dialogue Answer α).Only allowed :=
  trivial

theorem only_question {q : ι} (fine : allowed q) : (question q : Dialogue Answer (Answer q)).Only allowed :=
  ⟨fine, fun _ => trivial⟩

theorem only_bind {act : Dialogue Answer α} {f : α -> Dialogue Answer β} (first : act.Only allowed)
    (rest : ∀ a, (f a).Only allowed) : (act >>= f).Only allowed := by
  induction act with
  | done a => exact rest a
  | ask q next ih => exact ⟨first.1, fun a => ih a (first.2 a)⟩

theorem only_bindExcept {act : ExceptT ε (Dialogue Answer) α} {f : α -> ExceptT ε (Dialogue Answer) β}
    (first : act.run.Only allowed) (rest : ∀ a, (f a).run.Only allowed) : (act >>= f).run.Only allowed := by
  refine only_bind first fun r => ?_
  cases r with
  | ok a => exact rest a
  | error e => exact only_pure _

theorem only_lift {act : Dialogue Answer α} (fine : act.Only allowed) :
    (ExceptT.lift act : ExceptT ε (Dialogue Answer) α).run.Only allowed :=
  only_bind fine fun _ => only_pure _

theorem only_through {κ : Type} {Inner : κ -> Type} {inside : κ -> Prop} {act : Dialogue Inner α}
    {answer : (q : κ) -> Dialogue Answer (Inner q)} (only : act.Only inside)
    (fine : ∀ q, inside q -> (answer q).Only allowed) : (act.through answer).Only allowed := by
  induction act with
  | done a => trivial
  | ask q next ih => exact only_bind (fine q only.1) fun a => ih a (only.2 a)

theorem only_any (act : Dialogue Answer α) : act.Only fun _ => True := by
  induction act with
  | done a => trivial
  | ask q next ih => exact ⟨trivial, ih⟩

section State

variable {σ : Type} {R : σ -> σ -> Prop} {answer : (q : ι) -> StateM σ (Answer q)}

/-- What every single answer keeps, a whole dialogue keeps. -/
theorem through_leads (refl : ∀ s, R s s) (trans : ∀ {s t u}, R s t -> R t u -> R s u)
    (step : ∀ q, allowed q -> ∀ s, R s ((answer q).run s).2) {act : Dialogue Answer α}
    (only : act.Only allowed) (s : σ) : R s ((act.through answer).run s).2 := by
  induction act generalizing s with
  | done a => exact refl s
  | ask q next ih =>
    have first := step q only.1 s
    change R s ((answer q >>= fun a => (next a).through answer).run s).2
    rw [StateT.run_bind]
    generalize (answer q).run s = r at *
    obtain ⟨a, t⟩ := r
    exact trans first (ih a (only.2 a) t)

end State

end Dialogue

end ScriptHost
