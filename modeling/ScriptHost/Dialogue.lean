set_option autoImplicit false

/-!
Dialogues: programs that ask one question after the other, and go on with the answers.

Who answers is left open. The same dialogue can be answered from a state, or be put into a longer one.
-/

namespace ScriptHost

inductive Dialogue {ι : Type} (Answer : ι -> Type) (α : Type) where
  | done (a : α)
  | ask (q : ι) (next : Answer q -> Dialogue Answer α)

namespace Dialogue

variable {ι : Type} {Answer : ι -> Type} {α β : Type}

def bind : Dialogue Answer α -> (α -> Dialogue Answer β) -> Dialogue Answer β
  | done a, f => f a
  | ask q next, f => ask q fun answer => (next answer).bind f

instance : Monad (Dialogue Answer) where
  pure := done
  bind := bind

def question (q : ι) : Dialogue Answer (Answer q) :=
  ask q done

def through {m : Type -> Type} [Monad m] (answer : (q : ι) -> m (Answer q)) : Dialogue Answer α -> m α
  | done a => pure a
  | ask q next => do (next (<- answer q)).through answer

end Dialogue

end ScriptHost
