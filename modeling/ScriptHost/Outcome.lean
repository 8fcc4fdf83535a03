import ScriptHost.Resource

set_option autoImplicit false

/-!
Outcomes: a success or a failure whose payload has an owner.

The outcome owns its payload until it is taken out or released; a release that fails leaves it where it
is. Whether an outcome is a success never changes.
-/

namespace ScriptHost

inductive Slot (α : Type) where
  | live (payload : α)
  | transferred

namespace Slot

variable {α : Type}

def payload? : Slot α -> Option α
  | live a => some a
  | transferred => none

def take : Slot α -> Except Error α
  | live a => .ok a
  | transferred => .error (.usedAfterRelease "outcome payload")

variable {m : Type -> Type} [Monad m] [Resource m α]

def release : Slot α -> m (Ending × Slot α)
  | transferred => pure (.done, transferred)
  | live a => do
      let (ending, a) <- Resource.release a
      pure (ending, match ending with
        | .done => transferred
        | _ => live a)

def discard : Slot α -> m Unit
  | transferred => pure ()
  | live a => Resource.discard a

end Slot

inductive Outcome (σ φ : Type) where
  | success (slot : Slot σ)
  | failure (slot : Slot φ)

namespace Outcome

variable {σ φ : Type}

def ofExcept : Except φ σ -> Outcome σ φ
  | .ok a => success (.live a)
  | .error e => failure (.live e)

def isSuccess : Outcome σ φ -> Bool
  | success _ => true
  | failure _ => false

def isTransferred : Outcome σ φ -> Bool
  | success .transferred | failure .transferred => true
  | _ => false

def success? : Outcome σ φ -> Option σ
  | success slot => slot.payload?
  | failure _ => none

def failure? : Outcome σ φ -> Option φ
  | success _ => none
  | failure slot => slot.payload?

def peek : Outcome σ φ -> Except Error σ
  | success slot => slot.take
  | failure _ => .error (.state .peekAtFailure)

def takeSuccess : Outcome σ φ -> Except Error σ × Outcome σ φ
  | success slot => (slot.take, success .transferred)
  | failure slot => (.error (.state .noSuccess), failure slot)

def takeFailure : Outcome σ φ -> Except Error φ × Outcome σ φ
  | success slot => (.error (.state .noFailure), success slot)
  | failure slot => (slot.take, failure .transferred)

def matchWith {ρ : Type} (o : Outcome σ φ) (onSuccess : σ -> ρ) (onFailure : φ -> ρ) : Except Error ρ :=
  match o with
  | success slot => slot.take.map onSuccess
  | failure slot => slot.take.map onFailure

def toResult : Outcome σ φ -> Except Error (Except φ σ)
  | success slot => slot.take.map .ok
  | failure slot => slot.take.map .error

variable {m : Type -> Type} [Monad m] [Resource m σ] [Resource m φ]

def dispose : Outcome σ φ -> m (Ending × Outcome σ φ)
  | success slot => do
      let (ending, slot) <- slot.release
      pure (ending, success slot)
  | failure slot => do
      let (ending, slot) <- slot.release
      pure (ending, failure slot)

instance : Resource m (Outcome σ φ) where
  release := dispose
  discard
    | success slot => slot.discard
    | failure slot => slot.discard

def render (showSuccess : σ -> String) (showFailure : φ -> String) : Outcome σ φ -> String
  | success (.live a) => "Success(" ++ showSuccess a ++ ")"
  | failure (.live a) => "Failure(" ++ showFailure a ++ ")"
  | success .transferred => "Success(<transferred>)"
  | failure .transferred => "Failure(<transferred>)"

end Outcome

end ScriptHost
