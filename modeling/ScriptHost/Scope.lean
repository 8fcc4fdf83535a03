import ScriptHost.Resource

set_option autoImplicit false

/-!
Scopes: stacks of resources that are released together, newest first.

Disposal drains the whole stack whatever fails and reports the first failure with the number of them.
From its start on the scope takes in nothing more. A scope is a resource itself, so scopes nest.
-/

namespace ScriptHost

inductive ScopeEntry (ρ : Type) where
  | leaf (resource : ρ)
  | scope (disposed : Bool) (stack : List (ScopeEntry ρ))

structure Scope (ρ : Type) where
  disposed : Bool
  stack : List (ScopeEntry ρ)

namespace Scope

variable {ρ : Type}

def empty : Scope ρ :=
  ⟨false, []⟩

instance : Inhabited (Scope ρ) :=
  ⟨empty⟩

def size (s : Scope ρ) : Nat :=
  s.stack.length

def toEntry (s : Scope ρ) : ScopeEntry ρ :=
  .scope s.disposed s.stack

def closedError : Error :=
  .usedAfterRelease "resource scope"

def ensureOpen (s : Scope ρ) : Except Error Unit :=
  if s.disposed then .error closedError else .ok ()

def verdict : List Error -> Except Error Unit
  | [] => .ok ()
  | first :: rest => .error (.disposal (rest.length + 1) first)

def failuresOf : Except Error Unit -> List Error
  | .ok () => []
  | .error e => [e]

variable {m : Type -> Type} [Monad m] [Resource m ρ]

mutual

/-- Releases one entry and lets it go. A nested scope is drained at its place; one that was disposed
before counts as a failure. -/
def releaseEntry : ScopeEntry ρ -> m (Except Error Unit)
  | .leaf resource => do
      let (ending, resource) <- Resource.release resource
      Resource.discard resource
      pure ending.toExcept
  | .scope disposed stack =>
      if disposed then pure (.error closedError)
      else do
        let failures <- releaseStack stack
        pure (verdict failures)

def releaseStack : List (ScopeEntry ρ) -> m (List Error)
  | [] => pure []
  | entry :: rest => do
      let result <- releaseEntry entry
      let failures <- releaseStack rest
      pure (failuresOf result ++ failures)

end

def dispose (s : Scope ρ) : m (Except Error Unit × Scope ρ) :=
  if s.disposed then pure (.ok (), s)
  else do
    let failures <- releaseStack s.stack
    pure (verdict failures, ⟨true, []⟩)

/-- Releases the scope as a resource: unlike `dispose`, this works only once. -/
def release (s : Scope ρ) : m (Except Error Unit × Scope ρ) :=
  if s.disposed then pure (.error closedError, s) else s.dispose

def discard (s : Scope ρ) : m Unit := do
  let _ <- s.dispose
  pure ()

def discardEntry : ScopeEntry ρ -> m Unit
  | .leaf resource => Resource.discard resource
  | .scope disposed stack => discard ⟨disposed, stack⟩

def defer (s : Scope ρ) (entry : ScopeEntry ρ) : m (Except Error Unit × Scope ρ) :=
  if s.disposed then do
    discardEntry entry
    pure (.error closedError, s)
  else pure (.ok (), { s with stack := entry :: s.stack })

def replaceNewest (s : Scope ρ) (entry : ScopeEntry ρ) : Scope ρ :=
  match s.stack with
  | [] => s
  | _ :: rest => { s with stack := entry :: rest }

/-- The result of a body run in a scope that is disposed afterwards: an error of the body goes before
one of the disposal. -/
def settle {α : Type} (result : Except Error α) (disposal : Except Error Unit) : Except Error α :=
  match result, disposal with
  | .ok _, .error e => .error e
  | result, _ => result

def run {α : Type} (body : Scope ρ -> m (Except Error α × Scope ρ)) : m (Except Error α) := do
  let (result, s) <- body empty
  let (disposal, _) <- s.dispose
  pure (settle result disposal)

end Scope

end ScriptHost
