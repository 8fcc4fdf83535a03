import ScriptHost.Link.Typed
import ScriptHost.Resource

set_option autoImplicit false

/-!
Handles: references to values of the engine that host code holds.

An owned handle holds one reference and is alive until that is released or handed over. Borrowed handles
are views: one that was taken of a handle dies together with it. Only the thread that owns the engine may
touch it, and nobody may once it is closed; what is refused for such a reason changes nothing.
-/

namespace ScriptHost

inductive Thread where
  | worker
  | other
  deriving DecidableEq

inductive Ownership where
  | owned
  | borrowed
  deriving DecidableEq

namespace Ownership

def name : Ownership -> String
  | owned => "Owned"
  | borrowed => "Borrowed"

end Ownership

/-- Names the reference of an owned handle. No name is given twice. -/
abbrev ReferenceId := Nat

structure Handle where
  ptr : Ptr
  ownership : Ownership
  -- The reference that the handle lives and dies with; absent for views of values that are kept alive
  -- otherwise.
  reference : Option ReferenceId
  deriving DecidableEq

structure Vault where
  link : Link
  closed : Bool
  -- References neither released nor handed over, newest first.
  alive : List ReferenceId
  nextReference : ReferenceId

abbrev VaultM := ExceptT Error (StateM Vault)

namespace Vault

def ofLink (link : Link) : Vault :=
  ⟨link, false, [], 0⟩

instance : Inhabited Vault :=
  ⟨ofLink .empty⟩

def liveHandles (v : Vault) : Nat :=
  v.alive.length

def onLink {α : Type} (act : StateM Link α) : StateM Vault α :=
  modifyGet fun v => ((act.run v.link).1, { v with link := (act.run v.link).2 })

/-- Whether a thread may touch the engine. A closed engine is the first thing to be found out. -/
def access (v : Vault) (t : Thread) (operation : String) : Except Error Unit :=
  if v.closed then .error .engineClosed
  else
    match t with
    | .worker => .ok ()
    | .other => .error (.wrongThread operation)

def checkAccess (t : Thread) (operation : String) : VaultM Unit := do
  match (<- get).access t operation with
  | .ok () => pure ()
  | .error e => throw e

def withLink {α : Type} (t : Thread) (operation : String) (act : LinkM α) : VaultM α := do
  checkAccess t operation
  ExceptT.mk (onLink act.run.perform)

def own (p : Ptr) : StateM Vault Handle :=
  modifyGet fun v =>
    (⟨p, .owned, some v.nextReference⟩,
      { v with alive := v.nextReference :: v.alive, nextReference := v.nextReference + 1 })

def bury (h : Handle) : StateM Vault Unit :=
  modify fun v => { v with alive := v.alive.filter fun r => !decide (h.reference = some r) }

end Vault

namespace Handle

/-- A view of a value that is kept alive otherwise. -/
def ofBorrowed (p : Ptr) : Handle :=
  ⟨p, .borrowed, none⟩

def isOwned (h : Handle) : Bool :=
  h.ownership = .owned

def isAlive (h : Handle) (v : Vault) : Bool :=
  match h.reference with
  | none => true
  | some r => v.alive.contains r

def deadError : Error :=
  .usedAfterRelease "handle"

def raw (h : Handle) (v : Vault) : Except Error Ptr :=
  if h.isAlive v then .ok h.ptr else .error deadError

def rawM (h : Handle) : VaultM Ptr := do
  match h.raw (<- get) with
  | .ok p => pure p
  | .error e => throw e

def borrow (h : Handle) (v : Vault) : Except Error Handle :=
  (h.raw v).map fun _ => { h with ownership := .borrowed }

def duplicate (h : Handle) (t : Thread) : VaultM Handle := do
  let p <- h.rawM
  let p <- Vault.withLink t "duplicate handle" (Link.dupValue p)
  ExceptT.lift (Vault.own p)

def release (h : Handle) (t : Thread) : VaultM Unit := do
  let p <- h.rawM
  if h.ownership = .borrowed then throw .borrowedRelease
  Vault.withLink t "release handle" (Link.freeValue p)
  ExceptT.lift (Vault.bury h)

/-- Hands a reference over to the engine: that of an owned handle, or a new one for a view. -/
def handOver (h : Handle) (t : Thread) : VaultM Ptr := do
  let p <- h.rawM
  match h.ownership with
  | .owned =>
      Vault.checkAccess t "transfer handle"
      ExceptT.lift (Vault.bury h)
      pure p
  | .borrowed => Vault.withLink t "transfer handle" (Link.dupValue p)

def sameValue (a b : Handle) (t : Thread) : VaultM Bool := do
  let p <- a.rawM
  let q <- b.rawM
  Vault.withLink t "compare handles" (Link.isEqual p q .sameValue)

/-- What becomes of a handle that goes out of use. On the owning thread its reference is released; on any
other it stays behind. -/
def discard (h : Handle) (t : Thread) : StateM Vault Unit := do
  let v <- get
  if h.isAlive v && h.isOwned && !v.closed && t = .worker then
    let _ <- (h.release t).run

def render (h : Handle) (v : Vault) : String :=
  "Handle \x7b ptr: " ++ Nat.repr h.ptr.toNat ++ ", ownership: " ++ h.ownership.name ++ ", alive: " ++
    (if h.isAlive v then "true" else "false") ++ " \x7d"

end Handle

inductive HandleCall where
  | own (p : Ptr)
  | duplicate (h : Handle)
  | release (h : Handle)
  | handOver (h : Handle)
  | sameValue (a b : Handle)
  | discard (h : Handle)

namespace HandleCall

abbrev Answer : HandleCall -> Type
  | own _ => Handle
  | duplicate _ => Except Error Handle
  | release _ => Except Error Unit
  | handOver _ => Except Error Ptr
  | sameValue _ _ => Except Error Bool
  | discard _ => Unit

def perform (t : Thread) : (c : HandleCall) -> StateM Vault c.Answer
  | own p => Vault.own p
  | duplicate h => (h.duplicate t).run
  | release h => (h.release t).run
  | handOver h => (h.handOver t).run
  | sameValue a b => (a.sameValue b t).run
  | discard h => h.discard t

end HandleCall

end ScriptHost
