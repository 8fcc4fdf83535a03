import ScriptHost.Conversion
import ScriptHost.Dispatcher.World

set_option autoImplicit false

/-!
How host code gets at the engine, and at what its names are bound to.

Everything that goes out of use is let go: handles, the payloads of outcomes, deferreds and scopes. What
that amounts to depends on the thread that acts.
-/

namespace ScriptHost

abbrev Attempt := ExceptT Error WorldM

/-- Operations of programs. What is thrown is the answer of an operation that fails. -/
abbrev OpM := ExceptT Answer WorldM

namespace Attempt

def ofExcept {α : Type} : Except Error α -> Attempt α
  | .ok a => pure a
  | .error e => throw e

def checkAccess (operation : String) : Attempt Unit := do
  ofExcept ((<- WorldM.look).worker.vault.access (<- WorldM.thread) operation)

def withLink {α : Type} (operation : String) (act : LinkM α) : Attempt α := do
  checkAccess operation
  ExceptT.mk (WorldM.asking act.run)

def own (p : Ptr) : Attempt Handle :=
  ExceptT.lift (WorldM.handle (.own p))

def raw (h : Handle) : Attempt Ptr := do
  ofExcept (h.raw (<- WorldM.look).worker.vault)

def duplicate (h : Handle) : Attempt Handle :=
  ExceptT.mk (WorldM.handle (.duplicate h))

def release (h : Handle) : Attempt Unit :=
  ExceptT.mk (WorldM.handle (.release h))

def handOver (h : Handle) : Attempt Ptr :=
  ExceptT.mk (WorldM.handle (.handOver h))

def sameValue (a b : Handle) : Attempt Bool :=
  ExceptT.mk (WorldM.handle (.sameValue a b))

end Attempt

namespace WorldM

def discardHandle (h : Handle) : WorldM Unit :=
  handle (.discard h)

def discardHandles : List Handle -> WorldM Unit
  | [] => pure ()
  | h :: rest => do
      discardHandle h
      discardHandles rest

instance : Resource WorldM Handle where
  release h := do
    pure (.ofExcept (<- (Attempt.release h).run), h)
  discard := discardHandle

def discardOutcome (o : Settled) : WorldM Unit :=
  Resource.discard o

instance : Resource WorldM Held where
  release
    | .handle h => do
        let (ending, h) <- Resource.release h
        pure (ending, .handle h)
    | .outcome o => do
        let (ending, o) <- o.dispose
        pure (ending, .outcome o)
    | .action name ending => do
        emit (.deferred name)
        pure (ending, .action name (.failed (.usedAfterRelease "deferred action")))
  discard
    | .handle h => discardHandle h
    | .outcome o => discardOutcome o
    | .action _ _ => pure ()

def holdDeferred (id : DeferredId) : WorldM Unit :=
  alter (.deferreds fun t => t.modify id fun d => { d with holders := d.holders + 1 })

/-- Lets go of the handles of a deferred that nobody holds any more. Off the worker they are sent there to
be released. -/
def releaseDeferred (d : Deferred) : WorldM Unit := do
  if (<- thread) = .other && !(<- getWorker).vault.closed then
    if <- send .back (.release d.handles) then pure () else discardHandles d.handles
  else discardHandles d.handles

def letGoDeferred (id : DeferredId) : WorldM Unit := do
  match (<- look).deferreds.get? id with
  | none => pure ()
  | some d =>
      if d.holders ≤ 1 then
        alter (.deferreds fun t => t.erase id)
        releaseDeferred d
      else alter (.deferreds fun t => t.set id { d with holders := d.holders - 1 })

def settleOld {α : Type} (discard : α -> WorldM Unit) : Option α -> WorldM Unit
  | none => pure ()
  | some a => discard a

def modifyBindings (f : Bindings -> Bindings) : WorldM Unit :=
  alter (.bindings f)

/-- Binds a name. A value without a name goes out of use at once. -/
def bindHandle (target : Target) (h : Handle) : WorldM Unit := do
  match target with
  | none => discardHandle h
  | some name =>
      let old := (<- look).bindings.handles.get? name
      modifyBindings fun v => { v with handles := v.handles.set name h }
      settleOld discardHandle old

def bindOutcome (target : Target) (o : Settled) : WorldM Unit := do
  match target with
  | none => discardOutcome o
  | some name =>
      let old := (<- look).bindings.outcomes.get? name
      modifyBindings fun v => { v with outcomes := v.outcomes.set name o }
      settleOld discardOutcome old

def bindDeferred (target : Target) (id : DeferredId) : WorldM Unit := do
  match target with
  | none => letGoDeferred id
  | some name =>
      let old := (<- look).bindings.deferreds.get? name
      modifyBindings fun v => { v with deferreds := v.deferreds.set name id }
      settleOld letGoDeferred old

def bindScope (target : Target) (s : Scope Held) : WorldM Unit := do
  match target with
  | none => s.discard
  | some name =>
      let old := (<- look).bindings.scopes.get? name
      modifyBindings fun v => { v with scopes := v.scopes.set name s }
      settleOld Scope.discard old

def bindTimer (target : Target) (id : TimerId) : WorldM Unit :=
  match target with
  | none => pure ()
  | some name => modifyBindings fun v => { v with timers := v.timers.set name id }

def bindToken (target : Target) : WorldM Unit := do
  let id := (<- look).nextToken
  alter .newToken
  match target with
  | none => pure ()
  | some name => modifyBindings fun v => { v with tokens := v.tokens.set name id }

def isCancelled (token : Option TokenId) : WorldM Bool := do
  match token with
  | none => pure false
  | some _ => pure ((<- look).isCancelled token)

def cancelToken (id : TokenId) : WorldM Unit :=
  alter (.cancelToken id)

end WorldM

namespace OpM

def ofAttempt {α : Type} (act : Attempt α) : OpM α :=
  ExceptT.mk do
    match <- act.run with
    | .ok a => pure (.ok a)
    | .error e => pure (.error (.failure e))

def ofExcept {α : Type} (r : Except Error α) : OpM α :=
  ofAttempt (Attempt.ofExcept r)

def lookup {α : Type} (space : Bindings -> Table String α) (name : String) : OpM α := do
  match (space (<- WorldM.look).bindings).get? name with
  | some a => pure a
  | none => throw (.unbound name)

def handle (name : String) : OpM Handle :=
  lookup Bindings.handles name

def takeHandle (name : String) : OpM Handle := do
  let h <- handle name
  WorldM.modifyBindings fun v => { v with handles := v.handles.erase name }
  pure h

def view (operands : Operands) (name : String) : OpM Handle := do
  let h <- match operands.views.get? name with
    | some h => pure h
    | none => handle name
  ofExcept (h.borrow (<- WorldM.look).worker.vault)

def views (operands : Operands) : List String -> OpM (List Handle)
  | [] => pure []
  | name :: rest => do
      let h <- view operands name
      pure (h :: (<- views operands rest))

def optionalView (operands : Operands) : Option String -> OpM (Option Handle)
  | none => pure none
  | some name => do pure (some (<- view operands name))

def optionalToken : Option String -> OpM (Option TokenId)
  | none => pure none
  | some name => do pure (some (<- lookup Bindings.tokens name))

def outcome (name : String) : OpM Settled :=
  lookup Bindings.outcomes name

def takeOutcome (name : String) : OpM Settled := do
  let o <- outcome name
  WorldM.modifyBindings fun v => { v with outcomes := v.outcomes.erase name }
  pure o

def setOutcome (name : String) (o : Settled) : OpM Unit :=
  WorldM.modifyBindings fun v => { v with outcomes := v.outcomes.set name o }

def deferred (name : String) : OpM DeferredId :=
  lookup Bindings.deferreds name

def scope (name : String) : OpM (Scope Held) :=
  lookup Bindings.scopes name

def takeScope (name : String) : OpM (Scope Held) := do
  let s <- scope name
  WorldM.modifyBindings fun v => { v with scopes := v.scopes.erase name }
  pure s

def setScope (name : String) (s : Scope Held) : OpM Unit :=
  WorldM.modifyBindings fun v => { v with scopes := v.scopes.set name s }

def timer : TimerRef -> OpM TimerId
  | .id id => pure id
  | .bound name => lookup Bindings.timers name

end OpM

end ScriptHost
