import ScriptHost.Dispatcher.Call

set_option autoImplicit false

/-!
Operations that any thread may ask for: on handles, deferreds, tokens, outcomes and scopes that names are
bound to.

Off the worker those that would touch the engine fail, and leave everything as it was.
-/

namespace ScriptHost

namespace WorldM

def disposeOutcome (o : Settled) : WorldM (Ending × Settled) :=
  o.dispose

def deferEntry (s : Scope Held) (entry : ScopeEntry Held) : WorldM (Except Error Unit × Scope Held) :=
  s.defer entry

def disposeScope (s : Scope Held) : WorldM (Except Error Unit × Scope Held) :=
  s.dispose

end WorldM

namespace HandleOp

/-- Operands stand for handles only where another handle is made of them or they are compared. -/
def run (operands : Operands) : HandleOp -> OpM Answer
  | duplicate h target => do
      let h <- OpM.view operands h
      WorldM.bindHandle target (<- OpM.ofAttempt (Attempt.duplicate h))
      pure .ok
  | borrow h target => do
      WorldM.bindHandle target (<- OpM.view operands h)
      pure .ok
  | release h => do
      let h <- OpM.handle h
      OpM.ofAttempt (Attempt.release h)
      pure .ok
  | drop h => do
      WorldM.discardHandle (<- OpM.takeHandle h)
      pure .ok
  | info h => do
      let h <- OpM.handle h
      let vault := (<- WorldM.look).worker.vault
      pure (.list [.text h.ownership.name, .bool h.isOwned, .bool (h.isAlive vault)])
  | raw h => do
      let p <- OpM.ofAttempt (Attempt.raw (<- OpM.handle h))
      pure (.nat p.toNat)
  | render h => do
      let w <- WorldM.look
      pure (.ofOption (fun h => .text (Handle.render h w.worker.vault)) (w.bindings.handles.get? h))
  | sameValue a b => do
      let a <- OpM.view operands a
      let b <- OpM.view operands b
      pure (.bool (<- OpM.ofAttempt (Attempt.sameValue a b)))

end HandleOp

namespace DeferredOp

def run : DeferredOp -> OpM Answer
  | promise d target => do
      let d <- OpM.deferred d
      WorldM.bindHandle target (<- OpM.ofAttempt (Attempt.promiseOf d))
      pure .ok
  | isSettled d => do
      let d <- OpM.deferred d
      pure (.bool (((<- WorldM.look).deferreds.get? d).any Deferred.settled))
  | clone d target => do
      let d <- OpM.deferred d
      WorldM.holdDeferred d
      WorldM.bindDeferred target d
      pure .ok
  | drop d => do
      let id <- OpM.deferred d
      WorldM.modifyBindings fun v => { v with deferreds := v.deferreds.erase d }
      WorldM.letGoDeferred id
      pure .ok

end DeferredOp

namespace TokenOp

def token (name : String) : OpM TokenId :=
  OpM.lookup Bindings.tokens name

def run : TokenOp -> OpM Answer
  | create target => do
      WorldM.bindToken target
      pure .ok
  | cancel name => do
      WorldM.cancelToken (<- token name)
      pure .ok
  | isCancelled name => do
      pure (.bool (<- WorldM.isCancelled (some (<- token name))))

end TokenOp

namespace OutcomeOp

def pointer (h : Handle) : Answer :=
  .nat h.ptr.toNat

def bindTaken (o : String) (target : Target) (taken : Except Error Handle × Settled) : OpM Answer := do
  OpM.setOutcome o taken.2
  WorldM.bindHandle target (<- OpM.ofExcept taken.1)
  pure .ok

def bindResult (o : Settled) (target : Target) : OpM Answer := do
  let (name, h) <- match o.toResult with
    | .ok (.ok h) => pure ("ok", h)
    | .ok (.error h) => pure ("err", h)
    | .error e => throw (.failure e)
  WorldM.bindHandle target h
  pure (.list [.text name, .ok])

def run : OutcomeOp -> OpM Answer
  | flags o => do
      let o <- OpM.outcome o
      pure (.list [.bool o.isSuccess, .bool !o.isSuccess, .bool o.isTransferred])
  | payloads o => do
      let o <- OpM.outcome o
      pure (.list [.ofOption pointer o.success?, .ofOption pointer o.failure?])
  | peek o => do
      let o <- OpM.outcome o
      pure (pointer (<- OpM.ofExcept o.peek))
  | takeSuccess o target => do bindTaken o target (<- OpM.outcome o).takeSuccess
  | takeFailure o target => do bindTaken o target (<- OpM.outcome o).takeFailure
  | matchWith o => do
      let o <- OpM.outcome o
      pure (.text (<- OpM.ofExcept (o.matchWith (fun _ => "success") (fun _ => "failure"))))
  | toResult o target => do bindResult (<- OpM.takeOutcome o) target
  | drop o => do
      WorldM.discardOutcome (<- OpM.takeOutcome o)
      pure .ok
  | dispose o => do
      let (ending, rest) <- WorldM.disposeOutcome (<- OpM.outcome o)
      OpM.setOutcome o rest
      OpM.ofExcept ending.toExcept
      pure .ok

end OutcomeOp

namespace ScopeOp

def bindChanged (s : String) (changed : Except Error Unit × Scope Held) : OpM Answer := do
  OpM.setScope s changed.2
  OpM.ofExcept changed.1
  pure .ok

def viewFor (scope : Scope Held) (h : Handle) : Attempt Handle := do
  Attempt.ofExcept scope.ensureOpen
  Attempt.ofExcept (h.borrow (<- WorldM.look).worker.vault)

def deferHandle (s : String) (h : Handle) (target : Target) : OpM Answer := do
  let scope <- OpM.scope s
  match <- (viewFor scope h).run with
  | .error e =>
      WorldM.discardHandle h
      throw (.failure e)
  | .ok view =>
      let (_, scope) <- WorldM.deferEntry scope (.leaf (.handle h))
      OpM.setScope s scope
      WorldM.bindHandle target view
      pure .ok

def run : ScopeOp -> OpM Answer
  | create target => do
      WorldM.bindScope target Scope.empty
      pure .ok
  | handle s h target => do
      let _ <- OpM.scope s
      deferHandle s (<- OpM.takeHandle h) target
  | outcome s o => do
      let scope <- OpM.scope s
      bindChanged s (<- WorldM.deferEntry scope (.leaf (.outcome (<- OpM.takeOutcome o))))
  | scope s child => do
      let _ <- OpM.scope s
      let child <- OpM.takeScope child
      let scope <- OpM.scope s
      bindChanged s (<- WorldM.deferEntry scope child.toEntry)
  | action s name ending => do
      let scope <- OpM.scope s
      bindChanged s (<- WorldM.deferEntry scope (.leaf (.action name ending)))
  | dispose s => do
      let scope <- OpM.scope s
      bindChanged s (<- WorldM.disposeScope scope)
  | info s => do
      let scope <- OpM.scope s
      pure (.list [.nat scope.size, .bool scope.stack.isEmpty, .bool scope.disposed])
  | drop s => do
      let _ <- WorldM.disposeScope (<- OpM.takeScope s)
      pure .ok

end ScopeOp

end ScriptHost
