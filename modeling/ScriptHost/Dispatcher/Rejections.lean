import ScriptHost.Dispatcher.Call
import ScriptHost.Dispatcher.Loop

set_option autoImplicit false

/-!
Reports of the rejections that nobody has handled.

The engine records a rejection of a promise without reactions, and the first reaction attached after it. A
promise that somebody waits for counts as handled, and so does one with a reaction by the time of the report.
-/

namespace ScriptHost

namespace Vault

/-- Whether two pointers name the same value. Both are kept alive by those who ask. -/
def same (p q : Ptr) : VaultM Bool :=
  withLink .worker "compare handles" (Link.isEqual p q .sameValue)

def isAmong (promise : Ptr) : List Ptr -> VaultM Bool
  | [] => pure false
  | p :: rest => do
      if <- same p promise then pure true else isAmong promise rest

def takePair (promise : Ptr) : List (Handle × Handle) -> VaultM (Option (Handle × Handle) × List (Handle × Handle))
  | [] => pure (none, [])
  | e :: rest => do
      if <- same e.1.ptr promise then pure (some e, rest)
      else
        let (found, others) <- takePair promise rest
        pure (found, e :: others)

def discardPairs : List (Handle × Handle) -> StateM Vault Unit
  | [] => pure ()
  | e :: rest => do
      e.1.discard .worker
      e.2.discard .worker
      discardPairs rest

/-- What is left of the pairs kept so far after another event. -/
def sortOut (held : List Ptr) (e : Rejection) (pair : Handle × Handle) (kept : List (Handle × Handle)) :
    VaultM (List (Handle × Handle)) := do
  if e.handled then
    let (found, others) <- takePair e.promise kept
    ExceptT.lift (discardPairs (found.toList ++ [pair]))
    pure others
  else if <- isAmong e.promise held then
    ExceptT.lift (discardPairs [pair])
    pure kept
  else pure (kept ++ [pair])

/-- Goes through rejection events and keeps the pairs of promise and reason that nobody handled or waits
for. If the engine cannot be asked, the pairs kept so far are let go and later events are left alone. -/
def collectUnhandled (held : List Ptr) : List Rejection -> List (Handle × Handle) -> VaultM (List (Handle × Handle))
  | [], kept => pure kept
  | e :: rest, kept => do
      let promise <- ExceptT.lift (own e.promise)
      let reason <- ExceptT.lift (own e.reason)
      match <- ExceptT.lift (sortOut held e (promise, reason) kept).run with
      | .ok kept => collectUnhandled held rest kept
      | .error error =>
          ExceptT.lift (discardPairs ((promise, reason) :: kept))
          throw error

def takeUnhandled (held : List Ptr) : VaultM (List (Handle × Handle)) := do
  checkAccess .worker "take rejection events"
  let events <- ExceptT.mk (onLink OwnerM.takeRejections.run)
  collectUnhandled held events []

end Vault

namespace LoopM

def takeUnhandled : LoopM (Except Error (List (Handle × Handle))) := do
  let k := (<- get).worker
  Act.onVault (Vault.takeUnhandled (k.awaitedPromises ++ k.watchedPromises)).run

/-- A reason that cannot be read is told as undefined. -/
def toldReason : Except Error Snapshot -> Snapshot
  | .ok v => v
  | .error _ => .undefined

def report (e : Handle × Handle) : LoopM Unit := do
  let reason <- Runner.flat.act (Attempt.reasonOf e.2).run
  step (.report e.1.ptr (toldReason reason))
  Runner.flat.act (WorldM.discardHandles [e.1, e.2])

def reportAll : List (Handle × Handle) -> LoopM Unit
  | [] => pure ()
  | e :: rest => do
      report e
      reportAll rest

/-- Reports rejections of the time since the last report. -/
def flushRejections : LoopM Unit := do
  step .flush
  match <- takeUnhandled with
  | .ok pairs => reportAll pairs
  | .error _ => pure ()

end LoopM

end ScriptHost
