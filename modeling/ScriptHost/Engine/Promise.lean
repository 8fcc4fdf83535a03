import ScriptHost.Engine.Heap

set_option autoImplicit false

/-!
Promises: settling them, attaching reactions, and the jobs that come of it.

A promise settles once. Its reactions then become jobs in the order of their attachment, and a reaction
attached later becomes a job at once.
-/

namespace ScriptHost

namespace Heap

def newPromise (h : Heap) : Ptr × Heap :=
  h.insert (.promise .fresh)

def promise? (h : Heap) (p : Ptr) : Option PromiseRecord :=
  match h.get? p with
  | some (.promise record) => some record
  | _ => none

def isPromise (h : Heap) (p : Ptr) : Bool :=
  (h.promise? p).isSome

def promiseState (h : Heap) (p : Ptr) : Option PromiseState :=
  (h.promise? p).map fun record => record.settlement.state

/-- What a promise settled with, or undefined while it is pending. The reader gets a reference of its
own. -/
def promiseResult (h : Heap) (p : Ptr) : Option (Ptr × Heap) :=
  (h.promise? p).map fun record =>
    let v := record.settlement.payload?.getD Ptr.undefined
    (v, h.retain v)

/-- Queues the job of a reaction. The job takes over the references of the reaction, but for the handler
that is not called, and gets a new one to its argument. -/
def enqueue (h : Heap) (r : Reaction) (argument : Ptr) (rejected : Bool) : Heap :=
  let h := (h.releaseAll (r.handler (!rejected)).toList).retain argument
  let job : Job := ⟨r.handler rejected, r.derived, argument, rejected⟩
  { h with jobs := h.jobs ++ [job], queued := job :: h.queued }

def enqueueAll (h : Heap) (rs : List Reaction) (argument : Ptr) (rejected : Bool) : Heap :=
  rs.foldl (fun h r => h.enqueue r argument rejected) h

def tell (h : Heap) (x : Happening) : Heap :=
  { h with history := x :: h.history }

def record (h : Heap) (promise reason : Ptr) (handled : Bool) : Heap :=
  let h := (h.retain promise).retain reason
  { h with rejections := h.rejections ++ [⟨promise, reason, handled⟩] }

/-- Settles a promise that is pending, taking a new reference to the value. A rejection is recorded if
no reaction was ever attached. -/
def settle (h : Heap) (p : Ptr) (v : Ptr) (rejected : Bool) : Heap :=
  match h.promise? p with
  | none => h
  | some r =>
      match r.settlement with
      | .pending =>
          let settled := { r with settlement := .ofPayload rejected v, reactions := [] }
          let h := ((h.setValue p (.promise settled)).retain v).tell (.settled p v rejected)
          let h := if rejected && !r.handled then h.record p v false else h
          h.enqueueAll r.reactions v rejected
      | _ => h

/-- Attaches a reaction, taking over one reference to the derived promise and taking new ones to the
handlers. The first reaction attached after a rejection is recorded. -/
def attach (h : Heap) (p : Ptr) (r : Reaction) : Heap :=
  let h := (r.onFulfilled.toList ++ r.onRejected.toList).foldl retain h
  match h.promise? p with
  | none => h
  | some record =>
      let h := h.tell (.reacted p)
      let marked := h.setValue p (.promise { record with handled := true })
      match record.settlement with
      | .pending =>
          h.setValue p (.promise { record with handled := true, reactions := record.reactions ++ [r] })
      | .fulfilled v => marked.enqueue r v false
      | .rejected v => (if record.handled then marked else marked.record p v true).enqueue r v true

def selfResolution : String :=
  "promise cannot resolve to itself"

/-- Resolves a promise with a value. Another promise is adopted: its outcome becomes that of the
promise. -/
def resolveWith (h : Heap) (p v : Ptr) : Heap :=
  if v = p then
    let (error, h) := h.newError selfResolution
    (h.settle p error true).release error
  else if h.isPromise v then (h.retain p).attach v ⟨p, none, none⟩
  else h.settle p v false

def callResolving (h : Heap) (p v : Ptr) (reject : Bool) : Heap :=
  match h.promise? p with
  | none => h
  | some record =>
      if record.resolved then h
      else
        let h := h.setValue p (.promise { record with resolved := true })
        if reject then h.settle p v true else h.resolveWith p v

def newCapability (h : Heap) : (Ptr × Ptr × Ptr) × Heap :=
  let (promise, h) := h.newPromise
  let (resolve, h) := (h.retain promise).insert (.function "" (.resolve promise))
  let (reject, h) := (h.retain promise).insert (.function "" (.reject promise))
  ((promise, resolve, reject), h)

def andThen (h : Heap) (p : Ptr) (onFulfilled onRejected : Option Ptr) : Ptr × Heap :=
  let (derived, h) := h.newPromise
  (derived, (h.retain derived).attach p ⟨derived, onFulfilled, onRejected⟩)

def takeJob (h : Heap) : Option Job × Heap :=
  match h.jobs with
  | [] => (none, h)
  | job :: rest => (some job, { h with jobs := rest, taken := job :: h.taken })

def finishJob (h : Heap) (job : Job) : Heap :=
  h.releaseAll job.children

def takeRejections (h : Heap) : List Rejection × Heap :=
  (h.rejections, { h with rejections := [] })

end Heap

end ScriptHost
