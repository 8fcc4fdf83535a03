import ScriptHost.Dispatcher.Call

set_option autoImplicit false

/-!
The caller: it sends work to the dispatcher, waits for replies, and goes on to its next step when
everything that a step has set off has come to rest.
-/

namespace ScriptHost

namespace WorldM

def modifyCaller (f : Caller -> Caller) : WorldM Unit :=
  alter (.caller f)

def newReply : WorldM ReplyId := do
  let id := (<- look).caller.nextReply
  modifyCaller fun c => { c with nextReply := c.nextReply + 1 }
  pure id

def putReply (id : ReplyId) (reply : Reply) : WorldM Unit :=
  modifyCaller fun c => { c with replies := c.replies.set id reply }

def reply? (id : ReplyId) : WorldM (Option Reply) := do
  pure ((<- look).caller.replies.get? id)

mutual

def discardWork : Work -> WorldM Unit
  | .settle d _ _ => letGoDeferred d
  | .settleHandle d _ h _ => do
      discardHandle h
      letGoDeferred d
  | .settledValue o _ => discardOutcome o
  | .release handles => discardHandles handles
  | .gate items => discardWorks items
  | _ => pure ()

def discardWorks : List Work -> WorldM Unit
  | [] => pure ()
  | w :: rest => do
      discardWork w
      discardWorks rest

end

def submitBy (port : Port) (w : Work) : WorldM (Except Error Unit) := do
  if <- send port w then pure (.ok ())
  else
    discardWork w
    pure (.error .shuttingDown)

def submit (w : Work) : WorldM (Except Error Unit) :=
  submitBy .front w

def request (work : ReplyId -> Work) (wait : ReplyId -> Wait) : WorldM Wait := do
  let id <- newReply
  match <- submit (work id) with
  | .ok () => pure (wait id)
  | .error e => pure (.over (.failure e))

def startDuring : Option (List Op) -> WorldM (Option (Except Error ReplyId))
  | none => pure none
  | some ops => do
      let id <- newReply
      match <- submit (.script ops id) with
      | .ok () => pure (some (.ok id))
      | .error e => pure (some (.error e))

def register (p : Ptr) (token : Option TokenId) (settled : ReplyId) : WorldM (Except Error ReplyId) := do
  if <- isCancelled token then pure (.error .cancelled)
  else
    let id <- newReply
    match <- submit (.watch p token id settled) with
    | .ok () => pure (.ok id)
    | .error e => pure (.error e)

def answered (act : OpM Wait) : WorldM Wait := do
  match <- act.run with
  | .ok wait => pure wait
  | .error a => pure (.over a)

def statusAnswer (p : Phase) : Answer :=
  .list [.bool p.isOver, .bool false, .bool true, .text (if p.isOver then p.name else "running")]

def startStep : CallerStep -> WorldM Wait
  | .invoke ops => request (.script ops) .answer
  | .batch items => do
      let ids <- items.mapM fun _ => newReply
      match <- submit (.gate ((items.zip ids).map fun e => .script e.1 e.2)) with
      | .ok () => pure (.batch (ids.map .ok))
      | .error e => pure (.batch (ids.map fun _ => .error e))
  | .off ops => do
      match <- verdict (<- program Operands.none ops) with
      | .ok answers => pure (.over (.list answers))
      | .error a => pure (.over a)
  | .hook hook => do
      alter (.hook hook)
      pure (.over .ok)
  | .globalHook => pure (.over (.failure (.state .hookAlreadySet)))
  | .createDeferred target => request .createDeferred fun id => .deferred id target
  | .settle d fulfil v =>
      answered do
        let d <- OpM.deferred d
        holdDeferred d
        request (fun id => .settle d (if fulfil then .ok v else .error v) (some id)) .answer
  | .settleHandle d fulfil h =>
      answered do
        let d <- OpM.deferred d
        let h <- OpM.takeHandle h
        holdDeferred d
        request (.settleHandle d fulfil h) .answer
  | .settleFuture d result =>
      answered do
        let d <- OpM.deferred d
        holdDeferred d
        request (fun id => .settle d result (some id)) .answer
  | .await p token target during cancel snapshot =>
      answered do
        let p <- OpM.view Operands.none p
        let token <- OpM.optionalToken token
        let cancel <- OpM.optionalToken cancel
        let settled <- newReply
        let registered <- register p.ptr token settled
        let during <- startDuring during
        pure (.settlement { registered, settled, token, target, during, cancel, snapshot })
  | .scheduleTimer name ops delay repeating target =>
      request (.schedule ⟨"timer:" ++ name, ops, 0⟩ delay repeating) fun id => .timer id target
  | .cancelTimer timer =>
      answered do
        let timer <- OpM.timer timer
        request (.cancelTimer timer) .answer
  | .status => do pure (.over (statusAnswer (<- getWorker).phase))
  | .shutdown => do
      requestShutdown
      pure .stopped

def received (gone : Bool) (id : ReplyId) : WorldM (Option Answer) := do
  match <- reply? id with
  | some (.answer a) => pure (some a)
  | _ => pure (if gone then some (.failure .shuttingDown) else none)

def receivedOr (gone : Bool) : Except Error ReplyId -> WorldM (Option Answer)
  | .error e => pure (some (.failure e))
  | .ok id => received gone id

def receivedAll (gone : Bool) : List (Except Error ReplyId) -> WorldM (Option (List Answer))
  | [] => pure (some [])
  | first :: rest => do
      let a <- receivedOr gone first
      let others <- receivedAll gone rest
      pure (do return (<- a) :: (<- others))

def concluded (a : Answer) : Option (Except Error ReplyId) -> Wait
  | none => .over a
  | some during => .meanwhile a during

def settledName (o : Settled) : Answer :=
  .text (if o.isSuccess then "success" else "failure")

def afterSettlement (s : SettlementWait) : Except Error Settled -> WorldM Wait
  | .error e => pure (concluded (.failure e) s.during)
  | .ok o =>
      if s.snapshot then do
        let id <- newReply
        match <- submit (.settledValue o id) with
        | .ok () => pure (.snapshot id s.during)
        | .error e => pure (concluded (.failure e) s.during)
      else do
        bindOutcome s.target o
        pure (concluded (settledName o) s.during)

/-- Leaves a wait that was cancelled, and wakes the worker so that it drops the watcher. -/
def leaveCancelled (s : SettlementWait) : WorldM Wait := do
  let _ <- submit .noop
  afterSettlement s (.error .cancelled)

/-- Goes on with a wait for a promise, if anything has come of it. A wait that is to be cancelled is so
when everything else has come to rest. -/
def resumeSettlement (gone quiet : Bool) (s : SettlementWait) : WorldM (Option Wait) := do
  match <- receivedOr gone s.registered with
  | none => pure none
  | some (.failure e) => do pure (some (<- afterSettlement s (.error e)))
  | some _ =>
      match <- reply? s.settled with
      | some (.settled result) => do pure (some (<- afterSettlement s result))
      | _ =>
          if gone then do pure (some (<- afterSettlement s (.error .shuttingDown)))
          else if <- isCancelled s.token then do pure (some (<- leaveCancelled s))
          else
            match s.cancel with
            | some token =>
                if quiet then do
                  cancelToken token
                  pure (some (<- leaveCancelled s))
                else pure none
            | none => pure none

def resume (gone quiet : Bool) : Wait -> WorldM (Option Wait)
  | .over _ => pure none
  | .answer id => do pure ((<- received gone id).map .over)
  | .batch ids => do pure ((<- receivedAll gone ids).map fun answers => .over (.list answers))
  | .deferred id target => do
      match <- reply? id with
      | some (.deferred (.ok d)) =>
          bindDeferred target d
          pure (some (.over .ok))
      | some (.deferred (.error e)) => pure (some (.over (.failure e)))
      | _ => pure (if gone then some (.over (.failure .shuttingDown)) else none)
  | .timer id target => do
      match <- reply? id with
      | some (.timer timer) =>
          bindTimer target timer
          pure (some (.over (.nat timer.toNat)))
      | _ => pure (if gone then some (.over (.failure .shuttingDown)) else none)
  | .settlement s => resumeSettlement gone quiet s
  | .snapshot id during => do pure ((<- received gone id).map fun a => concluded a during)
  | .meanwhile a during => do
      pure ((<- receivedOr gone during).map fun b => .over (.list [a, b]))
  | .stopped => pure (if gone then some (.over .ok) else none)

def startNext : WorldM Bool := do
  match (<- look).caller.steps with
  | [] =>
      if (<- getWorker).accepting then
        requestShutdown
        pure true
      else pure false
  | step :: rest =>
      modifyCaller fun c => { c with steps := rest }
      let wait <- startStep step
      modifyCaller fun c => { c with wait := some wait }
      pure true

/-- Lets the caller act. After its last step it shuts the dispatcher down. `gone` says that the worker has
stopped and `quiet` that everything has come to rest; without that, no step is begun or finished. The
result is whether the caller had anything to do. -/
def callerTurn (gone quiet : Bool) : WorldM Bool := do
  match (<- look).caller.wait with
  | none => if quiet then startNext else pure false
  | some (.over a) =>
      if quiet then do
        alter (.report a)
        pure true
      else pure false
  | some wait =>
      match <- resume gone quiet wait with
      | some wait => do
          modifyCaller fun c => { c with wait := some wait }
          pure true
      | none => pure false

end WorldM

end ScriptHost
