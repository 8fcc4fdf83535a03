import ScriptHost.Bench.Engine
import ScriptHost.Config

set_option autoImplicit false

/-!
Steps that call the engine across its link, with variables for the pointers that they answer with.
-/

namespace ScriptHost

inductive Operand where
  | pointer (p : Ptr)
  | bound (name : String)

inductive PointerCall where
  | dupValue (p : Operand)
  | undefined
  | null
  | boolean (b : Bool)
  | newNumber (x : Binary64)
  | newString (s : String)
  | newBytes (b : ByteArray)
  | newObject
  | newArray
  | getProp (object : Operand) (key : String)
  | newError (message : String)
  | newFunction (id : FunctionId) (name : String)
  | promiseResult (p : Operand)
  | promiseThen (p onFulfilled onRejected : Operand)
  | allocate (size : Nat)

inductive OtherCall where
  | freeValue (p : Operand)
  | liveValueCount
  | number (p : Operand)
  | toText (p : Operand)
  | bytes (p : Operand)
  | setProp (object : Operand) (key : String) (v : Operand)
  | names (object : Operand)
  | length (p : Operand)
  | kind (p : Operand)
  | isEqual (a b : Operand) (op : Equality)
  | raise (p : Operand)
  | failure
  | lastError
  | call (function this : Operand) (args : List Operand)
  | capability
  | promiseState (p : Operand)
  | jobPending
  | job
  | drain (most : Nat)
  | rejections
  | pointerTable (table : Operand) (count : Nat)

inductive TypedStep where
  | setup (step : SetupStep)
  | close
  -- The pointer that a call answers with is bound to a variable, if one is named.
  | pointer (result : Option String) (call : PointerCall)
  | other (result : Option String) (call : OtherCall)

namespace Operand

def resolve (b : Bench) : Operand -> Ptr
  | pointer p => p
  | bound name => (b.bindings.get? name).getD 0

end Operand

namespace TypedStep

def nat (n : UInt32) : Answer :=
  .nat n.toNat

def pointerCall (b : Bench) : PointerCall -> LinkM Ptr
  | .dupValue p => Link.dupValue (p.resolve b)
  | .undefined => Link.undefined
  | .null => Link.null
  | .boolean x => Link.boolean x
  | .newNumber x => Link.newNumber x
  | .newString s => Link.newString s
  | .newBytes x => Link.newBytes x
  | .newObject => Link.newObject
  | .newArray => Link.newArray
  | .getProp object key => Link.getProp (object.resolve b) key
  | .newError message => Link.newError message
  | .newFunction id name => Link.newFunction id name
  | .promiseResult p => Link.promiseResult (p.resolve b)
  | .promiseThen p onFulfilled onRejected =>
      Link.promiseThen (p.resolve b) (Ptr.nonzero? (onFulfilled.resolve b)) (Ptr.nonzero? (onRejected.resolve b))
  | .allocate size => Link.allocate size

def bindResult (result : Option String) (p : Ptr) : BenchM Unit :=
  match result with
  | some name => Bench.bind name p
  | none => pure ()

def runPointer (result : Option String) (call : PointerCall) : BenchM Answer := do
  match <- Bench.asking (pointerCall (<- get) call).run with
  | .ok p =>
      bindResult result p
      pure (nat p)
  | .error e => pure (.failure e)

def showNames : List Ptr -> LinkM (List Answer)
  | [] => pure []
  | p :: rest => do
      let text <- Link.attempt (Link.toText p)
      Link.freeValue p
      pure (.ofExcept .text text :: (<- showNames rest))

def showRejection (r : Rejection) : Answer :=
  .list [nat r.promise, nat r.reason, .bool r.handled]

def drainJobs : Nat -> BenchM (List Answer)
  | 0 => pure []
  | left + 1 => do
      match <- Bench.host.executePendingJob.run with
      | .error e => pure [.failure e]
      | .ok .idle => pure [.text JobStep.idle.name]
      | .ok step => do pure (.text step.name :: (<- drainJobs left))

def query {α : Type} (act : LinkM α) (shown : α -> Answer) : BenchM Answer := do
  pure (.ofExcept shown (<- Bench.asking act.run))

def showRejections : BenchM Answer := do
  pure (.ofExcept (fun rs => .list (rs.map showRejection)) (<- Bench.onLink OwnerM.takeRejections.run))

def runOther (result : Option String) (call : OtherCall) : BenchM Answer := do
  let b <- get
  match call with
  | .freeValue p => query (Link.freeValue (p.resolve b)) fun _ => .ok
  | .liveValueCount => query Link.liveValueCount .nat
  | .number p => query (Link.number (p.resolve b)) .number
  | .toText p => query (Link.toText (p.resolve b)) .text
  | .bytes p => query (Link.bytes (p.resolve b)) .bytes
  | .setProp object key v => query (Link.setProp (object.resolve b) key (v.resolve b)) fun _ => .ok
  | .names object => query (do showNames (<- Link.ownPropertyNames (object.resolve b))) .list
  | .length p => query (Link.length (p.resolve b)) .nat
  | .kind p => query (Link.kind (p.resolve b)) fun k => .text k.name
  | .isEqual x y op => query (Link.isEqual (x.resolve b) (y.resolve b) op) .bool
  | .raise p => query (Link.raise (p.resolve b)) fun _ => .ok
  | .failure => query (Link.failure "probe") .failure
  | .lastError =>
      match <- Bench.asking Link.takeLastError.run with
      | .error e => pure (.failure e)
      | .ok none => pure .absent
      | .ok (some p) =>
          bindResult result p
          pure (nat p)
  | .call function this args =>
      match <- (Bench.host.call (function.resolve b) (this.resolve b) (args.map fun x => x.resolve b)).run with
      | .error e => pure (.failure e)
      | .ok (.returned p) =>
          bindResult result p
          pure (.list [.text "returned", nat p])
      | .ok (.threw p) =>
          bindResult result p
          pure (.list [.text "thrown", nat p])
  | .capability =>
      match <- Bench.asking Link.newPromiseCapability.run with
      | .error e => pure (.failure e)
      | .ok (promise, resolve, reject) =>
          bindResult result promise
          bindResult (result.map fun name => name ++ ".resolve") resolve
          bindResult (result.map fun name => name ++ ".reject") reject
          pure (.list [nat promise, nat resolve, nat reject])
  | .promiseState p => query (Link.promiseState (p.resolve b)) fun s => .text s.name
  | .jobPending => query Link.isJobPending .bool
  | .job => do pure (.ofExcept (fun step => .text step.name) (<- Bench.host.executePendingJob.run))
  | .drain most => do pure (.list (<- drainJobs most))
  | .rejections => showRejections
  | .pointerTable table count =>
      query (Link.readTable (table.resolve b) count) fun ps => .list (ps.map nat)

def run : TypedStep -> BenchM (Answer × Bool)
  | setup step => do pure (<- step.run, true)
  | close => do pure (.ofResult (<- Bench.onLink OwnerM.closeEngine.run), false)
  | pointer result call => do pure (<- runPointer result call, true)
  | other result call => do pure (<- runOther result call, true)

def runSteps : Bool -> List TypedStep -> BenchM (List BenchReply)
  | _, [] => pure []
  | false, _ :: rest => do pure (⟨.text "closed", []⟩ :: (<- runSteps false rest))
  | true, first :: rest => do
      let (answer, still) <- first.run
      let calls <- Bench.takeCalls
      pure (⟨answer, calls⟩ :: (<- runSteps still rest))

def runAll (config : Config) (faults : List (String × Option Fault)) (steps : List TypedStep) :
    Except Error (List BenchReply × Nat) :=
  let link := faults.foldl (fun l f => l.setFault f.1 f.2) Link.empty
  let (opened, b) := (Bench.onLink (OwnerM.openEngine config.memoryLimit).run).run { Bench.empty with link }
  match opened with
  | .error e => .error e
  | .ok () =>
      let (replies, b) := (runSteps true steps).run b
      .ok (replies, b.link.engine.memory.used)

end TypedStep

end ScriptHost
