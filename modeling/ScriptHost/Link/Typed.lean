import ScriptHost.Link

set_option autoImplicit false

/-!
Typed calls across the link.

Texts, byte buffers and tables of pointers are put into the engine's memory for a call and taken out of
it afterwards; every block used on the way is freed again, whether the call succeeds or fails. A pointer
that a call answers with comes with a reference, constants excepted.
-/

namespace ScriptHost

namespace Link

def wordOf (r : Request) (s : Scalar) : Except Error UInt32 :=
  match s.word? with
  | some w => .ok w
  | none => .error (.foreign r.name "export returned a non-pointer value")

def word (r : Request) (common : r.isReserved = false := by rfl) : LinkM UInt32 := do
  ofExcept (wordOf r (<- request r common))

def int (r : Request) (common : r.isReserved = false := by rfl) : LinkM Int32 := do
  match (<- request r common).i32? with
  | some n => pure n
  | none => throw (.foreign r.name "export returned a non-integer value")

def freeValue (p : Ptr) : LinkM Unit := do
  let _ <- attempt (request (.freeValue p))

def freeValues : List Ptr -> LinkM Unit
  | [] => pure ()
  | p :: rest => do
      freeValue p
      freeValues rest

def takeLastError : LinkM (Option Ptr) := do
  pure (Ptr.nonzero? (<- word .getLastError))

def readText (block : Addr) : LinkM String := do
  let text <- attempt (readCString block)
  let _ <- request (.freeCString block)
  ofExcept text

def unexplained (operation : String) : Error :=
  .foreign operation "no engine diagnostic available"

def diagnosis : Except Error String -> String
  | .ok s => s
  | .error e => "<unreadable engine error: " ++ e.message ++ ">"

/-- The error of an operation that answered with nothing: the pending exception explains it. Asking for
the text of the exception can fail in the same way, and does so at most `depth` levels deep. -/
def failureWithin : Nat -> String -> LinkM Error
  | 0, operation => pure (unexplained operation)
  | depth + 1, operation => do
      match <- attempt takeLastError with
      | .error e => pure e
      | .ok none => pure (unexplained operation)
      | .ok (some exception) =>
          let text <- attempt do
            let block <- word (.toCString exception)
            if block = 0 then throw (<- failureWithin depth (Request.toCString exception).name)
            else readText block
          freeValue exception
          pure (.foreign operation (diagnosis text))

def failure (operation : String) : LinkM Error :=
  failureWithin 1000 operation

def value (r : Request) (common : r.isReserved = false := by rfl) : LinkM Ptr := do
  let p <- word r common
  if p = 0 then throw (<- failure r.name) else pure p

def confirm (r : Request) (expected : Int32) (common : r.isReserved = false := by rfl) : LinkM Unit := do
  if (<- int r common) = expected then pure () else throw (<- failure r.name)

def writeCString (s : String) : LinkM Addr :=
  let bytes := Memory.terminated s
  writeBlock bytes.size bytes

def writeTable (ps : List Ptr) : LinkM Addr :=
  let bytes := Memory.encodeWords ps
  writeBlock (max bytes.size 4) bytes

def withCString {α : Type} (s : String) (act : Addr -> LinkM α) : LinkM α := do
  let block <- writeCString s
  let result <- attempt (act block)
  free block
  ofExcept result

def dupValue (p : Ptr) : LinkM Ptr :=
  value (.dupValue p)

def liveValueCount : LinkM Nat := do
  pure (<- int .liveValueCount).toInt.toNat

def undefined : LinkM Ptr :=
  value .getUndefined

def null : LinkM Ptr :=
  value .getNull

def boolean (b : Bool) : LinkM Ptr :=
  if b then value .getTrue else value .getFalse

def newNumber (x : Binary64) : LinkM Ptr :=
  value (.newFloat64 x)

def number (p : Ptr) : LinkM Binary64 := do
  match (<- request (.getFloat64 p)).f64? with
  | some x => pure x
  | none => throw (.foreign (Request.getFloat64 p).name "expected f64 result")

def newString (s : String) : LinkM Ptr :=
  withCString s fun text => value (.newString text)

def toText (p : Ptr) : LinkM String := do
  readText (<- value (.toCString p))

def newBytes (bytes : ByteArray) : LinkM Ptr :=
  withBlock (max bytes.size 1) fun block => do
    writeBytes block bytes
    value (.newArrayBuffer block (UInt32.ofNat bytes.size))

def bytes (p : Ptr) : LinkM ByteArray :=
  withBlock 4 fun out => do
    let data <- value (.copyArrayBuffer p out)
    let result <- attempt do readBytes data (<- readWord out).toNat
    free data
    ofExcept result

def newObject : LinkM Ptr :=
  value .newObject

def newArray : LinkM Ptr :=
  value .newArray

def withKey {α : Type} (key : String) (act : Ptr -> LinkM α) : LinkM α := do
  let k <- newString key
  let result <- attempt (act k)
  freeValue k
  ofExcept result

def getProp (object : Ptr) (key : String) : LinkM Ptr :=
  withKey key fun k => value (.getProp object k)

def setProp (object : Ptr) (key : String) (v : Ptr) : LinkM Unit := do
  let status <- withKey key fun k => int (.setProp object k v)
  if status = 1 then pure () else throw (<- failure (Request.setProp object 0 v).name)

def ownPropertyNames (object : Ptr) : LinkM (List Ptr) :=
  withBlock 8 fun out => do
    confirm (.getOwnPropertyNames out (out + 4) object) 0
    let table <- readWord out
    let count <- readWord (out + 4)
    let names <- attempt (readTable table count.toNat)
    if table ≠ 0 then free table
    ofExcept names

def texts : List Ptr -> LinkM (List String)
  | [] => pure []
  | p :: rest => do
      let s <- toText p
      pure (s :: (<- texts rest))

def ownKeys (object : Ptr) : LinkM (List String) := do
  let names <- ownPropertyNames object
  let keys <- attempt (texts names)
  freeValues names
  ofExcept keys

def length (p : Ptr) : LinkM Nat :=
  withBlock 4 fun out => do
    confirm (.getLength out p) 0
    pure (<- readWord out).toNat

def kind (p : Ptr) : LinkM ValueKind := do
  let tag <- int (.typeOf p)
  match ValueKind.ofTag? tag with
  | some k => pure k
  | none => throw (.foreign (Request.typeOf p).name ("unknown type tag " ++ toString tag.toInt))

def isEqual (a b : Ptr) (op : Equality) : LinkM Bool := do
  pure ((<- int (.isEqual a b op)) != 0)

def newError (message : String) : LinkM Ptr :=
  withCString message fun text => value (.newError text)

def raise (p : Ptr) : LinkM Unit := do
  let _ <- request (.raise p)

def raiseError (message : String) : LinkM Unit := do
  let error <- newError message
  let result <- attempt (raise error)
  freeValue error
  ofExcept result

def newFunction (id : FunctionId) (name : String) : LinkM Ptr :=
  withCString name fun text => value (.newFunction id text)

def newPromiseCapability : LinkM (Ptr × Ptr × Ptr) :=
  withBlock 8 fun out => do
    let promise <- value (.newPromiseCapability out)
    let resolve <- readWord out
    let reject <- readWord (out + 4)
    pure (promise, resolve, reject)

def promiseState (p : Ptr) : LinkM PromiseState := do
  match PromiseState.ofTag? (<- int (.promiseState p)) with
  | some state => pure state
  | none => throw (.foreign (Request.promiseState p).name "value is not a promise")

def promiseResult (p : Ptr) : LinkM Ptr :=
  value (.promiseResult p)

def promiseThen (p : Ptr) (onFulfilled onRejected : Option Ptr) : LinkM Ptr :=
  value (.promiseThen p onFulfilled onRejected)

def isJobPending : LinkM Bool := do
  pure ((<- int .isJobPending) != 0)

def rejectionsOfWords : List UInt32 -> List Rejection
  | promise :: reason :: handled :: rest => ⟨promise, reason, handled != 0⟩ :: rejectionsOfWords rest
  | _ => []

/-- Reads a table of rejections, and frees it. -/
def readRejections (table out : Addr) : LinkM (List Rejection) := do
  let count <- readWord out
  if table = 0 || count = 0 then pure []
  else
    let words <- attempt (readTable table (count.toNat * 3))
    free table
    pure (rejectionsOfWords (<- ofExcept words))

end Link

namespace OwnerM

def openEngine (memoryLimit : Option Nat) : OwnerM Unit := do
  sole .newRuntime
  match memoryLimit with
  | none => pure ()
  | some limit =>
      let _ <- request (.setMemoryLimit (Int64.ofNat limit))
  sole .newContext
where
  sole (r : Request) : OwnerM Unit := do
    match ((<- request r).word?).bind Ptr.nonzero? with
    | some _ => pure ()
    | none => throw (.foreign r.name "engine returned null")

def closeEngine : OwnerM Unit := do
  let _ <- request .freeContext
  let _ <- request .freeRuntime

def takeTable (out : Addr) : OwnerM (List Rejection) := do
  let r := Request.takeRejectionEvents out
  let table <- common (Link.ofExcept (Link.wordOf r (<- request r)))
  common (Link.readRejections table out)

/-- Takes the rejections that the engine has recorded. -/
def takeRejections : OwnerM (List Rejection) := do
  let out <- common (Link.allocate 4)
  let taken <- ExceptT.lift (takeTable out).run
  common (Link.free out)
  common (Link.ofExcept taken)

end OwnerM

inductive JobStep where
  | idle
  | ran
  | failed
  deriving DecidableEq

namespace JobStep

def ofStatus (status : Int32) : JobStep :=
  if status = 0 then idle else if 0 < status then ran else failed

def name : JobStep -> String
  | idle => "Idle"
  | ran => "Ran"
  | failed => "Failed"

end JobStep

namespace Host

variable {m : Type -> Type} [Monad m]

def onLink {α : Type} (host : Host m) (act : LinkM α) : ExceptT Error m α :=
  ExceptT.mk (act.run.through host.ask)

def runTyped {α : Type} (host : Host m) (c : Calling) (take : Scalar -> Option α) (unfit : String) :
    ExceptT Error m α :=
  ExceptT.mk do
    match <- host.runExport c with
    | .error e => pure (.error e)
    | .ok s =>
        match take s with
        | some a => pure (.ok a)
        | none => pure (.error (.foreign c.name unfit))

def call (host : Host m) (function this : Ptr) (args : List Ptr) : ExceptT Error m Completion := do
  let table <- host.onLink (if args.isEmpty then pure 0 else Link.writeTable args)
  let calling : Calling := .call function this (UInt32.ofNat args.length) table
  let result <- ExceptT.lift
    (host.runTyped calling Scalar.word? "export returned a non-pointer value").run
  host.onLink (if table = 0 then pure () else Link.free table)
  match result with
  | .error e => throw e
  | .ok v =>
      if v = 0 then
        match <- host.onLink Link.takeLastError with
        | some exception => pure (.threw exception)
        | none => throw (.foreign calling.name "call failed without an exception")
      else pure (.returned v)

def executePendingJob (host : Host m) : ExceptT Error m JobStep := do
  pure (JobStep.ofStatus (<- host.runTyped .job Scalar.i32? "export returned a non-integer value"))

end Host

end ScriptHost
