import ScriptHost.Engine.Promise
import ScriptHost.Engine.Request

set_option autoImplicit false

/-!
The engine, and how it answers the requests that need nothing from its host.

Values that a request answers with belong to the asker, who has to free them. A request that fails inside
the language raises an exception and answers with a value that says so.
-/

namespace ScriptHost

structure Engine where
  memory : Memory
  heap : Heap
  -- Whether there is a host to answer calls of its functions.
  hosted : Bool

/-- Actions on an engine. What they did before an error stays done. -/
abbrev EngineM := ExceptT Error (StateM Engine)

namespace Engine

def empty : Engine :=
  ⟨.empty, .empty, false⟩

instance : Inhabited Engine :=
  ⟨empty⟩

def onHeap {α : Type} (f : Heap -> α × Heap) : EngineM α := do
  let s <- get
  let (a, heap) := f s.heap
  set { s with heap }
  pure a

def modifyHeap (f : Heap -> Heap) : EngineM Unit :=
  onHeap fun h => ((), f h)

def readHeap {α : Type} (f : Heap -> α) : EngineM α :=
  onHeap fun h => (f h, h)

def onMemory {α : Type} (f : Memory -> Except Error (α × Memory)) : EngineM α := do
  let s <- get
  match f s.memory with
  | .ok (a, memory) =>
      set { s with memory }
      pure a
  | .error e => throw e

def readMemory {α : Type} (f : Memory -> Except Error α) : EngineM α :=
  onMemory fun m => (f m).map fun a => (a, m)

def writeWord (a : Addr) (w : UInt32) : EngineM Unit :=
  onMemory fun m => (m.writeWord a w).map fun m => ((), m)

def outOfMemory : String :=
  "out of memory"

def raising (message : String) (answer : Scalar) : EngineM Scalar := do
  modifyHeap fun h => h.raiseMessage message
  pure answer

def nullResult : Scalar :=
  .ofWord 0

def statusOk : Scalar :=
  .i32 0

def statusFailed : Scalar :=
  .i32 (-1)

def insert (v : Value) : EngineM Scalar := do
  pure (.ofWord (<- onHeap fun h => h.insert v))

def soleInstance : Scalar :=
  .ofWord 1

def freeEverything : EngineM Scalar := do
  modify fun s => { s with heap := s.heap.clear, memory := s.memory.clear }
  pure .void

def setMemoryLimit (limit : Int64) : EngineM Scalar := do
  let bound := if limit < 0 then none else some limit.toInt.toNat
  modify fun s => { s with memory := s.memory.setLimit bound }
  pure .void

def dupValue (p : Ptr) : EngineM Scalar := do
  if <- onHeap fun h => h.dup p then pure (.ofWord p)
  else raising (Heap.invalidPointer p) nullResult

def freeValue (p : Ptr) : EngineM Scalar := do
  if <- onHeap fun h => h.free p then pure .void
  else throw (.foreign "free_value_pointer" ("unknown or already freed value pointer " ++ Nat.repr p.toNat))

def toCString (p : Ptr) : EngineM Scalar := do
  let s <- readHeap fun h => h.display p
  let a <- onMemory fun m => m.writeCString s
  if a = 0 then raising outOfMemory nullResult else pure (.ofWord a)

def copyArrayBuffer (p : Ptr) (outCount : Addr) : EngineM Scalar := do
  match <- readHeap fun h => h.get? p with
  | some (.bytes bytes) =>
      let data <- onMemory fun m => .ok (m.allocate (max bytes.size 1))
      if data = 0 then raising outOfMemory nullResult
      else
        onMemory fun m => (m.write data bytes).map fun m => ((), m)
        writeWord outCount (UInt32.ofNat bytes.size)
        pure (.ofWord data)
  | _ => raising "value is not an ArrayBuffer" nullResult

def attempt {α : Type} (f : Heap -> Except String (α × Heap)) (onOk : α -> Scalar) (onError : Scalar) :
    EngineM Scalar := do
  match f (<- get).heap with
  | .ok (a, heap) =>
      modify fun s => { s with heap }
      pure (onOk a)
  | .error message => raising message onError

def getProp (object key : Ptr) : EngineM Scalar :=
  attempt (fun h => h.getProp object (h.display key)) .ofWord nullResult

def setProp (object key value : Ptr) : EngineM Scalar :=
  attempt (fun h => (h.setProp object (h.display key) value).map fun h => ((), h)) (fun _ => .ofBool true)
    (.ofBool false)

def newStrings (h : Heap) : List String -> List Ptr × Heap
  | [] => ([], h)
  | s :: rest =>
      let (p, h) := h.newString s
      let (ps, h) := newStrings h rest
      (p :: ps, h)

def getOwnPropertyNames (outTable outCount : Addr) (object : Ptr) : EngineM Scalar := do
  match <- readHeap fun h => h.ownKeys object with
  | .error message => raising message statusFailed
  | .ok keys =>
      let names <- onHeap fun h => newStrings h keys
      let table <- onMemory fun m => m.writeTable names
      if table = 0 then
        modifyHeap fun h => names.foldl Heap.release h
        raising outOfMemory statusFailed
      else
        writeWord outTable table
        writeWord outCount (UInt32.ofNat names.length)
        pure statusOk

def getLength (outLength : Addr) (p : Ptr) : EngineM Scalar := do
  match <- readHeap fun h => h.length p with
  | .ok n =>
      writeWord outLength (UInt32.ofNat n)
      pure statusOk
  | .error message => raising message statusFailed

def raise (p : Ptr) : EngineM Scalar := do
  modifyHeap fun h => if h.contains p then (h.retain p).setException p else h
  pure .void

def newPromiseCapability (out : Addr) : EngineM Scalar := do
  let (promise, resolve, reject) <- onHeap Heap.newCapability
  writeWord out resolve
  writeWord (out + 4) reject
  pure (.ofWord promise)

def promiseResult (p : Ptr) : EngineM Scalar := do
  match (<- get).heap.promiseResult p with
  | some (v, heap) =>
      modify fun s => { s with heap }
      pure (.ofWord v)
  | none => raising "value is not a promise" nullResult

def promiseThen (p : Ptr) (onFulfilled onRejected : Option Ptr) : EngineM Scalar := do
  if <- readHeap fun h => h.isPromise p then
    pure (.ofWord (<- onHeap fun h => h.andThen p onFulfilled onRejected))
  else raising "then called on a non-promise value" nullResult

def rejectionWords (r : Rejection) : List UInt32 :=
  [r.promise, r.reason, if r.handled then 1 else 0]

/-- Answers with a table of the recorded rejections, whose references it hands over, or with zero if
there are none. If there is no memory for the table they are freed. -/
def takeRejectionEvents (outCount : Addr) : EngineM Scalar := do
  let events <- onHeap Heap.takeRejections
  let table <- if events.isEmpty then pure 0
    else onMemory fun m => m.writeTable (events.flatMap rejectionWords)
  if table = 0 then
    modifyHeap fun h => h.releaseAll (events.flatMap Rejection.children)
    writeWord outCount 0
    pure nullResult
  else
    writeWord outCount (UInt32.ofNat events.length)
    pure (.ofWord table)

def perform : Request -> EngineM Scalar
  | .newRuntime => pure soleInstance
  | .newContext => pure soleInstance
  | .freeContext => freeEverything
  | .freeRuntime => freeEverything
  | .setMemoryLimit limit => setMemoryLimit limit
  | .liveValueCount => do pure (.i32 (Int32.ofNat (<- readHeap Heap.liveCount)))
  | .getUndefined => pure (.ofWord Ptr.undefined)
  | .getNull => pure (.ofWord Ptr.null)
  | .getTrue => pure (.ofWord Ptr.yes)
  | .getFalse => pure (.ofWord Ptr.no)
  | .dupValue p => dupValue p
  | .freeValue p => freeValue p
  | .newFloat64 x => insert (.number x)
  | .getFloat64 p => do pure (.f64 (<- readHeap fun h => h.number p))
  | .newString text => do insert (.string (<- readMemory fun m => m.readCString text))
  | .toCString p => toCString p
  | .freeCString text => do
      modify fun s => { s with memory := s.memory.free text }
      pure .void
  | .newArrayBuffer data count => do insert (.bytes (<- readMemory fun m => m.read data count.toNat))
  | .copyArrayBuffer p outCount => copyArrayBuffer p outCount
  | .newObject => insert (.object .plain Table.empty)
  | .newArray => insert (.array #[])
  | .getProp object key => getProp object key
  | .setProp object key value => setProp object key value
  | .getOwnPropertyNames outTable outCount object => getOwnPropertyNames outTable outCount object
  | .getLength outLength p => getLength outLength p
  | .typeOf p => do
      pure (.i32 (match <- readHeap fun h => h.kind p with
        | some kind => kind.tag
        | none => -1))
  | .isEqual a b op => do pure (.ofBool (<- readHeap fun h => h.isEqual a b op))
  | .newError text => do
      let message <- readMemory fun m => m.readCString text
      pure (.ofWord (<- onHeap fun h => h.newError message))
  | .raise p => raise p
  | .getLastError => do pure (.ofWord ((<- onHeap Heap.takeException).getD 0))
  | .newFunction id name => do insert (.function (<- readMemory fun m => m.readCString name) (.host id))
  | .newPromiseCapability out => newPromiseCapability out
  | .promiseState p => do
      pure (.i32 (match <- readHeap fun h => h.promiseState p with
        | some state => state.tag
        | none => -1))
  | .promiseResult p => promiseResult p
  | .promiseThen p onFulfilled onRejected => promiseThen p onFulfilled onRejected
  | .isJobPending => do pure (.ofBool (<- readHeap fun h => !h.jobs.isEmpty))
  | .takeRejectionEvents outCount => takeRejectionEvents outCount

end Engine

end ScriptHost
