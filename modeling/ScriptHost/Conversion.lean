import ScriptHost.Budget
import ScriptHost.Link.Typed

set_option autoImplicit false

/-!
Conversion between snapshots and values of the engine.

Both directions spend the same budget: every value is one level of nesting and a number of bytes that
depends on its kind and contents. Whatever a conversion creates on its way is freed again, the result of
one that succeeds excepted.
-/

namespace ScriptHost

namespace Budget

def numberCharge : Nat := 8

def boolCharge : Nat := 1

def blobCharge (size : Nat) : Nat :=
  size + 16

def listCharge (items : Nat) : Nat :=
  16 + items * 8

def recordCharge (fields : Nat) : Nat :=
  24 + fields * 16

def entered (b : Budget) : LinkM Budget :=
  match b.enter with
  | (.ok (), b) => pure b
  | (.error e, _) => throw (.conversion e)

def charged (b : Budget) (n : Nat) : LinkM Budget :=
  match b.charge n with
  | (.ok (), b) => pure b
  | (.error e, _) => throw (.conversion e)

end Budget

namespace Conversion

def constant (p : LinkM Ptr) : LinkM Ptr := do
  Link.dupValue (<- p)

def store (container : Ptr) (key : String) (child : Ptr) : LinkM Unit := do
  let result <- Link.attempt (Link.setProp container key child)
  Link.freeValue child
  Link.ofExcept result

def keepFilled {α : Type} (container : Ptr) (fill : LinkM α) : LinkM α := do
  match <- Link.attempt fill with
  | .ok a => pure a
  | .error e =>
      Link.freeValue container
      throw e

mutual

def build (b : Budget) : Snapshot -> LinkM (Ptr × Budget)
  | .undefined => do
      let b <- b.entered
      pure (<- constant Link.undefined, b.leave)
  | .null => do
      let b <- b.entered
      pure (<- constant Link.null, b.leave)
  | .bool x => do
      let b <- b.entered
      pure (<- constant (Link.boolean x), b.leave)
  | .int n => do
      let b <- (<- b.entered).charged Budget.numberCharge
      pure (<- Link.newNumber (.ofInt n.toInt), b.leave)
  | .float x => do
      let b <- (<- b.entered).charged Budget.numberCharge
      pure (<- Link.newNumber x, b.leave)
  | .text s => do
      let b <- (<- b.entered).charged (Budget.blobCharge s.utf8ByteSize)
      pure (<- Link.newString s, b.leave)
  | .bytes x => do
      let b <- (<- b.entered).charged (Budget.blobCharge x.size)
      pure (<- Link.newBytes x, b.leave)
  | .error message => do
      let b <- (<- b.entered).charged (Budget.blobCharge message.utf8ByteSize)
      pure (<- Link.newError message, b.leave)
  | .list items => do
      let b <- (<- b.entered).charged (Budget.listCharge items.length)
      let list <- Link.newArray
      let b <- keepFilled list (buildItems b list 0 items)
      pure (list, b.leave)
  | .record fields => do
      let b <- (<- b.entered).charged (Budget.recordCharge fields.length)
      let object <- Link.newObject
      let b <- keepFilled object (buildFields b object fields)
      pure (object, b.leave)

def buildItems (b : Budget) (list : Ptr) (index : Nat) : List Snapshot -> LinkM Budget
  | [] => pure b
  | item :: rest => do
      let (child, b) <- build b item
      store list (Nat.repr index) child
      buildItems b list (index + 1) rest

def buildFields (b : Budget) (object : Ptr) : List (String × Snapshot) -> LinkM Budget
  | [] => pure b
  | (key, item) :: rest => do
      let b <- b.charged key.utf8ByteSize
      let (child, b) <- build b item
      store object key child
      buildFields b object rest

end

def toEngine (maxDepth maxBytes : Nat) (v : Snapshot) : LinkM Ptr := do
  pure (<- build (.ofLimits maxDepth maxBytes) v).1

def consume {α : Type} (child : Ptr) (read : Ptr -> LinkM α) : LinkM α := do
  let result <- Link.attempt (read child)
  Link.freeValue child
  Link.ofExcept result

def refuseCircle (p : Ptr) : List Ptr -> LinkM Unit
  | [] => pure ()
  | ancestor :: rest => do
      if <- Link.isEqual ancestor p .sameValue then throw (.conversion .circular)
      refuseCircle p rest

def readItems (read : Budget -> Ptr -> LinkM (Snapshot × Budget)) (list : Ptr) :
    Nat -> Nat -> Budget -> LinkM (List Snapshot × Budget)
  | 0, _, b => pure ([], b)
  | count + 1, index, b => do
      let child <- Link.getProp list (Nat.repr index)
      let (item, b) <- consume child (read b)
      let (items, b) <- readItems read list count (index + 1) b
      pure (item :: items, b)

def readFields (read : Budget -> Ptr -> LinkM (Snapshot × Budget)) (object : Ptr) :
    List String -> Budget -> LinkM (List (String × Snapshot) × Budget)
  | [], b => pure ([], b)
  | key :: rest, b => do
      let b <- b.charged key.utf8ByteSize
      let child <- Link.getProp object key
      let (item, b) <- consume child (read b)
      let (fields, b) <- readFields read object rest b
      pure ((key, item) :: fields, b)

/-- Reads a value, one level down. Circles are found by the `ancestors`, the containers around it, the
outermost first; `levels` is more than the budget allows for and so never runs out. -/
def read : Nat -> List Ptr -> Budget -> Ptr -> LinkM (Snapshot × Budget)
  | 0, _, b, _ => throw (.conversion (.tooDeep b.maxDepth))
  | levels + 1, ancestors, b, p => do
      let b <- b.entered
      match <- Link.kind p with
      | .undefined => pure (.undefined, b.leave)
      | .null => pure (.null, b.leave)
      | .boolean =>
          let b <- b.charged Budget.boolCharge
          pure (.bool (<- Link.isEqual p (<- Link.boolean true) .strict), b.leave)
      | .number =>
          let b <- b.charged Budget.numberCharge
          pure (.ofNumber (<- Link.number p), b.leave)
      | .string =>
          let s <- Link.toText p
          let b <- b.charged (Budget.blobCharge s.utf8ByteSize)
          pure (.text s, b.leave)
      | .bytes =>
          let x <- Link.bytes p
          let b <- b.charged (Budget.blobCharge x.size)
          pure (.bytes x, b.leave)
      | .error =>
          let message <- consume (<- Link.getProp p Heap.messageKey) Link.toText
          let b <- b.charged (Budget.blobCharge message.utf8ByteSize)
          pure (.error message, b.leave)
      | .array =>
          refuseCircle p ancestors
          let count <- Link.length p
          let b <- b.charged (Budget.listCharge count)
          let (items, b) <- readItems (fun b child => read levels (ancestors ++ [p]) b child) p count 0 b
          pure (.list items, b.leave)
      | .object =>
          refuseCircle p ancestors
          let keys <- Link.ownKeys p
          let b <- b.charged (Budget.recordCharge keys.length)
          let (fields, b) <- readFields (fun b child => read levels (ancestors ++ [p]) b child) p keys b
          pure (.ofFields fields, b.leave)
      | .function => throw (.conversion .function)
      | .promise => throw (.conversion .promise)

def fromEngine (maxDepth maxBytes : Nat) (p : Ptr) : LinkM Snapshot := do
  pure (<- read (maxDepth + 1) [] (.ofLimits maxDepth maxBytes) p).1

end Conversion

end ScriptHost
