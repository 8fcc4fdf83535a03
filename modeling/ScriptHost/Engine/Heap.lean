import ScriptHost.Engine.Value
import ScriptHost.Number.Layout

set_option autoImplicit false

/-!
The counted values of the engine.

Every cell counts the references to its value, from inside the engine and from its host. Freeing a
reference removes the value when the count runs out and passes on to what it held.
-/

namespace ScriptHost

structure Cell where
  refs : Nat
  value : Value

abbrev Cells := Table Ptr Cell

structure Heap where
  cells : Cells
  -- Where the search for the next unused pointer starts, counted on when the words run out.
  next : Nat
  -- Oldest first.
  jobs : List Job
  -- Oldest first.
  rejections : List Rejection
  -- Holds one reference.
  exception : Option Ptr
  -- All jobs that were ever queued, newest first.
  queued : List Job
  -- All jobs that have left the queue, newest first.
  taken : List Job
  -- All that has happened to promises, newest first.
  history : List Happening

namespace Heap

def empty : Heap :=
  ⟨Table.empty, Ptr.firstCounted.toNat, [], [], none, [], [], []⟩

instance : Inhabited Heap :=
  ⟨empty⟩

def liveCount (h : Heap) : Nat :=
  h.cells.size

def get? (h : Heap) (p : Ptr) : Option Value :=
  (h.cells.get? p).map Cell.value

def contains (h : Heap) (p : Ptr) : Bool :=
  p.isStatic || h.cells.contains p

def isUnused (cells : Cells) (p : Ptr) : Bool :=
  decide (Ptr.firstCounted ≤ p) && !cells.contains p

/-- The first place from `n` on whose pointer is unused. The words below the first counted pointer and
those in use are all that has to be passed over. -/
def freshFrom (cells : Cells) : Nat -> Nat -> Nat
  | 0, n => n
  | tries + 1, n => if isUnused cells (UInt32.ofNat n) then n else freshFrom cells tries (n + 1)

def setValue (h : Heap) (p : Ptr) (v : Value) : Heap :=
  { h with cells := h.cells.modify p fun c => { c with value := v } }

/-- Adds a reference. Static values are not counted, and unknown pointers name nothing to count. -/
def retain (h : Heap) (p : Ptr) : Heap :=
  { h with cells := h.cells.modify p fun c => { c with refs := c.refs + 1 } }

def dup (h : Heap) (p : Ptr) : Bool × Heap :=
  (h.contains p, h.retain p)

/-- How many references there are to free in all, with one more for every cell. -/
def weight : List (Ptr × Cell) -> Nat
  | [] => 0
  | e :: rest => e.2.value.children.length + 1 + weight rest

theorem weight_put_of_find {es : List (Ptr × Cell)} {p : Ptr} {c : Cell} (h : Table.find p es = some c) (n : Nat) :
    weight (Table.put p { c with refs := n } es) = weight es := by
  induction es with
  | nil => simp [Table.find] at h
  | cons e rest ih =>
    by_cases same : e.1 = p
    next =>
      obtain rfl : e.2 = c := by simpa [Table.find, same] using h
      simp [Table.put, same, weight]
    next =>
      have found : Table.find p rest = some c := by simpa [Table.find, same] using h
      have later := ih found
      simp only [Table.put, same, if_false, weight, later]

theorem weight_filter_le (keep : Ptr × Cell -> Bool) (es : List (Ptr × Cell)) : weight (es.filter keep) ≤ weight es := by
  induction es with
  | nil => exact Nat.le_refl _
  | cons e rest ih =>
    rw [List.filter_cons]
    split
    next => exact Nat.add_le_add_left ih _
    next => exact Nat.le_trans ih (Nat.le_add_left _ _)

theorem weight_filter_of_find {es : List (Ptr × Cell)} {p : Ptr} {c : Cell} (h : Table.find p es = some c) :
    weight (es.filter fun e => !decide (e.1 = p)) + c.value.children.length < weight es := by
  induction es with
  | nil => simp [Table.find] at h
  | cons e rest ih =>
    by_cases same : e.1 = p
    next =>
      obtain rfl : e.2 = c := by simpa [Table.find, same] using h
      have fewer := weight_filter_le (fun e => !decide (e.1 = p)) rest
      simp only [weight, same, decide_true, Bool.not_true, Bool.false_eq_true, not_false_eq_true,
        List.filter_cons_of_neg]
      omega
    next =>
      have found : Table.find p rest = some c := by simpa [Table.find, same] using h
      have later := ih found
      simp only [weight, same, decide_false, Bool.not_false, List.filter_cons_of_pos]
      omega

/-- Frees one reference for every pending pointer. A value whose last reference goes is removed, and
the references that it held are freed as well; pointers that name no cell are passed over. -/
def freeAll (cells : Cells) : List Ptr -> Cells
  | [] => cells
  | p :: rest =>
      match _found : cells.get? p with
      | none => freeAll cells rest
      | some c =>
          if c.refs ≤ 1 then freeAll (cells.erase p) (c.value.children ++ rest)
          else freeAll (cells.set p { c with refs := c.refs - 1 }) rest
termination_by pending => weight cells.entries + pending.length
decreasing_by
  · simp
  · have lighter := weight_filter_of_find _found
    simp only [Table.erase, List.length_append, List.length_cons]
    omega
  · have same := weight_put_of_find _found (c.refs - 1)
    simp only [Table.set, List.length_cons]
    omega

def releaseAll (h : Heap) (ps : List Ptr) : Heap :=
  { h with cells := freeAll h.cells ps }

def release (h : Heap) (p : Ptr) : Heap :=
  h.releaseAll [p]

/-- Adds a value with one reference, which belongs to the caller. The references in the value are taken
over. If every pointer is in use there is no answer to wait for: nothing is added and those go. -/
def insert (h : Heap) (v : Value) : Ptr × Heap :=
  let n := freshFrom h.cells (h.cells.size + Ptr.firstCounted.toNat + 1) h.next
  let p := UInt32.ofNat n
  if isUnused h.cells p then (p, { h with cells := h.cells.set p ⟨1, v⟩, next := n + 1 })
  else (0, h.releaseAll v.children)

def free (h : Heap) (p : Ptr) : Bool × Heap :=
  (h.contains p, h.release p)

/-- Forgets all values, jobs, events and the exception. Pointers go on from where they were. -/
def clear (h : Heap) : Heap :=
  { empty with
    next := h.next
    queued := h.queued
    taken := h.jobs.reverse ++ h.taken
    history := h.history }

def setException (h : Heap) (p : Ptr) : Heap :=
  let raised := { h with exception := some p }
  match h.exception with
  | none => raised
  | some previous => raised.release previous

def takeException (h : Heap) : Option Ptr × Heap :=
  (h.exception, { h with exception := none })

def newString (h : Heap) (s : String) : Ptr × Heap :=
  h.insert (.string s)

def messageKey : String :=
  "message"

def newError (h : Heap) (message : String) : Ptr × Heap :=
  let (text, h) := h.newString message
  h.insert (.object .error (Table.empty.set messageKey text))

def raiseMessage (h : Heap) (message : String) : Heap :=
  let (error, h) := h.newError message
  h.setException error

def kind (h : Heap) (p : Ptr) : Option ValueKind :=
  if p = Ptr.undefined then some .undefined
  else if p = Ptr.null then some .null
  else if p = Ptr.no || p = Ptr.yes then some .boolean
  else (h.get? p).map Value.kind

def number (h : Heap) (p : Ptr) : Binary64 :=
  match h.get? p with
  | some (.number x) => x
  | _ =>
      if p = Ptr.yes then .one
      else if p = Ptr.no || p = Ptr.null then .zero
      else .nan

def numeralBound : Int :=
  Nat.pow 10 21

/-- Whole numbers below the bound are clamped to 64 bits and written as integers, zeros without a
sign; other numbers are written with all their digits. -/
def numberText (x : Binary64) : String :=
  if x.isFinite && x.isIntegral && decide (x.truncate.natAbs < numeralBound) then
    toString x.toInt64.toInt
  else NumberLayout.plain.render x

def staticText (p : Ptr) : Option String :=
  if p = Ptr.undefined then some "undefined"
  else if p = Ptr.null then some "null"
  else if p = Ptr.no then some "false"
  else if p = Ptr.yes then some "true"
  else none

def errorText (message : String) : String :=
  if message.isEmpty then "Error" else "Error: " ++ message

def displayTo (h : Heap) : Nat -> Ptr -> String
  | 0, _ => ""
  | depth + 1, p =>
      match staticText p with
      | some s => s
      | none =>
        match h.get? p with
        | none => "<invalid value>"
        | some (.number x) => numberText x
        | some (.string s) => s
        | some (.bytes _) => "[object ArrayBuffer]"
        | some (.object .error props) =>
            errorText (match props.get? messageKey with
              | none => ""
              | some message => displayTo h depth message)
        | some (.object .plain _) => "[object Object]"
        | some (.array items) =>
            String.intercalate ","
              (items.toList.map fun item => if item.isNullish then "" else displayTo h depth item)
        | some (.function name _) => "function " ++ name ++ "() \x7b [native code] \x7d"
        | some (.promise _) => "[object Promise]"

/-- The text of a value. No chain of containers that does not run in a circle is deeper than there are
cells. -/
def display (h : Heap) (p : Ptr) : String :=
  h.displayTo (h.cells.size + 1) p

/-- Numbers compare by value, strings by content and everything else by identity. -/
def isEqual (h : Heap) (a b : Ptr) (op : Equality) : Bool :=
  match h.get? a, h.get? b with
  | some (.number x), some (.number y) =>
      match op with
      | .strict => x.equals y
      | .sameValue => (x.isNaN && y.isNaN) || (x.equals y && x.negative == y.negative)
  | some (.string x), some (.string y) => x == y
  | _, _ => a == b

def invalidPointer (p : Ptr) : String :=
  "invalid value pointer " ++ Nat.repr p.toNat

def lengthKey : String :=
  "length"

def nameKey : String :=
  "name"

/-- Reads an index: only the decimal text that an index is written with counts. -/
def arrayIndex? (key : String) : Option Nat :=
  match key.toNat? with
  | some i => if Nat.repr i = key && decide (i < Nat.pow 2 64) then some i else none
  | none => none

inductive Property where
  | existing (p : Ptr)
  | computed (v : Value)

def lookup (h : Heap) (p : Ptr) (key : String) : Except String Property :=
  match h.get? p with
  | some (.object _ props) => .ok (.existing ((props.get? key).getD Ptr.undefined))
  | some (.array items) =>
      if key = lengthKey then .ok (.computed (.number (.ofNat items.size)))
      else .ok (.existing (((arrayIndex? key).bind fun i => items[i]?).getD Ptr.undefined))
  | some (.string s) =>
      if key = lengthKey then .ok (.computed (.number (.ofNat s.length)))
      else .ok (.existing Ptr.undefined)
  | some (.function name _) =>
      if key = nameKey then .ok (.computed (.string name)) else .ok (.existing Ptr.undefined)
  | some _ => .ok (.existing Ptr.undefined)
  | none =>
      if p.isNullish then
        .error ("cannot read property '" ++ key ++ "' of " ++ h.display p)
      else if p.isStatic then .ok (.existing Ptr.undefined)
      else .error (invalidPointer p)

def getProp (h : Heap) (p : Ptr) (key : String) : Except String (Ptr × Heap) :=
  (h.lookup p key).map fun
    | .existing v => (v, h.retain v)
    | .computed v => h.insert v

def setItem (items : Array Ptr) (index : Nat) (v : Ptr) : Array Ptr :=
  if index < items.size then items.setIfInBounds index v
  else (items ++ Array.replicate (index - items.size) Ptr.undefined).push v

def setProp (h : Heap) (p : Ptr) (key : String) (v : Ptr) : Except String Heap :=
  if !h.contains v then .error (invalidPointer v)
  else
    match h.get? p with
    | some (.object cls props) =>
        .ok (((h.setValue p (.object cls (props.set key v))).retain v).releaseAll (props.get? key).toList)
    | some (.array items) =>
        match arrayIndex? key with
        | none => .error ("cannot set property '" ++ key ++ "' on an array")
        | some i =>
            .ok (((h.setValue p (.array (setItem items i v))).retain v).releaseAll items[i]?.toList)
    | _ => .error ("cannot set property '" ++ key ++ "' of " ++ h.display p)

def ownKeys (h : Heap) (p : Ptr) : Except String (List String) :=
  match h.get? p with
  | some (.object _ props) => .ok props.keys
  | some (.array items) => .ok ((List.range items.size).map Nat.repr)
  | _ => .error ("cannot list properties of " ++ h.display p)

def length (h : Heap) (p : Ptr) : Except String Nat :=
  match h.get? p with
  | some (.array items) => .ok items.size
  | some (.string s) => .ok s.length
  | some (.bytes b) => .ok b.size
  | _ => .error (h.display p ++ " has no length")

end Heap

end ScriptHost
