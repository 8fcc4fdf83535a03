import ScriptHost.Error
import ScriptHost.Text.Blank

set_option autoImplicit false

/-!
Configuration of a dispatcher, and its structured text.

The text is an object of named fields or an array of their values in order. Absent fields take their
defaults, fields of other names are skipped whatever they hold, and a field given twice is refused.
-/

namespace ScriptHost

structure Config where
  threadName : String := "jsrun-dispatch"
  -- Bytes of engine memory, unlimited if absent.
  memoryLimit : Option Nat := none
  -- Nanoseconds that one work item, timer callback or batch of jobs may take.
  timeout : Option Nat := none
  maxDepth : Nat := 100
  maxBytes : Nat := 10 * 1024 * 1024
  warnOnLeak : Bool := true
  deriving DecidableEq

namespace Config

instance : Inhabited Config :=
  ⟨{}⟩

def wordMax : Nat :=
  Nat.pow 2 64 - 1

def microsecond : Nat :=
  1000

def millisecond : Nat :=
  1000 * microsecond

/-- Microseconds from which on a time has passed. -/
def ticks (n : Nat) : Nat :=
  (n + (microsecond - 1)) / microsecond

def validate (c : Config) : Except ConfigError Unit :=
  if Text.allBlank c.threadName then .error .blankThreadName
  else if c.memoryLimit = some 0 then .error .zeroMemoryLimit
  else if c.timeout = some 0 then .error .zeroTimeout
  else if c.maxDepth = 0 ∨ c.maxBytes = 0 then .error .zeroConversionLimit
  else .ok ()

inductive Field where
  | threadName
  | memoryLimit
  | timeout
  | maxDepth
  | maxBytes
  | warnOnLeak
  deriving DecidableEq

namespace Field

def all : List Field :=
  [threadName, memoryLimit, timeout, maxDepth, maxBytes, warnOnLeak]

def name : Field -> String
  | threadName => "thread_name"
  | memoryLimit => "memory_limit"
  | timeout => "execution_timeout"
  | maxDepth => "max_conversion_depth"
  | maxBytes => "max_conversion_bytes"
  | warnOnLeak => "warn_on_leaked_handles"

def ofName? (s : String) : Option Field :=
  all.find? fun f => f.name == s

end Field

/-- An unsigned word; a minus sign is refused even before zero. -/
def word? : Json -> Option Nat
  | .number n => if n.integral && !n.negative && decide (n.digits <= wordMax) then some n.digits else none
  | _ => none

def optionalWord? : Json -> Option (Option Nat)
  | .null => some none
  | json => (word? json).map some

def setField (c : Config) (f : Field) (json : Json) : Option Config :=
  match f with
  | .threadName =>
      match json with
      | .text (some s) => some { c with threadName := s }
      | _ => none
  | .memoryLimit => (optionalWord? json).map fun n => { c with memoryLimit := n }
  | .timeout => (optionalWord? json).map fun n => { c with timeout := n.map (millisecond * ·) }
  | .maxDepth => (word? json).map fun n => { c with maxDepth := n }
  | .maxBytes => (word? json).map fun n => { c with maxBytes := n }
  | .warnOnLeak =>
      match json with
      | .bool b => some { c with warnOnLeak := b }
      | _ => none

def setMembers : List Field -> Config -> List (Option String × Json) -> Option Config
  | _, c, [] => some c
  | seen, c, (key, json) :: rest => do
      let key <- key
      match Field.ofName? key with
      | none => setMembers seen c rest
      | some f =>
          if f ∈ seen then none
          else do
            let c <- setField c f json
            setMembers (f :: seen) c rest

/-- Sets fields from an array, which may end early but has nothing beyond the last field. -/
def setItems : List Field -> Config -> List Json -> Option Config
  | _, c, [] => some c
  | [], _, _ :: _ => none
  | f :: fs, c, json :: rest => do
      let c <- setField c f json
      setItems fs c rest

def ofJson : Json -> Option Config
  | .object members => setMembers [] {} members
  | .array items => setItems Field.all {} items
  | _ => none

def readJson (s : String) : Except ConfigError Config :=
  match (Json.read s).bind ofJson with
  | none => .error .unreadable
  | some c => c.validate.map fun _ => c

def wordText : Option Nat -> String
  | none => "null"
  | some n => Nat.repr n

def fieldToJson (c : Config) : Field -> String
  | .threadName => Json.quote c.threadName
  | .memoryLimit => wordText c.memoryLimit
  | .timeout => wordText (c.timeout.map fun n => n / millisecond % (wordMax + 1))
  | .maxDepth => Nat.repr c.maxDepth
  | .maxBytes => Nat.repr c.maxBytes
  | .warnOnLeak => Json.writeBool c.warnOnLeak

def toJson (c : Config) : String :=
  Json.writeObject (Field.all.map fun f => (f.name, c.fieldToJson f))

end Config

end ScriptHost
