import ScriptHost.Config
import ScriptHost.Proofs.Json.Values

set_option autoImplicit false

/-!
What becomes of a configuration that is written and read back.

The text keeps a timeout as whole milliseconds in a word, so one below a millisecond reads back as none at
all and is refused, and one that no word counts wraps around. Everything else comes back as it was.
-/

namespace ScriptHost

namespace Config

/-- Sizes and counts are words. -/
structure Sized (c : Config) : Prop where
  memoryLimit : ∀ n ∈ c.memoryLimit, n ≤ wordMax
  maxDepth : c.maxDepth ≤ wordMax
  maxBytes : c.maxBytes ≤ wordMax

/-- The timeout is cut off to whole milliseconds. -/
def truncated (c : Config) : Config :=
  { c with timeout := c.timeout.map fun n => millisecond * (n / millisecond) }

def milliseconds (n : Nat) : Nat :=
  n / millisecond % (wordMax + 1)

/-- What the text says of the timeout. -/
def written (c : Config) : Config :=
  { c with timeout := c.timeout.map fun n => millisecond * milliseconds n }

def natural (n : Nat) : Json :=
  .number ⟨false, n, 0, true⟩

def wordJson : Option Nat -> Json
  | none => .null
  | some n => natural n

def fieldJson (c : Config) : Field -> Json
  | .threadName => .text (some c.threadName)
  | .memoryLimit => wordJson c.memoryLimit
  | .timeout => wordJson (c.timeout.map milliseconds)
  | .maxDepth => natural c.maxDepth
  | .maxBytes => natural c.maxBytes
  | .warnOnLeak => .bool c.warnOnLeak

variable {c : Config}

theorem ofName?_name (f : Field) : Field.ofName? f.name = some f := by
  cases f <;> decide

theorem reads_wordText (o : Option Nat) : Json.Reads (wordText o).toList (wordJson o) := by
  cases o with
  | none => exact Json.reads_null
  | some n => exact Json.reads_natural n

theorem reads_field (c : Config) (f : Field) : Json.Reads (c.fieldToJson f).toList (c.fieldJson f) := by
  cases f with
  | threadName => exact Json.reads_text _
  | memoryLimit => exact reads_wordText _
  | timeout => exact reads_wordText _
  | maxDepth => exact Json.reads_natural _
  | maxBytes => exact Json.reads_natural _
  | warnOnLeak => exact Json.reads_bool _

theorem read_toJson (c : Config) :
    Json.read c.toJson = some (.object (Field.all.map fun f => (some f.name, c.fieldJson f))) := by
  refine Json.read_of_reads (Json.reads_object ?_)
  rw [List.forall₂_map_left_iff, List.forall₂_map_right_iff, List.forall₂_same]
  exact fun f _ => ⟨rfl, reads_field c f⟩

theorem word?_natural {n : Nat} (small : n ≤ wordMax) : word? (natural n) = some n := by
  simp [word?, natural, small]

theorem optionalWord?_wordJson {o : Option Nat} (small : ∀ n ∈ o, n ≤ wordMax) : optionalWord? (wordJson o) = some o := by
  cases o with
  | none => rfl
  | some n =>
    have known := word?_natural (small n rfl)
    rw [wordJson, optionalWord?, known, Option.map_some]
    exact fun same => nomatch same

theorem milliseconds_le (n : Nat) : milliseconds n ≤ wordMax :=
  Nat.le_of_lt_succ (Nat.mod_lt _ (Nat.succ_pos _))

theorem setMembers_fields (sized : c.Sized) :
    setMembers [] {} (Field.all.map fun f => (some f.name, c.fieldJson f)) = some c.written := by
  have timeout : ∀ n ∈ c.timeout.map milliseconds, n ≤ wordMax := by
    intro n member
    obtain ⟨t, _, rfl⟩ := Option.map_eq_some_iff.1 member
    exact milliseconds_le t
  simp [Field.all, setMembers, ofName?_name, setField, fieldJson, optionalWord?_wordJson sized.memoryLimit,
    optionalWord?_wordJson timeout, word?_natural sized.maxDepth, word?_natural sized.maxBytes, written,
    Function.comp_def]

theorem validate_timeout (valid : c.validate = .ok ()) (timeout : Option Nat) :
    validate { c with timeout } = if timeout = some 0 then .error .zeroTimeout else .ok () := by
  unfold validate at valid ⊢
  split at valid
  next => cases valid
  next named =>
  split at valid
  next => cases valid
  next limited =>
  split at valid
  next => cases valid
  next =>
  split at valid
  next => cases valid
  next convertible => simp only [named, limited, convertible, Bool.false_eq_true, if_false]

theorem readJson_toJson (sized : c.Sized) (valid : c.validate = .ok ()) :
    readJson c.toJson = if c.written.timeout = some 0 then .error .zeroTimeout else .ok c.written := by
  have validated : c.written.validate = _ := validate_timeout valid _
  simp only [readJson, read_toJson, Option.bind_some, ofJson, setMembers_fields sized, validated]
  split
  next none => simp [written, none, Except.map]
  next some => simp [written, some, Except.map]

/-- A timeout that the text can keep: a millisecond at least, and no more of them than a word counts. -/
def Keepable (n : Nat) : Prop :=
  millisecond ≤ n ∧ n / millisecond ≤ wordMax

instance (n : Nat) : Decidable (Keepable n) :=
  inferInstanceAs (Decidable (_ ∧ _))

theorem millisecond_pos : 0 < millisecond := by
  decide

theorem milliseconds_eq_iff (n : Nat) : milliseconds n = n / millisecond ↔ n / millisecond ≤ wordMax :=
  (Nat.mod_eq_iff_lt (Nat.succ_ne_zero _)).trans Nat.lt_succ_iff

theorem written_eq_truncated_iff {n : Nat} (timeout : c.timeout = some n) :
    c.written = c.truncated ↔ n / millisecond ≤ wordMax := by
  rw [← milliseconds_eq_iff]
  constructor
  · intro same
    have times : some (millisecond * milliseconds n) = some (millisecond * (n / millisecond)) := by
      simpa [written, truncated, timeout] using congrArg Config.timeout same
    exact Nat.eq_of_mul_eq_mul_left millisecond_pos (Option.some.inj times)
  · intro same
    simp [written, truncated, timeout, same]

theorem refused_iff {n : Nat} (timeout : c.timeout = some n) : c.written.timeout = some 0 ↔ milliseconds n = 0 := by
  have kept : c.written.timeout = some (millisecond * milliseconds n) := by simp [written, timeout]
  rw [kept, Option.some_inj, Nat.mul_eq_zero]
  exact or_iff_right (Nat.ne_of_gt millisecond_pos)

/-- A timeout of half a millisecond is valid, but its text is not accepted. -/
def hasty : Config :=
  { timeout := some (500 * microsecond) }

theorem hasty_sized : hasty.Sized where
  memoryLimit := fun _ absent => nomatch absent
  maxDepth := by decide
  maxBytes := by decide

/-- A timeout between two milliseconds. -/
def unhurried : Config :=
  { timeout := some (1500 * microsecond) }

end Config

end ScriptHost
