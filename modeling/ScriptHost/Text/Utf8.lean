set_option autoImplicit false

/-!
Reading UTF-8, with the place and kind of the first fault in bytes that are not.
-/

namespace ScriptHost.Text.Utf8

inductive Fault where
  | invalid (length : Nat) (index : Nat)
  | incomplete (index : Nat)
  deriving DecidableEq

namespace Fault

def message : Fault -> String
  | invalid length index =>
      "invalid utf-8 sequence of " ++ Nat.repr length ++ " bytes from index " ++ Nat.repr index
  | incomplete index => "incomplete utf-8 byte sequence from index " ++ Nat.repr index

end Fault

/-- What a leading byte announces: how many bytes follow, and the range of the first of them. The
narrowed ranges exclude overlong forms, surrogates and code points past the last one. -/
def announced (b : UInt8) : Option (Nat × UInt8 × UInt8) :=
  if b < 0xC2 then none
  else if b < 0xE0 then some (1, 0x80, 0xBF)
  else if b == 0xE0 then some (2, 0xA0, 0xBF)
  else if b == 0xED then some (2, 0x80, 0x9F)
  else if b < 0xF0 then some (2, 0x80, 0xBF)
  else if b == 0xF0 then some (3, 0x90, 0xBF)
  else if b < 0xF4 then some (3, 0x80, 0xBF)
  else if b == 0xF4 then some (3, 0x80, 0x8F)
  else none

def faultInTail (index seen : Nat) : Nat -> UInt8 -> UInt8 -> List UInt8 -> Option Fault
  | 0, _, _, _ => none
  | _ + 1, _, _, [] => some (.incomplete index)
  | more + 1, low, high, b :: rest =>
      if b < low || high < b then some (.invalid seen index)
      else faultInTail index (seen + 1) more 0x80 0xBF rest

def faultFrom : Nat -> Nat -> List UInt8 -> Option Fault
  | 0, _, _ => none
  | _ + 1, _, [] => none
  | fuel + 1, index, b :: rest =>
      if b < 0x80 then faultFrom fuel (index + 1) rest
      else match announced b with
        | none => some (.invalid 1 index)
        | some (more, low, high) =>
          match faultInTail index 1 more low high rest with
          | some fault => some fault
          | none => faultFrom fuel (index + 1 + more) (rest.drop more)

def fault? (bytes : List UInt8) : Option Fault :=
  faultFrom bytes.length 0 bytes

def decode (bytes : ByteArray) : Except Fault String :=
  match String.fromUTF8? bytes with
  | some s => .ok s
  | none => .error ((fault? bytes.data.toList).getD (.incomplete 0))

end ScriptHost.Text.Utf8
