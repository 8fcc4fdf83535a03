import ScriptHost.Json.Basic

set_option autoImplicit false

/-!
Reading structured text.

Nothing may follow the value but blanks, no comma may trail, and a number has no superfluous zero in
front. The functions below take the characters still to read and return those left over.
-/

namespace ScriptHost.Json

def isBlank (c : Char) : Bool :=
  c == ' ' || c == '\n' || c == '\t' || c == '\r'

def skipBlanks (cs : List Char) : List Char :=
  cs.dropWhile isBlank

def expect : List Char -> List Char -> Option (List Char)
  | [], cs => some cs
  | _ :: _, [] => none
  | e :: es, c :: cs => if e = c then expect es cs else none

def ofDigits (ds : List Char) : Nat :=
  ds.foldl (fun n d => 10 * n + (d.toNat - '0'.toNat)) 0

def takeDigits (cs : List Char) : List Char × List Char :=
  (cs.takeWhile Char.isDigit, cs.dropWhile Char.isDigit)

def fraction : List Char -> Option (List Char × List Char)
  | '.' :: cs =>
      match takeDigits cs with
      | ([], _) => none
      | taken => some taken
  | cs => some ([], cs)

def exponent : List Char -> Option (Option Int × List Char)
  | c :: cs =>
      if c = 'e' ∨ c = 'E' then
        let (negative, cs) := match cs with
          | '-' :: rest => (true, rest)
          | '+' :: rest => (false, rest)
          | rest => (false, rest)
        match takeDigits cs with
        | ([], _) => none
        | (ds, rest) => some (some (if negative then -(ofDigits ds : Int) else ofDigits ds), rest)
      else some (none, c :: cs)
  | [] => some (none, [])

def readNumeral (negative : Bool) (cs : List Char) : Option (Numeral × List Char) := do
  let (whole, rest) := takeDigits cs
  if whole.isEmpty || (whole.length != 1 && whole.head? == some '0') then none
  let (part, rest) <- fraction rest
  let (power, rest) <- exponent rest
  pure (⟨negative, ofDigits (whole ++ part), power.getD 0 - part.length, part.isEmpty && power.isNone⟩,
    rest)

def hexDigit (c : Char) : Option Nat :=
  if c.isDigit then some (c.toNat - '0'.toNat)
  else if 'a' <= c && c <= 'f' then some (c.toNat - 'a'.toNat + 10)
  else if 'A' <= c && c <= 'F' then some (c.toNat - 'A'.toNat + 10)
  else none

def escaped : Char -> Option Nat
  | '"' => some 0x22
  | '\\' => some 0x5C
  | '/' => some 0x2F
  | 'b' => some 0x08
  | 'f' => some 0x0C
  | 'n' => some 0x0A
  | 'r' => some 0x0D
  | 't' => some 0x09
  | _ => none

def units : List Char -> Option (List Nat × List Char)
  | '\\' :: 'u' :: a :: b :: c :: d :: cs => do
      let unit := ((<- hexDigit a) * 16 + (<- hexDigit b)) * 256 + (<- hexDigit c) * 16 + (<- hexDigit d)
      let (us, rest) <- units cs
      pure (unit :: us, rest)
  | '\\' :: e :: cs => do
      let unit <- escaped e
      let (us, rest) <- units cs
      pure (unit :: us, rest)
  | c :: cs =>
      if c = '"' then some ([], cs)
      else if c.toNat < 0x20 || c == '\\' then none
      else do
        let (us, rest) <- units cs
        pure (c.toNat :: us, rest)
  | [] => none

def isHighSurrogate (u : Nat) : Bool :=
  0xD800 <= u && u < 0xDC00

def isLowSurrogate (u : Nat) : Bool :=
  0xDC00 <= u && u < 0xE000

/-- The characters that units denote; a surrogate without its partner denotes none. -/
def ofUnits : List Nat -> Option (List Char)
  | [] => some []
  | u :: us =>
      if isHighSurrogate u then
        match us with
        | v :: vs =>
            if isLowSurrogate v then
              (ofUnits vs).map (Char.ofNat (0x10000 + (u - 0xD800) * 0x400 + (v - 0xDC00)) :: ·)
            else none
        | [] => none
      else if isLowSurrogate u then none
      else (ofUnits us).map (Char.ofNat u :: ·)

def readText (cs : List Char) : Option (Option String × List Char) :=
  (units cs).map fun (us, rest) => ((ofUnits us).map String.ofList, rest)

mutual

def readValue : Nat -> List Char -> Option (Json × List Char)
  | 0, _ => none
  | fuel + 1, cs =>
      match skipBlanks cs with
      | 'n' :: rest => (expect ['u', 'l', 'l'] rest).map fun rest => (null, rest)
      | 't' :: rest => (expect ['r', 'u', 'e'] rest).map fun rest => (bool true, rest)
      | 'f' :: rest => (expect ['a', 'l', 's', 'e'] rest).map fun rest => (bool false, rest)
      | '"' :: rest => (readText rest).map fun (s, rest) => (.text s, rest)
      | '-' :: rest => (readNumeral true rest).map fun (n, rest) => (number n, rest)
      | '[' :: rest =>
          match skipBlanks rest with
          | ']' :: rest => some (array [], rest)
          | rest => (readItems fuel rest).map fun (vs, rest) => (array vs, rest)
      | '\x7b' :: rest =>
          match skipBlanks rest with
          | '\x7d' :: rest => some (object [], rest)
          | rest => (readMembers fuel rest).map fun (ms, rest) => (object ms, rest)
      | rest => (readNumeral false rest).map fun (n, rest) => (number n, rest)

def readItems : Nat -> List Char -> Option (List Json × List Char)
  | 0, _ => none
  | fuel + 1, cs => do
      let (v, rest) <- readValue fuel cs
      match skipBlanks rest with
      | ']' :: rest => pure ([v], rest)
      | ',' :: rest => do
          let (vs, rest) <- readItems fuel rest
          pure (v :: vs, rest)
      | _ => none

def readMembers : Nat -> List Char -> Option (List (Option String × Json) × List Char)
  | 0, _ => none
  | fuel + 1, cs => do
      let rest <- expect ['"'] (skipBlanks cs)
      let (key, rest) <- readText rest
      let rest <- expect [':'] (skipBlanks rest)
      let (v, rest) <- readValue fuel rest
      match skipBlanks rest with
      | '\x7d' :: rest => pure ([(key, v)], rest)
      | ',' :: rest => do
          let (ms, rest) <- readMembers fuel rest
          pure ((key, v) :: ms, rest)
      | _ => none

end

/-- The value that a whole text denotes. Every step either reads a character or goes from a container
to its first item, so twice the length is enough fuel. -/
def read (s : String) : Option Json :=
  match readValue (2 * s.length + 2) s.toList with
  | some (v, rest) => if (skipBlanks rest).isEmpty then some v else none
  | none => none

end ScriptHost.Json
