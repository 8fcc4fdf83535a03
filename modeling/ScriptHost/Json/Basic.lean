import ScriptHost.Number.Binary64

set_option autoImplicit false

/-!
Structured text as a tree, before anything is decided about the size of its numbers, its nesting or
the soundness of its escapes.
-/

namespace ScriptHost

/-- A written number: its value is `digits * 10 ^ exponent`, negated if `negative`. -/
structure Numeral where
  negative : Bool
  digits : Nat
  exponent : Int
  -- Written without a fraction and without an exponent.
  integral : Bool
  deriving DecidableEq

inductive Json where
  | null
  | bool (b : Bool)
  | number (n : Numeral)
  -- A text, or `none` if one of its escapes denotes no character.
  | text (s : Option String)
  | array (items : List Json)
  | object (members : List (Option String × Json))

namespace Numeral

def toBinary64 (n : Numeral) : Binary64 :=
  Binary64.ofDecimal n.negative n.digits n.exponent

end Numeral

namespace Json

mutual

def depth : Json -> Nat
  | array items => depthOfItems items + 1
  | object members => depthOfMembers members + 1
  | _ => 0

def depthOfItems : List Json -> Nat
  | [] => 0
  | item :: rest => max (depth item) (depthOfItems rest)

def depthOfMembers : List (Option String × Json) -> Nat
  | [] => 0
  | (_, item) :: rest => max (depth item) (depthOfMembers rest)

end

end Json

end ScriptHost
