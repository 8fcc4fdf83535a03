import ScriptHost.Number.Shortest

set_option autoImplicit false

/-!
Written forms of doubles: how shortest digits are laid out as text.
-/

namespace ScriptHost

structure NumberLayout where
  -- The exponents of the leading digit that are written positionally, if bounded.
  positional : Option (Int × Int)
  -- Whether an integral number keeps a point and a zero.
  keepPoint : Bool
  tie : Tie
  nan : String
  infinity : String
  minusInfinity : String

namespace NumberLayout

/-- Numbers inside structured text: exponents below -5 or above 15 are written out. -/
def structured : NumberLayout where
  positional := some (-5, 15)
  keepPoint := true
  tie := .even
  nan := "null"
  infinity := "null"
  minusInfinity := "null"

/-- Numbers shown to a reader: never an exponent. -/
def plain : NumberLayout where
  positional := none
  keepPoint := false
  tie := .up
  nan := "NaN"
  infinity := "Infinity"
  minusInfinity := "-Infinity"

def zeros (n : Nat) : String :=
  String.ofList (List.replicate n '0')

def positionalText (keepPoint : Bool) (d : Decimal) : String :=
  let text := Nat.repr d.digits
  if 0 <= d.exponent then
    text ++ zeros d.exponent.toNat ++ (if keepPoint then ".0" else "")
  else
    let places := (-d.exponent).toNat
    let digits := text.toList
    if places < digits.length then
      String.ofList (digits.take (digits.length - places)) ++ "." ++
        String.ofList (digits.drop (digits.length - places))
    else "0." ++ zeros (places - digits.length) ++ text

def exponentText (d : Decimal) (lead : Int) : String :=
  let text := Nat.repr d.digits
  let tail := String.ofList (text.toList.drop 1)
  String.ofList (text.toList.take 1) ++ (if tail.isEmpty then "" else "." ++ tail) ++ "e" ++
    (if lead < 0 then "-" else "+") ++ Nat.repr lead.natAbs

def magnitude (l : NumberLayout) (d : Decimal) : String :=
  let lead : Int := d.exponent + (Nat.repr d.digits).length - 1
  match l.positional with
  | none => positionalText l.keepPoint d
  | some (lowest, highest) =>
    if lowest <= lead && lead <= highest then positionalText l.keepPoint d
    else exponentText d lead

def render (l : NumberLayout) (x : Binary64) : String :=
  if x.isNaN then l.nan
  else if x.isInfinite then (if x.negative then l.minusInfinity else l.infinity)
  else (if x.negative then "-" else "") ++ l.magnitude (x.shortest l.tie)

end NumberLayout

end ScriptHost
