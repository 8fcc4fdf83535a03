set_option autoImplicit false

/-!
Double-precision numbers as bit patterns.

A finite number is `significand * 2 ^ scale`, with its sign apart. Every operation here is exact
arithmetic on that form, or one rounding to nearest of an exact ratio.
-/

namespace ScriptHost

structure Binary64 where
  bits : UInt64
  deriving DecidableEq, Inhabited

namespace Binary64

def negative (x : Binary64) : Bool :=
  decide (Nat.pow 2 63 <= x.bits.toNat)

def exponentField (x : Binary64) : Nat :=
  x.bits.toNat / Nat.pow 2 52 % Nat.pow 2 11

def fractionField (x : Binary64) : Nat :=
  x.bits.toNat % Nat.pow 2 52

def isFinite (x : Binary64) : Bool :=
  x.exponentField != 2047

def isNaN (x : Binary64) : Bool :=
  x.exponentField == 2047 && x.fractionField != 0

def isInfinite (x : Binary64) : Bool :=
  x.exponentField == 2047 && x.fractionField == 0

-- Subnormal numbers share the scale of the smallest normal ones but lack the leading bit.
def significand (x : Binary64) : Nat :=
  if x.exponentField = 0 then x.fractionField else Nat.pow 2 52 + x.fractionField

def scale (x : Binary64) : Int :=
  if x.exponentField = 0 then -1074 else (x.exponentField : Int) - 1075

def isZero (x : Binary64) : Bool :=
  x.isFinite && x.significand == 0

def nan : Binary64 :=
  ⟨0x7ff8000000000000⟩

def zero : Binary64 :=
  ⟨0⟩

def one : Binary64 :=
  ⟨0x3ff0000000000000⟩

def isIntegral (x : Binary64) : Bool :=
  x.isFinite && (decide (0 <= x.scale) || x.significand % Nat.pow 2 (-x.scale).toNat == 0)

def truncate (x : Binary64) : Int :=
  let magnitude : Nat :=
    if 0 <= x.scale then x.significand * Nat.pow 2 x.scale.toNat
    else x.significand / Nat.pow 2 (-x.scale).toNat
  if x.negative then -(magnitude : Int) else magnitude

def int64Min : Int :=
  -(Nat.pow 2 63 : Int)

def int64Max : Int :=
  (Nat.pow 2 63 : Int) - 1

/-- The nearest representable 64-bit integer toward zero: out of range goes to the end of the range. -/
def toInt64 (x : Binary64) : Int64 :=
  if x.isNaN then 0
  else if x.isInfinite then Int64.ofInt (if x.negative then int64Min else int64Max)
  else Int64.ofInt (max int64Min (min int64Max x.truncate))

def equals (x y : Binary64) : Bool :=
  !x.isNaN && !y.isNaN && (x.bits == y.bits || (x.isZero && y.isZero))

/-- Quotient rounded to nearest, a half going to the even neighbour. -/
def roundQuotient (num den : Nat) : Nat :=
  let q := num / den
  let twice := 2 * (num % den)
  if twice < den then q
  else if den < twice then q + 1
  else q + q % 2

-- With `2 ^ 52 <= m` the carry of a rounded-up significand runs into the exponent field by itself.
def assemble (negative : Bool) (m : Nat) (scale : Int) : Binary64 :=
  let magnitude := min ((scale + 1074).toNat * Nat.pow 2 52 + m) (2047 * Nat.pow 2 52)
  ⟨UInt64.ofNat ((if negative then Nat.pow 2 63 else 0) + magnitude)⟩

/-- `num / den` in units of `2 ^ e`. -/
def ratioAt (num den : Nat) (e : Int) : Nat × Nat :=
  if 0 <= e then (num, den * Nat.pow 2 e.toNat) else (num * Nat.pow 2 (-e).toNat, den)

/-- The scale at which `num / den` has a significand of 53 bits, or fewer at the least scale. -/
def lastPlace (num den : Nat) : Int :=
  let low := max (-1074) ((num.log2 : Int) - (den.log2 : Int) - 53)
  let high := (ratioAt num den low).1 / (ratioAt num den low).2
  if high < Nat.pow 2 53 then low else low + 1

/-- The double nearest to `num / den`, with a half going to the even significand. A magnitude that
rounds past the largest finite number becomes infinite. -/
def ofRatio (negative : Bool) (num den : Nat) : Binary64 :=
  if num = 0 then assemble negative 0 (-1074)
  else
    let scale := lastPlace num den
    let ratio := ratioAt num den scale
    assemble negative (roundQuotient ratio.1 ratio.2) scale

def ofInt (n : Int) : Binary64 :=
  ofRatio (decide (n < 0)) n.natAbs 1

def ofNat (n : Nat) : Binary64 :=
  ofInt n

def ofDecimal (negative : Bool) (digits : Nat) (exponent : Int) : Binary64 :=
  -- Far outside the finite range the answer no longer depends on the exponent.
  let size : Int := (Nat.repr digits).length + exponent
  if digits = 0 || decide (size < -400) then ofRatio negative 0 1
  else if 400 < size then assemble negative 0 973
  else if 0 <= exponent then ofRatio negative (digits * Nat.pow 10 exponent.toNat) 1
  else ofRatio negative digits (Nat.pow 10 (-exponent).toNat)

end Binary64

end ScriptHost
