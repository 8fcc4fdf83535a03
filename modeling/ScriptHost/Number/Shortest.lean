import ScriptHost.Number.Binary64

set_option autoImplicit false

/-!
Shortest decimals: the fewest digits that read back as the same double.

The reals that round to `m * 2 ^ q` form an interval, closed when `m` is even. For one digit, two
digits and so on, the number's two neighbours on that decimal grid are tested against the interval;
the first grid with a hit gives the digits, and of two hits the nearer one.
-/

namespace ScriptHost

structure Decimal where
  digits : Nat
  exponent : Int
  deriving DecidableEq, Repr

inductive Tie where
  | even
  | up
  deriving DecidableEq

namespace Decimal

def pow10 (e : Int) : Nat × Nat :=
  if 0 <= e then (Nat.pow 10 e.toNat, 1) else (1, Nat.pow 10 (-e).toNat)

def trim : Nat -> Decimal -> Decimal
  | 0, d => d
  | fuel + 1, d =>
    if d.digits != 0 && d.digits % 10 == 0 then trim fuel ⟨d.digits / 10, d.exponent + 1⟩ else d

end Decimal

namespace Binary64

/-- The reals that round to a positive finite double, in quarters of its last place:
`low * 2 ^ scale` to `high * 2 ^ scale` around `mid * 2 ^ scale`. -/
structure Interval where
  low : Nat
  mid : Nat
  high : Nat
  scale : Int
  closed : Bool

-- Below a power of two the doubles are twice as dense, except at the smallest normal exponent.
def interval (x : Binary64) : Interval where
  low := 4 * x.significand - (if x.fractionField = 0 ∧ 1 < x.exponentField then 1 else 2)
  mid := 4 * x.significand
  high := 4 * x.significand + 2
  scale := x.scale - 2
  closed := x.significand % 2 == 0

namespace Interval

def onGrid (i : Interval) (e : Int) : Nat × Nat :=
  let p := Decimal.pow10 e
  if 0 <= i.scale then (Nat.pow 2 i.scale.toNat * p.2, p.1)
  else (p.2, p.1 * Nat.pow 2 (-i.scale).toNat)

def admits (i : Interval) (unit step n : Nat) : Bool :=
  if i.closed then decide (i.low * unit <= n * step) && decide (n * step <= i.high * unit)
  else decide (i.low * unit < n * step) && decide (n * step < i.high * unit)

def nearest? (i : Interval) (tie : Tie) (e : Int) : Option Nat :=
  let (unit, step) := i.onGrid e
  let mid := i.mid * unit
  let below := mid / step
  let rest := mid - below * step
  match i.admits unit step below, i.admits unit step (below + 1) with
  | false, false => none
  | true, false => some below
  | false, true => some (below + 1)
  | true, true =>
    if 2 * rest < step then some below
    else if step < 2 * rest then some (below + 1)
    else match tie with
      | .up => some (below + 1)
      | .even => some (below + below % 2)

def search (i : Interval) (tie : Tie) : Nat -> Int -> Decimal
  | 0, e => ⟨(i.nearest? tie e).getD 0, e⟩
  | more + 1, e =>
    match i.nearest? tie e with
    | some n => ⟨n, e⟩
    | none => search i tie more (e - 1)

end Interval

/-- An exponent `e` with `x < 10 ^ e`, at most two above the least one, for positive finite `x`. -/
def decimalBound (x : Binary64) : Int :=
  ((x.significand.log2 : Int) + x.scale + 1) * 30103 / 100000 + 1

/-- The shortest decimal that reads back as the magnitude of a finite number. -/
def shortest (tie : Tie) (x : Binary64) : Decimal :=
  if x.significand = 0 then ⟨0, 0⟩
  else Decimal.trim 20 (x.interval.search tie 20 x.decimalBound)

end Binary64

end ScriptHost
