import Adl.Number.Double

/-!
# Shortest — the fewest decimal digits that determine a number

The reals that round to a finite number form an interval around it, ends included iff its
significand is even.  `Double.shortest` is the decimal of that interval with the fewest digits,
and of those the nearest to the number.
-/

namespace Adl

/-- The decimal number `coefficient * 10 ^ scale`. -/
structure Decimal where
  coefficient : Nat
  scale : Int
  deriving DecidableEq, Repr

namespace Decimal

/-- The largest `k` with `10 ^ k ≤ num / den`, for positive arguments. -/
def floorLog10 (num den : Nat) : Int :=
  if den ≤ num then (Double.decimalLength (num / den) : Int) - 1
  else -(Double.decimalLength ((den + num - 1) / num - 1) : Int)

/-- The same decimal without trailing zeros in the coefficient. -/
def trim (d : Decimal) : Decimal :=
  if 0 < d.coefficient ∧ d.coefficient % 10 = 0 then trim ⟨d.coefficient / 10, d.scale + 1⟩ else d
termination_by d.coefficient

end Decimal

namespace Double

/-- What to do when two decimals are equally near. -/
inductive Tie where
  | toEven
  | upward
  deriving DecidableEq, Repr

/-- An interval of rationals around a point, with a common denominator. -/
structure Interval where
  low : Nat
  point : Nat
  high : Nat
  den : Nat
  closed : Bool

/-- The rationals that round to a finite number: half the gap to the next magnitude on either
side, and the gap below a power of two is half as wide. -/
def interval (d : Double) : Interval :=
  let m := 4 * d.significand
  let (unit, den) := scaleBinary 1 1 (d.exponent - 2)
  let below := if d.significand = implicitBit ∧ 1 < d.field then 1 else 2
  ⟨(m - below) * unit, m * unit, (m + 2) * unit, den, d.significand % 2 == 0⟩

/-- The multiple of `10 ^ scale` in the interval that is nearest to its point, if one lies in
it.  Only the two neighbours of the point can be. -/
def Interval.onGrid? (i : Interval) (scale : Int) (tie : Tie) : Option Nat :=
  let up := Nat.pow 10 (-scale).toNat
  let den := i.den * Nat.pow 10 scale.toNat
  let point := i.point * up
  let c := point / den
  let below := c * den
  let above := (c + 1) * den
  let lowFits := if i.closed then i.low * up ≤ below else i.low * up < below
  let highFits := if i.closed then above ≤ i.high * up else above < i.high * up
  if lowFits ∧ highFits then
    let preferBelow :=
      point - below < above - point ∨
        (point - below = above - point ∧ tie = .toEven ∧ c % 2 = 0)
    some (if preferBelow then c else c + 1)
  else if lowFits then some c
  else if highFits then some (c + 1)
  else none

/-- Tries grids from `digits` digits on, with `fuel` more to try. -/
def shortestFrom (i : Interval) (tie : Tie) (magnitude : Int) : Nat → Nat → Decimal
  | 0, digits =>
    ⟨i.point * Nat.pow 10 (digits - 1 - magnitude).toNat / i.den, magnitude - digits + 1⟩
  | fuel + 1, digits =>
    match i.onGrid? (magnitude - digits + 1) tie with
    | some c => ⟨c, magnitude - digits + 1⟩
    | none => shortestFrom i tie magnitude fuel (digits + 1)

/-- The shortest decimal that rounds to a finite number; zero is `0`. -/
def shortest (d : Double) (tie : Tie) : Decimal :=
  if d.isZero then ⟨0, 0⟩
  else
    let i := d.interval
    (shortestFrom i tie (Decimal.floorLog10 i.point i.den) 17 1).trim

end Double

end Adl
