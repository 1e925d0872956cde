import Stencil.Decimal.Binary

/-!
# Shortest decimals

The decimal with the fewest digits that reads back as a given magnitude: the magnitude stands for
every real that rounds to it, and the first decimal grid with a point among those reals gives the
digits. Of two such points the nearer is taken, and of two equally near ones the even.
-/

namespace Stencil

/-- The number `coefficient * 10 ^ exponent`. -/
structure Decimal where
  coefficient : Nat
  exponent : Int
  deriving DecidableEq, Repr

namespace Decimal

/-- The same number with no zero at the end of its coefficient. -/
def normalize (coefficient : Nat) (exponent : Int) : Decimal :=
  if coefficient ≠ 0 ∧ coefficient % 10 = 0 then normalize (coefficient / 10) (exponent + 1)
  else ⟨coefficient, exponent⟩
termination_by coefficient
decreasing_by omega

/-- The decimal digits of the coefficient. -/
def digits (d : Decimal) : List Char := Nat.toDigits 10 d.coefficient

/-- The power of ten of the first digit. -/
def leadingExponent (d : Decimal) : Int := d.exponent + d.digits.length - 1

end Decimal

/-- How many decimal digits a natural number has; zero has none. -/
def digitCount (n : Nat) : Nat := if n = 0 then 0 else (Nat.toDigits 10 n).length

/-- The power of ten of the first digit of the quotient `num / den`. -/
def leadingPower (num den : Nat) : Int :=
  if den ≤ num then (digitCount (num / den) : Int) - 1
  else -(digitCount ((den + num - 1) / num - 1) : Int)

namespace Magnitude

/-- A magnitude on the grid of the multiples of `10 ^ power`: with `spacing` the scaled distance of
two grid points, the scaled magnitude and the ends of the reals that round to it. The scale makes
all four whole. -/
structure Scaled where
  spacing : Nat
  low : Nat
  middle : Nat
  high : Nat

/-- Scales a magnitude to the grid of the multiples of `10 ^ power`. -/
def scaled (m : Magnitude) (power : Int) : Scaled :=
  let up := Nat.pow 2 (m.exponent - 2).toNat * Nat.pow 10 (-power).toNat
  let quadruple := 4 * m.significand
  { spacing := Nat.pow 2 (2 - m.exponent).toNat * Nat.pow 10 power.toNat
    low := (quadruple - if m.closerBelow then 1 else 2) * up
    middle := quadruple * up
    high := (quadruple + 2) * up }

/-- The grid point nearest to a magnitude among those that read back as it. The ends of the
interval read back only if the significand is even. -/
def onGrid? (m : Magnitude) (power : Int) : Option Decimal :=
  let s := m.scaled power
  let below := s.middle / s.spacing
  let readsBack (point : Nat) : Bool :=
    let scaledPoint := point * s.spacing
    if m.significand % 2 = 0 then s.low ≤ scaledPoint && scaledPoint ≤ s.high
    else s.low < scaledPoint && scaledPoint < s.high
  let toBelow := s.middle - below * s.spacing
  let toAbove := (below + 1) * s.spacing - s.middle
  let preferBelow := toBelow < toAbove || (toBelow = toAbove && below % 2 = 0)
  match readsBack below, readsBack (below + 1) with
  | false, false => none
  | true, false => some (.normalize below power)
  | false, true => some (.normalize (below + 1) power)
  | true, true => some (.normalize (if preferBelow then below else below + 1) power)

/-- The shortest decimal that reads back as a magnitude. Seventeen digits suffice for 64 bits. -/
def shortest (m : Magnitude) : Decimal :=
  if m.significand = 0 then ⟨0, 0⟩
  else
    let unit := m.scaled 0
    let leading := leadingPower unit.middle unit.spacing
    let candidates := (List.range 17).filterMap fun (i : Nat) => m.onGrid? (leading - i)
    candidates.headD ⟨0, 0⟩

end Magnitude

end Stencil
