import Stencil.Decimal.Shortest
import Stencil.Text.Utf8

/-!
# Numbers as JSON text

Whole numbers are written in full. Floating-point numbers are written with the fewest digits that
read back, positionally or with an exponent as their width prescribes.
-/

namespace Stencil.Json

/-- How the floating-point numbers of one width are written: their format, and the least and the
greatest power of ten of the first digit that is written positionally. -/
structure FloatLayout where
  format : BinaryFormat
  leastPositional : Int
  greatestPositional : Int
  deriving DecidableEq, Repr

/-- Single precision is positional from `0.000001` up to below `10 ^ 13`. -/
def singleLayout : FloatLayout := ⟨binary32, -6, 12⟩

/-- Double precision is positional from `0.00001` up to below `10 ^ 16`. -/
def doubleLayout : FloatLayout := ⟨binary64, -5, 15⟩

/-- A whole number in decimal digits. -/
def integerText (n : Int) : List Char :=
  if n < 0 then '-' :: Nat.toDigits 10 n.natAbs else Nat.toDigits 10 n.natAbs

/-- A decimal with at least one digit on either side of the point. -/
def positionalText (d : Decimal) : List Char :=
  let leading := d.leadingExponent
  if 0 ≤ d.exponent then d.digits ++ List.replicate d.exponent.toNat '0' ++ ['.', '0']
  else if 0 ≤ leading then
    let whole := leading.toNat + 1
    d.digits.take whole ++ '.' :: d.digits.drop whole
  else ['0', '.'] ++ List.replicate (-leading - 1).toNat '0' ++ d.digits

/-- A decimal as one digit, the other digits after a point if there are any, and an exponent with
its sign. -/
def scientificText (d : Decimal) : List Char :=
  let others := d.digits.drop 1
  let point := if others.isEmpty then [] else ['.']
  let sign := if d.leadingExponent < 0 then '-' else '+'
  let exponent := Nat.toDigits 10 d.leadingExponent.natAbs
  d.digits.take 1 ++ point ++ others ++ 'e' :: sign :: exponent

/-- The text of the floating-point number that a bit pattern stands for. JSON has none for an
infinity or a NaN. -/
def FloatLayout.text? (layout : FloatLayout) (bits : Nat) : Option (List Char) := do
  let (negative, magnitude) ← layout.format.decode bits
  let d := magnitude.shortest
  let leading := d.leadingExponent
  let isPositional := layout.leastPositional ≤ leading && leading ≤ layout.greatestPositional
  let unsigned := if isPositional then positionalText d else scientificText d
  return if negative then '-' :: unsigned else unsigned

/-- A floating-point number as JSON: its text, or `null` if it has none. -/
def FloatLayout.encode (layout : FloatLayout) (bits : Nat) : Bytes :=
  Utf8.encodeChars ((layout.text? bits).getD ['n', 'u', 'l', 'l'])

/-- A whole number as JSON. -/
def encodeInteger (n : Int) : Bytes := Utf8.encodeChars (integerText n)

end Stencil.Json
