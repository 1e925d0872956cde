/-!
# Binary floating point

What the bits of a floating-point number stand for, for any interchange format.
-/

namespace Stencil

/-- A binary interchange format: the widths of its fraction and exponent fields. The sign bit
stands above both. -/
structure BinaryFormat where
  fractionBits : Nat
  exponentBits : Nat
  deriving DecidableEq, Repr

/-- The format of 32 bits. -/
def binary32 : BinaryFormat := ⟨23, 8⟩

/-- The format of 64 bits. -/
def binary64 : BinaryFormat := ⟨52, 11⟩

/-- A magnitude `significand * 2 ^ exponent` of a format. `closerBelow` says that the next smaller
magnitude is half as far away as the next greater one. -/
structure Magnitude where
  significand : Nat
  exponent : Int
  closerBelow : Bool
  deriving DecidableEq, Repr

/-- What a bit pattern stands for: a sign with a magnitude, or none for an infinity or a NaN. -/
def BinaryFormat.decode (format : BinaryFormat) (bits : Nat) : Option (Bool × Magnitude) :=
  let fraction := bits % Nat.pow 2 format.fractionBits
  let exponent := bits / Nat.pow 2 format.fractionBits % Nat.pow 2 format.exponentBits
  let negative := bits / Nat.pow 2 (format.fractionBits + format.exponentBits) % 2 = 1
  let least : Int := 2 - Nat.pow 2 (format.exponentBits - 1) - format.fractionBits
  if exponent = Nat.pow 2 format.exponentBits - 1 then none
  else if exponent = 0 then some (negative, ⟨fraction, least, false⟩)
  else
    let significand := Nat.pow 2 format.fractionBits + fraction
    some (negative, ⟨significand, least + (exponent - 1), fraction = 0 && exponent > 1⟩)

end Stencil
