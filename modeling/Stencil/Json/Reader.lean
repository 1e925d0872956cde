import Stencil.Json.Value

/-!
# Reading JSON values

`Value.parse?` reads a text as one value with whitespace around it. A number with neither fraction
nor exponent that fits 64 bits, with or without a sign, is whole. Any other number is a double: the
leading digits that fit 64 bits, scaled by a power of ten.
-/

namespace Stencil.Json

/-- Whether a character is JSON whitespace. -/
def isBlank (c : Char) : Bool := c = ' ' || c = '\t' || c = '\n' || c = '\r'

/-- The text from its first character that is not whitespace. -/
def skipBlanks (cs : List Char) : List Char := cs.dropWhile isBlank

/-- A text without the whitespace at its two ends. -/
def trim (text : String) : String :=
  String.ofList (skipBlanks (skipBlanks text.toList).reverse).reverse

/-- The value of a hexadecimal digit. -/
def hexValue? (c : Char) : Option Nat :=
  if '0' ≤ c ∧ c ≤ '9' then some (c.toNat - '0'.toNat)
  else if 'a' ≤ c ∧ c ≤ 'f' then some (c.toNat - 'a'.toNat + 10)
  else if 'A' ≤ c ∧ c ≤ 'F' then some (c.toNat - 'A'.toNat + 10)
  else none

/-- The value of four hexadecimal digits. -/
def hexUnit? (a b c d : Char) : Option Nat := do
  return ((← hexValue? a) * 16 + (← hexValue? b)) * 256 + ((← hexValue? c) * 16 + (← hexValue? d))

/-- The character that a letter after a backslash stands for. -/
def shortEscape? (c : Char) : Option Char :=
  match c with
  | '"' => some '"'
  | '\\' => some '\\'
  | '/' => some '/'
  | 'b' => some '\x08'
  | 'f' => some '\x0C'
  | 'n' => some '\n'
  | 'r' => some '\r'
  | 't' => some '\t'
  | _ => none

/-- Reads a string from behind its opening quote, given the characters read so far in reverse. -/
def readString (read : List Char) : List Char → Option (String × List Char)
  | [] => none
  | '"' :: rest => some (String.ofList read.reverse, rest)
  | '\\' :: 'u' :: a :: b :: c :: d :: '\\' :: 'u' :: e :: f :: g :: h :: rest => do
    let unit ← hexUnit? a b c d
    if 0xD800 ≤ unit ∧ unit < 0xDC00 then
      let low ← hexUnit? e f g h
      if 0xDC00 ≤ low ∧ low < 0xE000 then
        let code := 0x10000 + (unit - 0xD800) * 0x400 + (low - 0xDC00)
        readString (Char.ofNat code :: read) rest
      else none
    else if 0xDC00 ≤ unit ∧ unit < 0xE000 then none
    else readString (Char.ofNat unit :: read) ('\\' :: 'u' :: e :: f :: g :: h :: rest)
  | '\\' :: 'u' :: a :: b :: c :: d :: rest => do
    let unit ← hexUnit? a b c d
    if 0xD800 ≤ unit ∧ unit < 0xE000 then none
    else readString (Char.ofNat unit :: read) rest
  | '\\' :: c :: rest => do readString ((← shortEscape? c) :: read) rest
  | c :: rest => if c < ' ' then none else readString (c :: read) rest

/-- A number being read: the digits kept so far, which fit 64 bits, and the power of ten by which
they are to be scaled. -/
structure Scaled where
  significand : Nat
  exponent : Int

/-- Whether one more digit still fits 64 bits. -/
def Scaled.fits (s : Scaled) (digit : Nat) : Bool := s.significand * 10 + digit < UInt64.size

/-- Reads digits before the point. From the first digit that does not fit, each one counts as a
power of ten. -/
def Scaled.pushWhole (s : Scaled) : List Nat → Scaled
  | [] => s
  | digit :: digits =>
    if s.fits digit then Scaled.pushWhole ⟨s.significand * 10 + digit, s.exponent⟩ digits
    else ⟨s.significand, s.exponent + (digit :: digits).length⟩

/-- Reads digits behind the point. From the first digit that does not fit, all are dropped. -/
def Scaled.pushFraction (s : Scaled) : List Nat → Scaled
  | [] => s
  | digit :: digits =>
    if s.fits digit then Scaled.pushFraction ⟨s.significand * 10 + digit, s.exponent - 1⟩ digits
    else s

/-- Divides a double by a power of ten, in steps that are doubles themselves. -/
def divideByPower (x : Float) (power : Nat) : Float :=
  if power ≤ 308 then x / Float.ofScientific 1 false power
  else if x == 0 then x
  else divideByPower (x / 1e308) (power - 308)
termination_by power

/-- The double of a scaled number: its digits are rounded first, and scaled then. A number beyond
the doubles has none. -/
def Scaled.toFloat? (s : Scaled) : Option Float :=
  let x := (UInt64.ofNat s.significand).toFloat
  if s.exponent < 0 then some (divideByPower x s.exponent.natAbs)
  else if s.exponent ≤ 308 then
    let scaled := x * Float.ofScientific 1 false s.exponent.toNat
    if scaled.isInf then none else some scaled
  else if x == 0 then some x
  else none

/-- Takes the decimal digits at the start of a text, as numbers. -/
def takeDigits (cs : List Char) : List Nat × List Char :=
  ((cs.takeWhile Char.isDigit).map (fun c => c.toNat - '0'.toNat), cs.dropWhile Char.isDigit)

/-- The number that decimal digits make. -/
def ofDigits (digits : List Nat) : Nat := digits.foldl (fun n d => n * 10 + d) 0

/-- Takes the fraction at the start of a text, if there is one. -/
def takeFraction (cs : List Char) : Option (List Nat) × List Char :=
  match cs with
  | '.' :: rest => let (digits, rest) := takeDigits rest; (some digits, rest)
  | _ => (none, cs)

/-- Takes the exponent at the start of a text, if there is one: whether it is negative, and its
digits. -/
def takeExponent (cs : List Char) : Option (Bool × List Nat) × List Char :=
  let afterMark (rest : List Char) : Option (Bool × List Nat) × List Char :=
    let (negative, rest) := match rest with
      | '+' :: rest => (false, rest)
      | '-' :: rest => (true, rest)
      | _ => (false, rest)
    let (digits, rest) := takeDigits rest
    (some (negative, digits), rest)
  match cs with
  | 'e' :: rest => afterMark rest
  | 'E' :: rest => afterMark rest
  | _ => (none, cs)

/-- A number as it is spelt. -/
structure Spelling where
  negative : Bool
  whole : List Nat
  fraction : Option (List Nat)
  exponent : Option (Bool × List Nat)

/-- Whether a spelling has all the digits it needs and no zero in front of others. -/
def Spelling.isValid (s : Spelling) : Bool :=
  (s.whole.length == 1 || (!s.whole.isEmpty && s.whole.head? != some 0)) &&
    s.fraction != some [] && !s.exponent.any (·.2.isEmpty)

/-- The number that is spelt. -/
def Spelling.value? (s : Spelling) : Option Value :=
  let whole := ofDigits s.whole
  let least := if s.negative then 1 else 0
  let bound := if s.negative then UInt64.size / 2 + 1 else UInt64.size
  if s.fraction.isNone && s.exponent.isNone && least ≤ whole && whole < bound then
    some (.integer (if s.negative then -whole else whole))
  else do
    let scaled := (Scaled.pushWhole ⟨0, 0⟩ s.whole).pushFraction (s.fraction.getD [])
    let (negative, digits) := s.exponent.getD (false, [])
    let power : Int := if negative then -ofDigits digits else ofDigits digits
    let x ← Scaled.toFloat? ⟨scaled.significand, scaled.exponent + power⟩
    return .float (if s.negative then -x else x).toBits

/-- Reads a number. -/
def readNumber (cs : List Char) : Option (Value × List Char) :=
  let (negative, cs) := match cs with
    | '-' :: rest => (true, rest)
    | _ => (false, cs)
  let (whole, cs) := takeDigits cs
  let (fraction, cs) := takeFraction cs
  let (exponent, cs) := takeExponent cs
  let spelling : Spelling := ⟨negative, whole, fraction, exponent⟩
  if spelling.isValid then spelling.value?.map (·, cs) else none

mutual

/-- Reads a value. The fuel bounds how deep and how long the containers are. -/
def readValue : Nat → List Char → Option (Value × List Char)
  | 0, _ => none
  | fuel + 1, cs =>
    match skipBlanks cs with
    | 'n' :: 'u' :: 'l' :: 'l' :: rest => some (.null, rest)
    | 't' :: 'r' :: 'u' :: 'e' :: rest => some (.bool true, rest)
    | 'f' :: 'a' :: 'l' :: 's' :: 'e' :: rest => some (.bool false, rest)
    | '"' :: rest => (readString [] rest).map fun (text, rest) => (.string text, rest)
    | '[' :: rest =>
      match skipBlanks rest with
      | ']' :: rest => some (.list [], rest)
      | rest => (readItems fuel rest).map fun (items, rest) => (.list items, rest)
    | '\x7b' :: rest =>
      match skipBlanks rest with
      | '\x7d' :: rest => some (.object [], rest)
      | rest => (readMembers fuel rest).map fun (members, rest) => (.ofMembers members, rest)
    | cs => readNumber cs

/-- Reads the items of a list that has at least one, with the closing bracket. -/
def readItems : Nat → List Char → Option (List Value × List Char)
  | 0, _ => none
  | fuel + 1, cs => do
    let (item, rest) ← readValue fuel cs
    match skipBlanks rest with
    | ',' :: rest =>
      let (items, rest) ← readItems fuel rest
      return (item :: items, rest)
    | ']' :: rest => return ([item], rest)
    | _ => none

/-- Reads the members of an object that has at least one, with the closing bracket. -/
def readMembers : Nat → List Char → Option (List (String × Value) × List Char)
  | 0, _ => none
  | fuel + 1, cs =>
    match skipBlanks cs with
    | '"' :: rest => do
      let (name, rest) ← readString [] rest
      match skipBlanks rest with
      | ':' :: rest =>
        let (value, rest) ← readValue fuel rest
        match skipBlanks rest with
        | ',' :: rest =>
          let (members, rest) ← readMembers fuel rest
          return ((name, value) :: members, rest)
        | '\x7d' :: rest => return ([(name, value)], rest)
        | _ => none
      | _ => none
    | _ => none

end

/-- The value that a text is, if it is one value with whitespace around it. A container takes at
most two steps for each of its characters, which the fuel allows for. -/
def Value.parse? (text : String) : Option Value := do
  let (value, rest) ← readValue (2 * text.length + 2) text.toList
  if (skipBlanks rest).isEmpty then return value else none

end Stencil.Json
