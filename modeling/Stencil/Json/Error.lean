/-!
# Faults of JSON text

What can be wrong with a text that should be JSON, and the failures that reading or writing JSON
ends in.
-/

namespace Stencil.Json

/-- What is wrong at the place where a text stops being JSON. -/
inductive Fault where
  | endInValue
  | endInList
  | endInObject
  | endInString
  | expectedValue
  | expectedIdent
  | invalidNumber
  | controlCharacter
  | invalidEscape
  | expectedCommaOrBracket
  | expectedCommaOrBrace
  | keyMustBeString
  | expectedColon
  | trailingCharacters
  deriving DecidableEq, Repr

/-- The wording of a fault. -/
def Fault.text : Fault → String
  | .endInValue => "EOF while parsing a value"
  | .endInList => "EOF while parsing a list"
  | .endInObject => "EOF while parsing an object"
  | .endInString => "EOF while parsing a string"
  | .expectedValue => "expected value"
  | .expectedIdent => "expected ident"
  | .invalidNumber => "invalid number"
  | .controlCharacter => "control character (\\u0000-\\u001F) found while parsing a string"
  | .invalidEscape => "invalid escape"
  | .expectedCommaOrBracket => "expected `,` or `]`"
  | .expectedCommaOrBrace => "expected `,` or `\x7d`"
  | .keyMustBeString => "key must be a string"
  | .expectedColon => "expected `:`"
  | .trailingCharacters => "trailing characters"

/-- Why reading or writing JSON failed: a fault in a text, or what an encoder that gave up said. -/
inductive Cause where
  | fault (fault : Fault)
  | words (text : String)
  deriving DecidableEq, Repr

/-- The wording of a cause. -/
def Cause.text : Cause → String
  | .fault f => f.text
  | .words w => w

/-- A failure to read or to write JSON, with the line and the column where it was found. Lines are
counted from 1, and line 0 stands for no place. -/
structure Error where
  cause : Cause
  line : Nat
  column : Nat
  deriving DecidableEq, Repr

namespace Error

/-- The wording of a failure. -/
def message (e : Error) : String :=
  if e.line = 0 then e.cause.text
  else e.cause.text ++ " at line " ++ toString e.line ++ " column " ++ toString e.column

/-- Splits a text at the last occurrence of a mark into what precedes and what follows it. -/
def splitAtLast? (mark : List Char) : List Char → Option (List Char × List Char)
  | [] => none
  | c :: cs =>
    match splitAtLast? mark cs with
    | some (before, after) => some (c :: before, after)
    | none => (mark.isPrefixOf? (c :: cs)).map fun after => ([], after)

/-- The number that decimal digits spell, if there are any and it fits 64 bits. -/
def wordOfDigits? (digits : List Char) : Option Nat :=
  let n := digits.foldl (fun n d => n * 10 + (d.toNat - '0'.toNat)) 0
  if !digits.isEmpty && n < UInt64.size then some n else none

/-- The line and the column that a text spells, if it is a number, the word `column` and another
number. -/
def placeOf? (cs : List Char) : Option (Nat × Nat) := do
  let line ← wordOfDigits? (cs.takeWhile Char.isDigit)
  let columnDigits ← " column ".toList.isPrefixOf? (cs.dropWhile Char.isDigit)
  if columnDigits.all Char.isDigit then return (line, ← wordOfDigits? columnDigits) else none

/-- The failure that an encoder's words tell of. Words that end in a place, spelt as `message` does
it, give the place and not only words. -/
def ofWords (text : String) : Error :=
  let place? := do
    let (before, after) ← splitAtLast? " at line ".toList text.toList
    let (line, column) ← placeOf? after
    return Error.mk (.words (String.ofList before)) line column
  place?.getD ⟨.words text, 0, 0⟩

end Error

end Stencil.Json
