import Stencil.Json.Error
import Stencil.Text.Ascii
import Stencil.Text.Utf8

/-!
# Recognising JSON

A machine that reads a text octet by octet and says whether it is one JSON value with whitespace
around it, or else what is wrong and where. It holds what is due next and the containers that are
still open, so a text can be read in pieces: `run_append` says that reading two pieces one after
the other is reading them joined.
-/

namespace Stencil.Json

open Ascii

/-- A list or an object that has been opened. -/
inductive Container where
  | list
  | object
  deriving DecidableEq, Repr

/-- Where a reading stands inside a string: between characters, after a backslash, or after some
of the four hexadecimal digits of an escape, with whether all of those were digits. -/
inductive StringPart where
  | plain
  | escape
  | hex (seen : Nat) (valid : Bool)
  deriving DecidableEq, Repr

/-- Where a reading stands inside a number, named for what it read last. -/
inductive NumberPart where
  | minus
  | zero
  | whole
  | point
  | fraction
  | mark
  | sign
  | power
  deriving DecidableEq, Repr

/-- What is due next. `first` stands right after an opening bracket, where the container may also
close; `done` stands after a complete value. -/
inductive Phase where
  | value
  | first
  | key
  | colon
  | string (isKey : Bool) (part : StringPart)
  | literal (rest : Bytes)
  | number (part : NumberPart)
  | done
  deriving DecidableEq, Repr

/-- How many octets of the text lie before the place where a fault is reported, if it was found in
the octet after `offset` others. A control character is left unread; all else has been read. -/
def Fault.position (fault : Fault) (offset : Nat) : Nat :=
  if fault = .controlCharacter then offset else offset + 1

/-- A reading of JSON in progress: what is due next, and the open containers, innermost first. -/
structure Reading where
  phase : Phase
  stack : List Container
  deriving DecidableEq, Repr

namespace Reading

/-- A reading at the start of a text. -/
def start : Reading := ⟨.value, []⟩

/-- Whether an octet is JSON whitespace. -/
def isWhitespace : UInt8 → Bool
  | space | tab | newline | carriageReturn => true
  | _ => false

/-- One octet where a value is due. -/
def stepValue (stack : List Container) (b : UInt8) : Except Fault Reading :=
  match b with
  | space | tab | newline | carriageReturn => .ok ⟨.value, stack⟩
  | lowerN => .ok ⟨.literal [0x75, 0x6C, 0x6C], stack⟩
  | lowerT => .ok ⟨.literal [0x72, 0x75, 0x65], stack⟩
  | lowerF => .ok ⟨.literal [0x61, 0x6C, 0x73, 0x65], stack⟩
  | minus => .ok ⟨.number .minus, stack⟩
  | zero => .ok ⟨.number .zero, stack⟩
  | quote => .ok ⟨.string false .plain, stack⟩
  | openBracket => .ok ⟨.first, .list :: stack⟩
  | openBrace => .ok ⟨.first, .object :: stack⟩
  | b => if isDigit b then .ok ⟨.number .whole, stack⟩ else .error .expectedValue

/-- One octet where the key of a member is due. -/
def stepKey (stack : List Container) (b : UInt8) : Except Fault Reading :=
  if isWhitespace b then .ok ⟨.key, stack⟩
  else if b = quote then .ok ⟨.string true .plain, stack⟩
  else .error .keyMustBeString

/-- One octet right after the bracket that opened the innermost container. -/
def stepFirst (stack : List Container) (b : UInt8) : Except Fault Reading :=
  if isWhitespace b then .ok ⟨.first, stack⟩
  else match stack with
    | .list :: outer => if b = closeBracket then .ok ⟨.done, outer⟩ else stepValue stack b
    | .object :: outer => if b = closeBrace then .ok ⟨.done, outer⟩ else stepKey stack b
    | [] => stepValue stack b

/-- One octet after a complete value. -/
def stepDone (stack : List Container) (b : UInt8) : Except Fault Reading :=
  if isWhitespace b then .ok ⟨.done, stack⟩
  else match stack with
    | [] => .error .trailingCharacters
    | .list :: outer =>
      if b = comma then .ok ⟨.value, stack⟩
      else if b = closeBracket then .ok ⟨.done, outer⟩
      else .error .expectedCommaOrBracket
    | .object :: outer =>
      if b = comma then .ok ⟨.key, stack⟩
      else if b = closeBrace then .ok ⟨.done, outer⟩
      else .error .expectedCommaOrBrace

/-- One octet where the colon of a member is due. -/
def stepColon (stack : List Container) (b : UInt8) : Except Fault Reading :=
  if isWhitespace b then .ok ⟨.colon, stack⟩
  else if b = colon then .ok ⟨.value, stack⟩
  else .error .expectedColon

/-- Whether an octet may follow a backslash and end the escape. -/
def isShortEscape : UInt8 → Bool
  | quote | backslash | slash | lowerB | lowerF | lowerN | lowerR | lowerT => true
  | _ => false

/-- One octet inside a string. The four octets after `\u` are judged together when the last of
them has been read. -/
def stepString (stack : List Container) (isKey : Bool) : StringPart → UInt8 → Except Fault Reading
  | .plain, b =>
    if b = quote then .ok ⟨if isKey then .colon else .done, stack⟩
    else if b = backslash then .ok ⟨.string isKey .escape, stack⟩
    else if b < 0x20 then .error .controlCharacter
    else .ok ⟨.string isKey .plain, stack⟩
  | .escape, b =>
    if isShortEscape b then .ok ⟨.string isKey .plain, stack⟩
    else if b = lowerU then .ok ⟨.string isKey (.hex 0 true), stack⟩
    else .error .invalidEscape
  | .hex seen valid, b =>
    let valid := valid && isHexDigit b
    if seen < 3 then .ok ⟨.string isKey (.hex (seen + 1) valid), stack⟩
    else if valid then .ok ⟨.string isKey .plain, stack⟩
    else .error .invalidEscape

/-- One octet inside `null`, `true` or `false`. -/
def stepLiteral (stack : List Container) : Bytes → UInt8 → Except Fault Reading
  | [], b => stepDone stack b
  | [last], b => if b = last then .ok ⟨.done, stack⟩ else .error .expectedIdent
  | next :: rest, b => if b = next then .ok ⟨.literal rest, stack⟩ else .error .expectedIdent

/-- Whether an octet marks the exponent of a number. -/
def isExponentMark (b : UInt8) : Bool := b = lowerE || b = upperE

/-- One octet inside a number. A number has no closing octet: whatever cannot continue it is read
as the octet after a complete value. -/
def stepNumber (stack : List Container) : NumberPart → UInt8 → Except Fault Reading
  | .minus, b =>
    if b = Ascii.zero then .ok ⟨.number .zero, stack⟩
    else if isDigit b then .ok ⟨.number .whole, stack⟩
    else .error .invalidNumber
  | .zero, b =>
    if isDigit b then .error .invalidNumber
    else if b = Ascii.point then .ok ⟨.number .point, stack⟩
    else if isExponentMark b then .ok ⟨.number .mark, stack⟩
    else stepDone stack b
  | .whole, b =>
    if isDigit b then .ok ⟨.number .whole, stack⟩
    else if b = Ascii.point then .ok ⟨.number .point, stack⟩
    else if isExponentMark b then .ok ⟨.number .mark, stack⟩
    else stepDone stack b
  | .point, b => if isDigit b then .ok ⟨.number .fraction, stack⟩ else .error .invalidNumber
  | .fraction, b =>
    if isDigit b then .ok ⟨.number .fraction, stack⟩
    else if isExponentMark b then .ok ⟨.number .mark, stack⟩
    else stepDone stack b
  | .mark, b =>
    if b = plus || b = Ascii.minus then .ok ⟨.number .sign, stack⟩
    else if isDigit b then .ok ⟨.number .power, stack⟩
    else .error .invalidNumber
  | .sign, b => if isDigit b then .ok ⟨.number .power, stack⟩ else .error .invalidNumber
  | .power, b => if isDigit b then .ok ⟨.number .power, stack⟩ else stepDone stack b

/-- The reading after one more octet, or what is wrong with that octet. -/
def step (r : Reading) (b : UInt8) : Except Fault Reading :=
  match r.phase with
  | .value => stepValue r.stack b
  | .first => stepFirst r.stack b
  | .key => stepKey r.stack b
  | .colon => stepColon r.stack b
  | .string isKey part => stepString r.stack isKey part b
  | .literal rest => stepLiteral r.stack rest b
  | .number part => stepNumber r.stack part b
  | .done => stepDone r.stack b

/-- What is missing where the text ends outside a value. -/
def endAfter : List Container → Option Fault
  | [] => none
  | .list :: _ => some .endInList
  | .object :: _ => some .endInObject

/-- What is missing where the text ends, if anything is. -/
def endFault? (r : Reading) : Option Fault :=
  match r.phase with
  | .value => some .endInValue
  | .first => endAfter r.stack
  | .key | .colon => some .endInObject
  | .string _ _ => some .endInString
  | .literal _ => some .endInValue
  | .number .minus | .number .point | .number .mark | .number .sign => some .invalidNumber
  | .number _ => endAfter r.stack
  | .done => endAfter r.stack

/-- The reading after more octets, the first of which has `offset` octets before it, or the fault
that ends it and where that fault is reported. -/
def run (r : Reading) (offset : Nat) : Bytes → Except (Fault × Nat) Reading
  | [] => .ok r
  | b :: bytes =>
    match r.step b with
    | .ok r => r.run (offset + 1) bytes
    | .error fault => .error (fault, fault.position offset)

/-- A text can be read in two parts: the second from where the first led, with its faults counted on
from the end of the first. -/
theorem run_append (r : Reading) (offset : Nat) (as bs : Bytes) :
    r.run offset (as ++ bs) =
      r.run offset as >>= fun r => r.run (offset + as.length) bs := by
  induction as generalizing r offset with
  | nil => rfl
  | cons a as ih =>
    cases h : r.step a with
    | error fault => simp [run, h]; rfl
    | ok next =>
      have sum : offset + (as.length + 1) = offset + 1 + as.length := by omega
      simp [run, h, ih, sum]

end Reading

/-- The line, from 1, and the column of the place right after the given octets. -/
def lineColumn (before : Bytes) : Nat × Nat :=
  (1 + before.count newline, (before.reverse.takeWhile (· != newline)).length)

/-- Checks that a text is one JSON value with whitespace around it. -/
def check (bytes : Bytes) : Except Error Unit :=
  let fail (fault : Fault) (position : Nat) : Except Error Unit :=
    let (line, column) := lineColumn (bytes.take position)
    .error ⟨.fault fault, line, column⟩
  match Reading.start.run 0 bytes with
  | .error (fault, position) => fail fault position
  | .ok r =>
    match r.endFault? with
    | some fault => fail fault bytes.length
    | none => .ok ()

end Stencil.Json
