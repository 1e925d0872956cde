import Stencil.Text.Ascii
import Stencil.Text.Utf8

/-!
# Quoted text

JSON strings as they are written: the text between two quotes, with the shortest escape for every
octet that cannot stand for itself and none for any other.
-/

namespace Stencil.Json

open Ascii

/-- The octets that stand for one octet of a quoted text. -/
def escapeOctet (b : UInt8) : Bytes :=
  match b with
  | quote => [backslash, quote]
  | backslash => [backslash, backslash]
  | backspace => [backslash, lowerB]
  | formFeed => [backslash, lowerF]
  | newline => [backslash, lowerN]
  | carriageReturn => [backslash, lowerR]
  | tab => [backslash, lowerT]
  | b =>
    if b < 0x20 then
      [backslash, lowerU, zero, zero, hexDigit (b / 16), hexDigit (b % 16)]
    else [b]

/-- A text as a JSON string. -/
def quoted (text : String) : Bytes :=
  quote :: ((Utf8.encode text).flatMap escapeOctet ++ [quote])

end Stencil.Json
