import Stencil.Text.Utf8
import Stencil.Text.Visible

/-!
# Text in diagnostics

Text as messages about it show it: between quotes, on one line, with an escape for every character
that would not be seen.
-/

namespace Stencil.Text

/-- A character as it stands in quoted text. -/
def quotedChar (c : Char) : List Char :=
  match c with
  | '"' => ['\\', '"']
  | '\\' => ['\\', '\\']
  | '\n' => ['\\', 'n']
  | '\r' => ['\\', 'r']
  | '\t' => ['\\', 't']
  | '\x00' => ['\\', '0']
  | c =>
    if isVisible c then [c]
    else '\\' :: 'u' :: '\x7b' :: (Nat.toDigits 16 c.toNat ++ ['\x7d'])

/-- Characters between quotes. -/
def quotedChars (cs : List Char) : String :=
  String.ofList ('"' :: (cs.flatMap quotedChar ++ ['"']))

/-- A text between quotes. -/
def quoted (text : String) : String := quotedChars text.toList

/-- Octets between quotes, as far as they are text. -/
def quotedOctets (bytes : Bytes) : String := quotedChars (Utf8.decodeLossy bytes)

end Stencil.Text
