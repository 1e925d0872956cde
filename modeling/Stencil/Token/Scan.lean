import Stencil.Error
import Stencil.Token.Basic

/-!
# Reading template text

Two question marks are an escape for one; an escape is read before a placeholder. Any other
question mark is a placeholder, which in named templates takes the longest run of name characters
that follows it. All other text is fixed.
-/

namespace Stencil

/-- How the placeholders of a text are written: as a bare question mark each, or with a name. -/
inductive Mode where
  | positional
  | named
  deriving DecidableEq, Repr

namespace Token

/-- Whether a character may stand in a name: an ASCII letter or digit, `_` or `-`. -/
def isNameChar (c : Char) : Bool := c.isAlphanum || c = '_' || c = '-'

/-- Whether a character stands for itself. -/
def isLiteral (c : Char) : Bool := c != '?'

/-- An escaped question mark. -/
def escaped : Token := fixed [Ascii.question]

theorem length_dropWhile_lt (p : Char → Bool) (c : Char) (cs : List Char) :
    (cs.dropWhile p).length < (c :: cs).length :=
  Nat.lt_succ_of_le (List.dropWhile_sublist p).length_le

/-- Reads the tokens of a text that has `offset` octets before it. -/
def scan (mode : Mode) (offset : Nat) : List Char → Except Error (List Token)
  | [] => .ok []
  | '?' :: '?' :: rest => do return escaped :: (← scan mode (offset + 2) rest)
  | '?' :: rest =>
    match mode with
    | .positional => do return positional :: (← scan mode (offset + 1) rest)
    | .named =>
      let name := rest.takeWhile isNameChar
      if name.isEmpty then .error (.emptyArgName offset)
      else do
        let further ← scan mode (offset + 1 + name.length) (rest.dropWhile isNameChar)
        return named (String.ofList name) :: further
  | c :: rest =>
    let literal := c :: rest.takeWhile isLiteral
    do
      let further ← scan mode (offset + Utf8.size literal) (rest.dropWhile isLiteral)
      return fixed (Utf8.encodeChars literal) :: further
termination_by cs => cs.length
decreasing_by
  · simp only [List.length_cons]; omega
  · simp
  · exact length_dropWhile_lt isNameChar '?' rest
  · exact length_dropWhile_lt isLiteral c rest

/-- The tokens of a template text, as they are written. -/
def ofText (mode : Mode) (text : String) : Except Error (List Token) := scan mode 0 text.toList

end Token

end Stencil
