import Stencil.Text.Ascii
import Stencil.Text.Utf8

/-!
# Tokens

A template is a sequence of fixed pieces and placeholders. This module joins neighbouring fixed
pieces, measures sequences, and fills placeholders with encoded arguments. What is filled is written
to a buffer, for which room is set aside beforehand.
-/

namespace Stencil

/-- Octets that have been written, and for how many there is room. -/
structure Buffer where
  octets : Bytes
  capacity : Nat
  deriving DecidableEq, Repr

/-- Writes octets behind the others. Where there is too little room, more is made. -/
def Buffer.append (b : Buffer) (bytes : Bytes) : Buffer :=
  ⟨b.octets ++ bytes, max b.capacity (b.octets ++ bytes).length⟩

/-- A piece of a template: octets that stand for themselves, or a placeholder. -/
inductive Token where
  | fixed (bytes : Bytes)
  | positional
  | named (name : String)
  deriving DecidableEq, Repr

namespace Token

/-- Whether a token stands for itself. -/
def isFixed : Token → Bool
  | fixed _ => true
  | _ => false

/-- The name of a named placeholder. -/
def name? : Token → Option String
  | named name => some name
  | _ => none

/-- How many octets a token has of its own. -/
def fixedSize : Token → Nat
  | fixed bytes => bytes.length
  | _ => 0

/-- How many octets the fixed pieces of a sequence have together. -/
def fixedLen (ts : List Token) : Nat := ts.foldr (fun t n => t.fixedSize + n) 0

/-- How many placeholders a sequence has, each occurrence counted. -/
def argCount (ts : List Token) : Nat := ts.countP (fun t => !t.isFixed)

/-- The names of the named placeholders of a sequence, each occurrence listed. -/
def occurrences (ts : List Token) : List String := ts.filterMap name?

/-- The names of the named placeholders of a sequence, each listed once. -/
def names (ts : List Token) : List String := (occurrences ts).eraseDups

/-- Puts a token in front of a sequence; of two fixed pieces that meet it makes one. -/
def consMerged : Token → List Token → List Token
  | fixed a, fixed b :: ts => fixed (a ++ b) :: ts
  | t, ts => t :: ts

/-- Joins neighbouring fixed pieces. An empty piece counts as a piece. -/
def merge (ts : List Token) : List Token := ts.foldr consMerged []

/-- Fills the placeholders of a sequence with encoded arguments, in order. A placeholder for which
none is left stands for nothing. -/
def assemble : List Token → List Bytes → Bytes
  | [], _ => []
  | fixed bytes :: ts, args => bytes ++ assemble ts args
  | _ :: ts, [] => assemble ts []
  | _ :: ts, arg :: args => arg ++ assemble ts args

/-- How many octets are set aside before a sequence is filled: as many as its fixed pieces are known
to have, and those of all arguments. -/
def capacity (fixedLen : Nat) (args : List Bytes) : Nat :=
  fixedLen + args.foldr (fun arg n => arg.length + n) 0

/-- Writes a sequence, its placeholders filled with encoded arguments, to a buffer with room for the
fixed octets that the sequence is known to have and for the arguments. -/
def write (fixedLen : Nat) (ts : List Token) (args : List Bytes) : Buffer :=
  Buffer.append ⟨[], capacity fixedLen args⟩ (assemble ts args)

@[simp] theorem octets_write (fixedLen : Nat) (ts : List Token) (args : List Bytes) :
    (write fixedLen ts args).octets = assemble ts args := rfl

end Token

end Stencil
