import Stencil.Proofs.Token.Merge
import Stencil.Proofs.Token.Unparse

/-!
# Texts character by character

How a scan divides fixed text into literals depends on how far each of them goes. After merging the
borders do not matter, so a text without names may as well be read with every character as a piece
of its own. Read in this way, a beginning without question marks and one in which every question
mark is doubled leave the rest of the text alone.
-/

namespace Stencil.Token

/-- The fixed piece of one character. -/
def character (c : Char) : Token := fixed (String.utf8EncodeChar c)

/-- A text with bare placeholders, read one character or escape at a time. -/
def pieces : List Char → List Token
  | [] => []
  | '?' :: '?' :: rest => escaped :: pieces rest
  | '?' :: rest => positional :: pieces rest
  | c :: rest => character c :: pieces rest

/-- A text in which every question mark is written as an escape. -/
def doubled (cs : List Char) : List Char := cs.flatMap fun c => if c = '?' then ['?', '?'] else [c]

/-- What stands in front does not see how the pieces behind it were cut. -/
theorem merge_append_congr (front : List Token) {ts us : List Token} (same : merge ts = merge us) :
    merge (front ++ ts) = merge (front ++ us) := by
  induction front with
  | nil => exact same
  | cons t front ih => rw [List.cons_append, List.cons_append, merge_cons, merge_cons, ih]

/-- A piece of text merges as its characters do. An empty piece does not: it is still a piece. -/
theorem merge_fixed_encodeChars {cs : List Char} (notEmpty : cs ≠ []) (ts : List Token) :
    merge (fixed (Utf8.encodeChars cs) :: ts) = merge (cs.map character ++ ts) := by
  obtain ⟨c, cs, rfl⟩ := List.exists_cons_of_ne_nil notEmpty
  induction cs generalizing c with
  | nil => simp [character]
  | cons d cs ih =>
    have step := ih d (List.cons_ne_nil d cs)
    rw [merge_cons] at step
    rw [Utf8.encodeChars_cons, merge_cons, consMerged_append, step]
    rfl

theorem pieces_literal {c : Char} (literal : c ≠ '?') (rest : List Char) :
    pieces (c :: rest) = character c :: pieces rest := by
  rw [pieces]
  · exact fun _ same => absurd same literal
  · exact literal

theorem pieces_slot {rest : List Char} (alone : ∀ more, rest ≠ '?' :: more) :
    pieces ('?' :: rest) = positional :: pieces rest := by
  rw [pieces]
  exact alone

theorem pieces_append {cs : List Char} (noQuestion : '?' ∉ cs) (rest : List Char) :
    pieces (cs ++ rest) = cs.map character ++ pieces rest := by
  induction cs with
  | nil => rfl
  | cons c cs ih =>
    rw [List.mem_cons, not_or] at noQuestion
    rw [List.cons_append, pieces_literal (Ne.symm noQuestion.1), ih noQuestion.2]
    rfl

/-- Text without question marks that is read as one piece, in front of what the rest is read as. -/
theorem merge_fixed_eq_pieces {cs rest : List Char} {ts : List Token} (notEmpty : cs ≠ [])
    (noQuestion : '?' ∉ cs) (same : merge ts = merge (pieces rest)) :
    merge (fixed (Utf8.encodeChars cs) :: ts) = merge (pieces (cs ++ rest)) := by
  rw [merge_fixed_encodeChars notEmpty, pieces_append noQuestion]
  exact merge_append_congr _ same

/-- Doubled question marks stand for themselves, whatever follows them. -/
theorem pieces_doubled (cs rest : List Char) :
    pieces (doubled cs ++ rest) = cs.map character ++ pieces rest := by
  induction cs with
  | nil => rfl
  | cons c cs ih =>
    rw [doubled, List.flatMap_cons, ← doubled, List.append_assoc]
    by_cases mark : c = '?'
    · subst mark
      rw [if_pos rfl, List.cons_append, List.cons_append, List.nil_append, pieces, ih]
      rfl
    · rw [if_neg mark, List.singleton_append, pieces_literal mark, ih]
      rfl

/-- A scan finds the same tokens as reading by characters does, up to the borders of fixed
pieces. -/
theorem Lexes.merge_eq {cs : List Char} {ts : List Token} (h : Lexes .positional cs ts) :
    merge ts = merge (pieces cs) := by
  generalize hmode : Mode.positional = mode at h
  induction h with
  | nil => rfl
  | escape _ ih => rw [pieces, merge_cons, merge_cons, ih hmode]
  | slot alone _ ih => rw [pieces_slot alone, merge_cons, merge_cons, ih hmode]
  | name => cases hmode
  | @literal _ c rest ts notSlot _ ih =>
    have noQuestion := notMem_cons_takeWhile_isLiteral notSlot rest
    rw [merge_fixed_eq_pieces (List.cons_ne_nil _ _) noQuestion (ih hmode), List.cons_append,
      List.takeWhile_append_dropWhile]

/-- Every text can be scanned if placeholders need no names, and up to merging it is read piece by
piece. -/
theorem exists_ofText_positional (text : String) : ∃ ts, ofText .positional text = .ok ts ∧
    merge ts = merge (pieces text.toList) := by
  obtain ⟨ts, lexes⟩ := exists_lexes_positional text.toList
  exact ⟨ts, ofText_eq_ok_iff.2 lexes, lexes.merge_eq⟩

end Stencil.Token
