import Mathlib
import Stencil.Proofs.Token.Scan

/-!
# Writing tokens back

A sequence of tokens can be written as a text again: an escape as two question marks, all other
fixed octets as they are, a placeholder as a question mark with its name. Nothing stands between
two tokens, so which of them may be neighbours decides whether the text is read as the same tokens.
`mayPrecede_iff` says of every kind of token what its neighbours tell about the text behind it.
-/

namespace Stencil.Token

open Ascii

/-- A token as it is written. -/
def written : Token → Bytes
  | fixed bytes => if bytes = [question] then [question, question] else bytes
  | positional => [question]
  | named name => question :: Utf8.encode name

/-- The tokens of a sequence as they are written, one directly behind the other. -/
def unparse (ts : List Token) : Bytes := ts.flatMap written

/-- Whether octets are a literal: text of at least one character and without question marks. -/
def Literal (bytes : Bytes) : Prop :=
  ∃ cs : List Char, cs ≠ [] ∧ '?' ∉ cs ∧ bytes = Utf8.encodeChars cs

/-- Whether a token can be read from a text at all: an escape, a literal, or a placeholder of the
right kind, the name of which is not empty and has name characters only. -/
def Possible (mode : Mode) : Token → Prop
  | fixed bytes => bytes = [question] ∨ Literal bytes
  | positional => mode = .positional
  | named name => mode = .named ∧ name.toList ≠ [] ∧ ∀ c ∈ name.toList, isNameChar c = true

/-- Whether the second token may stand directly behind the first. Of two fixed tokens one has to be
an escape. A bare placeholder is followed by nothing that is written with a question mark, and a
named one by no literal that starts with a name character. -/
def MayPrecede : Token → Token → Prop
  | fixed a, fixed b => a = [question] ∨ b = [question]
  | positional, fixed b => b ≠ [question]
  | positional, _ => False
  | named _, fixed b => ∀ c cs, b = Utf8.encodeChars (c :: cs) → isNameChar c = false
  | _, _ => True

/-- Whether a sequence is one of those that texts are read as. -/
structure IsRaw (mode : Mode) (ts : List Token) : Prop where
  possible : ∀ t ∈ ts, t.Possible mode
  neighbours : ts.IsChain MayPrecede

/-- Whether a token ends where it is followed by the given text: a literal and a name would go on
with further characters of their kind, and a bare placeholder would be an escape with another
question mark. -/
def Ends : Token → List Char → Prop
  | fixed bytes, rest => bytes = [question] ∨ ∀ c ∈ rest.head?, c = '?'
  | positional, rest => ∀ c ∈ rest.head?, c ≠ '?'
  | named _, rest => ∀ c ∈ rest.head?, isNameChar c = false

@[simp] theorem encodeChars_question : Utf8.encodeChars ['?'] = [question] := rfl

theorem encodeChars_eq_question_iff {c : Char} {cs : List Char} :
    Utf8.encodeChars (c :: cs) = [question] ↔ c = '?' ∧ cs = [] := by
  rw [← encodeChars_question, Utf8.encodeChars_inj, List.cons.injEq]

theorem isLiteral_iff {c : Char} : isLiteral c = true ↔ c ≠ '?' := bne_iff_ne

theorem ne_question_of_isNameChar {c : Char} (h : isNameChar c = true) : c ≠ '?' := by
  rintro rfl
  cases h

theorem notMem_takeWhile_isNameChar (cs : List Char) : '?' ∉ cs.takeWhile isNameChar := fun mem =>
  ne_question_of_isNameChar (List.mem_takeWhile_imp mem) rfl

theorem notMem_takeWhile_isLiteral (cs : List Char) : '?' ∉ cs.takeWhile isLiteral := fun mem =>
  isLiteral_iff.1 (List.mem_takeWhile_imp mem) rfl

theorem notMem_cons_takeWhile_isLiteral {c : Char} (literal : c ≠ '?') (cs : List Char) :
    '?' ∉ c :: cs.takeWhile isLiteral :=
  List.not_mem_cons_of_ne_of_not_mem (Ne.symm literal) (notMem_takeWhile_isLiteral cs)

/-- What the longest beginning of characters of a kind leaves does not start with one of them. -/
theorem eq_false_of_mem_head?_dropWhile {p : Char → Bool} {cs : List Char} {c : Char}
    (h : c ∈ (cs.dropWhile p).head?) : p c = false := by
  have stops := List.head?_dropWhile_not p cs
  rw [Option.mem_def.1 h] at stops
  exact stops

/-- Characters of a kind are the longest beginning of that kind if none follows them. -/
theorem takeWhile_append_of_head? {p : Char → Bool} {cs rest : List Char}
    (all : ∀ c ∈ cs, p c = true) (stops : ∀ c ∈ rest.head?, p c = false) :
    (cs ++ rest).takeWhile p = cs ∧ (cs ++ rest).dropWhile p = rest := by
  rw [List.takeWhile_append_of_pos all, List.dropWhile_append_of_pos all]
  cases rest with
  | nil => simp
  | cons c rest =>
    have notLast : ¬ p c = true := by simp [stops c rfl]
    simp [List.takeWhile_cons_of_neg notLast, List.dropWhile_cons_of_neg notLast]

/-! ## From texts to tokens -/

theorem written_literal {c : Char} (literal : c ≠ '?') (cs : List Char) :
    written (fixed (Utf8.encodeChars (c :: cs))) = Utf8.encodeChars (c :: cs) := by
  have notEscape : Utf8.encodeChars (c :: cs) ≠ [question] := fun h =>
    literal (encodeChars_eq_question_iff.1 h).1
  rw [written, if_neg notEscape]

/-- Writing the tokens of a text gives the text back. -/
theorem Lexes.unparse_eq {mode : Mode} {cs : List Char} {ts : List Token} (h : Lexes mode cs ts) :
    unparse ts = Utf8.encodeChars cs := by
  induction h with
  | nil => rfl
  | escape _ ih =>
    rw [unparse, List.flatMap_cons, ← unparse, ih]
    rfl
  | slot _ _ ih =>
    rw [unparse, List.flatMap_cons, ← unparse, ih]
    rfl
  | @name rest ts _ _ _ ih =>
    have split : rest.takeWhile isNameChar ++ rest.dropWhile isNameChar = rest :=
      List.takeWhile_append_dropWhile
    rw [unparse, List.flatMap_cons, ← unparse, ih, written, Utf8.encode_ofList, List.cons_append,
      ← Utf8.encodeChars_append, split]
    rfl
  | @literal _ c rest ts notSlot _ ih =>
    have split : rest.takeWhile isLiteral ++ rest.dropWhile isLiteral = rest :=
      List.takeWhile_append_dropWhile
    rw [unparse, List.flatMap_cons, ← unparse, ih, written_literal notSlot,
      ← Utf8.encodeChars_append, List.cons_append, split]

/-- Whether a token may precede what a text is read as can be told from the text. -/
theorem Lexes.mayPrecede_iff {mode : Mode} {rest : List Char} {ts : List Token}
    (h : Lexes mode rest ts) (t : Token) : (∀ u ∈ ts.head?, MayPrecede t u) ↔ t.Ends rest := by
  have notName : isNameChar '?' = false := rfl
  cases h with
  | nil => cases t <;> simp [Ends]
  | escape =>
    cases t with
    | fixed bytes => simp [escaped, MayPrecede, Ends]
    | positional => simp [escaped, MayPrecede, Ends]
    | named name =>
      have starts : ∀ c cs, [question] = Utf8.encodeChars (c :: cs) → isNameChar c = false := by
        intro c cs same
        rw [(encodeChars_eq_question_iff.1 same.symm).1]
        exact notName
      simpa [escaped, MayPrecede, Ends, notName] using starts
  | slot => cases t <;> simp [MayPrecede, Ends, notName]
  | name => cases t <;> simp [MayPrecede, Ends, notName]
  | @literal _ c rest ts notSlot =>
    have notEscape : ∀ cs, Utf8.encodeChars (c :: cs) ≠ [question] := fun cs same =>
      notSlot (encodeChars_eq_question_iff.1 same).1
    cases t with
    | fixed bytes => simp [MayPrecede, Ends, notEscape, notSlot, -Utf8.encodeChars_cons]
    | positional => simp [MayPrecede, Ends, notEscape, notSlot, -Utf8.encodeChars_cons]
    | named name =>
      simp only [MayPrecede, Ends, List.head?_cons, Option.mem_some_iff, forall_eq',
        Utf8.encodeChars_inj, List.cons.injEq]
      constructor
      · intro starts
        exact starts c _ ⟨rfl, rfl⟩
      · rintro starts _ _ ⟨rfl, -⟩
        exact starts

/-- A token that ends where the rest of a text begins goes in front of what the rest is read as. -/
theorem IsRaw.cons {mode : Mode} {rest : List Char} {t : Token} {ts : List Token}
    (raw : IsRaw mode ts) (h : Lexes mode rest ts) (possible : t.Possible mode)
    (ends : t.Ends rest) : IsRaw mode (t :: ts) where
  possible := List.forall_mem_cons.2 ⟨possible, raw.possible⟩
  neighbours := List.isChain_cons.2 ⟨(h.mayPrecede_iff t).2 ends, raw.neighbours⟩

/-- The tokens of a text are possible ones, with neighbours that they may have. -/
theorem Lexes.isRaw {mode : Mode} {cs : List Char} {ts : List Token} (h : Lexes mode cs ts) :
    IsRaw mode ts := by
  induction h with
  | nil => exact ⟨by simp, .nil⟩
  | escape hrest ih => exact ih.cons hrest (.inl rfl) (.inl rfl)
  | @slot rest ts alone hrest ih =>
    refine ih.cons hrest rfl ?_
    rintro c hc rfl
    obtain ⟨more, hmore⟩ := List.head?_eq_some_iff.1 hc
    exact alone more hmore
  | @name rest ts _ hasName hrest ih =>
    have allName : ∀ c ∈ rest.takeWhile isNameChar, isNameChar c = true := fun c mem =>
      List.mem_takeWhile_imp mem
    refine ih.cons hrest ⟨rfl, ?_, ?_⟩ ?_
    · rwa [String.toList_ofList]
    · rwa [String.toList_ofList]
    · intro c hc
      exact eq_false_of_mem_head?_dropWhile hc
  | @literal mode c rest ts notSlot hrest ih =>
    have noQuestion := notMem_cons_takeWhile_isLiteral notSlot rest
    refine ih.cons hrest (.inr ⟨_, List.cons_ne_nil _ _, noQuestion, rfl⟩) (.inr ?_)
    intro d hd
    have stops := eq_false_of_mem_head?_dropWhile hd
    simpa [isLiteral] using stops

theorem IsRaw.named_notMem {ts : List Token} (raw : IsRaw .positional ts) (name : String) :
    named name ∉ ts := by
  intro mem
  obtain ⟨named, -, -⟩ := raw.possible _ mem
  cases named

/-! ## From tokens to texts -/

/-- A token that ends where a text begins can be written in front of it. -/
theorem Lexes.exists_cons {mode : Mode} {rest : List Char} {t : Token} {ts : List Token}
    (h : Lexes mode rest ts) (possible : t.Possible mode) (ends : t.Ends rest) :
    ∃ cs, Lexes mode cs (t :: ts) := by
  cases t with
  | fixed bytes =>
    rcases possible with rfl | ⟨cs, notEmpty, noQuestion, rfl⟩
    · exact ⟨_, .escape h⟩
    · obtain ⟨c, cs, rfl⟩ := List.exists_cons_of_ne_nil notEmpty
      rw [List.mem_cons, not_or] at noQuestion
      have notEscape : Utf8.encodeChars (c :: cs) ≠ [question] := fun same =>
        noQuestion.1 (encodeChars_eq_question_iff.1 same).1.symm
      have all : ∀ d ∈ cs, isLiteral d = true := fun d mem =>
        isLiteral_iff.2 (fun same => noQuestion.2 (same ▸ mem))
      have stops : ∀ d ∈ rest.head?, isLiteral d = false := by
        intro d hd
        rw [ends.resolve_left notEscape d hd]
        rfl
      obtain ⟨taken, left⟩ := takeWhile_append_of_head? all stops
      have hrest : Lexes mode ((cs ++ rest).dropWhile isLiteral) ts := by rwa [left]
      have step := Lexes.literal (Ne.symm noQuestion.1) hrest
      rw [taken] at step
      exact ⟨_, step⟩
  | positional =>
    obtain rfl : mode = .positional := possible
    refine ⟨_, .slot ?_ h⟩
    rintro more rfl
    exact ends '?' rfl rfl
  | named name =>
    obtain ⟨rfl, notEmpty, all⟩ := possible
    obtain ⟨taken, left⟩ := takeWhile_append_of_head? all ends
    have alone : ∀ more, name.toList ++ rest ≠ '?' :: more := by
      intro more same
      obtain ⟨c, cs, hname⟩ := List.exists_cons_of_ne_nil notEmpty
      rw [hname, List.cons_append] at same
      have isName : isNameChar c = true := all c (by simp [hname])
      exact ne_question_of_isNameChar isName (List.cons.inj same).1
    have hasName : (name.toList ++ rest).takeWhile isNameChar ≠ [] := by rwa [taken]
    have hrest : Lexes .named ((name.toList ++ rest).dropWhile isNameChar) ts := by rwa [left]
    have step := Lexes.name alone hasName hrest
    rw [taken, String.ofList_toList] at step
    exact ⟨_, step⟩

/-- Possible tokens with neighbours that they may have are the tokens of some text. -/
theorem IsRaw.exists_lexes {mode : Mode} {ts : List Token} (raw : IsRaw mode ts) :
    ∃ cs, Lexes mode cs ts := by
  induction ts with
  | nil => exact ⟨[], .nil⟩
  | cons t ts ih =>
    obtain ⟨possible, possibleRest⟩ := List.forall_mem_cons.1 raw.possible
    obtain ⟨precedes, neighbours⟩ := List.isChain_cons.1 raw.neighbours
    obtain ⟨rest, hrest⟩ := ih ⟨possibleRest, neighbours⟩
    exact hrest.exists_cons possible ((hrest.mayPrecede_iff t).1 precedes)

/-- What a text is read as is written as that text again. The sequences that texts are read as are
those whose tokens are possible and may be neighbours, and each of them is read from the text that
it is written as. -/
theorem ofText_unparse (mode : Mode) (ts : List Token) :
    (∀ text, ofText mode text = .ok ts → unparse ts = Utf8.encode text) ∧
    ((∃ text, ofText mode text = .ok ts) ↔ IsRaw mode ts) ∧
    (IsRaw mode ts →
      ∃ text, Utf8.decode? (unparse ts) = some text ∧ ofText mode text = .ok ts) := by
  have lossless : ∀ text, ofText mode text = .ok ts → unparse ts = Utf8.encode text := by
    intro text h
    exact (ofText_eq_ok_iff.1 h).unparse_eq
  have image : (∃ text, ofText mode text = .ok ts) ↔ IsRaw mode ts := by
    constructor
    · rintro ⟨text, h⟩
      exact (ofText_eq_ok_iff.1 h).isRaw
    · intro raw
      obtain ⟨cs, lexes⟩ := raw.exists_lexes
      refine ⟨String.ofList cs, ofText_eq_ok_iff.2 ?_⟩
      rwa [String.toList_ofList]
  refine ⟨lossless, image, ?_⟩
  intro raw
  obtain ⟨text, h⟩ := image.2 raw
  exact ⟨text, Utf8.decode?_eq_some_iff.2 (lossless text h), h⟩

/-- In a run of three question marks the first two are an escape, and a name takes all name
characters behind the third. -/
theorem ofText_unparse_questions :
    let ts := [.fixed [0xC3, 0xA9], escaped, .named "a", .fixed [space]]
    ofText .named "é???a " = .ok ts ∧ unparse ts = Utf8.encode "é???a " ∧ IsRaw .named ts ∧
      ∃ text, Utf8.decode? (unparse ts) = some text ∧ ofText .named text = .ok ts := by
  intro ts
  have hts : ofText .named "é???a " = .ok ts := by cbv
  obtain ⟨lossless, image, back⟩ := ofText_unparse .named ts
  have raw : IsRaw .named ts := image.1 ⟨_, hts⟩
  exact ⟨hts, lossless _ hts, raw, back raw⟩

end Stencil.Token
