import Stencil.Proofs.Positional.Fill
import Stencil.Proofs.Token.Pieces

/-!
# Values in the text

Filling placeholders of a compiled text can be done in the text as well, if the question marks of a
value are doubled there. Nothing of the value is then read as a placeholder, and none of its
question marks makes an escape with one of the text.
-/

namespace Stencil.Positional

open Ascii

variable {σ : Type}

/-- A text whose first placeholders are replaced by values, with question marks doubled. What is
left of the text behind the last value stays as it is. -/
def splice : List Char → List (List Char) → List Char
  | cs, [] => cs
  | [], _ => []
  | '?' :: '?' :: rest, values => '?' :: '?' :: splice rest values
  | '?' :: rest, value :: values => Token.doubled value ++ splice rest values
  | c :: rest, values => c :: splice rest values

/-- The text that a text becomes by `splice`. -/
def spliced (text : String) (values : List String) : String :=
  String.ofList (splice text.toList (values.map String.toList))

/-- Values put in the text are read as fixed pieces where the placeholders were: splicing and
reading both take escapes off first, so they find the same question marks to be bare. -/
theorem merge_pieces_splice (cs : List Char) {values : List (List Char)}
    (notEmpty : ∀ value ∈ values, value ≠ []) :
    Token.merge (Token.pieces (splice cs values)) =
      Token.merge (bindTexts (Token.pieces cs) (values.map Utf8.encodeChars)) := by
  fun_induction splice cs values with
  | case1 cs => simp
  | case2 values => simp [Token.pieces, bindTexts]
  | case3 rest values some ih =>
    rw [Token.pieces, Token.pieces, Token.escaped, bindTexts, Token.merge_cons, Token.merge_cons,
      ih notEmpty]
  | case4 rest value values alone ih =>
    obtain ⟨hvalue, hvalues⟩ := List.forall_mem_cons.1 notEmpty
    rw [Token.pieces_doubled, Token.pieces_slot alone, List.map_cons,
      bindTexts_placeholder rfl, Token.merge_fixed_encodeChars hvalue]
    exact Token.merge_append_congr _ (ih hvalues)
  | case5 c rest values some _ notSlot ih =>
    have literal : c ≠ '?' := by
      obtain ⟨value, values, rfl⟩ := List.exists_cons_of_ne_nil some
      exact notSlot value values rfl
    rw [Token.pieces_literal literal, Token.pieces_literal literal, Token.character, bindTexts,
      Token.merge_cons, Token.merge_cons, ih notEmpty]

/-- The template of a text reads as the characters of the text do. -/
theorem yields_compile_pieces (text : String) (state : σ) :
    (compile text []).Yields state
      (ofTokens (Token.merge (Token.pieces text.toList)) true false) state := by
  obtain ⟨raw, hraw, same⟩ := Token.exists_ofText_positional text
  rw [← same]
  exact yields_compile_nil hraw state

/-- Binding arguments that can be encoded puts their texts in. -/
theorem yields_specialize {t : Positional} (consistent : t.Consistent) {args : List (Arg σ)}
    {texts : List Bytes} {state last : σ} (enough : args.length ≤ t.argsCount)
    (encoded : (args.mapM Arg.encode).Yields state texts last) :
    (t.specialize args).Yields state
      (ofTokens (Token.merge (bindTexts t.tokens texts)) t.strict t.validate) last := by
  have room : args.length ≤ Token.argCount t.tokens := consistent.argsCount_eq ▸ enough
  rw [specialize, if_pos enough, bindArgs_eq_bindTexts room]
  exact Eval.yields_bind_pure_iff.2 ⟨_, Eval.yields_bind_pure_iff.2 ⟨texts, encoded, rfl⟩, rfl⟩

theorem expectedArgs_of_specialize_yields {t s : Positional} (consistent : t.Consistent)
    {args : List (Arg σ)} {state last : σ} (h : (t.specialize args).Yields state s last) :
    s.expectedArgs = t.expectedArgs - args.length := by
  obtain ⟨-, tokens, htokens, rfl⟩ := specialize_yields h
  have count := argCount_of_bindArgs_yields htokens
  rwa [← Token.argCount_merge, ← consistent.argsCount_eq] at count

/-- Filling the first placeholders of a compiled text makes the template, with the same tokens,
placeholders and fixed octets, that the text itself makes once the values stand in it with their
question marks doubled. There are as many placeholders less as there are values, whatever question
marks the values have. -/
theorem specialize_eq_compile_spliced {text : String} {t : Positional} {args : List (Arg σ)}
    {values : List String} {before after state last : σ}
    (compiled : (compile text []).Yields before t after) (enough : args.length ≤ t.expectedArgs)
    (encoded : (args.mapM Arg.encode).Yields state (values.map Utf8.encode) last)
    (notEmpty : "" ∉ values) :
    ∃ s, (t.specialize args).Yields state s last ∧
      (∀ now, (compile (spliced text values) ([] : List (TemplateOption σ))).Yields now s now) ∧
      s.expectedArgs = t.expectedArgs - args.length := by
  obtain ⟨rfl, -⟩ := compiled.unique (yields_compile_pieces text before)
  have consistent := consistent_ofTokens (Token.merge (Token.pieces text.toList)) true false
  have specialized := yields_specialize consistent enough encoded
  refine ⟨_, specialized, ?_, expectedArgs_of_specialize_yields consistent specialized⟩
  intro now
  have filled : ∀ value ∈ values.map String.toList, value ≠ [] := by
    simpa using fun value mem => ne_of_mem_of_not_mem mem notEmpty
  have texts : values.map Utf8.encode = (values.map String.toList).map Utf8.encodeChars := by
    rw [List.map_map]
    rfl
  have same := merge_pieces_splice text.toList filled
  rw [← texts, ← merge_bindTexts_merge] at same
  have reread := yields_compile_pieces (spliced text values) now
  rwa [spliced, String.toList_ofList, same] at reread

/-- A question mark behind an escape is put there as an escape of its own, and the comma behind it
is still followed by a placeholder. -/
theorem specialize_eq_compile_spliced_question :
    let t := ofTokens
      [.fixed [openBracket, question], .positional, .fixed [comma], .positional,
        .fixed [closeBracket]] true false
    let args : List (Arg Unit) := [.raw [question]]
    (compile "[???,?]" ([] : List (TemplateOption Unit))).Yields () t () ∧
      args.length ≤ t.expectedArgs ∧
      (args.mapM Arg.encode).Yields () (["?"].map Utf8.encode) () ∧ "" ∉ ["?"] ∧
      ∃ s, (t.specialize args).Yields () s () ∧
        (∀ now, (compile "[????,?]" ([] : List (TemplateOption Unit))).Yields now s now) ∧
        s.expectedArgs = 1 := by
  intro t args
  have compiled : (compile "[???,?]" ([] : List (TemplateOption Unit))).Yields () t () :=
    ⟨[], by cbv⟩
  have encoded : (args.mapM Arg.encode).Yields () (["?"].map Utf8.encode) () := ⟨[], by cbv⟩
  have text : spliced "[???,?]" ["?"] = "[????,?]" := by cbv
  have same := specialize_eq_compile_spliced compiled (by decide) encoded (by decide)
  rw [text] at same
  exact ⟨compiled, by decide, encoded, by decide, same⟩

end Stencil.Positional
