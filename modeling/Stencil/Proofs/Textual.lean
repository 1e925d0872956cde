import Mathlib
import Stencil.Proofs.Filling
import Stencil.Proofs.Interpretation
import Stencil.Proofs.Token.Unparse

/-!
# Outputs that are text

A text is cut into tokens between characters, and what is put in place of placeholders is only ever
joined to what stands beside it. So if all arguments encode to text then every fixed token is text
and so is the output. The converse does not hold: octets that are not text may be text together.
Rendering to a string tells the two apart for the output as a whole and fails for no other reason
that rendering to octets does not fail for.
-/

namespace Stencil

variable {σ : Type}

namespace Utf8

/-- The octets are the UTF-8 form of a text. -/
def Valid (bytes : Bytes) : Prop := ∃ text, bytes = encode text

theorem valid_encodeChars (cs : List Char) : Valid (encodeChars cs) :=
  ⟨String.ofList cs, (encode_ofList cs).symm⟩

theorem Valid.append {a b : Bytes} (ha : Valid a) (hb : Valid b) : Valid (a ++ b) := by
  obtain ⟨s, rfl⟩ := ha
  obtain ⟨t, rfl⟩ := hb
  rw [encode, encode, ← encodeChars_append]
  exact valid_encodeChars _

theorem decode?_eq_none_iff {bytes : Bytes} : decode? bytes = none ↔ ¬ Valid bytes := by
  rw [Option.eq_none_iff_forall_ne_some, Valid, not_exists]
  simp only [ne_eq, decode?_eq_some_iff]

end Utf8

open Utf8

namespace Token

/-- Every fixed token of the sequence is text. -/
def Textual (ts : List Token) : Prop := ∀ bytes, fixed bytes ∈ ts → Valid bytes

theorem textual_cons {t : Token} {ts : List Token} :
    Textual (t :: ts) ↔ (∀ bytes, t = fixed bytes → Valid bytes) ∧ Textual ts := by
  unfold Textual
  constructor
  · intro h
    exact ⟨fun bytes ht => h bytes (ht ▸ List.mem_cons_self), fun bytes mem =>
      h bytes (List.mem_cons_of_mem t mem)⟩
  · rintro ⟨first, rest⟩ bytes mem
    rcases List.mem_cons.1 mem with ht | mem
    · exact first bytes ht.symm
    · exact rest bytes mem

/-- A text is cut between characters. -/
theorem Lexes.textual {mode : Mode} {cs : List Char} {ts : List Token} (h : Lexes mode cs ts) :
    Textual ts := by
  intro bytes mem
  rcases h.isRaw.possible _ mem with rfl | ⟨literal, -, -, rfl⟩
  · exact valid_encodeChars ['?']
  · exact valid_encodeChars literal

theorem Textual.merge {ts : List Token} (h : Textual ts) : Textual (merge ts) := by
  induction ts with
  | nil => exact h
  | cons t ts ih =>
    obtain ⟨first, rest⟩ := textual_cons.1 h
    have merged := ih rest
    rw [merge_cons]
    unfold consMerged
    split
    · rename_i a b us hus
      rw [hus, textual_cons] at merged
      refine textual_cons.2 ⟨?_, merged.2⟩
      rintro _ ⟨⟩
      exact (first a rfl).append (merged.1 b rfl)
    · exact textual_cons.2 ⟨first, merged⟩

/-- Putting texts into a sequence of text leaves it a sequence of text. -/
theorem Textual.bound {ts us : List Token} {texts : List Bytes} (h : Textual ts)
    (bound : Bound ts texts us) (valid : ∀ text ∈ texts, Valid text) : Textual us := by
  induction bound with
  | nil => exact h
  | keep t _ ih =>
    obtain ⟨first, rest⟩ := textual_cons.1 h
    exact textual_cons.2 ⟨first, ih rest valid⟩
  | fill _ _ ih =>
    obtain ⟨validFirst, validRest⟩ := List.forall_mem_cons.1 valid
    refine textual_cons.2 ⟨?_, ih (textual_cons.1 h).2 validRest⟩
    rintro _ ⟨⟩
    exact validFirst

/-- A sequence of text that is filled with texts makes a text. -/
theorem Textual.valid_of_filledExactly {ts : List Token} {texts : List Bytes} {output : Bytes}
    (h : Textual ts) (filled : FilledExactly ts texts output)
    (valid : ∀ text ∈ texts, Valid text) : Valid output := by
  induction filled with
  | nil => exact valid_encodeChars []
  | fixed _ ih =>
    obtain ⟨first, rest⟩ := textual_cons.1 h
    exact (first _ rfl).append (ih rest valid)
  | slot _ _ ih =>
    obtain ⟨validFirst, validRest⟩ := List.forall_mem_cons.1 valid
    exact validFirst.append (ih (textual_cons.1 h).2 validRest)

end Token

/-! ## Reading octets as text -/

namespace Eval

/-- The text that an evaluation gives the octets of. -/
def decoded (x : Eval σ Bytes) : Eval σ String := do
  match decode? (← x) with
  | some text => return text
  | none => .fail .invalidUtf8

/-- Reading octets as text fails exactly if there are octets and they are no text. -/
theorem fails_decoded_iff {x : Eval σ Bytes} {state : σ} (other : ¬ x.Fails state .invalidUtf8) :
    x.decoded.Fails state .invalidUtf8 ↔
      ∃ bytes last, x.Yields state bytes last ∧ ¬ Valid bytes := by
  rw [decoded, fails_bind_iff]
  constructor
  · rintro (h | ⟨bytes, last, h, fails⟩)
    · exact absurd h other
    · refine ⟨bytes, last, h, decode?_eq_none_iff.1 ?_⟩
      cases hdecode : decode? bytes with
      | none => rfl
      | some text =>
        rw [hdecode] at fails
        exact absurd fails (by simp)
  · rintro ⟨bytes, last, h, invalid⟩
    refine .inr ⟨bytes, last, h, ?_⟩
    rw [decode?_eq_none_iff.2 invalid]
    exact fails_fail_iff.2 rfl

/-- Reading octets as text loses nothing unless they are no text. -/
theorem run_encode_decoded {x : Eval σ Bytes} {state : σ}
    (isText : ¬ x.decoded.Fails state .invalidUtf8) :
    (encode <$> x.decoded).run state = x.run state := by
  rw [map_eq_pure_bind, decoded, bind_assoc, run_bind]
  rcases hx : x.run state with ⟨e | bytes, calls, last⟩
  · rfl
  · cases hdecode : decode? bytes with
    | none =>
      refine absurd (fails_bind_iff.2 (.inr ⟨bytes, last, ⟨calls, hx⟩, ?_⟩)) isText
      rw [hdecode]
      exact fails_fail_iff.2 rfl
    | some text =>
      obtain rfl := decode?_eq_some_iff.1 hdecode
      simp [hdecode]

end Eval

namespace Positional

theorem renderString_eq_decoded (t : Positional) (args : List (Arg σ)) :
    t.renderString args = (t.render args).decoded := rfl

theorem not_fails_render_invalidUtf8 (t : Positional) (args : List (Arg σ)) (state : σ) :
    ¬ (t.render args).Fails state .invalidUtf8 := by
  intro h
  by_cases arity : t.accepts args.length = true
  · obtain ⟨_, _, _, _, _, _, -, -, -, same⟩ := (fails_render_iff arity).1 h
    cases same
  · rw [render, if_neg arity, Eval.fails_fail_iff] at h
    cases h

/-- The template comes from a text by compiling it and by filling placeholders with arguments that
encode to text, and may be configured on the way. -/
inductive Textual (σ : Type) : Positional → Prop where
  | compile {text : String} {options : List (TemplateOption σ)} {state last : σ} {t : Positional} :
    (Positional.compile text options).Yields state t last → Textual σ t
  | specialize {t u : Positional} {args : List (Arg σ)} {state last : σ} : Textual σ t →
    (∀ texts next, (args.mapM Arg.encode).Yields state texts next → ∀ text ∈ texts, Valid text) →
    (t.specialize args).Yields state u last → Textual σ u
  | options {t u : Positional} {options : List (TemplateOption σ)} {state last : σ} :
    Textual σ t → (t.options options).Yields state u last → Textual σ u
  | configure {t : Positional} (strict validate : Bool) : Textual σ t →
    Textual σ { t with strict, validate }

theorem Textual.reachable {t : Positional} (h : Textual σ t) : Reachable σ t := by
  induction h with
  | compile h => exact .compile h
  | specialize _ _ h ih => exact .specialize ih h
  | options _ h ih => exact .options ih h
  | configure strict validate _ ih => exact .configure strict validate ih

/-- All fixed tokens are text, whatever texts have been put in. -/
theorem Textual.tokens {t : Positional} (h : Textual σ t) : Token.Textual t.tokens := by
  induction h with
  | compile h =>
    obtain ⟨raw, strict, validate, hraw, rfl, -⟩ := compile_yields h
    exact (Token.ofText_eq_ok_iff.1 hraw).textual.merge
  | specialize made valid h ih =>
    obtain ⟨texts, tokens, htexts, bound, rfl⟩ :=
      exists_bound_of_specialize_yields made.reachable.consistent h
    exact (ih.bound bound (valid texts _ htexts)).merge
  | options _ h ih =>
    obtain ⟨strict, validate, rfl⟩ := options_yields h
    exact ih
  | configure strict validate _ ih => exact ih

/-- What is rendered of arguments that encode to text is text. -/
theorem Textual.not_fails_renderString {t : Positional} (h : Textual σ t) {args : List (Arg σ)}
    {state : σ} (valid : ∀ texts last, (t.encodeArgs args).Yields state texts last →
      ∀ text ∈ texts, Valid text) : ¬ (t.renderString args).Fails state .invalidUtf8 := by
  rw [renderString_eq_decoded, Eval.fails_decoded_iff (t.not_fails_render_invalidUtf8 args state)]
  rintro ⟨output, last, hrender, invalid⟩
  obtain ⟨texts, htexts, filled⟩ :=
    exists_filledExactly_of_render_yields h.reachable.consistent hrender
  exact invalid (h.tokens.valid_of_filledExactly filled (valid texts last htexts))

end Positional

namespace Named

theorem renderString_eq_decoded (t : Named σ) (args : Bindings (Arg σ)) :
    t.renderString args = (t.render args).decoded := rfl

theorem not_fails_render_invalidUtf8 (t : Named σ) (args : Bindings (Arg σ)) (state : σ) :
    ¬ (t.render args).Fails state .invalidUtf8 := by
  rw [fails_render_iff]
  rintro ⟨_, _, _, _, _, -, -, fails⟩
  cases fails

/-- The template comes from a text by compiling it and by filling placeholders with arguments that
encode to text, and may be configured on the way. -/
inductive Textual : Named σ → Prop where
  | compile {text : String} {options : List (TemplateOption σ)} {state last : σ} {t : Named σ} :
    (Named.compile text options).Yields state t last → Textual t
  | specialize {t u : Named σ} {args : Bindings (Arg σ)} {state last : σ} : Textual t →
    (∀ texts next, (t.encodeBound args).Yields state texts next → ∀ text ∈ texts, Valid text) →
    (t.specialize args).Yields state u last → Textual u
  | options {t u : Named σ} {options : List (TemplateOption σ)} {state last : σ} :
    Textual t → (t.options options).Yields state u last → Textual u
  | configure {t : Named σ} (defaults : Bindings (Arg σ)) (strict validate : Bool) :
    Textual t → Textual { t with defaults, strict, validate }

theorem Textual.reachable {t : Named σ} (h : t.Textual) : t.Reachable := by
  induction h with
  | compile h => exact .compile h
  | specialize _ _ h ih => exact .specialize ih h
  | options _ h ih => exact .options ih h
  | configure defaults strict validate _ ih => exact .configure defaults strict validate ih

/-- All fixed tokens are text, whatever texts have been put in. -/
theorem Textual.tokens {t : Named σ} (h : t.Textual) : Token.Textual t.tokens := by
  induction h with
  | compile h =>
    obtain ⟨raw, defaults, strict, validate, hraw, rfl, -⟩ := compile_yields h
    exact (Token.ofText_eq_ok_iff.1 hraw).textual.merge
  | specialize _ valid h ih =>
    obtain ⟨texts, tokens, htexts, bound, rfl⟩ := exists_bound_of_specialize_yields h
    exact (ih.bound bound (valid texts _ htexts)).merge
  | options _ h ih =>
    obtain ⟨defaults, strict, validate, rfl⟩ := options_yields h
    exact ih
  | configure defaults strict validate _ ih => exact ih

/-- What is rendered of values that encode to text is text. -/
theorem Textual.not_fails_renderString {t : Named σ} (h : t.Textual) {args : Bindings (Arg σ)}
    {state : σ} (valid : ∀ texts last, (t.encodeArgs args).Yields state texts last →
      ∀ text ∈ texts, Valid text) : ¬ (t.renderString args).Fails state .invalidUtf8 := by
  rw [renderString_eq_decoded, Eval.fails_decoded_iff (t.not_fails_render_invalidUtf8 args state)]
  rintro ⟨output, last, hrender, invalid⟩
  obtain ⟨texts, htexts, filled⟩ :=
    exists_filledExactly_of_render_yields h.reachable.consistent hrender
  exact invalid (h.tokens.valid_of_filledExactly filled (valid texts last htexts))

end Named

/-- In templates that come from a text by filling placeholders with arguments that encode to text,
every fixed token is text; if the arguments and defaults that are rendered encode to text as well, then
rendering to a string does not fail for want of text, and the octets of the string are those that
rendering gives, or else both fail alike. With any arguments, and in any template, rendering to a
string fails for want of text just if rendering gives octets that are no text as a whole, and
otherwise does what rendering does. -/
theorem renderString_textual :
    (∀ t : Positional, Positional.Textual σ t → Token.Textual t.tokens ∧
      ∀ (args : List (Arg σ)) (state : σ),
        (∀ texts last, (t.encodeArgs args).Yields state texts last →
          ∀ text ∈ texts, Valid text) →
        ¬ (t.renderString args).Fails state .invalidUtf8 ∧
          (encode <$> t.renderString args).run state = (t.render args).run state) ∧
    (∀ t : Named σ, t.Textual → Token.Textual t.tokens ∧
      ∀ (args : Bindings (Arg σ)) (state : σ),
        (∀ texts last, (t.encodeArgs args).Yields state texts last →
          ∀ text ∈ texts, Valid text) →
        ¬ (t.renderString args).Fails state .invalidUtf8 ∧
          (encode <$> t.renderString args).run state = (t.render args).run state) ∧
    (∀ (t : Positional) (args : List (Arg σ)) (state : σ),
      ((t.renderString args).Fails state .invalidUtf8 ↔
        ∃ bytes last, (t.render args).Yields state bytes last ∧ ¬ Valid bytes) ∧
      (¬ (t.renderString args).Fails state .invalidUtf8 →
        (encode <$> t.renderString args).run state = (t.render args).run state)) ∧
    ∀ (t : Named σ) (args : Bindings (Arg σ)) (state : σ),
      ((t.renderString args).Fails state .invalidUtf8 ↔
        ∃ bytes last, (t.render args).Yields state bytes last ∧ ¬ Valid bytes) ∧
      (¬ (t.renderString args).Fails state .invalidUtf8 →
        (encode <$> t.renderString args).run state = (t.render args).run state) := by
  refine ⟨?_, ?_, ?_, ?_⟩
  · intro t made
    refine ⟨made.tokens, fun args state valid => ?_⟩
    have isText := made.not_fails_renderString valid
    exact ⟨isText, Eval.run_encode_decoded isText⟩
  · intro t made
    refine ⟨made.tokens, fun args state valid => ?_⟩
    have isText := made.not_fails_renderString valid
    exact ⟨isText, Eval.run_encode_decoded isText⟩
  · intro t args state
    exact ⟨Eval.fails_decoded_iff (t.not_fails_render_invalidUtf8 args state),
      Eval.run_encode_decoded⟩
  · intro t args state
    exact ⟨Eval.fails_decoded_iff (t.not_fails_render_invalidUtf8 args state),
      Eval.run_encode_decoded⟩

/-- The two octets of a character are no text each, but they are text together, and one of them alone
is reported. -/
theorem renderString_textual_halves :
    let t := Positional.ofTokens [.fixed (encode "é"), .positional] true false
    let u : Named Unit := .ofTokens [.named "a", .named "b"] .empty true false
    let halves : Bindings (Arg Unit) := .ofList [("a", .raw [0xC3]), ("b", .raw [0xA9])]
    (Positional.Textual Unit t ∧ Token.Textual t.tokens ∧
      (encode <$> t.renderString [(.ofString "ü" : Arg Unit)]).run () =
        ⟨.ok (encode "é\"ü\""), [], ()⟩) ∧
      (t.renderString [(.raw [0xC3] : Arg Unit)]).Fails () .invalidUtf8 ∧
      (encode <$> u.renderString halves).run () = ⟨.ok (encode "é"), [], ()⟩ := by
  intro t u halves
  have compiledT : (Positional.compile "é?" ([] : List (TemplateOption Unit))).Yields () t () :=
    ⟨[], by cbv⟩
  obtain ⟨ofTexts, -, anyPositional, anyNamed⟩ := renderString_textual (σ := Unit)
  obtain ⟨textual, withTexts⟩ := ofTexts t (.compile compiledT)
  have encoded : (t.encodeArgs [(.ofString "ü" : Arg Unit)]).Yields () [encode "\"ü\""] () :=
    ⟨[], by cbv⟩
  have valid : ∀ texts last, (t.encodeArgs [(.ofString "ü" : Arg Unit)]).Yields () texts last →
      ∀ text ∈ texts, Valid text := by
    intro texts last h
    obtain ⟨rfl, -⟩ := encoded.unique h
    exact List.forall_mem_singleton.2 ⟨_, rfl⟩
  have half : (t.render [(.raw [0xC3] : Arg Unit)]).Yields () [0xC3, 0xA9, 0xC3] () := ⟨[], by cbv⟩
  have notText : ¬ Valid [0xC3, 0xA9, 0xC3] := decode?_eq_none_iff.1 (by cbv)
  have both : (u.render halves).Yields () (encode "é") () := ⟨[], by cbv⟩
  have isText : ¬ (u.renderString halves).Fails () .invalidUtf8 := by
    intro h
    obtain ⟨bytes, last, rendered, invalid⟩ := (anyNamed u halves ()).1.1 h
    obtain ⟨rfl, -⟩ := both.unique rendered
    exact invalid ⟨"é", rfl⟩
  refine ⟨⟨.compile compiledT, textual, ?_⟩, ?_, ?_⟩
  · rw [(withTexts _ () valid).2]
    cbv
  · exact (anyPositional t _ ()).1.2 ⟨_, (), half, notText⟩
  · rw [(anyNamed u halves ()).2 isText]
    cbv

end Stencil
