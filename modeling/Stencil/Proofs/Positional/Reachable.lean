import Stencil.Positional
import Stencil.Proofs.Evaluation
import Stencil.Proofs.Token.Merge
import Stencil.Proofs.Token.Scan

/-!
# Positional templates that can arise

A template comes from a text by compiling it, and from another template by filling some of its
placeholders or by configuring it. `Reachable.consistent` is what holds of all of them.
-/

namespace Stencil.Positional

variable {σ : Type}

/-- What a template keeps about its tokens agrees with the tokens. -/
structure Consistent (t : Positional) : Prop where
  argsCount_eq : t.argsCount = Token.argCount t.tokens
  fixedLen_eq : t.fixedLen = Token.fixedLen t.tokens

theorem consistent_ofTokens (tokens : List Token) (strict validate : Bool) :
    (ofTokens tokens strict validate).Consistent :=
  ⟨rfl, rfl⟩

theorem Consistent.configure {t : Positional} (h : t.Consistent) (strict validate : Bool) :
    Consistent { t with strict, validate } :=
  ⟨h.argsCount_eq, h.fixedLen_eq⟩

theorem withSettings_eq (t : Positional) (s : Settings σ) :
    ∃ strict validate, t.withSettings s = { t with strict, validate } :=
  ⟨_, _, rfl⟩

/-- A template accepts no more arguments than it has placeholders, and if it is strict no fewer. -/
theorem accepts_iff {t : Positional} {n : Nat} :
    t.accepts n = true ↔ n ≤ t.argsCount ∧ (t.strict = true → n = t.argsCount) := by
  unfold accepts
  cases t.strict
  · simp
  · simp
    omega

theorem bindArgs_nil (ts : List Token) : bindArgs (σ := σ) ts [] = pure ts := by
  induction ts with
  | nil => rfl
  | cons t ts ih => cases t <;> simp [bindArgs, ih]

/-- Every argument is put in one placeholder, as long as there are placeholders left. -/
theorem argCount_of_bindArgs_yields {ts us : List Token} {args : List (Arg σ)} {state last : σ}
    (h : (bindArgs ts args).Yields state us last) :
    Token.argCount us = Token.argCount ts - args.length := by
  fun_induction bindArgs ts args generalizing state us with
  | case1 args =>
    obtain ⟨rfl, -⟩ := Eval.yields_pure_iff.1 h
    simp
  | case2 bytes ts args ih =>
    obtain ⟨rest, hrest, rfl⟩ := Eval.yields_bind_pure_iff.1 h
    simpa [Token.isFixed] using ih hrest
  | case3 t ts notFixed ih =>
    rw [bindArgs_nil, pure_bind] at h
    obtain ⟨rfl, -⟩ := Eval.yields_pure_iff.1 h
    rfl
  | case4 t ts arg args notFixed ih =>
    rw [Eval.yields_bind_iff] at h
    obtain ⟨bytes, mid, -, h⟩ := h
    obtain ⟨rest, hrest, rfl⟩ := Eval.yields_bind_pure_iff.1 h
    have count := ih hrest
    rw [Token.argCount_placeholder (Token.isFixed_eq_false notFixed), List.length_cons,
      Nat.add_sub_add_right]
    simpa [Token.isFixed] using count

theorem filled_of_bindArgs_yields {ts us : List Token} {args : List (Arg σ)} {state last : σ}
    (h : (bindArgs ts args).Yields state us last) : List.Forall₂ Token.FilledBy ts us := by
  fun_induction bindArgs ts args generalizing state us with
  | case1 args =>
    obtain ⟨rfl, -⟩ := Eval.yields_pure_iff.1 h
    exact .nil
  | case2 bytes ts args ih =>
    obtain ⟨rest, hrest, rfl⟩ := Eval.yields_bind_pure_iff.1 h
    exact .cons (.inl rfl) (ih hrest)
  | case3 t ts notFixed ih =>
    obtain ⟨rest, hrest, rfl⟩ := Eval.yields_bind_pure_iff.1 h
    exact .cons (.inl rfl) (ih hrest)
  | case4 t ts arg args notFixed ih =>
    rw [Eval.yields_bind_iff] at h
    obtain ⟨bytes, mid, -, h⟩ := h
    obtain ⟨rest, hrest, rfl⟩ := Eval.yields_bind_pure_iff.1 h
    exact .cons (.inr rfl) (ih hrest)

/-- A compiled template has the merged tokens of its text, and it has passed the check if it asks
for one. -/
theorem compile_yields {text : String} {options : List (TemplateOption σ)} {state last : σ}
    {t : Positional} (h : (compile text options).Yields state t last) :
    ∃ raw strict validate, Token.ofText .positional text = .ok raw ∧
      t = ofTokens (Token.merge raw) strict validate ∧
      (t.validate = true → ∃ mid, (t.checkJson (σ := σ)).Yields mid () last) := by
  unfold compile at h
  rw [Eval.yields_bind_iff] at h
  obtain ⟨raw, _, hraw, h⟩ := h
  rw [Eval.yields_bind_iff] at h
  obtain ⟨⟨_, settings⟩, mid, -, h⟩ := h
  rw [Eval.yields_ofExcept_iff] at hraw
  obtain ⟨strict, validate, hsettings⟩ :=
    withSettings_eq (ofTokens (Token.merge raw) true false) settings
  simp only [hsettings] at h
  split at h
  · rw [Eval.yields_bind_iff] at h
    obtain ⟨_, _, hcheck, h⟩ := h
    obtain ⟨rfl, rfl⟩ := Eval.yields_pure_iff.1 h
    exact ⟨raw, strict, validate, hraw.1, rfl, fun _ => ⟨mid, hcheck⟩⟩
  · rename_i unchecked
    obtain ⟨rfl, rfl⟩ := Eval.yields_pure_iff.1 h
    exact ⟨raw, strict, validate, hraw.1, rfl, fun checked => absurd checked unchecked⟩

/-- Without options every text that makes tokens compiles. -/
theorem yields_compile_nil {text : String} {raw : List Token}
    (h : Token.ofText .positional text = .ok raw) (state : σ) :
    (compile text []).Yields state (ofTokens (Token.merge raw) true false) state := by
  rw [compile, h]
  exact ⟨[], rfl⟩

/-- Every text is a template if placeholders need no names. -/
theorem exists_compile_yields (text : String) (state : σ) :
    ∃ t, (compile text ([] : List (TemplateOption σ))).Yields state t state := by
  obtain ⟨raw, lexes⟩ := Token.exists_lexes_positional text.toList
  exact ⟨_, yields_compile_nil (Token.ofText_eq_ok_iff.2 lexes) state⟩

/-- Binding makes a template of the tokens that are left, merged, and keeps the flags. -/
theorem specialize_yields {t u : Positional} {args : List (Arg σ)} {state last : σ}
    (h : (t.specialize args).Yields state u last) :
    args.length ≤ t.argsCount ∧ ∃ tokens, (bindArgs t.tokens args).Yields state tokens last ∧
      u = ofTokens (Token.merge tokens) t.strict t.validate := by
  unfold specialize at h
  split at h
  · rename_i enough
    obtain ⟨tokens, htokens, rfl⟩ := Eval.yields_bind_pure_iff.1 h
    exact ⟨enough, tokens, htokens, rfl⟩
  · exact absurd h (by simp)

theorem options_yields {t u : Positional} {options : List (TemplateOption σ)} {state last : σ}
    (h : (t.options options).Yields state u last) :
    ∃ strict validate, u = { t with strict, validate } := by
  unfold Positional.options at h
  obtain ⟨⟨_, settings⟩, -, rfl⟩ := Eval.yields_bind_pure_iff.1 h
  exact withSettings_eq t settings

/-- The template comes from a text by the operations on templates, the arguments and options of
which share provider states of type `σ`. Copies are the template itself, and rendering makes no
template. -/
inductive Reachable (σ : Type) : Positional → Prop where
  | compile {text : String} {options : List (TemplateOption σ)} {state last : σ} {t : Positional} :
    (Positional.compile text options).Yields state t last → Reachable σ t
  | specialize {t u : Positional} {args : List (Arg σ)} {state last : σ} : Reachable σ t →
    (t.specialize args).Yields state u last → Reachable σ u
  | options {t u : Positional} {options : List (TemplateOption σ)} {state last : σ} :
    Reachable σ t → (t.options options).Yields state u last → Reachable σ u
  | configure {t : Positional} (strict validate : Bool) : Reachable σ t →
    Reachable σ { t with strict, validate }

/-- Whatever was done to make a template, what it keeps about its tokens is right. -/
theorem Reachable.consistent {t : Positional} (h : Reachable σ t) : t.Consistent := by
  induction h with
  | compile h =>
    obtain ⟨raw, strict, validate, -, rfl, -⟩ := compile_yields h
    exact consistent_ofTokens _ _ _
  | specialize _ h ih =>
    obtain ⟨-, tokens, -, rfl⟩ := specialize_yields h
    exact consistent_ofTokens _ _ _
  | options _ h ih =>
    obtain ⟨strict, validate, rfl⟩ := options_yields h
    exact ih.configure strict validate
  | configure strict validate _ ih => exact ih.configure strict validate

end Stencil.Positional
