import Stencil.Named
import Stencil.Proofs.Bindings
import Stencil.Proofs.Evaluation
import Stencil.Proofs.Token.Merge
import Stencil.Proofs.Token.Scan

/-!
# Named templates that can arise

A template comes from a text by compiling it, and from another template by filling some of its
placeholders or by configuring it. `Reachable.consistent` is what holds of all of them.
-/

namespace Stencil.Named

variable {σ : Type}

/-- What a template keeps about its tokens agrees with the tokens, whose placeholders all have
names. -/
structure Consistent (t : Named σ) : Prop where
  names_eq : t.names = Token.names t.tokens
  fixedLen_eq : t.fixedLen = Token.fixedLen t.tokens
  positional_notMem : .positional ∉ t.tokens

theorem Consistent.mem_names {t : Named σ} (h : t.Consistent) {name : String} :
    name ∈ t.names ↔ name ∈ Token.occurrences t.tokens := by
  rw [h.names_eq, Token.mem_names]

theorem consistent_ofTokens {tokens : List Token} (named : .positional ∉ tokens)
    (defaults : Bindings (Arg σ)) (strict validate : Bool) :
    (ofTokens tokens defaults strict validate).Consistent :=
  ⟨rfl, rfl, named⟩

theorem Consistent.configure {t : Named σ} (h : t.Consistent) (defaults : Bindings (Arg σ))
    (strict validate : Bool) : Consistent { t with defaults, strict, validate } :=
  ⟨h.names_eq, h.fixedLen_eq, h.positional_notMem⟩

theorem withSettings_eq (t : Named σ) (s : Settings σ) :
    ∃ defaults strict validate, t.withSettings s = { t with defaults, strict, validate } :=
  ⟨_, _, _, rfl⟩

theorem positional_notMem_merge {tokens : List Token} (named : .positional ∉ tokens) :
    .positional ∉ Token.merge tokens :=
  fun mem => named ((Token.mem_merge_iff rfl tokens).1 mem)

/-- A compiled template has the merged tokens of its text, and it has passed the check if it asks
for one. -/
theorem compile_yields {text : String} {options : List (TemplateOption σ)} {state last : σ}
    {t : Named σ} (h : (compile text options).Yields state t last) :
    ∃ raw defaults strict validate, Token.ofText .named text = .ok raw ∧
      t = ofTokens (Token.merge raw) defaults strict validate ∧
      (t.validate = true → ∃ mid, t.checkJson.Yields mid () last) := by
  unfold compile at h
  rw [Eval.yields_bind_iff] at h
  obtain ⟨raw, _, hraw, h⟩ := h
  rw [Eval.yields_bind_iff] at h
  obtain ⟨⟨_, settings⟩, mid, -, h⟩ := h
  rw [Eval.yields_ofExcept_iff] at hraw
  obtain ⟨defaults, strict, validate, hsettings⟩ :=
    withSettings_eq (ofTokens (Token.merge raw) .empty true false) settings
  simp only [hsettings] at h
  split at h
  · rw [Eval.yields_bind_iff] at h
    obtain ⟨_, _, hcheck, h⟩ := h
    obtain ⟨rfl, rfl⟩ := Eval.yields_pure_iff.1 h
    exact ⟨raw, defaults, strict, validate, hraw.1, rfl, fun _ => ⟨mid, hcheck⟩⟩
  · rename_i unchecked
    obtain ⟨rfl, rfl⟩ := Eval.yields_pure_iff.1 h
    exact ⟨raw, defaults, strict, validate, hraw.1, rfl, fun checked => absurd checked unchecked⟩

/-- Without options every text that makes tokens compiles. -/
theorem yields_compile_nil {text : String} {raw : List Token}
    (h : Token.ofText .named text = .ok raw) (state : σ) :
    (compile text []).Yields state (ofTokens (Token.merge raw) .empty true false) state := by
  rw [compile, h]
  exact ⟨[], rfl⟩

/-- The defaults that a template keeps when arguments are bound: those of the names left. -/
def remainingDefaults (t : Named σ) (args : Bindings (Arg σ)) : Bindings (Arg σ) :=
  t.defaults.filterNames fun name => (Token.names t.tokens).contains name && !args.contains name

/-- Binding makes a template of the tokens that are left, merged, and keeps the flags. -/
theorem specialize_yields {t u : Named σ} {args : Bindings (Arg σ)} {state last : σ}
    (h : (t.specialize args).Yields state u last) :
    ∃ tokens, (bindArgs args t.tokens).Yields state tokens last ∧
      u = ofTokens (Token.merge tokens) (t.remainingDefaults args) t.strict t.validate := by
  unfold specialize at h
  obtain ⟨tokens, htokens, rfl⟩ := Eval.yields_bind_pure_iff.1 h
  exact ⟨tokens, htokens, rfl⟩

theorem options_yields {t u : Named σ} {options : List (TemplateOption σ)} {state last : σ}
    (h : (t.options options).Yields state u last) :
    ∃ defaults strict validate, u = { t with defaults, strict, validate } := by
  unfold Named.options at h
  obtain ⟨⟨_, settings⟩, -, rfl⟩ := Eval.yields_bind_pure_iff.1 h
  exact withSettings_eq t settings

/-- How binding goes through a sequence: it keeps a token that is not a placeholder of a bound
name, and otherwise puts in the encoding from the state that it has reached. -/
inductive Binds (args : Bindings (Arg σ)) : σ → List Token → List Token → σ → Prop where
  | nil {state : σ} : Binds args state [] [] state
  | keep {t : Token} {ts us : List Token} {state last : σ} :
    (∀ name, t = .named name → args.get? name = none) → Binds args state ts us last →
    Binds args state (t :: ts) (t :: us) last
  | fill {name : String} {value : Arg σ} {bytes : Bytes} {ts us : List Token} {state mid last : σ} :
    args.get? name = some value → (value.encodeAs name).Yields state bytes mid →
    Binds args mid ts us last → Binds args state (.named name :: ts) (.fixed bytes :: us) last

/-- Binding that yields a sequence goes through it token by token. -/
theorem binds_of_bindArgs_yields {args : Bindings (Arg σ)} {ts us : List Token} {state last : σ}
    (h : (bindArgs args ts).Yields state us last) : Binds args state ts us last := by
  fun_induction bindArgs args ts generalizing state us with
  | case1 =>
    obtain ⟨rfl, rfl⟩ := Eval.yields_pure_iff.1 h
    exact .nil
  | case2 name ts value bound ih =>
    rw [Eval.yields_bind_iff] at h
    obtain ⟨bytes, mid, hvalue, h⟩ := h
    obtain ⟨rest, hrest, rfl⟩ := Eval.yields_bind_pure_iff.1 h
    exact .fill bound hvalue (ih hrest)
  | case3 name ts unbound ih =>
    obtain ⟨rest, hrest, rfl⟩ := Eval.yields_bind_pure_iff.1 h
    refine .keep ?_ (ih hrest)
    rintro _ ⟨⟩
    exact unbound
  | case4 t ts notNamed ih =>
    obtain ⟨rest, hrest, rfl⟩ := Eval.yields_bind_pure_iff.1 h
    refine .keep ?_ (ih hrest)
    intro name isNamed
    exact absurd isNamed (notNamed name)

/-- Binding fails only where the argument of a name that occurs has no encoding. -/
theorem fails_of_bindArgs_fails {args : Bindings (Arg σ)} {ts : List Token} {state : σ} {e : Error}
    (h : (bindArgs args ts).Fails state e) :
    ∃ name ∈ Token.occurrences ts, ∃ value mid,
      args.get? name = some value ∧ (value.encodeAs name).Fails mid e := by
  fun_induction bindArgs args ts generalizing state with
  | case1 => exact absurd h (by simp)
  | case2 name ts value bound ih =>
    rcases Eval.fails_bind_iff.1 h with h | ⟨bytes, mid, -, h⟩
    · exact ⟨name, List.mem_cons_self, value, state, bound, h⟩
    · obtain ⟨other, mem, found⟩ := ih (Eval.fails_bind_pure_iff.1 h)
      exact ⟨other, List.mem_cons_of_mem name mem, found⟩
  | case3 name ts unbound ih =>
    obtain ⟨other, mem, found⟩ := ih (Eval.fails_bind_pure_iff.1 h)
    exact ⟨other, List.mem_cons_of_mem name mem, found⟩
  | case4 t ts notNamed ih =>
    obtain ⟨other, mem, found⟩ := ih (Eval.fails_bind_pure_iff.1 h)
    refine ⟨other, ?_, found⟩
    cases t with
    | named name => exact absurd rfl (notNamed name)
    | _ => exact mem

theorem Binds.filledBy {args : Bindings (Arg σ)} {ts us : List Token} {state last : σ}
    (h : Binds args state ts us last) : List.Forall₂ Token.FilledBy ts us := by
  induction h with
  | nil => exact .nil
  | keep _ _ ih => exact .cons (.inl rfl) ih
  | fill _ _ _ ih => exact .cons (.inr rfl) ih

theorem Binds.positional_notMem {args : Bindings (Arg σ)} {ts us : List Token} {state last : σ}
    (h : Binds args state ts us last) (named : .positional ∉ ts) : .positional ∉ us :=
  fun mem => named (Token.mem_of_filled rfl h.filledBy mem)

/-- The encodings of the bound arguments at the placeholders of a sequence, in order. -/
def encodings (args : Bindings (Arg σ)) (ts : List Token) : List (Eval σ Bytes) :=
  (Token.occurrences ts).filterMap fun name => (args.get? name).map fun value => value.encodeAs name

theorem encodings_cons_bound {args : Bindings (Arg σ)} {name : String} {value : Arg σ}
    (bound : args.get? name = some value) (ts : List Token) :
    encodings args (.named name :: ts) = value.encodeAs name :: encodings args ts := by
  simp [encodings, bound]

theorem encodings_cons_unbound {args : Bindings (Arg σ)} {t : Token}
    (unbound : ∀ name, t = .named name → args.get? name = none) (ts : List Token) :
    encodings args (t :: ts) = encodings args ts := by
  cases t with
  | named name => simp [encodings, unbound name rfl]
  | _ => rfl

/-! ## Runs -/

/-- The template comes from a text by the operations on templates. Copies are the template itself,
and rendering makes no template. -/
inductive Reachable : Named σ → Prop where
  | compile {text : String} {options : List (TemplateOption σ)} {state last : σ} {t : Named σ} :
    (Named.compile text options).Yields state t last → Reachable t
  | specialize {t u : Named σ} {args : Bindings (Arg σ)} {state last : σ} : Reachable t →
    (t.specialize args).Yields state u last → Reachable u
  | options {t u : Named σ} {options : List (TemplateOption σ)} {state last : σ} :
    Reachable t → (t.options options).Yields state u last → Reachable u
  | configure {t : Named σ} (defaults : Bindings (Arg σ)) (strict validate : Bool) :
    Reachable t → Reachable { t with defaults, strict, validate }

/-- Whatever was done to make a template, what it keeps about its tokens is right. -/
theorem Reachable.consistent {t : Named σ} (h : t.Reachable) : t.Consistent := by
  induction h with
  | compile h =>
    obtain ⟨raw, defaults, strict, validate, hraw, rfl, -⟩ := compile_yields h
    have named : .positional ∉ raw := (Token.ofText_eq_ok_iff.1 hraw).positional_notMem
    exact consistent_ofTokens (positional_notMem_merge named) _ _ _
  | specialize _ h ih =>
    obtain ⟨tokens, htokens, rfl⟩ := specialize_yields h
    have named := (binds_of_bindArgs_yields htokens).positional_notMem ih.positional_notMem
    exact consistent_ofTokens (positional_notMem_merge named) _ _ _
  | options _ h ih =>
    obtain ⟨defaults, strict, validate, rfl⟩ := options_yields h
    exact ih.configure defaults strict validate
  | configure defaults strict validate _ ih => exact ih.configure defaults strict validate

end Stencil.Named
