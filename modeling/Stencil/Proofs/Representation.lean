import Mathlib
import Stencil.Proofs.Named.Reachable
import Stencil.Proofs.Positional.Reachable
import Stencil.Proofs.Token.Neighbours

/-!
# How templates are represented

What holds of the tokens of every template that can arise, and of what the template keeps about
them. Compiling establishes it, since a text does not make two placeholders in a row unless they
have names; binding and merging preserve it, even where an argument encodes to nothing; and
configuring does not touch the tokens.
-/

namespace Stencil

namespace Token

theorem fixedLen_eq_sum (ts : List Token) : fixedLen ts = (ts.map fixedSize).sum := by
  rw [fixedLen, List.sum_eq_foldr, List.foldr_map]

theorem nodup_eraseDups : ∀ names : List String, names.eraseDups.Nodup
  | [] => .nil
  | name :: names => by
    rw [List.eraseDups_cons, List.nodup_cons, List.mem_eraseDups]
    exact ⟨by simp, nodup_eraseDups _⟩
termination_by names => names.length
decreasing_by exact Nat.lt_succ_of_le (List.length_filter_le _ _)

end Token

open Ascii Token

variable {σ : Type}

namespace Positional

/-- What is true of a positional template: neither two fixed tokens nor two placeholders meet, no
placeholder has a name, and the numbers are those of the tokens. -/
structure WellFormed (t : Positional) : Prop where
  fixedApart : Apart isFixed t.tokens
  slotsApart : Apart isSlot t.tokens
  named_notMem : ∀ name, .named name ∉ t.tokens
  fixedLen_eq : t.fixedLen = (t.tokens.map fixedSize).sum
  argsCount_eq : t.argsCount = t.tokens.count .positional

theorem argCount_eq_count {ts : List Token} (unnamed : ∀ name, .named name ∉ ts) :
    argCount ts = ts.count .positional := by
  rw [argCount, List.count]
  refine List.countP_congr fun t mem => ?_
  cases t with
  | fixed bytes => simp [isFixed]
  | positional => simp [isFixed]
  | named name => exact absurd mem (unnamed name)

theorem wellFormed_ofTokens {ts : List Token} (apart : Apart isSlot ts)
    (unnamed : ∀ name, .named name ∉ ts) (strict validate : Bool) :
    (ofTokens (merge ts) strict validate).WellFormed where
  fixedApart := apart_isFixed_merge ts
  slotsApart := (apart_isSlot_merge ts).2 apart
  named_notMem name mem := unnamed name ((mem_merge_iff rfl ts).1 mem)
  fixedLen_eq := fixedLen_eq_sum (merge ts)
  argsCount_eq := argCount_eq_count fun name mem => unnamed name ((mem_merge_iff rfl ts).1 mem)

/-- Binding keeps a template well-formed: the texts that are put in are joined with the pieces that
they come to stand next to. -/
theorem WellFormed.specialize {t u : Positional} (h : t.WellFormed) {args : List (Arg σ)}
    {state last : σ} (bound : (t.specialize args).Yields state u last) : u.WellFormed := by
  obtain ⟨-, tokens, htokens, rfl⟩ := specialize_yields bound
  have filled := filled_of_bindArgs_yields htokens
  refine wellFormed_ofTokens (h.slotsApart.filled filled) ?_ _ _
  intro name mem
  exact h.named_notMem name (mem_of_filled rfl filled mem)

theorem WellFormed.configure {t : Positional} (h : t.WellFormed) (strict validate : Bool) :
    WellFormed { t with strict, validate } :=
  ⟨h.fixedApart, h.slotsApart, h.named_notMem, h.fixedLen_eq, h.argsCount_eq⟩

/-- Whatever was done to make a template, it is well-formed. -/
theorem Reachable.wellFormed {t : Positional} (h : Reachable σ t) : t.WellFormed := by
  induction h with
  | compile h =>
    obtain ⟨raw, strict, validate, hraw, rfl, -⟩ := compile_yields h
    have isRaw := (ofText_eq_ok_iff.1 hraw).isRaw
    exact wellFormed_ofTokens isRaw.apart_isSlot isRaw.named_notMem _ _
  | specialize _ h ih => exact ih.specialize h
  | options _ h ih =>
    obtain ⟨strict, validate, rfl⟩ := options_yields h
    exact ih.configure strict validate
  | configure strict validate _ ih => exact ih.configure strict validate

/-- Fixed tokens and placeholders take turns, so twice the number of arguments is the number of
tokens, give or take one. -/
theorem WellFormed.alternates {t : Positional} (h : t.WellFormed) :
    Alternates t.tokens ∧ 2 * t.argsCount ≤ t.tokens.length + 1 ∧
      t.tokens.length ≤ 2 * t.argsCount + 1 := by
  have turns := alternates_of_apart h.fixedApart h.slotsApart
  rw [h.argsCount_eq, ← argCount_eq_count h.named_notMem]
  exact ⟨turns, turns.length_bounds⟩

end Positional

namespace Named

/-- What is true of a named template: no two fixed tokens meet, every placeholder has a name that
can be written in a text, and the names and the number kept are those of the tokens. -/
structure WellFormed (t : Named σ) : Prop where
  fixedApart : Apart isFixed t.tokens
  positional_notMem : .positional ∉ t.tokens
  isName : ∀ name, .named name ∈ t.tokens →
    name ≠ "" ∧ ∀ c ∈ name.toList, isNameChar c = true
  mem_names_iff : ∀ name, name ∈ t.names ↔ .named name ∈ t.tokens
  names_nodup : t.names.Nodup
  fixedLen_eq : t.fixedLen = (t.tokens.map fixedSize).sum

theorem wellFormed_ofTokens {ts : List Token} (named : .positional ∉ ts)
    (isName : ∀ name, .named name ∈ ts → name ≠ "" ∧ ∀ c ∈ name.toList, isNameChar c = true)
    (defaults : Bindings (Arg σ)) (strict validate : Bool) :
    (ofTokens (merge ts) defaults strict validate).WellFormed where
  fixedApart := apart_isFixed_merge ts
  positional_notMem := positional_notMem_merge named
  isName name mem := isName name ((mem_merge_iff rfl ts).1 mem)
  mem_names_iff _ := mem_names.trans mem_occurrences
  names_nodup := nodup_eraseDups _
  fixedLen_eq := fixedLen_eq_sum (merge ts)

/-- Binding keeps a template well-formed: it puts in no placeholders, and merging joins what has
come together. -/
theorem WellFormed.specialize {t u : Named σ} (h : t.WellFormed) {args : Bindings (Arg σ)}
    {state last : σ} (bound : (t.specialize args).Yields state u last) : u.WellFormed := by
  obtain ⟨tokens, htokens, rfl⟩ := specialize_yields bound
  have filled := (binds_of_bindArgs_yields htokens).filledBy
  refine wellFormed_ofTokens ?_ ?_ _ _ _
  · intro mem
    exact h.positional_notMem (mem_of_filled rfl filled mem)
  · intro name mem
    exact h.isName name (mem_of_filled rfl filled mem)

theorem WellFormed.configure {t : Named σ} (h : t.WellFormed) (defaults : Bindings (Arg σ))
    (strict validate : Bool) : WellFormed { t with defaults, strict, validate } :=
  ⟨h.fixedApart, h.positional_notMem, h.isName, h.mem_names_iff, h.names_nodup, h.fixedLen_eq⟩

/-- Whatever was done to make a template, it is well-formed. -/
theorem Reachable.wellFormed {t : Named σ} (h : t.Reachable) : t.WellFormed := by
  induction h with
  | compile h =>
    obtain ⟨raw, defaults, strict, validate, hraw, rfl, -⟩ := compile_yields h
    have lexes := ofText_eq_ok_iff.1 hraw
    refine wellFormed_ofTokens lexes.positional_notMem ?_ _ _ _
    intro name mem
    obtain ⟨-, nonempty, chars⟩ := lexes.isRaw.possible (.named name) mem
    refine ⟨?_, chars⟩
    rintro rfl
    exact nonempty rfl
  | specialize _ h ih => exact ih.specialize h
  | options _ h ih =>
    obtain ⟨defaults, strict, validate, rfl⟩ := options_yields h
    exact ih.configure defaults strict validate
  | configure defaults strict validate _ ih => exact ih.configure defaults strict validate

end Named

/-- Every template that can arise is well formed, and in a positional one fixed tokens and
placeholders take turns. -/
theorem wellFormed_of_reachable :
    (∀ t : Positional, Positional.Reachable σ t → t.WellFormed ∧ Alternates t.tokens ∧
      2 * t.argsCount ≤ t.tokens.length + 1 ∧ t.tokens.length ≤ 2 * t.argsCount + 1) ∧
    ∀ t : Named σ, t.Reachable → t.WellFormed := by
  constructor
  · intro t h
    exact ⟨h.wellFormed, h.wellFormed.alternates⟩
  · intro t h
    exact h.wellFormed

/-- In both templates a placeholder is filled with nothing. In the positional one the empty piece
is joined to the text behind it, in the named one it stays as a piece of its own. -/
theorem wellFormed_of_reachable_empty :
    let t := Positional.ofTokens [.fixed [colon], .positional] false false
    let u : Named Unit :=
      .ofTokens [.fixed [question, comma], .named "b-1", .fixed []] .empty true false
    (Positional.Reachable Unit t ∧ u.Reachable) ∧
      (t.WellFormed ∧ t.tokens.length ≤ 2 * t.argsCount + 1) ∧ u.WellFormed := by
  intro t u
  let t₀ := Positional.ofTokens [.positional, .fixed [colon], .positional] true false
  let t₁ := Positional.ofTokens [.fixed [colon], .positional] true false
  let u₀ : Named Unit :=
    .ofTokens [.fixed [question, comma], .named "b-1", .named "a"] .empty true false
  have compiledT : (Positional.compile "?:?" []).Yields () t₀ () := ⟨[], by cbv⟩
  have boundT : (t₀.specialize [.raw []]).Yields () t₁ () := ⟨[], by cbv⟩
  have relaxed : (t₁.options [.strict false]).Yields () t () := ⟨[], by cbv⟩
  have compiledU : (Named.compile "??,?b-1?a" []).Yields () u₀ () := ⟨[], by cbv⟩
  have boundU : (u₀.specialize (.ofList [("a", .raw [])])).Yields () u () := ⟨[], by cbv⟩
  have reachableT : Positional.Reachable Unit t :=
    .options (.specialize (.compile compiledT) boundT) relaxed
  have reachableU : u.Reachable := .specialize (.compile compiledU) boundU
  obtain ⟨wellFormed, -, -, short⟩ := wellFormed_of_reachable.1 t reachableT
  exact ⟨⟨reachableT, reachableU⟩, ⟨wellFormed, short⟩, wellFormed_of_reachable.2 u reachableU⟩

end Stencil
