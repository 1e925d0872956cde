import Mathlib
import Stencil.Proofs.Named.Fill
import Stencil.Proofs.Positional.Fill

/-!
# What is put in the placeholders

Filling a sequence tolerates texts that are too few or too many: a placeholder without one stands for
nothing, and what is left over is dropped. Templates never make use of this. A rendering puts exactly
one text in each placeholder, and binding puts one in each placeholder that it takes away.
-/

namespace Stencil

variable {σ : Type}

namespace Token

/-- The octets are those of a sequence with a text in place of each placeholder, where there is one
text for each and none besides. -/
inductive FilledExactly : List Token → List Bytes → Bytes → Prop where
  | nil : FilledExactly [] [] []
  | fixed {bytes : Bytes} {ts : List Token} {texts : List Bytes} {output : Bytes} :
    FilledExactly ts texts output → FilledExactly (fixed bytes :: ts) texts (bytes ++ output)
  | slot {slot : Token} {text : Bytes} {ts : List Token} {texts : List Bytes} {output : Bytes} :
    slot.isFixed = false → FilledExactly ts texts output →
    FilledExactly (slot :: ts) (text :: texts) (text ++ output)

/-- The second sequence is the first with the texts in place of as many of its placeholders, in
order. -/
inductive Bound : List Token → List Bytes → List Token → Prop where
  | nil : Bound [] [] []
  | keep (t : Token) {ts us : List Token} {texts : List Bytes} : Bound ts texts us →
    Bound (t :: ts) texts (t :: us)
  | fill {slot : Token} {text : Bytes} {ts us : List Token} {texts : List Bytes} :
    slot.isFixed = false → Bound ts texts us → Bound (slot :: ts) (text :: texts) (.fixed text :: us)

/-- As many texts as there are placeholders fill a sequence exactly. -/
theorem filledExactly_assemble {ts : List Token} {texts : List Bytes}
    (enough : texts.length = argCount ts) : FilledExactly ts texts (assemble ts texts) := by
  induction ts generalizing texts with
  | nil =>
    obtain rfl : texts = [] := List.eq_nil_of_length_eq_zero enough
    exact .nil
  | cons t ts ih =>
    cases ht : t.isFixed with
    | true =>
      obtain ⟨bytes, rfl⟩ := isFixed_iff.1 ht
      rw [assemble_fixed]
      exact .fixed (ih (by simpa [isFixed] using enough))
    | false =>
      rw [argCount_placeholder ht] at enough
      cases texts with
      | nil => cases enough
      | cons text texts =>
        rw [assemble_placeholder ht]
        exact .slot ht (ih (Nat.succ.inj enough))

theorem bound_nil (ts : List Token) : Bound ts [] ts := by
  induction ts with
  | nil => exact .nil
  | cons t ts ih => exact .keep t ih

end Token

open Token

namespace Positional

/-- A rendering makes a text for each placeholder, since nulls stand in for the arguments that are
missing. -/
theorem exists_filledExactly_of_render_yields {t : Positional} (consistent : t.Consistent)
    {args : List (Arg σ)} {state last : σ} {output : Bytes}
    (h : (t.render args).Yields state output last) :
    ∃ texts, (t.encodeArgs args).Yields state texts last ∧
      FilledExactly t.tokens texts output := by
  rw [render] at h
  split at h
  · rename_i arity
    obtain ⟨texts, htexts, rfl⟩ := Eval.yields_bind_pure_iff.1 h
    refine ⟨texts, htexts, filledExactly_assemble ?_⟩
    obtain ⟨encoded, hencoded, rfl⟩ := Eval.yields_bind_pure_iff.1 htexts
    have length := Eval.length_of_mapM_yields hencoded
    have few := (accepts_iff.1 arity).1
    rw [← consistent.argsCount_eq, List.length_append, List.length_replicate]
    omega
  · exact absurd h (by simp)

/-- Putting texts in from the left binds them, as long as there are placeholders for all of them. -/
theorem bound_bindTexts {ts : List Token} {texts : List Bytes}
    (enough : texts.length ≤ argCount ts) : Bound ts texts (bindTexts ts texts) := by
  induction ts generalizing texts with
  | nil =>
    obtain rfl : texts = [] := List.eq_nil_of_length_eq_zero (Nat.le_zero.1 enough)
    exact .nil
  | cons t ts ih =>
    cases ht : t.isFixed with
    | true =>
      obtain ⟨bytes, rfl⟩ := isFixed_iff.1 ht
      exact .keep _ (ih (by simpa [isFixed] using enough))
    | false =>
      cases texts with
      | nil =>
        rw [bindTexts_nil]
        exact bound_nil _
      | cons text texts =>
        rw [argCount_placeholder ht] at enough
        rw [bindTexts_placeholder ht]
        exact .fill ht (ih (Nat.le_of_succ_le_succ enough))

/-- Binding puts the texts of the arguments in for as many placeholders, and joins what then meets.
-/
theorem exists_bound_of_specialize_yields {t s : Positional} (consistent : t.Consistent)
    {args : List (Arg σ)} {state last : σ} (h : (t.specialize args).Yields state s last) :
    ∃ texts tokens, (args.mapM Arg.encode).Yields state texts last ∧ Bound t.tokens texts tokens ∧
      s = ofTokens (merge tokens) t.strict t.validate := by
  obtain ⟨few, tokens, htokens, rfl⟩ := specialize_yields h
  rw [consistent.argsCount_eq] at few
  rw [bindArgs_eq_bindTexts few] at htokens
  obtain ⟨texts, htexts, rfl⟩ := Eval.yields_bind_pure_iff.1 htokens
  rw [← Eval.length_of_mapM_yields htexts] at few
  exact ⟨texts, _, htexts, bound_bindTexts few, rfl⟩

end Positional

namespace Named

/-- A rendering makes a text for each placeholder, of what its name stands for. -/
theorem exists_filledExactly_of_render_yields {t : Named σ} (consistent : t.Consistent)
    {args : Bindings (Arg σ)} {state last : σ} {output : Bytes}
    (h : (t.render args).Yields state output last) :
    ∃ texts, (t.encodeArgs args).Yields state texts last ∧
      FilledExactly t.tokens texts output := by
  obtain ⟨texts, htexts, rfl⟩ := Eval.yields_bind_pure_iff.1 h
  refine ⟨texts, htexts, filledExactly_assemble ?_⟩
  rw [Eval.length_of_mapM_yields htexts,
    argCount_eq_length_occurrences consistent.positional_notMem]

/-- The texts of the arguments that are bound, one for each placeholder that they are put in. -/
def encodeBound (t : Named σ) (args : Bindings (Arg σ)) : Eval σ (List Bytes) :=
  (encodings args t.tokens).mapM id

theorem Binds.exists_bound {args : Bindings (Arg σ)} {ts us : List Token} {state last : σ}
    (h : Binds args state ts us last) :
    ∃ texts, ((encodings args ts).mapM id).Yields state texts last ∧ Bound ts texts us := by
  induction h with
  | nil => exact ⟨[], by simp [encodings], .nil⟩
  | keep unbound _ ih =>
    obtain ⟨texts, htexts, bound⟩ := ih
    rw [encodings_cons_unbound unbound]
    exact ⟨texts, htexts, .keep _ bound⟩
  | @fill name value bytes ts us state mid last found hvalue _ ih =>
    obtain ⟨texts, htexts, bound⟩ := ih
    rw [encodings_cons_bound found]
    refine ⟨bytes :: texts, ?_, .fill rfl bound⟩
    exact Eval.yields_mapM_cons_iff.2 ⟨bytes, mid, texts, hvalue, htexts, rfl⟩

/-- Binding puts the texts of the values in for the placeholders of bound names, and joins what then
meets. -/
theorem exists_bound_of_specialize_yields {t s : Named σ} {args : Bindings (Arg σ)}
    {state last : σ} (h : (t.specialize args).Yields state s last) :
    ∃ texts tokens, (t.encodeBound args).Yields state texts last ∧ Bound t.tokens texts tokens ∧
      s = ofTokens (merge tokens) (t.remainingDefaults args) t.strict t.validate := by
  obtain ⟨tokens, htokens, rfl⟩ := specialize_yields h
  obtain ⟨texts, htexts, bound⟩ := (binds_of_bindArgs_yields htokens).exists_bound
  exact ⟨texts, tokens, htexts, bound, rfl⟩

end Named

end Stencil
