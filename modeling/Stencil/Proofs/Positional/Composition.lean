import Mathlib
import Stencil.Proofs.Positional.PartialEvaluation
import Stencil.Proofs.Representation

/-!
# Specializing positional templates in two steps

Binding some arguments and then others makes the template that binding all of them makes. The first
step joins what it puts in to its neighbours, so the second goes through another sequence;
`specialize_merge` says that this makes no difference, because what the second step puts in is joined
again.
-/

namespace Stencil.Positional

open Ascii

variable {σ : Type}

/-- A sequence can be filled with some arguments first, since what was put in is no placeholder. -/
theorem bindArgs_append (ts : List Token) (p q : List (Arg σ)) :
    bindArgs ts (p ++ q) = bindArgs ts p >>= fun us => bindArgs us q := by
  fun_induction bindArgs ts p with
  | case1 p => simp [bindArgs]
  | case2 bytes ts p ih => simp [bindArgs, ih]
  | case3 t ts notFixed ih => simp [bindArgs_nil]
  | case4 t ts arg p notFixed ih =>
    have placeholder := Token.isFixed_eq_false notFixed
    cases t with
    | fixed bytes => cases placeholder
    | _ => simp [bindArgs, ih]

/-- The placeholders of a template may as well be filled before its pieces are joined. -/
theorem specialize_merge {us : List Token} {q : List (Arg σ)}
    (enough : q.length ≤ Token.argCount us) (strict validate : Bool) :
    (ofTokens (Token.merge us) strict validate).specialize q = do
      let vs ← bindArgs us q
      return ofTokens (Token.merge vs) strict validate := by
  have room : q.length ≤ Token.argCount (Token.merge us) := by rwa [Token.argCount_merge]
  calc (ofTokens (Token.merge us) strict validate).specialize q
    _ = do
          let vs ← bindArgs (Token.merge us) q
          return ofTokens (Token.merge vs) strict validate := if_pos room
    _ = do
          let vs ← bindArgs us q
          return ofTokens (Token.merge vs) strict validate := by
      rw [bindArgs_eq_bindTexts room, bindArgs_eq_bindTexts enough]
      simp only [bind_assoc, pure_bind, merge_bindTexts_merge]

/-- Arguments can be bound in two parts, if there are placeholders for all of them. -/
theorem specialize_append {t : Positional} (consistent : t.Consistent) {p q : List (Arg σ)}
    (enough : p.length + q.length ≤ t.argsCount) :
    (t.specialize p >>= fun s => s.specialize q) = t.specialize (p ++ q) := by
  have first : p.length ≤ t.argsCount := by omega
  have both : (p ++ q).length ≤ t.argsCount := by rwa [List.length_append]
  calc t.specialize p >>= (fun s => s.specialize q)
    _ = bindArgs t.tokens p >>= fun us =>
          (ofTokens (Token.merge us) t.strict t.validate).specialize q := by
      rw [specialize, if_pos first, bind_assoc]
      simp only [pure_bind]
    _ = bindArgs t.tokens p >>= fun us => do
          let vs ← bindArgs us q
          return ofTokens (Token.merge vs) t.strict t.validate := by
      refine Eval.bind_congr_of_yields fun state us next yields => ?_
      have count := argCount_of_bindArgs_yields yields
      rw [← consistent.argsCount_eq] at count
      rw [specialize_merge (by omega)]
    _ = t.specialize (p ++ q) := by
      rw [specialize, if_pos both, bindArgs_append, bind_assoc]

/-- Binding no arguments gives the template back, because it is merged already. -/
theorem specialize_nil {t : Positional} (wellFormed : t.WellFormed) (consistent : t.Consistent) :
    t.specialize ([] : List (Arg σ)) = pure t := by
  have none : ([] : List (Arg σ)).length ≤ t.argsCount := Nat.zero_le _
  rw [specialize, if_pos none, bindArgs_nil, pure_bind, Token.merge_eq_self wellFormed.fixedApart,
    ofTokens, ← consistent.argsCount_eq, ← consistent.fixedLen_eq]

theorem eq_encoding_of_specialize_fails {t : Positional} {args : List (Arg σ)}
    (enough : args.length ≤ t.argsCount) {state : σ} {e : Error}
    (h : (t.specialize args).Fails state e) : ∃ cause, e = .encoding cause := by
  rw [specialize, if_pos enough] at h
  exact eq_encoding_of_bindArgs_fails (Eval.fails_bind_pure_iff.1 h)

/-- Binding no arguments leaves a template as it is. Binding some and then others is binding all of
them at once: it makes the same template, or fails with the same error, which is that of an encoder,
and it makes the same calls in the same order and leaves the same state. -/
theorem specialize_specialize {t : Positional} (reach : Reachable σ t) :
    t.specialize ([] : List (Arg σ)) = pure t ∧
    ∀ p q : List (Arg σ), p.length + q.length ≤ t.expectedArgs →
      (t.specialize p >>= fun s => s.specialize q) = t.specialize (p ++ q) ∧
      ∀ state e, (t.specialize (p ++ q)).Fails state e → ∃ cause, e = .encoding cause := by
  refine ⟨specialize_nil reach.wellFormed reach.consistent, ?_⟩
  intro p q enough
  have both : (p ++ q).length ≤ t.argsCount := by rwa [List.length_append]
  exact ⟨specialize_append reach.consistent enough, fun _ _ =>
    eq_encoding_of_specialize_fails both⟩

/-- A provider counts its calls. The first placeholder is filled with nothing, so the colon comes to
stand at the beginning; then the counter is asked twice, for one placeholder at a time. -/
theorem specialize_specialize_counter :
    let tick : Arg Nat := .deferred { answer := fun _ n => (.ofInt n, n + 1) }
    let t := ofTokens
      [.positional, .fixed [colon], .positional, .fixed [comma], .positional] true false
    let u := ofTokens [.fixed [colon, zero, comma, zero + 1]] true false
    Reachable Nat t ∧ [.raw [], tick].length + [tick].length ≤ t.expectedArgs ∧
      t.specialize ([] : List (Arg Nat)) = pure t ∧
      (t.specialize [.raw [], tick] >>= fun s => s.specialize [tick]).run 0 =
        ⟨.ok u, [⟨none, ""⟩, ⟨none, ""⟩], 2⟩ := by
  intro tick t u
  have compiled : (compile "?:?,?" ([] : List (TemplateOption Nat))).Yields 0 t 0 := ⟨[], by cbv⟩
  have reach : Reachable Nat t := .compile compiled
  obtain ⟨none, both⟩ := specialize_specialize reach
  have enough : [.raw [], tick].length + [tick].length ≤ t.expectedArgs := by decide
  refine ⟨reach, enough, none, ?_⟩
  rw [(both _ _ enough).1]
  cbv

end Stencil.Positional
