import Mathlib
import Stencil.Proofs.Positional.Fill

/-!
# Filling positional templates in two steps

Binding some arguments first and rendering with the others later is rendering with all of them:
`fill_append` says so of sequences of tokens, and the main result of templates, with what providers
are called for and the state they leave.
-/

namespace Stencil.Positional

open Ascii

variable {σ : Type}

/-- A sequence can be filled with some arguments first. What was put in stands for itself when the
other arguments are put in. -/
theorem fill_append (ts : List Token) (p r : List (Arg σ)) :
    fill ts (p ++ r) = bindArgs ts p >>= fun us => fill us r := by
  fun_induction bindArgs ts p with
  | case1 p => simp [fill]
  | case2 bytes ts p ih => simp [fill, ih]
  | case3 t ts notFixed ih => simp [bindArgs_nil]
  | case4 t ts arg p notFixed ih =>
    have placeholder := Token.isFixed_eq_false notFixed
    cases t with
    | fixed bytes => cases placeholder
    | _ => simp [fill, ih]

theorem eq_encoding_of_bindArgs_fails {ts : List Token} {args : List (Arg σ)} {state : σ}
    {e : Error} (h : (bindArgs ts args).Fails state e) : ∃ cause, e = .encoding cause := by
  fun_induction bindArgs ts args generalizing state with
  | case1 args => exact absurd h (by simp)
  | case2 bytes ts args ih => exact ih (Eval.fails_bind_pure_iff.1 h)
  | case3 t ts notFixed ih => exact ih (Eval.fails_bind_pure_iff.1 h)
  | case4 t ts arg args notFixed ih =>
    rcases Eval.fails_bind_iff.1 h with h | ⟨bytes, mid, -, h⟩
    · exact Arg.eq_encoding_of_fails h
    · exact ih (Eval.fails_bind_pure_iff.1 h)

/-- A rendering encodes the first arguments as binding does and goes on with the others from there.
-/
theorem render_append {t : Positional} (consistent : t.Consistent) {p r : List (Arg σ)}
    (arity : t.accepts (p ++ r).length = true) :
    t.render (p ++ r) = bindArgs t.tokens p >>= fun us => fill us r := by
  rw [render_eq_fill consistent arity, fill_append]

/-- What is left of a template accepts as many arguments as are missing. -/
theorem accepts_of_bindArgs_yields {t : Positional} (consistent : t.Consistent) {us : List Token}
    {p : List (Arg σ)} {state left : σ} (h : (bindArgs t.tokens p).Yields state us left)
    (enough : p.length ≤ t.argsCount) (r : List (Arg σ)) :
    (ofTokens (Token.merge us) t.strict t.validate).accepts r.length =
      t.accepts (p ++ r).length := by
  have count : Token.argCount us = t.argsCount - p.length := by
    rw [consistent.argsCount_eq]
    exact argCount_of_bindArgs_yields h
  rw [Bool.eq_iff_iff, accepts_iff, accepts_iff, List.length_append]
  simp only [ofTokens, Token.argCount_merge, count]
  constructor
  · rintro ⟨few, all⟩
    exact ⟨by omega, fun strict => by have := all strict; omega⟩
  · rintro ⟨few, all⟩
    exact ⟨by omega, fun strict => by have := all strict; omega⟩

/-- Binding the first arguments and rendering with the others from the state that the binding left
is rendering with all of them at once: the same octets or the same error, the same calls in the
same order, the same state in the end. If the binding fails then so does every rendering. -/
theorem run_render_specialize {t : Positional} (reach : Reachable σ t) (p : List (Arg σ))
    (enough : p.length ≤ t.expectedArgs) (state : σ) :
    match (t.specialize p).run state with
    | ⟨.ok s, calls, left⟩ =>
      s.expectedArgs = t.expectedArgs - p.length ∧ s.strict = t.strict ∧
      s.validate = t.validate ∧
      ∀ r,
        let later := (s.render r).run left
        let whole := (t.render (p ++ r)).run state
        if t.accepts (p ++ r).length then
          whole = ⟨later.result, calls ++ later.calls, later.state⟩ ∧
          ∀ e, later.result = .error e → ∃ cause, e = .encoding cause
        else
          later = ⟨.error (.argCount s.expectedArgs r.length), [], left⟩ ∧
          whole = ⟨.error (.argCount t.expectedArgs (p ++ r).length), [], state⟩
    | ⟨.error e, calls, left⟩ =>
      (∃ cause, e = .encoding cause) ∧
      ∀ r, t.accepts (p ++ r).length = true →
        (t.render (p ++ r)).run state = ⟨.error e, calls, left⟩ := by
  have consistent := reach.consistent
  have hspecialize : t.specialize p = do
      let us ← bindArgs t.tokens p
      return ofTokens (Token.merge us) t.strict t.validate := if_pos enough
  rw [hspecialize, Eval.run_bind]
  rcases hbind : (bindArgs t.tokens p).run state with ⟨e | us, calls, left⟩
  · constructor
    · have fails : (bindArgs t.tokens p).Fails state e := by rw [Eval.Fails, hbind]
      exact eq_encoding_of_bindArgs_fails fails
    · intro r arity
      rw [render_append consistent arity, Eval.run_bind, hbind]
  · have yields : (bindArgs t.tokens p).Yields state us left := ⟨calls, hbind⟩
    simp only [Eval.run_pure, List.append_nil]
    refine ⟨?_, rfl, rfl, ?_⟩
    · rw [expectedArgs, ofTokens, Token.argCount_merge, argCount_of_bindArgs_yields yields,
        ← consistent.argsCount_eq, expectedArgs]
    · intro r
      have accepts_eq := accepts_of_bindArgs_yields consistent yields enough r
      by_cases arity : t.accepts (p ++ r).length = true
      · rw [if_pos arity]
        rw [arity] at accepts_eq
        constructor
        · rw [render_append consistent arity, Eval.run_bind, hbind,
            render_eq_fill (consistent_ofTokens _ _ _) accepts_eq]
          simp only [ofTokens, fill_merge]
        · intro e fails
          obtain ⟨_, _, _, _, _, cause, -, -, -, rfl⟩ := (fails_render_iff accepts_eq).1 fails
          exact ⟨cause, rfl⟩
      · rw [if_neg arity]
        constructor
        · rw [render, if_neg (by rw [accepts_eq]; exact arity), Eval.run_fail]
          rfl
        · rw [render, if_neg arity, Eval.run_fail]
          rfl

/-- A provider that counts its calls gives the second argument the next number, whether the first
was bound before or is supplied together with the second. -/
theorem run_render_specialize_counter :
    let next : Arg Nat := .deferred { answer := fun _ n => (.ofInt n, n + 1) }
    let t := ofTokens
      [.fixed [openBracket], .positional, .fixed [comma], .positional, .fixed [closeBracket]]
      true false
    let s := ofTokens [.fixed [openBracket, zero, comma], .positional, .fixed [closeBracket]]
      true false
    Reachable Nat t ∧
      (t.specialize [next]).run 0 = ⟨.ok s, [⟨none, ""⟩], 1⟩ ∧
      (t.render [next, next]).run 0 =
        ⟨.ok [openBracket, zero, comma, zero + 1, closeBracket], [⟨none, ""⟩, ⟨none, ""⟩], 2⟩ := by
  intro next t s
  have compiled : (compile "[?,?]" ([] : List (TemplateOption Nat))).Yields 0 t 0 := ⟨[], by cbv⟩
  have reach : Reachable Nat t := .compile compiled
  have hs : (t.specialize [next]).run 0 = ⟨.ok s, [⟨none, ""⟩], 1⟩ := by cbv
  have both := run_render_specialize reach [next] (by decide) 0
  rw [hs] at both
  obtain ⟨-, -, -, later⟩ := both
  have whole := (later [next]).1
  refine ⟨reach, hs, whole.trans ?_⟩
  cbv

end Stencil.Positional
