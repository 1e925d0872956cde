import Mathlib
import Stencil.Proofs.Calls
import Stencil.Proofs.Named.PartialEvaluation
import Stencil.Proofs.Positional.PartialEvaluation

/-!
# Calls made by templates

Rendering and binding call providers in the order of the placeholders, for the values that these
stand for, and stop behind the first that fails. What was bound is not called for again.
-/

namespace Stencil

open Ascii

variable {σ : Type}

namespace Positional

/-- What the placeholders of a template stand for, from left to right: the arguments, and null where
none is left. -/
def values (t : Positional) (args : List (Arg σ)) : List (Arg σ) :=
  args ++ List.replicate (t.argsCount - args.length) .null

/-- A rendering encodes the arguments in the order in which they are given, and calls nothing for
the nulls that stand in for the missing ones. -/
theorem callsAs_render_supplied {t : Positional} {args : List (Arg σ)}
    (arity : t.accepts args.length = true) : (t.render args).CallsAs (args.map Arg.encode) := by
  rw [render, if_pos arity, encodeArgs]
  exact ((Eval.callsAs_mapM Arg.encode args).map _).map _

theorem callsAs_render {t : Positional} {args : List (Arg σ)}
    (arity : t.accepts args.length = true) :
    (t.render args).CallsAs ((t.values args).map Arg.encode) := by
  have nulls (n : Nat) : (List.replicate n (.null : Arg σ)).map Arg.encode =
      List.replicate n (pure Json.nullText) := by
    rw [List.map_replicate, Arg.encode, Arg.encodeAs_null]
  intro state
  rw [values, List.map_append, nulls, Eval.flatten_callsInTurn_append_replicate]
  exact callsAs_render_supplied arity state

theorem callsAs_bindArgs {ts : List Token} {args : List (Arg σ)}
    (enough : args.length ≤ Token.argCount ts) :
    (bindArgs ts args).CallsAs (args.map Arg.encode) := by
  rw [bindArgs_eq_bindTexts enough]
  exact (Eval.callsAs_mapM Arg.encode args).map _

/-- Binding arguments encodes them in the order in which they are given. -/
theorem callsAs_specialize {t : Positional} (consistent : t.Consistent) {args : List (Arg σ)}
    (enough : args.length ≤ t.argsCount) :
    (t.specialize args).CallsAs (args.map Arg.encode) := by
  rw [specialize, if_pos enough]
  rw [consistent.argsCount_eq] at enough
  exact (callsAs_bindArgs enough).map _

/-- With a number of arguments that the template does not accept a rendering fails before it encodes
any. -/
theorem render_eq_fail {t : Positional} {args : List (Arg σ)}
    (arity : t.accepts args.length = false) :
    t.render args = .fail (.argCount t.argsCount args.length) :=
  if_neg (Bool.eq_false_iff.1 arity)

theorem specialize_eq_fail {t : Positional} {args : List (Arg σ)}
    (tooMany : t.argsCount < args.length) :
    t.specialize args = .fail (.tooManyArgs args.length t.argsCount) :=
  if_neg (Nat.not_le_of_lt tooMany)

end Positional

namespace Named

/-- A rendering encodes what each name stands for as often as the name occurs, in the order of the
placeholders. -/
theorem callsAs_render (t : Named σ) (args : Bindings (Arg σ)) :
    (t.render args).CallsAs
      ((Token.occurrences t.tokens).map (valueText args t.defaults t.strict)) := by
  rw [render, encodeArgs, resolve_eq_valueText]
  exact (Eval.callsAs_mapM _ _).map _

theorem callsAs_bindArgs (args : Bindings (Arg σ)) (ts : List Token) :
    (bindArgs args ts).CallsAs (encodings args ts) := by
  fun_induction bindArgs args ts with
  | case1 => exact Eval.callsAs_pure []
  | case2 name ts value bound ih =>
    rw [encodings_cons_bound bound]
    exact .bind fun bytes => ih.map _
  | case3 name ts unbound ih =>
    rw [encodings_cons_unbound (by rintro _ ⟨⟩; exact unbound)]
    exact ih.map _
  | case4 t ts notNamed ih =>
    rw [encodings_cons_unbound fun name isNamed => absurd isNamed (notNamed name)]
    exact ih.map _

/-- Binding encodes the values that are bound as often as their names occur, in the order of the
placeholders. -/
theorem callsAs_specialize (t : Named σ) (args : Bindings (Arg σ)) :
    (t.specialize args).CallsAs (encodings args t.tokens) :=
  (callsAs_bindArgs args t.tokens).map _

/-- The names that are bound no longer occur, and the others occur where they did. -/
theorem occurrences_of_specialize_yields {t s : Named σ} {args : Bindings (Arg σ)} {state left : σ}
    (h : (t.specialize args).Yields state s left) :
    Token.occurrences s.tokens =
      (Token.occurrences t.tokens).filter fun name => !args.contains name := by
  obtain ⟨tokens, htokens, rfl⟩ := specialize_yields h
  rw [ofTokens, Token.occurrences_merge]
  exact (binds_of_bindArgs_yields htokens).occurrences_eq

/-- What is left of a template calls for the new arguments and for defaults of the template. -/
theorem callsAs_render_of_specialize_yields {t s : Named σ} {args : Bindings (Arg σ)}
    {state left : σ} (h : (t.specialize args).Yields state s left) (later : Bindings (Arg σ)) :
    (s.render later).CallsAs
      ((Token.occurrences s.tokens).map (valueText later t.defaults t.strict)) := by
  have same : (Token.occurrences s.tokens).map (valueText later t.defaults t.strict) =
      (Token.occurrences s.tokens).map (valueText later s.defaults s.strict) := by
    refine List.map_congr_left fun name mem => ?_
    rw [occurrences_of_specialize_yields h, List.mem_filter, Bool.not_eq_true',
      Bindings.contains_eq_false_iff] at mem
    have registered := get?_remainingDefaults mem.1 mem.2
    obtain ⟨tokens, -, rfl⟩ := specialize_yields h
    show _ = valueText later (t.remainingDefaults args) t.strict name
    rw [valueText, valueText, registered]
  rw [same]
  exact callsAs_render s later

end Named

/-- Encoding an argument calls what it reaches, each provider once where it is reached, up to the
first value that an encoder refuses. Templates encode in turn what their placeholders stand for, up
to the first that fails: all placeholders when they are rendered, and those that are bound when they
are specialized. A wrong number of positional arguments calls nothing. What was bound is not called
for later, but only the new arguments and the defaults of the names that are left. -/
theorem callsAs_render_specialize :
    (∀ (arg : Arg σ) (name : String) (state : σ) (o : Outcome σ Unit),
      Arg.Visits [(name, arg)] state o ↔
        (arg.encodeAs name >>= fun _ => pure ()).run state = o) ∧
    (∀ t : Positional, Positional.Reachable σ t → ∀ args : List (Arg σ),
      (t.accepts args.length = true →
        (t.render args).CallsAs ((t.values args).map Arg.encode)) ∧
      (t.accepts args.length = false → ∀ state, (t.render args).run state =
        ⟨.error (.argCount t.expectedArgs args.length), [], state⟩) ∧
      (args.length ≤ t.expectedArgs → (t.specialize args).CallsAs (args.map Arg.encode)) ∧
      (t.expectedArgs < args.length → ∀ state, (t.specialize args).run state =
        ⟨.error (.tooManyArgs args.length t.expectedArgs), [], state⟩) ∧
      ∀ (s : Positional) (state left : σ), (t.specialize args).Yields state s left →
        ∀ later : List (Arg σ),
          (s.accepts later.length = true → (s.render later).CallsAs (later.map Arg.encode)) ∧
          (later.length ≤ s.expectedArgs →
            (s.specialize later).CallsAs (later.map Arg.encode))) ∧
    (∀ (t : Named σ) (args : Bindings (Arg σ)),
      (t.render args).CallsAs
        ((Token.occurrences t.tokens).map (Named.valueText args t.defaults t.strict)) ∧
      (t.specialize args).CallsAs (Named.encodings args t.tokens) ∧
      ∀ (s : Named σ) (state left : σ), (t.specialize args).Yields state s left →
        Token.occurrences s.tokens =
          (Token.occurrences t.tokens).filter (fun name => !args.contains name) ∧
        ∀ later : Bindings (Arg σ),
          (s.render later).CallsAs
            ((Token.occurrences s.tokens).map (Named.valueText later t.defaults t.strict)) ∧
          (s.specialize later).CallsAs (Named.encodings later s.tokens)) := by
  refine ⟨fun _ _ _ _ => Arg.visits_iff, ?_, ?_⟩
  · intro t reach args
    refine ⟨Positional.callsAs_render, ?_, Positional.callsAs_specialize reach.consistent, ?_, ?_⟩
    · intro arity state
      rw [Positional.render_eq_fail arity]
      rfl
    · intro tooMany state
      rw [Positional.specialize_eq_fail tooMany]
      rfl
    · intro s state left yields later
      have consistent := (reach.specialize yields).consistent
      exact ⟨Positional.callsAs_render_supplied, Positional.callsAs_specialize consistent⟩
  · intro t args
    refine ⟨Named.callsAs_render t args, Named.callsAs_specialize t args, ?_⟩
    intro s state left yields
    refine ⟨Named.occurrences_of_specialize_yields yields, fun later => ?_⟩
    exact ⟨Named.callsAs_render_of_specialize_yields yields later,
      Named.callsAs_specialize s later⟩

/-- A provider counts its calls and answers null to the first. Of members that are left out if they
are null it is asked once for the first and once for the second, and not for the one behind a value
without encoding, nor for the next placeholder. What it answered to a binding is not asked for
again. -/
theorem callsAs_render_specialize_counter :
    let tick : Arg Nat := .deferred
      { label := some "tick", answer := fun _ n => (if n = 0 then .null else .ofInt n, n + 1) }
    let ms : List (Member (Arg Nat)) :=
      [⟨"a", tick, true⟩, ⟨"b", tick, true⟩, ⟨"c", .json (.error ⟨.words "no", 0, 0⟩), true⟩,
        ⟨"d", tick, false⟩]
    let t := Positional.ofTokens
      [.fixed [openBrace], .positional, .fixed [closeBrace], .positional] true false
    let s := Positional.ofTokens
      [.fixed ([openBrace] ++ Json.nullText ++ [closeBrace]), .positional] true false
    let u : Named Nat := .ofTokens
      [.named "a", .fixed [comma], .named "b", .fixed [comma], .named "a"]
      (.ofList [("b", tick)]) true false
    Positional.Reachable Nat t ∧
      (∃ o, Arg.Visits [("", .pairs ms)] 0 o ∧
        o.calls = [⟨some "tick", "a"⟩, ⟨some "tick", "b"⟩]) ∧
      ((t.render [.pairs ms, tick]).run 0).calls = [⟨some "tick", "a"⟩, ⟨some "tick", "b"⟩] ∧
      ((t.render [.pairs ms]).run 0).calls = [] ∧
      (t.specialize [tick]).Yields 0 s 1 ∧
      ((s.render [tick]).run 1).calls = [⟨some "tick", ""⟩] ∧
      ((u.render (.ofList [("a", tick)])).run 0).calls =
        [⟨some "tick", "a"⟩, ⟨some "tick", "b"⟩, ⟨some "tick", "a"⟩] := by
  intro tick ms t s u
  obtain ⟨visits, positional, named⟩ := callsAs_render_specialize (σ := Nat)
  have compiled : (Positional.compile "{?}?" ([] : List (TemplateOption Nat))).Yields 0 t 0 :=
    ⟨[], by cbv⟩
  have reach : Positional.Reachable Nat t := .compile compiled
  have bound : (t.specialize [tick]).Yields 0 s 1 := ⟨[⟨some "tick", ""⟩], by cbv⟩
  obtain ⟨whole, -⟩ := positional t reach [.pairs ms, tick]
  obtain ⟨-, few, -⟩ := positional t reach [.pairs ms]
  obtain ⟨-, -, -, -, later⟩ := positional t reach [tick]
  refine ⟨reach, ⟨_, (visits _ _ _ _).2 rfl, by cbv⟩, ?_, ?_, bound, ?_, ?_⟩
  · rw [whole rfl 0]
    cbv
  · rw [few rfl 0]
  · rw [(later s 0 1 bound [tick]).1 rfl 1]
    cbv
  · rw [(named u _).1 0]
    cbv

end Stencil
