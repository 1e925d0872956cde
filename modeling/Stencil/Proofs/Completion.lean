import Mathlib
import Stencil.Proofs.CallOrder

/-!
# Arguments that are not supplied

A template that does without some of its arguments renders as a strict one does, without defaults,
if what is missing is supplied: nulls behind the arguments of a positional template, and in a named
one for each name the default or else null. So a rendering that succeeds in strict mode is the same
when strictness is turned off.
-/

namespace Stencil

open Ascii

variable {σ : Type}

namespace Positional

theorem length_values (t : Positional) {args : List (Arg σ)} (enough : args.length ≤ t.argsCount) :
    (t.values args).length = t.argsCount := by
  rw [values, List.length_append, List.length_replicate]
  omega

/-- Padding with nulls before encoding is padding with the text of null behind. -/
theorem encodeArgs_values (t : Positional) {args : List (Arg σ)}
    (enough : args.length ≤ t.argsCount) : t.encodeArgs (t.values args) = t.encodeArgs args := by
  have nulls (n : Nat) : (List.replicate n (.null : Arg σ)).mapM Arg.encode =
      pure (List.replicate n Json.nullText) := by
    have same : ∀ arg ∈ List.replicate n (.null : Arg σ), arg.encode = pure Json.nullText := by
      intro arg mem
      rw [List.eq_of_mem_replicate mem, Arg.encode, Arg.encodeAs_null]
    rw [Eval.mapM_eq_replicate same, List.length_replicate]
  rw [encodeArgs, values, List.mapM_append, nulls, encodeArgs, bind_assoc]
  refine Eval.bind_congr_of_yields fun state encoded next yields => ?_
  have length := Eval.length_of_mapM_yields yields
  have full : t.argsCount - (args.length + (t.argsCount - args.length)) = 0 := by omega
  simp [length, full]

/-- A lenient template renders arguments as it does the arguments with nulls for those that are
missing. -/
theorem render_values (t : Positional) {args : List (Arg σ)} (enough : args.length ≤ t.argsCount) :
    ({ t with strict := false } : Positional).render args =
      ({ t with strict := true } : Positional).render (t.values args) := by
  have few : ({ t with strict := false } : Positional).accepts args.length = true :=
    accepts_iff.2 ⟨enough, nofun⟩
  have all : ({ t with strict := true } : Positional).accepts (t.values args).length = true :=
    accepts_iff.2 ⟨(length_values t enough).le, fun _ => length_values t enough⟩
  have encoded : ({ t with strict := true } : Positional).encodeArgs (t.values args) =
      ({ t with strict := false } : Positional).encodeArgs args := encodeArgs_values t enough
  rw [render, render, if_pos few, if_pos all, encoded]

/-- Turning strictness off only lets a template accept more. -/
theorem render_relaxed {t : Positional} {args : List (Arg σ)} {state : σ} {bytes : Bytes}
    (h : ((({ t with strict := true } : Positional).render args).run state).result = .ok bytes) :
    ({ t with strict := false } : Positional).render args =
      ({ t with strict := true } : Positional).render args := by
  by_cases all : ({ t with strict := true } : Positional).accepts args.length = true
  · have few : ({ t with strict := false } : Positional).accepts args.length = true :=
      accepts_iff.2 ⟨(accepts_iff.1 all).1, nofun⟩
    rw [render, render, if_pos few, if_pos all]
    rfl
  · rw [render, if_neg all, Eval.run_fail] at h
    cases h

end Positional

namespace Named

/-- What a name of a template is completed to: the supplied argument, even if it is null, or else the
default, or else null unless every name needs a value. -/
def completed? (t : Named σ) (args : Bindings (Arg σ)) (name : String) : Option (Arg σ) :=
  ((args.get? name).or (t.defaults.get? name)).or (if t.strict then none else some .null)

/-- The arguments of the names of a template, completed by defaults and by nulls as far as the
template does without arguments. -/
def completion (t : Named σ) (args : Bindings (Arg σ)) : Bindings (Arg σ) :=
  let nulls := if t.strict then .empty else .ofList (t.names.map fun name => (name, .null))
  ((args.override t.defaults).override nulls).filterNames fun name => t.names.contains name

theorem get?_completion (t : Named σ) (args : Bindings (Arg σ)) (name : String) :
    (t.completion args).get? name = if name ∈ t.names then t.completed? args name else none := by
  rw [completion, Bindings.get?_filterNames, Bindings.get?_override, Bindings.get?_override,
    completed?]
  by_cases mem : name ∈ t.names
  · cases t.strict <;> simp [mem, Bindings.get?_ofList_map]
  · simp [mem]

/-- A placeholder takes what its name stands for in the completed map, and fails if it stands for
nothing. -/
theorem resolve_eq_completed? (t : Named σ) (args : Bindings (Arg σ)) (name : String) :
    t.resolve args name =
      match t.completed? args name with
      | some value => value.encodeAs name
      | none => .fail (.missingNamedArg name) := by
  rw [resolve_eq_valueText, valueText, completed?]
  cases (args.get? name).or (t.defaults.get? name) with
  | some value => rfl
  | none => cases t.strict <;> simp

/-- A template renders what a strict one without defaults renders of the completed map. -/
theorem render_completion {t : Named σ} (consistent : t.Consistent) (args : Bindings (Arg σ)) :
    t.render args =
      ({ t with strict := true, defaults := .empty } : Named σ).render (t.completion args) := by
  refine render_congr rfl fun name mem => ?_
  have known : name ∈ t.names := consistent.mem_names.2 mem
  rw [resolve_eq_completed?, resolve_eq_completed?]
  simp [completed?, get?_completion, known]

/-- Where every name needs a value a rendering succeeds only if every name that occurs has one. -/
theorem exists_value_of_render_ok {t : Named σ} {args : Bindings (Arg σ)} {state : σ} {bytes : Bytes}
    (strict : t.strict = true) (h : ((t.render args).run state).result = .ok bytes) {name : String}
    (mem : name ∈ Token.occurrences t.tokens) :
    ∃ value, (args.get? name).or (t.defaults.get? name) = some value := by
  refine Option.ne_none_iff_exists'.1 fun missing => ?_
  have fails : ∀ now, (t.resolve args name).Fails now (.missingNamedArg name) := by
    intro now
    rw [resolve_eq_completed?, completed?, missing, strict]
    rfl
  obtain ⟨e, hfails⟩ := Eval.exists_fails_mapM_of_mem mem fails state
  obtain ⟨encoded, henc, -⟩ := Eval.result_bind_eq_ok_iff.1 h
  rw [Eval.Fails] at hfails
  rw [encodeArgs, hfails] at henc
  cases henc

theorem render_relaxed {t : Named σ} {args : Bindings (Arg σ)} {state : σ} {bytes : Bytes}
    (h : ((({ t with strict := true } : Named σ).render args).run state).result = .ok bytes) :
    ({ t with strict := false } : Named σ).render args =
      ({ t with strict := true } : Named σ).render args := by
  refine render_congr rfl fun name mem => ?_
  obtain ⟨value, found⟩ := exists_value_of_render_ok rfl h mem
  have found' : (args.get? name).or (t.defaults.get? name) = some value := found
  simp [resolve_eq_completed?, completed?, found']

end Named

/-- A positional template that does without arguments renders as the strict one does behind whose
arguments nulls are supplied. A named template renders, with the same calls and the same failures,
as the strict one without defaults does to which each name of the template is supplied with the
argument, even if it is null, or else the default, or else null if the template does without. What
a strict template makes is made as well when strictness is turned off. -/
theorem render_eq_render_completed :
    (∀ (t : Positional) (args : List (Arg σ)), args.length ≤ t.expectedArgs →
      ({ t with strict := false } : Positional).render args =
        ({ t with strict := true } : Positional).render
          (args ++ List.replicate (t.expectedArgs - args.length) .null)) ∧
    (∀ (t : Named σ) (args : Bindings (Arg σ)), t.Reachable →
      (∀ name, (t.completion args).get? name =
        if name ∈ t.names then
          ((args.get? name).or (t.defaults.get? name)).or (if t.strict then none else some .null)
        else none) ∧
      t.render args =
        ({ t with strict := true, defaults := .empty } : Named σ).render (t.completion args)) ∧
    (∀ (t : Positional) (args : List (Arg σ)) (state : σ) (bytes : Bytes),
      ((({ t with strict := true } : Positional).render args).run state).result = .ok bytes →
        (({ t with strict := false } : Positional).render args).run state =
          (({ t with strict := true } : Positional).render args).run state) ∧
    (∀ (t : Named σ) (args : Bindings (Arg σ)) (state : σ) (bytes : Bytes),
      ((({ t with strict := true } : Named σ).render args).run state).result = .ok bytes →
        (({ t with strict := false } : Named σ).render args).run state =
          (({ t with strict := true } : Named σ).render args).run state) := by
  refine ⟨fun t args enough => t.render_values enough, ?_, ?_, ?_⟩
  · intro t args reach
    exact ⟨t.get?_completion args, Named.render_completion reach.consistent args⟩
  · intro t args state bytes h
    rw [Positional.render_relaxed h]
  · intro t args state bytes h
    rw [Named.render_relaxed h]

/-- Of three names one has null for its argument, which its default does not replace, one has a
default that counts its calls, and one has neither. Supplying the counter and a null makes the same
of the strict template, with the same call. -/
theorem render_eq_render_completed_counter :
    let tick : Arg Nat := .deferred { answer := fun _ n => (.ofInt n, n + 1) }
    let p := Positional.ofTokens [.positional, .fixed [comma], .positional] true false
    let t : Named Nat := .ofTokens
      [.named "a", .fixed [comma], .named "b", .fixed [comma], .named "c"]
      (.ofList [("a", .raw [zero]), ("b", tick)]) false false
    let args : Bindings (Arg Nat) := .ofList [("a", .null)]
    [tick].length ≤ p.expectedArgs ∧ t.Reachable ∧
      (({ p with strict := false } : Positional).render [tick]).run 0 =
        (({ p with strict := true } : Positional).render [tick, .null]).run 0 ∧
      (t.completion args).get? "c" = some .null ∧
      (({ t with strict := true, defaults := .empty } : Named Nat).render (t.completion args)).run 0 =
        ⟨.ok (Json.nullText ++ [comma, zero, comma] ++ Json.nullText), [⟨none, "b"⟩], 1⟩ ∧
      (({ p with strict := false } : Positional).render [tick, tick]).run 0 =
        (({ p with strict := true } : Positional).render [tick, tick]).run 0 := by
  intro tick p t args
  obtain ⟨padded, completed, relaxed, -⟩ := render_eq_render_completed (σ := Nat)
  have compiled : (Named.compile "?a,?b,?c"
      [.defaultArgValue "a" (.raw [zero]), .defaultArgValue "b" tick, .strict false]).Yields
        0 t 0 := by
    refine ⟨[], ?_⟩
    subst t
    cbv
  have reach : t.Reachable := .compile compiled
  obtain ⟨lookup, same⟩ := completed t args reach
  refine ⟨by decide, reach, ?_, ?_, ?_, ?_⟩
  · rw [padded p [tick] (by decide)]
    rfl
  · rw [lookup "c"]
    cbv
  · rw [← same]
    cbv
  · exact relaxed p [tick, tick] 0 _ (by cbv)

end Stencil
