import Mathlib
import Stencil.Proofs.BestEffort
import Stencil.Proofs.Named.Relevance

/-!
# Configuring before or after specializing

Configuring a template that stands overwrites its settings and leaves its tokens alone, so a
template may be configured before some of its names are bound or after. The defaults differ then:
binding drops those of the names that it binds and of names that do not occur, and a later
registration may bring them back. Nobody can tell, since no such name is looked up any more.
-/

namespace Stencil.Named

open Ascii TemplateOption

variable {σ : Type}

/-- One act of configuring a template that stands. -/
inductive Adjustment (σ : Type) where
  | setStrict (on : Bool)
  | setValidate (on : Bool)
  | setDefault (name : String) (value : Arg σ)
  | setDefaults (values : Bindings (Arg σ))
  | bestEffort (options : List (TemplateOption σ))
    (builtIn : ∀ option ∈ options, option.isBuiltIn = true)

/-- The template after an act of configuration. -/
def adjust (t : Named σ) : Adjustment σ → Eval σ (Named σ)
  | .setStrict on => pure { t with strict := on }
  | .setValidate on => pure { t with validate := on }
  | .setDefault name value => pure (t.setDefault name value)
  | .setDefaults values => pure (t.setDefaults values)
  | .bestEffort options _ => t.options options

/-- The template after acts of configuration, one after the other. -/
def adjustAll (t : Named σ) (steps : List (Adjustment σ)) : Eval σ (Named σ) :=
  steps.foldlM adjust t

/-- The options that do what an act of configuration does. -/
def Adjustment.asOptions : Adjustment σ → List (TemplateOption σ)
  | setStrict on => [.strict on]
  | setValidate on => [.validate on]
  | setDefault name value => [.defaultArgValue name value]
  | setDefaults values => [.defaultArgValues values]
  | bestEffort options _ => options

/-- The template with the settings that options of the library make of its own. -/
def configured (t : Named σ) (options : List (TemplateOption σ)) : Named σ :=
  t.withSettings (effects t.settings options)

/-- A template has every setting, and keeps it. -/
theorem exists_settings_eq_effects (t : Named σ) (options : List (TemplateOption σ)) :
    ∃ u : Named σ, u.settings = effects t.settings options := by
  induction options generalizing t with
  | nil => exact ⟨t, rfl⟩
  | cons option options ih =>
    have step : ∃ u : Named σ, u.settings = option.effect t.settings := by
      cases option with
      | validate on => exact ⟨{ t with validate := on }, rfl⟩
      | strict on => exact ⟨{ t with strict := on }, rfl⟩
      | defaultArgValue name value => exact ⟨t.setDefault name value, rfl⟩
      | defaultArgValues values => exact ⟨t.setDefaults values, rfl⟩
      | custom action => exact ⟨t, rfl⟩
    obtain ⟨u, hu⟩ := step
    rw [effects_cons, ← hu]
    exact ih u

/-- The settings of a configured template are what the options make of its settings. -/
theorem settings_configured (t : Named σ) (options : List (TemplateOption σ)) :
    (t.configured options).settings = effects t.settings options := by
  obtain ⟨u, hu⟩ := exists_settings_eq_effects t options
  rw [configured, ← hu]
  rfl

theorem configured_append (t : Named σ) (before after : List (TemplateOption σ)) :
    t.configured (before ++ after) = (t.configured before).configured after := by
  obtain ⟨u, hu⟩ := exists_settings_eq_effects (t.configured before) after
  rw [configured, effects_append, ← settings_configured, ← hu, configured, ← hu]
  rfl

theorem adjust_eq_pure (t : Named σ) (step : Adjustment σ) :
    t.adjust step = pure (t.configured step.asOptions) := by
  cases step with
  | bestEffort options builtIn =>
    ext state : 1
    rw [adjust, Named.options, Eval.run_bind, Eval.run_withLocal, run_applyBestEffort builtIn]
    rfl
  | _ => rfl

/-- Adjusting a template step by step never fails and configures it with the options of all steps.
-/
theorem adjustAll_eq_pure (t : Named σ) (steps : List (Adjustment σ)) :
    t.adjustAll steps = pure (t.configured (steps.flatMap Adjustment.asOptions)) := by
  induction steps generalizing t with
  | nil => rfl
  | cons step steps ih =>
    rw [adjustAll, List.foldlM_cons, adjust_eq_pure, pure_bind, List.flatMap_cons,
      configured_append, ← ih]
    rfl

theorem strict_configured (t : Named σ) (options : List (TemplateOption σ)) :
    (t.configured options).strict = (lastGiven? strict? options).getD t.strict := by
  simp [configured, withSettings, strict_effects, settings]

theorem validate_configured (t : Named σ) (options : List (TemplateOption σ)) :
    (t.configured options).validate = (lastGiven? validate? options).getD t.validate := by
  simp [configured, withSettings, validate_effects, settings]

theorem get?_defaults_configured (t : Named σ) (options : List (TemplateOption σ))
    (name : String) : (t.configured options).defaults.get? name =
      (lastGiven? (default? name) options).or (t.defaults.get? name) := by
  have written := defaults_effects t.settings options name
  rw [← settings_configured] at written
  exact Option.some.inj written

/-- Everything that can be observed of the templates is the same: tokens, length, flags and expected
arguments, and what they make of any arguments, rendered or bound. -/
structure Indistinguishable (t u : Named σ) : Prop where
  tokens : t.tokens = u.tokens
  fixedLen : t.fixedLen = u.fixedLen
  strict : t.strict = u.strict
  validate : t.validate = u.validate
  expectedArgs : t.expectedArgs = u.expectedArgs
  render : ∀ args, t.render args = u.render args
  specialize : ∀ args, t.specialize args = u.specialize args

/-- Whether a name that does not occur has a default cannot be observed, nor which. -/
theorem indistinguishable_of_agree {t u : Named σ} (kept : t.names = Token.names t.tokens)
    (tokens : t.tokens = u.tokens) (names : t.names = u.names) (fixedLen : t.fixedLen = u.fixedLen)
    (strict : t.strict = u.strict) (validate : t.validate = u.validate)
    (defaults : t.defaults.AgreeOn (Token.occurrences t.tokens) u.defaults) :
    Indistinguishable t u := by
  have unread (args : Bindings (Arg σ)) : t.defaults.AgreeOn (t.unbound args) u.defaults :=
    fun name mem => defaults name (mem_unbound.1 mem).1
  refine ⟨tokens, fixedLen, strict, validate, ?_, fun args => ?_, fun args => ?_⟩
  · apply Bindings.ext_get?
    intro name
    rw [get?_expectedArgs, get?_expectedArgs, ← names]
    by_cases mem : name ∈ t.names
    · have occurs : name ∈ Token.occurrences t.tokens := Token.mem_names.1 (kept ▸ mem)
      rw [if_pos mem, if_pos mem, Bindings.contains, Bindings.contains, defaults name occurs]
    · rw [if_neg mem, if_neg mem]
  · exact render_eq_of_agree tokens strict (fun _ _ => rfl) (unread args)
  · exact specialize_eq_of_agree tokens strict validate (fun _ _ => rfl) (unread args)

/-! ## Exchanging the order -/

/-- The names that are left when a sequence is filled have the same defaults whether the template
was configured before or is configured then. -/
theorem agreeOn_defaults_configured {t : Named σ} {args : Bindings (Arg σ)} {tokens : List Token}
    (left : Token.occurrences tokens = t.unbound args) (options : List (TemplateOption σ)) :
    let early := ofTokens tokens (t.remainingDefaults args) t.strict t.validate
    (early.configured options).defaults.AgreeOn (Token.occurrences tokens)
      ((t.configured options).remainingDefaults args) := by
  intro early name mem
  obtain ⟨occurs, absent⟩ := mem_unbound.1 (left ▸ mem)
  have before : early.defaults.get? name = t.defaults.get? name :=
    get?_remainingDefaults occurs absent
  have after : ((t.configured options).remainingDefaults args).get? name =
      (t.configured options).defaults.get? name := get?_remainingDefaults occurs absent
  rw [get?_defaults_configured, before, after, get?_defaults_configured]

/-- Options do the same before and after tokens are filled, as far as can be observed. -/
theorem indistinguishable_configured {t : Named σ} {args : Bindings (Arg σ)} {tokens : List Token}
    (left : Token.occurrences tokens = t.unbound args) (options : List (TemplateOption σ)) :
    Indistinguishable
      ((ofTokens tokens (t.remainingDefaults args) t.strict t.validate).configured options)
      (ofTokens tokens ((t.configured options).remainingDefaults args)
        (t.configured options).strict (t.configured options).validate) := by
  refine indistinguishable_of_agree rfl rfl rfl rfl ?_ ?_ (agreeOn_defaults_configured left options)
  · exact (strict_configured _ options).trans (strict_configured t options).symm
  · exact (validate_configured _ options).trans (validate_configured t options).symm

theorem stateFree_bindArgs {args : Bindings (Arg σ)} (free : args.StateFree) (ts : List Token) :
    (bindArgs args ts).StateFree := by
  induction ts with
  | nil => exact Eval.agree_pure _
  | cons t ts ih =>
    rw [bindArgs_cons]
    exact (stateFree_bindToken free t).bind fun _ => ih.bind fun _ => Eval.agree_pure _

/-- Binding fails or succeeds as it does after configuration, with the same calls, and what was
configured after binding cannot be told from what was configured before. -/
theorem run_specialize_configured (t : Named σ) (options : List (TemplateOption σ))
    (args : Bindings (Arg σ)) (state : σ) :
    match (t.specialize args).run state with
    | ⟨.ok s, calls, last⟩ => ∃ v,
      ((t.configured options).specialize args).run state = ⟨.ok v, calls, last⟩ ∧
        Indistinguishable (s.configured options) v
    | ⟨.error e, calls, last⟩ =>
      ((t.configured options).specialize args).run state = ⟨.error e, calls, last⟩ := by
  have tokens : (t.configured options).tokens = t.tokens := rfl
  rw [specialize_eq, specialize_eq, tokens, Eval.run_bind, Eval.run_bind]
  rcases bound : (bindArgs args t.tokens).run state with ⟨e | filled, calls, last⟩
  · rfl
  · have left : Token.occurrences (Token.merge filled) = t.unbound args := by
      rw [Token.occurrences_merge]
      exact (binds_of_bindArgs_yields ⟨calls, bound⟩).occurrences_eq
    exact ⟨_, rfl, indistinguishable_configured left options⟩

/-- Binding values that are the same from every state makes the same template from every state. -/
theorem stateFree_specialize {args : Bindings (Arg σ)} (free : args.StateFree) (t : Named σ) :
    (t.specialize args).StateFree := by
  rw [specialize_eq]
  exact (stateFree_bindArgs free t.tokens).bind fun _ => Eval.agree_pure _

/-- Configuring a template neither fails nor calls anything, and it makes no difference whether
names are bound before or after: binding makes the same calls and fails alike, and otherwise the
two templates cannot be told apart. If the values do not depend on the states of providers then the
bindings may also be made from different states. -/
theorem specialize_adjustAll (t : Named σ) (steps : List (Adjustment σ)) (a : Bindings (Arg σ)) :
    ∃ u, t.adjustAll steps = pure u ∧
      (∀ state, match (t.specialize a).run state with
        | ⟨.ok s, calls, last⟩ => ∃ w v, s.adjustAll steps = pure w ∧
          (u.specialize a).run state = ⟨.ok v, calls, last⟩ ∧ Indistinguishable w v
        | ⟨.error e, calls, last⟩ => (u.specialize a).run state = ⟨.error e, calls, last⟩) ∧
      (a.StateFree → ∀ before now, match ((t.specialize a).run before).result with
        | .ok s => ∃ w v, s.adjustAll steps = pure w ∧
          ((u.specialize a).run now).result = .ok v ∧ Indistinguishable w v
        | .error e => ((u.specialize a).run now).result = .error e) := by
  have same := run_specialize_configured t (steps.flatMap Adjustment.asOptions) a
  refine ⟨t.configured (steps.flatMap Adjustment.asOptions), adjustAll_eq_pure t steps, ?_, ?_⟩
  · intro state
    have fromState := same state
    rcases bound : (t.specialize a).run state with ⟨e | s, calls, last⟩
    · rw [bound] at fromState
      exact fromState
    · rw [bound] at fromState
      obtain ⟨v, hv, alike⟩ := fromState
      exact ⟨_, v, adjustAll_eq_pure s steps, hv, alike⟩
  · intro free before now
    have fromState := same before
    have elsewhere := stateFree_specialize free
      (t.configured (steps.flatMap Adjustment.asOptions)) now before
    rcases bound : (t.specialize a).run before with ⟨e | s, calls, last⟩
    · rw [bound] at fromState
      exact elsewhere.trans (congrArg Outcome.result fromState)
    · rw [bound] at fromState
      obtain ⟨v, hv, alike⟩ := fromState
      exact ⟨_, v, adjustAll_eq_pure s steps, elsewhere.trans (congrArg Outcome.result hv), alike⟩

/-- The name `a` is bound and `z` does not occur. Defaults for them that are registered behind the
binding stay, and those that are registered before it do not. -/
theorem specialize_adjustAll_defaults :
    let t : Named Unit := ofTokens [.named "a", .fixed [comma], .named "b"]
      (.ofList [("a", .null)]) true true
    let steps : List (Adjustment Unit) :=
      [.setStrict false, .setDefault "a" (.raw [zero + 1]),
        .bestEffort [.defaultArgValues (.ofList [("b", .raw [zero + 2]), ("z", .null)])] (by
          simp [isBuiltIn]),
        .setValidate false]
    let a : Bindings (Arg Unit) := .ofList [("a", .raw [zero])]
    let filled : List Token := [.fixed [zero, comma], .named "b"]
    let early : Named Unit := ofTokens filled (.ofList
      [("a", .raw [zero + 1]), ("b", .raw [zero + 2]), ("z", .null)]) false false
    let late : Named Unit := ofTokens filled (.ofList [("b", .raw [zero + 2])]) false false
    a.StateFree ∧
      ((t.specialize a >>= fun s => s.adjustAll steps).run ()).result = .ok early ∧
      ((t.adjustAll steps >>= fun u => u.specialize a).run ()).result = .ok late ∧
      Indistinguishable early late := by
  intro t steps a filled early late
  have free : a.StateFree := by
    refine Bindings.stateFree_empty.insert ?_
    rw [Arg.encodeAs_raw]
    exact Eval.agree_pure _
  let s : Named Unit := ofTokens filled .empty true true
  have bound : ((t.specialize a).run ()).result = .ok s := by cbv
  have configuredLater : ((s.adjustAll steps).run ()).result = .ok early := by cbv
  have boundLater : ((t.adjustAll steps >>= fun u => u.specialize a).run ()).result = .ok late := by
    cbv
  obtain ⟨u, hu, -, states⟩ := specialize_adjustAll t steps a
  have exchanged := states free () ()
  rw [bound] at exchanged
  obtain ⟨w, v, hw, hv, alike⟩ := exchanged
  rw [hw] at configuredLater
  rw [hu, pure_bind, hv] at boundLater
  cases configuredLater
  cases boundLater
  refine ⟨free, ?_, ?_, alike⟩
  · rw [Eval.result_bind, bound]
    exact congrArg (fun x => (x.run ()).result) hw
  · rw [hu, pure_bind, hv]

end Stencil.Named
