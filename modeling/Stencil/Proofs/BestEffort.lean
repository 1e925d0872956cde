import Mathlib
import Stencil.Proofs.Bindings
import Stencil.Proofs.Configuration

/-!
# The last option wins

An option of the library overwrites a setting, if the target has it, and else does nothing. What a
list of them leaves is therefore told setting by setting: `view_effects` says that it holds what the
last option gave to it. An option that several values are registered by is no exception, for these
have a name each and may be registered in any order.
-/

namespace Stencil

variable {σ : Type}

/-- Whether a target has what a capability is about. -/
def Settings.has (s : Settings σ) : Capability → Bool
  | .validation => s.validate.isSome
  | .strictness => s.strict.isSome
  | .defaults => s.defaults.isSome

namespace TemplateOption

/-- The capability that an option of the library needs. -/
def capability? : TemplateOption σ → Option Capability
  | validate _ => some .validation
  | strict _ => some .strictness
  | defaultArgValue _ _ => some .defaults
  | defaultArgValues _ => some .defaults
  | custom _ => none

/-- Whether a target has the capability that an option needs. -/
def appliesTo (s : Settings σ) (option : TemplateOption σ) : Bool := option.capability?.all s.has

/-- What an option of the library makes of settings. A setting that the target lacks stays away. -/
def effect (s : Settings σ) : TemplateOption σ → Settings σ
  | validate on => { s with validate := s.validate.map fun _ => on }
  | strict on => { s with strict := s.strict.map fun _ => on }
  | defaultArgValue name value => { s with defaults := s.defaults.map (·.insert name value) }
  | defaultArgValues values => { s with defaults := s.defaults.map (·.insertAll values.entries) }
  | custom _ => s

/-- What options of the library make of settings, one after the other. -/
def effects (s : Settings σ) (options : List (TemplateOption σ)) : Settings σ :=
  options.foldl effect s

@[simp] theorem effects_nil (s : Settings σ) : effects s [] = s := rfl

@[simp] theorem effects_cons (s : Settings σ) (option : TemplateOption σ)
    (options : List (TemplateOption σ)) :
    effects s (option :: options) = effects (option.effect s) options := rfl

@[simp] theorem effects_append (s : Settings σ) (before after : List (TemplateOption σ)) :
    effects s (before ++ after) = effects (effects s before) after :=
  List.foldl_append

/-- Which settings a target has never changes. -/
@[simp] theorem has_effect (s : Settings σ) (option : TemplateOption σ) :
    (option.effect s).has = s.has := by
  funext capability
  cases option <;> cases capability <;> simp [effect, Settings.has]

theorem has_effects (s : Settings σ) (options : List (TemplateOption σ)) :
    (effects s options).has = s.has := by
  induction options generalizing s with
  | nil => rfl
  | cons option options ih => rw [effects_cons, ih, has_effect]

@[simp] theorem appliesTo_effect (s : Settings σ) (option other : TemplateOption σ) :
    other.appliesTo (option.effect s) = other.appliesTo s := by
  rw [appliesTo, appliesTo, has_effect]

theorem effect_of_not_appliesTo {option : TemplateOption σ} {s : Settings σ}
    (lacks : option.appliesTo s = false) : option.effect s = s := by
  obtain ⟨validate, strict, defaults⟩ := s
  cases option <;> simp_all [appliesTo, capability?, Settings.has, effect]

/-- An option of the library changes the settings of the targets that have what it needs. -/
theorem apply_eq_change {option : TemplateOption σ} (builtIn : option.isBuiltIn = true) :
    ∃ capability f, option.capability? = some capability ∧
      option.apply = option.change capability f ∧
      ∀ s, f s = if s.has capability then some (option.effect s) else none := by
  cases option with
  | validate on =>
    refine ⟨.validation, (·.setValidate? on), rfl, rfl, fun s => ?_⟩
    cases has : s.validate <;> simp [Settings.setValidate?, Settings.has, effect, has]
  | strict on =>
    refine ⟨.strictness, (·.setStrict? on), rfl, rfl, fun s => ?_⟩
    cases has : s.strict <;> simp [Settings.setStrict?, Settings.has, effect, has]
  | defaultArgValue name value =>
    refine ⟨.defaults, (·.setDefaults? [(name, value)]), rfl, rfl, fun s => ?_⟩
    cases has : s.defaults <;> simp [Settings.setDefaults?, Settings.has, effect, has]
  | defaultArgValues values =>
    refine ⟨.defaults, (·.setDefaults? values.entries), rfl, rfl, fun s => ?_⟩
    cases has : s.defaults <;> simp [Settings.setDefaults?, Settings.has, effect, has]
  | custom action => cases builtIn

theorem run_apply_of_appliesTo {option : TemplateOption σ} (builtIn : option.isBuiltIn = true)
    {s : Settings σ} (applies : option.appliesTo s = true) (state : σ) :
    option.apply.run (s, state) = ⟨.ok (), [], option.effect s, state⟩ := by
  obtain ⟨capability, f, needs, change, hf⟩ := apply_eq_change builtIn
  have has : s.has capability = true := by simpa [appliesTo, needs] using applies
  rw [change, run_change, hf, if_pos has]
  rfl

/-- What a target lacks is not made up: the option is refused and leaves no trace. -/
theorem run_apply_of_not_appliesTo {option : TemplateOption σ} (builtIn : option.isBuiltIn = true)
    {s : Settings σ} (lacks : option.appliesTo s = false) (state : σ) :
    ∃ capability, option.capability? = some capability ∧ s.has capability = false ∧
      option.apply.run (s, state) =
        ⟨.error (.unsupportedOption option.name capability), [], s, state⟩ := by
  obtain ⟨capability, f, needs, change, hf⟩ := apply_eq_change builtIn
  have hasNot : s.has capability = false := by simpa [appliesTo, needs] using lacks
  refine ⟨capability, needs, hasNot, ?_⟩
  rw [change, run_change, hf, if_neg (Bool.eq_false_iff.1 hasNot)]
  rfl

/-- Where the target has what all of the options need, applying them does what they are for, one
after the other. -/
theorem run_applyAll_of_appliesTo {options : List (TemplateOption σ)}
    (builtIn : ∀ option ∈ options, option.isBuiltIn = true) {s : Settings σ}
    (applies : ∀ option ∈ options, option.appliesTo s = true) (state : σ) :
    (applyAll options).run (s, state) = ⟨.ok (), [], effects s options, state⟩ := by
  induction options generalizing s with
  | nil => rfl
  | cons option options ih =>
    obtain ⟨first, rest⟩ := List.forall_mem_cons.1 builtIn
    obtain ⟨firstApplies, restApplies⟩ := List.forall_mem_cons.1 applies
    have later : ∀ other ∈ options, other.appliesTo (option.effect s) = true := by
      simpa using restApplies
    rw [applyAll_cons, Eval.run_bind, run_apply_of_appliesTo first firstApplies]
    simp [ih rest later]

/-- Best effort never fails and makes no calls. It does what those options are for that the target
has the capabilities of. -/
theorem run_applyBestEffort {options : List (TemplateOption σ)}
    (builtIn : ∀ option ∈ options, option.isBuiltIn = true) (s : Settings σ) (state : σ) :
    (applyBestEffort options).run (s, state) = ⟨.ok (), [], effects s options, state⟩ := by
  induction options generalizing s with
  | nil => rfl
  | cons option options ih =>
    obtain ⟨first, rest⟩ := List.forall_mem_cons.1 builtIn
    have attempted :
        option.apply.attempt.run (s, state) = ⟨.ok (), [], option.effect s, state⟩ := by
      cases applies : option.appliesTo s with
      | true =>
        rw [Eval.run_attempt, run_apply_of_appliesTo first applies]
      | false =>
        obtain ⟨_, -, -, run⟩ := run_apply_of_not_appliesTo first applies state
        rw [Eval.run_attempt, run, effect_of_not_appliesTo applies]
    rw [applyBestEffort, Eval.run_bind, attempted]
    simp [ih rest]

/-- Options whose capability the target lacks might as well not be there. -/
theorem effects_filter (s : Settings σ) (options : List (TemplateOption σ)) :
    effects s (options.filter (appliesTo s)) = effects s options := by
  induction options generalizing s with
  | nil => rfl
  | cons option options ih =>
    have same : appliesTo (option.effect s) = appliesTo s := funext (appliesTo_effect s option)
    have rest : effects (option.effect s) (options.filter (appliesTo s)) =
        effects (option.effect s) options := same ▸ ih (option.effect s)
    cases applies : option.appliesTo s with
    | true => rw [List.filter_cons_of_pos applies, effects_cons, effects_cons, rest]
    | false =>
      rw [effect_of_not_appliesTo applies] at rest
      rw [List.filter_cons_of_neg (by simp [applies]), effects_cons,
        effect_of_not_appliesTo applies, rest]

/-! ## Setting by setting -/

/-- What an option gives to the check at construction. -/
def validate? : TemplateOption σ → Option Bool
  | validate on => some on
  | _ => none

/-- What an option gives to strictness. -/
def strict? : TemplateOption σ → Option Bool
  | strict on => some on
  | _ => none

/-- What an option registers for a name. -/
def default? (name : String) : TemplateOption σ → Option (Arg σ)
  | defaultArgValue other value => if name = other then some value else none
  | defaultArgValues values => values.get? name
  | _ => none

/-- What the last of the options gives that give anything. -/
def lastGiven? {β : Type} (given : TemplateOption σ → Option β)
    (options : List (TemplateOption σ)) : Option β := options.reverse.findSome? given

@[simp] theorem lastGiven?_nil {β : Type} (given : TemplateOption σ → Option β) :
    lastGiven? given [] = none := rfl

@[simp] theorem lastGiven?_cons {β : Type} (given : TemplateOption σ → Option β)
    (option : TemplateOption σ) (options : List (TemplateOption σ)) :
    lastGiven? given (option :: options) = (lastGiven? given options).or (given option) := by
  simp [lastGiven?]

/-- A part of the settings on which each option puts what it gives, over what was put there before,
holds in the end what the last option gave. -/
theorem view_effects {β γ : Type} (view : Settings σ → Option β) {put : Option γ → β → β}
    {given : TemplateOption σ → Option γ} (nothing : ∀ old, put none old = old)
    (again : ∀ a b old, put (a.or b) old = put a (put b old))
    (step : ∀ s option, view (effect s option) = (view s).map fun old => put (given option) old)
    (s : Settings σ) (options : List (TemplateOption σ)) :
    view (effects s options) = (view s).map fun old => put (lastGiven? given options) old := by
  induction options generalizing s with
  | nil => simp [nothing]
  | cons option options ih =>
    rw [effects_cons, ih, step, Option.map_map, lastGiven?_cons]
    congr 1
    funext old
    exact (again _ _ old).symm

/-- The check at construction is what the last option that sets it says, if the target has one. -/
theorem validate_effects (s : Settings σ) (options : List (TemplateOption σ)) :
    (effects s options).validate = s.validate.map fun old =>
      (lastGiven? validate? options).getD old := by
  refine view_effects Settings.validate (fun _ => rfl) (fun _ _ _ => Option.getD_or) ?_ s options
  intro s option
  cases option <;> simp only [effect, validate?, Option.getD_some, Option.getD_none, Option.map_id']

/-- Strictness is what the last option that sets it says, if the target has any. -/
theorem strict_effects (s : Settings σ) (options : List (TemplateOption σ)) :
    (effects s options).strict = s.strict.map fun old =>
      (lastGiven? strict? options).getD old := by
  refine view_effects Settings.strict (fun _ => rfl) (fun _ _ _ => Option.getD_or) ?_ s options
  intro s option
  cases option <;> simp only [effect, strict?, Option.getD_some, Option.getD_none, Option.map_id']

/-- The default of a name is the one that was registered last, or else the one from before. -/
theorem defaults_effects (s : Settings σ) (options : List (TemplateOption σ)) (name : String) :
    (effects s options).defaults.map (·.get? name) = s.defaults.map fun old =>
      (lastGiven? (default? name) options).or (old.get? name) := by
  have step (s : Settings σ) (option : TemplateOption σ) :
      (effect s option).defaults.map (·.get? name) =
        (s.defaults.map (·.get? name)).map fun old => (option.default? name).or old := by
    cases option with
    | defaultArgValue other value =>
      by_cases same : name = other <;> simp [effect, default?, Function.comp_def, same]
    | defaultArgValues values =>
      have found (old : Bindings (Arg σ)) : (old.insertAll values.entries).get? name =
          (values.get? name).or (old.get? name) := Bindings.get?_override values old name
      simp [effect, default?, Function.comp_def, found]
    | _ => simp [effect, default?, Function.comp_def]
  have written := view_effects (fun s => s.defaults.map (·.get? name))
    (fun _ => Option.none_or) (fun _ _ _ => Option.or_assoc) step s options
  rw [Option.map_map] at written
  exact written

/-! ## One value at a time -/

/-- The options do one after the other what an option does at once: values that it registers are
registered one by one, in whatever order. -/
inductive Unrolls : TemplateOption σ → List (TemplateOption σ) → Prop where
  | single (option : TemplateOption σ) : Unrolls option [option]
  | values {values : Bindings (Arg σ)} {visited : List (String × Arg σ)} :
    visited.Perm values.entries →
    Unrolls (defaultArgValues values) (visited.map fun e => defaultArgValue e.1 e.2)

theorem effects_defaultArgValue (s : Settings σ) (visited : List (String × Arg σ)) :
    effects s (visited.map fun e => defaultArgValue e.1 e.2) =
      { s with defaults := s.defaults.map (·.insertAll visited) } := by
  induction visited generalizing s with
  | nil => simp
  | cons e visited ih => simp [ih, effect, Function.comp_def]

/-- An option has the effect of the options that do the same one after the other, since the last
value for a name holds and a map has one value for each. -/
theorem Unrolls.effects_eq {option : TemplateOption σ} {singles : List (TemplateOption σ)}
    (h : Unrolls option singles) (s : Settings σ) : effects s singles = option.effect s := by
  cases h with
  | single => rfl
  | values perm =>
    rw [effects_defaultArgValue, effect]
    simp only [Bindings.insertAll_eq_of_perm _ perm]

theorem Unrolls.isBuiltIn {option single : TemplateOption σ} {singles : List (TemplateOption σ)}
    (h : Unrolls option singles) (builtIn : option.isBuiltIn = true) (mem : single ∈ singles) :
    single.isBuiltIn = true := by
  cases h with
  | single => exact List.mem_singleton.1 mem ▸ builtIn
  | values =>
    obtain ⟨e, -, rfl⟩ := List.mem_map.1 mem
    rfl

theorem Unrolls.appliesTo {option single : TemplateOption σ} {singles : List (TemplateOption σ)}
    (h : Unrolls option singles) {s : Settings σ} (applies : option.appliesTo s = true)
    (mem : single ∈ singles) : single.appliesTo s = true := by
  cases h with
  | single => exact List.mem_singleton.1 mem ▸ applies
  | values =>
    obtain ⟨e, -, rfl⟩ := List.mem_map.1 mem
    exact applies

/-- Options have the same effect when each is replaced by others that do the same one after the
other. -/
theorem effects_flatten {options : List (TemplateOption σ)}
    {unrolled : List (List (TemplateOption σ))}
    (h : List.Forall₂ Unrolls options unrolled) (s : Settings σ) :
    effects s unrolled.flatten = effects s options := by
  induction h generalizing s with
  | nil => rfl
  | cons first _ ih => rw [List.flatten_cons, effects_append, first.effects_eq, ih, effects_cons]

theorem forall_mem_flatten {options : List (TemplateOption σ)}
    {unrolled : List (List (TemplateOption σ))} {P : TemplateOption σ → Prop}
    (h : List.Forall₂ Unrolls options unrolled) (hoptions : ∀ option ∈ options, P option)
    (keeps : ∀ option singles, Unrolls option singles → P option → ∀ single ∈ singles, P single) :
    ∀ single ∈ unrolled.flatten, P single := by
  induction h with
  | nil => simp
  | cons first _ ih =>
    obtain ⟨hfirst, hrest⟩ := List.forall_mem_cons.1 hoptions
    intro single mem
    rcases List.mem_append.1 mem with inFirst | inRest
    · exact keeps _ _ first hfirst single inFirst
    · exact ih hrest single inRest

theorem exists_first_not_appliesTo {options : List (TemplateOption σ)} {s : Settings σ}
    {option : TemplateOption σ} (mem : option ∈ options) (lacks : option.appliesTo s = false) :
    ∃ before first after, options = before ++ first :: after ∧
      (∀ earlier ∈ before, earlier.appliesTo s = true) ∧ first.appliesTo s = false := by
  have some_lacks : (options.find? fun option => !option.appliesTo s).isSome = true :=
    List.find?_isSome.2 ⟨option, mem, by simp [lacks]⟩
  obtain ⟨first, found⟩ := Option.isSome_iff_exists.1 some_lacks
  obtain ⟨firstLacks, before, after, split, earlier⟩ := List.find?_eq_some_iff_append.1 found
  refine ⟨before, first, after, split, fun other inBefore => ?_, by simpa using firstLacks⟩
  simpa using earlier other inBefore

/-- Options up to one whose capability the target lacks have the effect of those before it. -/
theorem run_applyAll_of_first {before after : List (TemplateOption σ)} {option : TemplateOption σ}
    (builtIn : ∀ other ∈ before ++ option :: after, other.isBuiltIn = true) {s : Settings σ}
    (applies : ∀ earlier ∈ before, earlier.appliesTo s = true)
    (lacks : option.appliesTo s = false) (state : σ) :
    ∃ capability, option.capability? = some capability ∧ s.has capability = false ∧
      (applyAll before).run (s, state) = ⟨.ok (), [], effects s before, state⟩ ∧
      (applyAll (before ++ option :: after)).run (s, state) =
        ⟨.error (.unsupportedOption option.name capability), [], effects s before, state⟩ := by
  have builtInBefore : ∀ other ∈ before, other.isBuiltIn = true := fun other mem =>
    builtIn other (List.mem_append_left _ mem)
  have builtInOption : option.isBuiltIn = true :=
    builtIn option (List.mem_append_right _ List.mem_cons_self)
  have hbefore := run_applyAll_of_appliesTo builtInBefore applies state
  have lacksThen : option.appliesTo (effects s before) = false := by
    rw [appliesTo, has_effects]
    exact lacks
  obtain ⟨capability, needs, hasNot, hoption⟩ :=
    run_apply_of_not_appliesTo builtInOption lacksThen state
  rw [has_effects] at hasNot
  exact ⟨capability, needs, hasNot, hbefore, run_applyAll_of_fails hbefore hoption⟩

/-- Best effort makes of settings what applying just those options makes of them whose capability
the target has: the check at construction, strictness and the default value of each name are what
the last of these options gave, or else as they were, whatever the order in which the values of one
option are registered. Applying all options fails if and only if the target lacks the capability of
one; the first such option is named, and only the options before it have had an effect. -/
theorem run_applyBestEffort_eq_run_applyAll {options : List (TemplateOption σ)}
    (builtIn : ∀ option ∈ options, option.isBuiltIn = true) (s : Settings σ) (state : σ) :
    (∃ last,
      (applyBestEffort options).run (s, state) = ⟨.ok (), [], last, state⟩ ∧
      (applyAll (options.filter (appliesTo s))).run (s, state) = ⟨.ok (), [], last, state⟩ ∧
      (∀ unrolled, List.Forall₂ Unrolls (options.filter (appliesTo s)) unrolled →
        (applyAll unrolled.flatten).run (s, state) = ⟨.ok (), [], last, state⟩) ∧
      (last.validate = s.validate.map fun old =>
        (lastGiven? validate? (options.filter (appliesTo s))).getD old) ∧
      (last.strict = s.strict.map fun old =>
        (lastGiven? strict? (options.filter (appliesTo s))).getD old) ∧
      ∀ name, last.defaults.map (·.get? name) = s.defaults.map fun old =>
        (lastGiven? (default? name) (options.filter (appliesTo s))).or (old.get? name)) ∧
    ((∃ e, (applyAll options).Fails (s, state) e) ↔
      ∃ option ∈ options, option.appliesTo s = false) ∧
    ∀ before option after, options = before ++ option :: after →
      (∀ earlier ∈ before, earlier.appliesTo s = true) → option.appliesTo s = false →
      ∃ capability mid, option.capability? = some capability ∧ s.has capability = false ∧
        (applyAll before).run (s, state) = ⟨.ok (), [], mid, state⟩ ∧
        (applyAll options).run (s, state) =
          ⟨.error (.unsupportedOption option.name capability), [], mid, state⟩ := by
  have applied : ∀ option ∈ options.filter (appliesTo s), option.appliesTo s = true :=
    fun option mem => (List.mem_filter.1 mem).2
  have builtInApplied : ∀ option ∈ options.filter (appliesTo s), option.isBuiltIn = true :=
    fun option mem => builtIn option (List.mem_filter.1 mem).1
  refine ⟨⟨effects s (options.filter (appliesTo s)), ?_, ?_, ?_, ?_, ?_, ?_⟩, ⟨?_, ?_⟩, ?_⟩
  · rw [run_applyBestEffort builtIn, effects_filter]
  · exact run_applyAll_of_appliesTo builtInApplied applied state
  · intro unrolled h
    have singlesBuiltIn := forall_mem_flatten h builtInApplied
      fun _ _ unrolls builtIn _ mem => unrolls.isBuiltIn builtIn mem
    have singlesApply := forall_mem_flatten h applied
      fun _ _ unrolls applies _ mem => unrolls.appliesTo applies mem
    rw [run_applyAll_of_appliesTo singlesBuiltIn singlesApply, effects_flatten h]
  · exact validate_effects s _
  · exact strict_effects s _
  · exact defaults_effects s _
  · rintro ⟨e, fails⟩
    by_contra none
    have applies : ∀ option ∈ options, option.appliesTo s = true := by simpa using none
    rw [Eval.Fails, run_applyAll_of_appliesTo builtIn applies] at fails
    cases fails
  · rintro ⟨option, mem, lacks⟩
    obtain ⟨before, first, after, rfl, earlier, firstLacks⟩ := exists_first_not_appliesTo mem lacks
    obtain ⟨capability, -, -, -, run⟩ := run_applyAll_of_first builtIn earlier firstLacks state
    exact ⟨.unsupportedOption first.name capability, by rw [Eval.Fails, run]⟩
  · rintro before option after rfl applies lacks
    obtain ⟨capability, needs, hasNot, hbefore, run⟩ :=
      run_applyAll_of_first builtIn applies lacks state
    exact ⟨capability, effects s before, needs, hasNot, hbefore, run⟩

open Ascii in
/-- The target has no strictness. The last option for a name holds, `a` of the one that registers
two values and `b` of one behind it, and it makes no difference which of the two values comes
first. -/
theorem run_applyBestEffort_lenient :
    let s : Settings Unit := ⟨some false, none, some .empty⟩
    let values : Bindings (Arg Unit) := .ofList [("a", .raw [zero]), ("b", .raw [zero + 1])]
    let options : List (TemplateOption Unit) :=
      [defaultArgValue "a" .null, strict true, defaultArgValues values, validate true,
        defaultArgValue "b" .null]
    let unrolled : List (List (TemplateOption Unit)) :=
      [[defaultArgValue "a" .null],
        [defaultArgValue "b" (.raw [zero + 1]), defaultArgValue "a" (.raw [zero])],
        [validate true], [defaultArgValue "b" .null]]
    let last : Settings Unit := ⟨some true, none, some (.ofList [("a", .raw [zero]), ("b", .null)])⟩
    (∀ option ∈ options, option.isBuiltIn = true) ∧
      (applyBestEffort options).run (s, ()) = ⟨.ok (), [], last, ()⟩ ∧
      (applyAll unrolled.flatten).run (s, ()) = ⟨.ok (), [], last, ()⟩ ∧
      (applyAll options).run (s, ()) =
        ⟨.error (.unsupportedOption "Strict" .strictness), [],
          ⟨some false, none, some (.ofList [("a", .null)])⟩, ()⟩ := by
  intro s values options unrolled last
  have builtIn : ∀ option ∈ options, option.isBuiltIn = true := by simp [options, isBuiltIn]
  obtain ⟨⟨_, best, -, anyOrder, -⟩, -, first⟩ := run_applyBestEffort_eq_run_applyAll builtIn s ()
  have swapped : [("b", .raw [zero + 1]), ("a", .raw [zero])].Perm values.entries :=
    .swap _ _ []
  have unrolls : List.Forall₂ Unrolls (options.filter (appliesTo s)) unrolled :=
    .cons (.single _) (.cons (.values swapped) (.cons (.single _) (.cons (.single _) .nil)))
  have reached : (applyBestEffort options).run (s, ()) = ⟨.ok (), [], last, ()⟩ := by cbv
  have applies : ∀ earlier ∈ [defaultArgValue "a" .null], earlier.appliesTo s = true := by
    simp [appliesTo, capability?, s, Settings.has]
  have registered : (applyAll [defaultArgValue "a" .null]).run (s, ()) =
      ⟨.ok (), [], ⟨some false, none, some (.ofList [("a", .null)])⟩, ()⟩ := by cbv
  obtain ⟨_, _, needs, -, before, refused⟩ :=
    first [defaultArgValue "a" .null] (strict true) _ rfl applies rfl
  refine ⟨builtIn, reached, ?_, ?_⟩
  · rw [anyOrder unrolled unrolls, ← best, reached]
  · cases needs
    rw [registered] at before
    cases before
    exact refused

end TemplateOption

end Stencil
