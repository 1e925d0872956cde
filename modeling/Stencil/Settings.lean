import Stencil.Arg.Encode
import Stencil.Bindings

/-!
# Settings and options

A template, or anything else that is configured, shows options the settings it has. An option
changes one of them and fails if the target lacks it; which settings a target has never changes.
-/

namespace Stencil

/-- The settings of a target: whether construction checks that it makes JSON, whether every
argument has to be supplied, and the values of arguments that are not. None stands for a setting
that the target lacks. -/
structure Settings (σ : Type) where
  validate : Option Bool
  strict : Option Bool
  defaults : Option (Bindings (Arg σ))

/-- A computation that reads and changes the settings of a target. Changes made before a failure
stay. -/
abbrev Configure (σ α : Type) : Type := Eval (Settings σ × σ) α

namespace Settings

variable {σ : Type}

/-- Sets whether construction checks the template, if the target has that setting. -/
def setValidate? (s : Settings σ) (on : Bool) : Option (Settings σ) :=
  s.validate.map fun _ => { s with validate := some on }

/-- Sets whether every argument has to be supplied, if the target has that setting. -/
def setStrict? (s : Settings σ) (on : Bool) : Option (Settings σ) :=
  s.strict.map fun _ => { s with strict := some on }

/-- Registers default values in turn, if the target has a registry. -/
def setDefaults? (s : Settings σ) (entries : List (String × Arg σ)) : Option (Settings σ) :=
  s.defaults.map fun defaults => { s with defaults := some (defaults.insertAll entries) }

/-- The values of `s` for the settings that `base` has, and none besides. -/
def restrictTo (s base : Settings σ) : Settings σ where
  validate := base.validate.map s.validate.getD
  strict := base.strict.map s.strict.getD
  defaults := base.defaults.map s.defaults.getD

end Settings

/-- One act of configuration. -/
inductive TemplateOption (σ : Type) where
  /-- Turns the check at construction on or off. -/
  | validate (on : Bool)
  /-- Turns strictness on or off. -/
  | strict (on : Bool)
  /-- Registers a default value. -/
  | defaultArgValue (name : String) (value : Arg σ)
  /-- Registers several default values. -/
  | defaultArgValues (values : Bindings (Arg σ))
  /-- Does what its owner likes with the settings that the target has. -/
  | custom (action : Configure σ Unit)

namespace TemplateOption

variable {σ : Type}

/-- What an option is called in messages. -/
def name : TemplateOption σ → String
  | validate _ => "Validate"
  | strict _ => "Strict"
  | defaultArgValue _ _ => "DefaultArgValue"
  | defaultArgValues _ => "DefaultArgValues"
  | custom _ => "Custom"

/-- Puts changed settings in place, or fails for want of a capability. -/
def change (option : TemplateOption σ) (capability : Capability)
    (f : Settings σ → Option (Settings σ)) : Configure σ Unit := fun (settings, state) =>
  match f settings with
  | some settings => ⟨.ok (), [], settings, state⟩
  | none => ⟨.error (.unsupportedOption option.name capability), [], settings, state⟩

/-- Runs the action of a custom option, which sees and changes only the settings that are there. -/
def perform (action : Configure σ Unit) : Configure σ Unit := fun (settings, state) =>
  let outcome := action (settings, state)
  { outcome with state := (outcome.state.1.restrictTo settings, outcome.state.2) }

/-- Applies an option. -/
def apply (option : TemplateOption σ) : Configure σ Unit :=
  match option with
  | validate on => option.change .validation (·.setValidate? on)
  | strict on => option.change .strictness (·.setStrict? on)
  | defaultArgValue name value => option.change .defaults (·.setDefaults? [(name, value)])
  | defaultArgValues values => option.change .defaults (·.setDefaults? values.entries)
  | custom action => perform action

/-- Applies options in order up to the first that fails. -/
def applyAll : List (TemplateOption σ) → Configure σ Unit
  | [] => pure ()
  | option :: options => do
    option.apply
    applyAll options

/-- Applies options in order, whether or not earlier ones failed. -/
def applyBestEffort : List (TemplateOption σ) → Configure σ Unit
  | [] => pure ()
  | option :: options => do
    option.apply.attempt
    applyBestEffort options

end TemplateOption

end Stencil
