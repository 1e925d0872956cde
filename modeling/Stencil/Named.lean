import Stencil.Json.Recogniser
import Stencil.Settings
import Stencil.Token.Scan

/-!
# Named templates

Templates whose placeholders take the argument of their name, as often as the name occurs. A name
may have a default value for renderings that supply none.
-/

namespace Stencil

/-- A template with named placeholders: its merged tokens, the names that occur in them, the
default values, how many fixed octets the tokens have, whether every name needs a value, and
whether construction checks that it makes JSON. -/
structure Named (σ : Type) where
  tokens : List Token
  names : List String
  defaults : Bindings (Arg σ)
  fixedLen : Nat
  strict : Bool
  validate : Bool

namespace Named

variable {σ : Type}

/-- The template of a sequence of tokens. -/
def ofTokens (tokens : List Token) (defaults : Bindings (Arg σ)) (strict validate : Bool) :
    Named σ where
  tokens
  names := Token.names tokens
  defaults
  fixedLen := Token.fixedLen tokens
  strict
  validate

/-- The names of a template, each with whether it has a default value. -/
def expectedArgs (t : Named σ) : Bindings Bool :=
  .ofList (t.names.map fun name => (name, t.defaults.contains name))

/-- Registers a default value. The name need not occur in the template. -/
def setDefault (t : Named σ) (name : String) (value : Arg σ) : Named σ :=
  { t with defaults := t.defaults.insert name value }

/-- Registers default values. -/
def setDefaults (t : Named σ) (values : Bindings (Arg σ)) : Named σ :=
  { t with defaults := t.defaults.insertAll values.entries }

/-- The text of the argument that a name stands for: the supplied one, even if it is null, or the
default, or null unless every name needs a value. -/
def resolve (t : Named σ) (args : Bindings (Arg σ)) (name : String) : Eval σ Bytes :=
  match args.get? name with
  | some value => value.encodeAs name
  | none =>
    match t.defaults.get? name with
    | some value => value.encodeAs name
    | none => if t.strict then .fail (.missingNamedArg name) else pure Json.nullText

/-- The texts of the arguments of all placeholders, in order. -/
def encodeArgs (t : Named σ) (args : Bindings (Arg σ)) : Eval σ (List Bytes) :=
  (Token.occurrences t.tokens).mapM (t.resolve args)

/-- The octets that a template makes of arguments. -/
def render (t : Named σ) (args : Bindings (Arg σ)) : Eval σ Bytes := do
  let encoded ← t.encodeArgs args
  return (Token.write t.fixedLen t.tokens encoded).octets

/-- The text that a template makes of arguments. -/
def renderString (t : Named σ) (args : Bindings (Arg σ)) : Eval σ String := do
  match Utf8.decode? (← t.render args) with
  | some text => return text
  | none => .fail .invalidUtf8

/-- Fills the placeholders of a sequence whose name is bound. -/
def bindArgs (args : Bindings (Arg σ)) : List Token → Eval σ (List Token)
  | [] => pure []
  | .named name :: ts =>
    match args.get? name with
    | some value => do
      let bytes ← value.encodeAs name
      return .fixed bytes :: (← bindArgs args ts)
    | none => return .named name :: (← bindArgs args ts)
  | t :: ts => return t :: (← bindArgs args ts)

/-- The template in which the placeholders of bound names are filled. Defaults are not consulted;
those of names that are left stay registered. -/
def specialize (t : Named σ) (args : Bindings (Arg σ)) : Eval σ (Named σ) := do
  let tokens ← bindArgs args t.tokens
  let isLeft (name : String) : Bool := (Token.names t.tokens).contains name && !args.contains name
  return ofTokens (Token.merge tokens) (t.defaults.filterNames isLeft) t.strict t.validate

/-- The settings that a template shows options. -/
def settings (t : Named σ) : Settings σ := ⟨some t.validate, some t.strict, some t.defaults⟩

/-- The template with other settings. -/
def withSettings (t : Named σ) (s : Settings σ) : Named σ :=
  { t with
    validate := s.validate.getD t.validate
    strict := s.strict.getD t.strict
    defaults := s.defaults.getD t.defaults }

/-- The template after options, of which those that fail are passed over. -/
def options (t : Named σ) (options : List (TemplateOption σ)) : Eval σ (Named σ) := do
  let ((), settings) ← Eval.withLocal t.settings (TemplateOption.applyBestEffort options)
  return t.withSettings settings

/-- Checks that a template makes JSON of null arguments. -/
def checkJson (t : Named σ) : Eval σ Unit := do
  let data ← t.render (.ofList (t.names.map fun name => (name, .null)))
  .ofExcept ((Json.check data).mapError .validation)

/-- Compiles a text with options. Text that makes no tokens, an option that fails and a check that
fails each stop it. -/
def compile (text : String) (options : List (TemplateOption σ)) : Eval σ (Named σ) := do
  let tokens ← .ofExcept (Token.ofText .named text)
  let t := ofTokens (Token.merge tokens) .empty true false
  let ((), settings) ← Eval.withLocal t.settings (TemplateOption.applyAll options)
  let t := t.withSettings settings
  if t.validate then t.checkJson
  return t

end Named

end Stencil
