import Stencil.Json.Recogniser
import Stencil.Settings
import Stencil.Token.Scan

/-!
# Positional templates

Templates whose placeholders take their arguments in order.
-/

namespace Stencil

/-- A template with positional placeholders: its merged tokens, how many placeholders and how many
fixed octets these have, whether every argument has to be supplied, and whether construction
checks that it makes JSON. -/
structure Positional where
  tokens : List Token
  argsCount : Nat
  fixedLen : Nat
  strict : Bool
  validate : Bool
  deriving DecidableEq, Repr

namespace Positional

variable {σ : Type}

/-- The template of a sequence of tokens. -/
def ofTokens (tokens : List Token) (strict validate : Bool) : Positional where
  tokens
  argsCount := Token.argCount tokens
  fixedLen := Token.fixedLen tokens
  strict
  validate

/-- How many arguments a template takes. -/
def expectedArgs (t : Positional) : Nat := t.argsCount

/-- Whether a template can be rendered with a number of arguments. -/
def accepts (t : Positional) (supplied : Nat) : Bool :=
  if t.strict then supplied = t.argsCount else supplied ≤ t.argsCount

/-- The texts of arguments, with nulls in place of those that are not supplied. -/
def encodeArgs (t : Positional) (args : List (Arg σ)) : Eval σ (List Bytes) := do
  let encoded ← args.mapM Arg.encode
  return encoded ++ List.replicate (t.argsCount - encoded.length) Json.nullText

/-- The octets that a template makes of arguments. -/
def render (t : Positional) (args : List (Arg σ)) : Eval σ Bytes :=
  if t.accepts args.length then do
    let encoded ← t.encodeArgs args
    return (Token.write t.fixedLen t.tokens encoded).octets
  else .fail (.argCount t.argsCount args.length)

/-- The text that a template makes of arguments. -/
def renderString (t : Positional) (args : List (Arg σ)) : Eval σ String := do
  match Utf8.decode? (← t.render args) with
  | some text => return text
  | none => .fail .invalidUtf8

/-- Fills the first placeholders of a sequence with arguments. -/
def bindArgs : List Token → List (Arg σ) → Eval σ (List Token)
  | [], _ => pure []
  | .fixed bytes :: ts, args => return .fixed bytes :: (← bindArgs ts args)
  | t :: ts, [] => return t :: (← bindArgs ts [])
  | _ :: ts, arg :: args => do
    let bytes ← arg.encode
    return .fixed bytes :: (← bindArgs ts args)

/-- The template in which the first placeholders are filled with arguments. -/
def specialize (t : Positional) (args : List (Arg σ)) : Eval σ Positional :=
  if args.length ≤ t.argsCount then do
    let tokens ← bindArgs t.tokens args
    return ofTokens (Token.merge tokens) t.strict t.validate
  else .fail (.tooManyArgs args.length t.argsCount)

/-- The settings that a template shows options. -/
def settings (t : Positional) : Settings σ := ⟨some t.validate, some t.strict, none⟩

/-- The template with other settings. -/
def withSettings (t : Positional) (s : Settings σ) : Positional :=
  { t with validate := s.validate.getD t.validate, strict := s.strict.getD t.strict }

/-- The template after options, of which those that fail are passed over. -/
def options (t : Positional) (options : List (TemplateOption σ)) : Eval σ Positional := do
  let ((), settings) ← Eval.withLocal t.settings (TemplateOption.applyBestEffort options)
  return t.withSettings settings

/-- Checks that a template makes JSON of null arguments. -/
def checkJson (t : Positional) : Eval σ Unit := do
  let data ← t.render (List.replicate t.argsCount (Arg.null : Arg σ))
  .ofExcept ((Json.check data).mapError .validation)

/-- Compiles a text with options. Text that makes no tokens, an option that fails and a check that
fails each stop it. -/
def compile (text : String) (options : List (TemplateOption σ)) : Eval σ Positional := do
  let tokens ← .ofExcept (Token.ofText .positional text)
  let t := ofTokens (Token.merge tokens) true false
  let ((), settings) ← Eval.withLocal t.settings (TemplateOption.applyAll options)
  let t := t.withSettings settings
  if t.validate then t.checkJson (σ := σ)
  return t

end Positional

end Stencil
