import Stencil.Json.Error
import Stencil.Text.Quoted

/-!
# Errors

Everything that compiling, configuring or rendering a template can fail with.
-/

namespace Stencil

/-- Something that a template may let its options change. -/
inductive Capability where
  | validation
  | strictness
  | defaults
  deriving DecidableEq, Repr

/-- What a capability is called in messages. -/
def Capability.text : Capability → String
  | .validation => "validation toggle"
  | .strictness => "strict toggle"
  | .defaults => "defaults registry"

/-- Why an operation failed. -/
inductive Error where
  /-- A placeholder has no name; it stands behind `offset` octets of the text. -/
  | emptyArgName (offset : Nat)
  /-- A number of arguments was supplied that the template does not accept. -/
  | argCount (expected supplied : Nat)
  /-- More arguments were bound than there are placeholders. -/
  | tooManyArgs (supplied max : Nat)
  /-- A placeholder has neither an argument nor a default. -/
  | missingNamedArg (name : String)
  /-- An argument could not be written as JSON. -/
  | encoding (cause : Json.Error)
  /-- The template does not make JSON of null arguments. -/
  | validation (cause : Json.Error)
  /-- An option needs a capability that the template lacks. -/
  | unsupportedOption (option : String) (capability : Capability)
  /-- The output is not UTF-8. -/
  | invalidUtf8
  deriving DecidableEq, Repr

namespace Error

/-- The wording of an error. -/
def message : Error → String
  | emptyArgName offset => "named arg with no name at position " ++ toString offset
  | argCount expected supplied =>
    "expected " ++ toString expected ++ " args but supplied " ++ toString supplied ++ " args"
  | tooManyArgs supplied max =>
    "too many args supplied (" ++ toString supplied ++ ") - expected maximum of " ++ toString max
  | missingNamedArg name => "expected named arg '" ++ name ++ "'"
  | encoding cause => cause.message
  | validation cause => "template does not produce valid JSON: " ++ cause.message
  | unsupportedOption option capability =>
    "option " ++ option ++ " cannot be applied: template has no " ++ capability.text
  | invalidUtf8 => "rendered output is not valid UTF-8"

/-- The wording of an error for a template text that had to compile and did not. -/
def compileMessage (e : Error) (text : String) : String :=
  "invalid JSON template " ++ Text.quoted text ++ ": " ++ e.message

/-- Whether an error says that a text is no template at all. -/
def isCompileError : Error → Bool
  | emptyArgName _ => true
  | _ => false

end Error

end Stencil
