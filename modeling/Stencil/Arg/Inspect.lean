import Stencil.Settings
import Stencil.Text.Quoted

/-!
# Arguments and options in diagnostics

A one-line account of an argument or an option. What a provider, an encoder or a custom option
would do is not shown.
-/

namespace Stencil

variable {σ : Type}

/-- Items of an account with commas between them. -/
def commaSeparated (items : List String) : String := ", ".intercalate items

/-- Octets as a list of numbers. -/
def inspectOctets (bytes : Bytes) : String :=
  "[" ++ commaSeparated (bytes.map fun b => toString b.toNat) ++ "]"

namespace Arg

mutual

/-- The account of an argument. -/
def inspect : Arg σ → String
  | null => "Null"
  | raw bytes => "Raw(" ++ Text.quotedOctets bytes ++ ")"
  | json _ => "Json(..)"
  | deferred _ => "Deferred(..)"
  | pair m => "Pair(" ++ inspectMember m ++ ")"
  | pairs ms => "Pairs(NameValues([" ++ commaSeparated (inspectMembers ms) ++ "]))"

/-- The account of a member. -/
def inspectMember : Member (Arg σ) → String
  | ⟨name, value, omitEmpty⟩ =>
    let key := Member.key (Member.mk name () omitEmpty)
    "NameValue \x7b name: " ++ Text.quoted name ++ ", prefix: " ++ inspectOctets key ++
      ", value: " ++ inspect value ++ ", omit_empty: " ++ toString omitEmpty ++ " \x7d"

/-- The accounts of members. -/
def inspectMembers : List (Member (Arg σ)) → List String
  | [] => []
  | m :: ms => inspectMember m :: inspectMembers ms

end

end Arg

/-- The account of an option. -/
def TemplateOption.inspect : TemplateOption σ → String
  | .validate on => "Validate(" ++ toString on ++ ")"
  | .strict on => "Strict(" ++ toString on ++ ")"
  | .defaultArgValue name value =>
    "DefaultArgValue(" ++ Text.quoted name ++ ", " ++ value.inspect ++ ")"
  | .defaultArgValues values =>
    let entries := values.entries.map fun (name, value) => Text.quoted name ++ ": " ++ value.inspect
    "DefaultArgValues(\x7b" ++ commaSeparated entries ++ "\x7d)"
  | .custom _ => "Custom(..)"

end Stencil
