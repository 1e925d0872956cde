import Stencil.Eval
import Stencil.Json.Value

/-!
# Arguments

The values that fill placeholders. Besides null and ready JSON there are object members, single or
in a list, which fit where a placeholder stands directly inside an object, and values that a
provider computes when they are needed.
-/

namespace Stencil

/-- A value computed on demand for a name. The provider may change the state it shares with other
providers, and so answer otherwise the next time. -/
structure Provider (σ α : Type) where
  label : Option String := none
  answer : String → σ → α × σ

/-- A member of an object. One that is marked `omitEmpty` is left out when its value is null. -/
structure Member (α : Type) where
  name : String
  value : α
  omitEmpty : Bool := false

/-- A value for a placeholder, whose providers share a state of type `σ`. -/
inductive Arg (σ : Type) where
  /-- JSON null, and the value of nothing. -/
  | null
  /-- Octets that are written as they are, JSON or not. -/
  | raw (bytes : Bytes)
  /-- A value by what its encoder makes of it. -/
  | json (encoding : Except Json.Error Bytes)
  /-- A value computed when it is needed. -/
  | deferred (provider : Provider σ (Arg σ))
  /-- One member of an object. -/
  | pair (member : Member (Arg σ))
  /-- Members of an object, in order. -/
  | pairs (members : List (Member (Arg σ)))

namespace Arg

variable {σ : Type}

instance : Inhabited (Arg σ) := ⟨null⟩

/-- A property holds of every argument if an argument has it whenever all that its provider may
answer and the values of its members have it. -/
@[induction_eliminator]
theorem induct {motive : Arg σ → Prop} (null : motive null) (raw : ∀ bytes, motive (raw bytes))
    (json : ∀ encoding, motive (json encoding))
    (deferred : ∀ p, (∀ name state, motive (p.answer name state).1) → motive (deferred p))
    (pair : ∀ m, motive m.value → motive (pair m))
    (pairs : ∀ ms, (∀ m ∈ ms, motive m.value) → motive (pairs ms)) (arg : Arg σ) : motive arg :=
  @Arg.rec σ motive (fun p => ∀ name state, motive (p.answer name state).1)
    (fun m => motive m.value) (fun ms => ∀ m ∈ ms, motive m.value) (fun answer => motive answer.1)
    null raw json deferred pair pairs (fun _ _ h => h) (fun _ _ _ h => h) (by simp)
    (fun _ _ h hs => List.forall_mem_cons.2 ⟨h, hs⟩) (fun _ _ h => h) arg

/-- Whether an argument is null itself. A value that merely encodes as `null`, or that has yet to
be computed, is not. -/
def isNull : Arg σ → Bool
  | null => true
  | _ => false

/-- A truth value. -/
def ofBool (b : Bool) : Arg σ := json (.ok (Json.boolText b))

/-- A text. -/
def ofString (text : String) : Arg σ := json (.ok (Json.quoted text))

/-- A character, as the text of that one character. -/
def ofChar (c : Char) : Arg σ := ofString (String.singleton c)

/-- A whole number. -/
def ofInt (n : Int) : Arg σ := json (.ok (Json.encodeInteger n))

/-- A single-precision number, by its bits. -/
def ofSingle (bits : UInt32) : Arg σ := json (.ok (Json.singleLayout.encode bits.toNat))

/-- A double-precision number, by its bits. -/
def ofDouble (bits : UInt64) : Arg σ := json (.ok (Json.doubleLayout.encode bits.toNat))

/-- A JSON value that stays a value even if it is null. -/
def ofJson (value : Json.Value) : Arg σ := json (.ok value.encode)

/-- A JSON value, of which null is the null argument. -/
def ofValue : Json.Value → Arg σ
  | .null => null
  | value => ofJson value

/-- What an optional argument stands for: nothing is null. -/
def ofOption (arg : Option (Arg σ)) : Arg σ := arg.getD null

end Arg

namespace Provider

variable {σ α : Type}

/-- Calls a provider for a name. -/
def call (p : Provider σ α) (name : String) : Eval σ α := fun state =>
  let (value, state) := p.answer name state
  ⟨.ok value, [⟨p.label, name⟩], state⟩

end Provider

namespace Member

variable {σ : Type}

/-- A member whose value is computed each time the member is rendered. -/
def ofProvider (name : String) (provider : Provider σ (Arg σ)) : Member (Arg σ) :=
  { name, value := .deferred provider }

/-- The member's quoted name with the colon. -/
def key {α : Type} (m : Member α) : Bytes := Json.quoted m.name ++ [Ascii.colon]

end Member

end Stencil
