import Stencil.Arg.Basic

/-!
# Encoding arguments

What an argument is as JSON text. A provider is called with the name of the member it is the value
of, and outside of members with the name the argument is encoded for; what it answers is encoded
for the same name.

`encodeAs_deferred` and `Member.render_eq` give the rules for computed values: a member asks its
provider once, and it is that answer of which `omitEmpty` judges.
-/

namespace Stencil

variable {σ : Type}

namespace Arg

mutual

/-- The JSON text of an argument for a name. -/
def encodeAs : Arg σ → String → Eval σ Bytes
  | null, _ => pure Json.nullText
  | raw bytes, _ => pure bytes
  | json encoding, _ => Eval.ofExcept (encoding.mapError .encoding)
  | deferred p, name => encodeCall p name
  | pair m, _ => renderMember m
  | pairs ms, _ => renderOnto [] ms
termination_by structural arg => arg

/-- The text of what a provider answers for a name. -/
def encodeCall : Provider σ (Arg σ) → String → Eval σ Bytes
  | ⟨label, answer⟩, name => fun state =>
    (encodeAnswer (answer name state) name).afterCall ⟨label, name⟩
termination_by structural p => p

/-- The text of a provider's answer, from the state the provider left. -/
def encodeAnswer : Arg σ × σ → String → Outcome σ Bytes
  | (value, state), name => encodeAs value name state
termination_by structural answer => answer

/-- The text of a member, or nothing if the member is to be omitted. -/
def renderMember : Member (Arg σ) → Eval σ Bytes
  | ⟨name, deferred p, omitEmpty⟩ => renderCall p name omitEmpty
  | ⟨name, value, omitEmpty⟩ =>
    if omitEmpty && value.isNull then pure []
    else do return (Member.mk name value omitEmpty).key ++ (← encodeAs value name)
termination_by structural m => m

/-- The text of a member whose value a provider computes. -/
def renderCall : Provider σ (Arg σ) → String → Bool → Eval σ Bytes
  | ⟨label, answer⟩, name, omitEmpty => fun state =>
    (renderAnswer (answer name state) name omitEmpty).afterCall ⟨label, name⟩
termination_by structural p => p

/-- The text of a member whose value a provider has answered. -/
def renderAnswer : Arg σ × σ → String → Bool → Outcome σ Bytes
  | (value, state), name, omitEmpty =>
    let text : Eval σ Bytes :=
      if omitEmpty && value.isNull then pure []
      else do return (Member.mk name value omitEmpty).key ++ (← encodeAs value name)
    text state
termination_by structural answer => answer

/-- The text of members behind what has been written, with a comma before each that writes
something where something stands already. -/
def renderOnto (written : Bytes) : List (Member (Arg σ)) → Eval σ Bytes
  | [] => pure written
  | m :: ms => do
    let text ← renderMember m
    if text.isEmpty then renderOnto written ms
    else if written.isEmpty then renderOnto text ms
    else renderOnto (written ++ Ascii.comma :: text) ms
termination_by structural ms => ms

end

/-- The JSON text of an argument outside of named placeholders. -/
def encode (arg : Arg σ) : Eval σ Bytes := arg.encodeAs ""

/-- The value behind an argument as far as one call goes: what its provider answers, or else the
argument itself. -/
def resolve (arg : Arg σ) (name : String) : Eval σ (Arg σ) :=
  match arg with
  | deferred provider => provider.call name
  | arg => pure arg

end Arg

/-- The text of a member, or nothing if the member is to be omitted. -/
def Member.render (m : Member (Arg σ)) : Eval σ Bytes := Arg.renderMember m

/-- The text of members, with commas between those that write something. -/
def Member.renderAll (ms : List (Member (Arg σ))) : Eval σ Bytes := Arg.renderOnto [] ms

namespace Arg

@[simp] theorem encodeAs_null (name : String) :
    (null : Arg σ).encodeAs name = pure Json.nullText := by
  simp [encodeAs]

@[simp] theorem encodeAs_raw (bytes : Bytes) (name : String) :
    (raw bytes : Arg σ).encodeAs name = pure bytes := by
  simp [encodeAs]

@[simp] theorem encodeAs_json (encoding : Except Json.Error Bytes) (name : String) :
    (json encoding : Arg σ).encodeAs name = Eval.ofExcept (encoding.mapError .encoding) := by
  simp [encodeAs]

@[simp] theorem encodeAs_pair (m : Member (Arg σ)) (name : String) :
    (pair m).encodeAs name = m.render := by
  simp [encodeAs, Member.render]

@[simp] theorem encodeAs_pairs (ms : List (Member (Arg σ))) (name : String) :
    (pairs ms).encodeAs name = Member.renderAll ms := by
  simp [encodeAs, Member.renderAll]

/-- A computed value is encoded by one call and the text of the answer. -/
theorem encodeAs_deferred (p : Provider σ (Arg σ)) (name : String) :
    (deferred p).encodeAs name = p.call name >>= fun value => value.encodeAs name := by
  obtain ⟨label, answer⟩ := p
  funext state
  simp only [encodeAs, encodeCall, Provider.call, Outcome.afterCall, bind, Eval.bind]
  rcases answer name state with ⟨value, left⟩
  simp [encodeAnswer]

end Arg

/-- A member is rendered by one call at most, which both decides whether the member is omitted and
gives the value to be written. -/
theorem Member.render_eq (m : Member (Arg σ)) :
    m.render = do
      let value ← m.value.resolve m.name
      if m.omitEmpty && value.isNull then pure []
      else return m.key ++ (← value.encodeAs m.name) := by
  obtain ⟨name, value, omitEmpty⟩ := m
  cases value with
  | deferred p =>
    obtain ⟨label, answer⟩ := p
    funext state
    simp only [Member.render, Arg.renderMember, Arg.renderCall, Arg.resolve, Provider.call,
      Outcome.afterCall, bind, Eval.bind]
    rcases answer name state with ⟨value, left⟩
    simp only [Arg.renderAnswer]
    rfl
  | _ => simp only [Member.render, Arg.renderMember, Arg.resolve, pure_bind]

namespace Member

@[simp] theorem renderAll_nil : renderAll ([] : List (Member (Arg σ))) = pure [] := by
  simp [renderAll, Arg.renderOnto]

end Member

end Stencil
