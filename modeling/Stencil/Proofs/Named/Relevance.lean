import Mathlib
import Stencil.Proofs.Named.Composition

/-!
# Names that are not looked up

A template looks up the names that occur in it, first among the arguments and then, if they bind no
such name, among its defaults. Rendering and binding are functions of what these look-ups find:
`render_eq_of_agree` and `specialize_eq_of_agree` compare two templates with the same tokens. An
entry that is not looked up is not encoded, calls nothing and is not carried over.
-/

namespace Stencil

variable {σ : Type}

/-- The maps bind the names of a list alike. -/
def Bindings.AgreeOn {α : Type} (names : List String) (m n : Bindings α) : Prop :=
  ∀ name ∈ names, m.get? name = n.get? name

namespace Named

open Ascii

/-- The names that a template looks up among its defaults: those that occur and are not bound. -/
def unbound (t : Named σ) (args : Bindings (Arg σ)) : List String :=
  (Token.occurrences t.tokens).filter fun name => !args.contains name

theorem mem_unbound {t : Named σ} {args : Bindings (Arg σ)} {name : String} :
    name ∈ t.unbound args ↔ name ∈ Token.occurrences t.tokens ∧ args.get? name = none := by
  simp [unbound, Bindings.contains_eq_false_iff]

theorem resolve_congr {t u : Named σ} {a b : Bindings (Arg σ)} {name : String}
    (strict : t.strict = u.strict) (args : a.get? name = b.get? name)
    (defaults : a.get? name = none → t.defaults.get? name = u.defaults.get? name) :
    t.resolve a name = u.resolve b name := by
  unfold resolve
  rw [← args, ← strict]
  cases supplied : a.get? name with
  | some value => rfl
  | none => rw [defaults supplied]

/-- Renderings are the same if the arguments agree on the names that occur and the defaults on those
that are not bound. -/
theorem render_eq_of_agree {t u : Named σ} {a b : Bindings (Arg σ)} (tokens : t.tokens = u.tokens)
    (strict : t.strict = u.strict) (args : a.AgreeOn (Token.occurrences t.tokens) b)
    (defaults : t.defaults.AgreeOn (t.unbound a) u.defaults) : t.render a = u.render b := by
  refine render_congr tokens fun name mem => ?_
  exact resolve_congr strict (args name mem) fun absent =>
    defaults name (mem_unbound.2 ⟨mem, absent⟩)

theorem bindToken_congr {a b : Bindings (Arg σ)} {t : Token}
    (args : ∀ name, t = .named name → a.get? name = b.get? name) :
    bindToken a t = bindToken b t := by
  cases t with
  | named name => rw [bindToken, bindToken, args name rfl]
  | _ => rfl

theorem bindArgs_congr {a b : Bindings (Arg σ)} {ts : List Token}
    (args : a.AgreeOn (Token.occurrences ts) b) : bindArgs a ts = bindArgs b ts := by
  induction ts with
  | nil => rfl
  | cons t ts ih =>
    have first : bindToken a t = bindToken b t := by
      apply bindToken_congr
      rintro name rfl
      exact args name List.mem_cons_self
    have rest : bindArgs a ts = bindArgs b ts := by
      apply ih
      intro name mem
      apply args name
      cases t <;> simp [mem]
    rw [bindArgs_cons, bindArgs_cons, first, rest]

/-- The defaults that are kept depend only on those of the names that are left. -/
theorem remainingDefaults_congr {t u : Named σ} {a b : Bindings (Arg σ)}
    (tokens : t.tokens = u.tokens) (args : a.AgreeOn (Token.occurrences t.tokens) b)
    (defaults : t.defaults.AgreeOn (t.unbound a) u.defaults) :
    t.remainingDefaults a = u.remainingDefaults b := by
  apply Bindings.ext_get?
  intro name
  rw [get?_remainingDefaults_eq, get?_remainingDefaults_eq, ← tokens]
  by_cases mem : name ∈ Token.occurrences t.tokens
  · rw [← args name mem]
    by_cases absent : a.get? name = none
    · rw [if_pos ⟨mem, absent⟩, if_pos ⟨mem, absent⟩, defaults name (mem_unbound.2 ⟨mem, absent⟩)]
    · rw [if_neg fun both => absent both.2, if_neg fun both => absent both.2]
  · rw [if_neg fun both => mem both.1, if_neg fun both => mem both.1]

/-- Binding fills the tokens first and then keeps the defaults of the names that are left. -/
theorem specialize_eq (t : Named σ) (args : Bindings (Arg σ)) :
    t.specialize args = bindArgs args t.tokens >>= fun tokens =>
      pure (ofTokens (Token.merge tokens) (t.remainingDefaults args) t.strict t.validate) := rfl

/-- Bindings are the same if the arguments agree on the names that occur and the defaults on those
that are not bound. -/
theorem specialize_eq_of_agree {t u : Named σ} {a b : Bindings (Arg σ)}
    (tokens : t.tokens = u.tokens) (strict : t.strict = u.strict)
    (validate : t.validate = u.validate) (args : a.AgreeOn (Token.occurrences t.tokens) b)
    (defaults : t.defaults.AgreeOn (t.unbound a) u.defaults) : t.specialize a = u.specialize b := by
  rw [specialize_eq, specialize_eq, bindArgs_congr args,
    remainingDefaults_congr tokens args defaults, tokens, strict, validate]

/-- A default is not looked up if the arguments bind its name. -/
theorem agreeOn_insert_of_contains {t : Named σ} {args defaults : Bindings (Arg σ)} {name : String}
    (bound : args.contains name = true) (value : Arg σ) :
    (defaults.insert name value).AgreeOn (t.unbound args) defaults := by
  intro other mem
  have different : other ≠ name := by
    rintro rfl
    obtain ⟨value, found⟩ := Bindings.contains_iff.1 bound
    rw [(mem_unbound.1 mem).2] at found
    cases found
  rw [Bindings.get?_insert, if_neg different]

/-- Arguments that agree on the names of a template, and defaults that agree on those of its names
that the arguments do not bind, render alike and specialize to the same template: with the same
failures, the same calls and the same state after them, whatever else they bind. So the default of a
name that the arguments bind, be it to null, makes no difference. -/
theorem render_specialize_eq_of_agree (t : Named σ) {a b d e : Bindings (Arg σ)}
    (args : ∀ name ∈ Token.occurrences t.tokens, a.get? name = b.get? name)
    (defaults : ∀ name ∈ Token.occurrences t.tokens, a.get? name = none →
      d.get? name = e.get? name) :
    ({ t with defaults := d } : Named σ).render a = ({ t with defaults := e } : Named σ).render b ∧
    ({ t with defaults := d } : Named σ).specialize a =
      ({ t with defaults := e } : Named σ).specialize b ∧
    ∀ (name : String) (value : Arg σ), a.contains name = true →
      ({ t with defaults := d.insert name value } : Named σ).render a =
        ({ t with defaults := d } : Named σ).render a ∧
      ({ t with defaults := d.insert name value } : Named σ).specialize a =
        ({ t with defaults := d } : Named σ).specialize a := by
  have unread : d.AgreeOn (t.unbound a) e := fun name mem =>
    defaults name (mem_unbound.1 mem).1 (mem_unbound.1 mem).2
  refine ⟨render_eq_of_agree rfl rfl args unread, specialize_eq_of_agree rfl rfl rfl args unread,
    ?_⟩
  intro name value bound
  have same : a.AgreeOn (Token.occurrences t.tokens) a := fun _ _ => rfl
  have shadowed : (d.insert name value).AgreeOn (t.unbound a) d :=
    agreeOn_insert_of_contains bound value
  exact ⟨render_eq_of_agree rfl rfl same shadowed, specialize_eq_of_agree rfl rfl rfl same shadowed⟩

/-- The second maps also bind names that are not looked up: one that does not occur, to a value
without encoding, and as a default the name `a` that is bound. The provider is called for what is
looked up and for nothing else. -/
theorem render_specialize_eq_of_agree_tick :
    let tick : Arg Nat := .deferred
      { label := some "tick", answer := fun _ n => (.ofInt n, n + 1) }
    let refused : Arg Nat := .json (.error ⟨.words "no", 0, 0⟩)
    let t : Named Nat := ofTokens
      [.named "a", .fixed [colon], .named "b", .fixed [comma], .named "a"] .empty true false
    let a : Bindings (Arg Nat) := .ofList [("a", tick)]
    let b : Bindings (Arg Nat) := .ofList [("a", tick), ("z", refused)]
    let d : Bindings (Arg Nat) := .ofList [("b", tick)]
    let e : Bindings (Arg Nat) := .ofList [("a", refused), ("b", tick), ("y", tick)]
    (∀ name ∈ Token.occurrences t.tokens, a.get? name = b.get? name) ∧
      (∀ name ∈ Token.occurrences t.tokens, a.get? name = none → d.get? name = e.get? name) ∧
      (({ t with defaults := e } : Named Nat).render b).run 0 =
        ⟨.ok [zero, colon, zero + 1, comma, zero + 2],
          [⟨some "tick", "a"⟩, ⟨some "tick", "b"⟩, ⟨some "tick", "a"⟩], 3⟩ ∧
      (({ t with defaults := e } : Named Nat).specialize b).run 0 =
        ⟨.ok (ofTokens
            [.fixed [zero, colon], .named "b", .fixed [comma, zero + 1]] d true false),
          [⟨some "tick", "a"⟩, ⟨some "tick", "a"⟩], 2⟩ ∧
      (({ t with defaults := d.insert "a" refused } : Named Nat).render a).run 0 =
        (({ t with defaults := d } : Named Nat).render a).run 0 := by
  intro tick refused t a b d e
  have args : ∀ name ∈ Token.occurrences t.tokens, a.get? name = b.get? name := by
    simp only [t, ofTokens, Token.occurrences_named, Token.occurrences_fixed,
      Token.occurrences_nil, List.forall_mem_cons]
    refine ⟨?_, ?_, ?_, List.forall_mem_nil _⟩ <;> cbv
  have defaults : ∀ name ∈ Token.occurrences t.tokens, a.get? name = none →
      d.get? name = e.get? name := by
    simp only [t, ofTokens, Token.occurrences_named, Token.occurrences_fixed,
      Token.occurrences_nil, List.forall_mem_cons]
    have bound : a.get? "a" = some tick := rfl
    rw [bound]
    refine ⟨fun absent => absurd absent (Option.some_ne_none tick), fun _ => ?_,
      fun absent => absurd absent (Option.some_ne_none tick), List.forall_mem_nil _⟩
    cbv
  obtain ⟨render, specialize, shadowed⟩ := render_specialize_eq_of_agree t args defaults
  refine ⟨args, defaults, ?_, ?_, ?_⟩
  · rw [← render]
    cbv
  · rw [← specialize]
    cbv
  · rw [(shadowed "a" refused (by cbv)).1]

end Named

end Stencil
