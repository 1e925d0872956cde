import Mathlib
import Stencil.Proofs.CallOrder

/-!
# Specializing named templates in two steps

Binding some names and then others makes the template that binding all of them makes, where those
that were bound first hold. What the first step joins is joined again by the second, and a default
that the first drops the second would not have kept. The two ways evaluate the values in another
order, so they are the same for values that do not depend on the states of providers, and only where
they succeed: which of several values without encoding is found first depends on the order.
-/

namespace Stencil.Named

open Ascii

variable {σ : Type}

/-- Fills a token if it is a placeholder whose name is bound. -/
def bindToken (args : Bindings (Arg σ)) : Token → Eval σ Token
  | .named name =>
    match args.get? name with
    | some value => do return .fixed (← value.encodeAs name)
    | none => pure (.named name)
  | t => pure t

theorem bindArgs_cons (args : Bindings (Arg σ)) (t : Token) (ts : List Token) :
    bindArgs args (t :: ts) = do
      let u ← bindToken args t
      return u :: (← bindArgs args ts) := by
  cases t with
  | named name => cases bound : args.get? name <;> simp [bindArgs, bindToken, bound]
  | _ => simp [bindArgs, bindToken]

theorem stateFree_bindToken {args : Bindings (Arg σ)} (free : args.StateFree) (t : Token) :
    (bindToken args t).StateFree := by
  unfold bindToken
  split
  · split
    · rename_i found
      exact Eval.Agree.bind (free _ _ found) fun _ => Eval.agree_pure _
    · exact Eval.agree_pure _
  · exact Eval.agree_pure _

/-- From `state` a token is filled by another, or is another that is left as it is. -/
def PutsToken (args : Bindings (Arg σ)) (state : σ) (t u : Token) : Prop :=
  ((bindToken args t).run state).result = .ok u

@[simp] theorem putsToken_fixed_iff {args : Bindings (Arg σ)} {state : σ} {bytes : Bytes}
    {u : Token} : PutsToken args state (.fixed bytes) u ↔ u = .fixed bytes := by
  simp [PutsToken, bindToken, eq_comm]

/-- A token is filled by what the first bindings put in for it, or else by what the others do: what
the first put in is fixed, and the others leave it. -/
theorem putsToken_override_iff {a b : Bindings (Arg σ)} {state : σ} {t v : Token} :
    PutsToken (a.override b) state t v ↔ ∃ u, PutsToken a state t u ∧ PutsToken b state u v := by
  cases t with
  | fixed bytes => simp
  | positional => simp [PutsToken, bindToken]
  | named name =>
    cases bound : a.get? name with
    | none => simp [PutsToken, bindToken, Bindings.get?_override, bound]
    | some value =>
      have whole : (a.override b).get? name = some value := by
        rw [Bindings.get?_override, bound, Option.some_or]
      constructor
      · intro put
        simp only [PutsToken, bindToken, whole, Eval.result_bind_pure_eq_ok_iff] at put
        obtain ⟨bytes, encoded, rfl⟩ := put
        refine ⟨.fixed bytes, ?_, by simp⟩
        simp only [PutsToken, bindToken, bound, Eval.result_bind_pure_eq_ok_iff]
        exact ⟨bytes, encoded, rfl⟩
      · rintro ⟨u, put, left⟩
        simp only [PutsToken, bindToken, bound, Eval.result_bind_pure_eq_ok_iff] at put
        obtain ⟨bytes, encoded, rfl⟩ := put
        obtain rfl := putsToken_fixed_iff.1 left
        simp only [PutsToken, bindToken, whole, Eval.result_bind_pure_eq_ok_iff]
        exact ⟨bytes, encoded, rfl⟩

/-- From `state` the tokens of a sequence are filled, as far as their names are bound, and joined to
another sequence. -/
def Puts (args : Bindings (Arg σ)) (state : σ) : List Token → List Token → Prop
  | [], ms => ms = []
  | t :: ts, ms =>
    ∃ u us, PutsToken args state t u ∧ Puts args state ts us ∧ Token.consMerged u us = ms

/-- Values that do not depend on the state may all be encoded from one state. -/
theorem puts_iff {args : Bindings (Arg σ)} (free : args.StateFree) (state : σ) {now : σ}
    {ts ms : List Token} : Puts args state ts ms ↔
      ∃ us, ((bindArgs args ts).run now).result = .ok us ∧ Token.merge us = ms := by
  induction ts generalizing now ms with
  | nil => simp [Puts, bindArgs, eq_comm]
  | cons t ts ih =>
    rw [bindArgs_cons]
    simp only [Puts, PutsToken, Eval.result_bind_eq_ok_iff, Eval.run_pure, Except.ok.injEq,
      stateFree_bindToken free t now state]
    constructor
    · rintro ⟨u, _, first, rest, rfl⟩
      obtain ⟨us, hus, rfl⟩ := ih.1 rest
      exact ⟨u :: us, ⟨u, first, us, hus, rfl⟩, rfl⟩
    · rintro ⟨_, ⟨u, first, us, hus, rfl⟩, rfl⟩
      exact ⟨u, _, first, ih.2 ⟨us, hus, rfl⟩, rfl⟩

/-- It makes no difference whether two pieces that meet are joined before or after. -/
theorem puts_consMerged_iff {args : Bindings (Arg σ)} {state : σ} {t : Token}
    {ts ms : List Token} :
    Puts args state (Token.consMerged t ts) ms ↔ Puts args state (t :: ts) ms := by
  unfold Token.consMerged
  split
  · simp [Puts, Token.consMerged_append]
  · rfl

/-- Filling a sequence with the first bindings where they have a value, and with the others where
they have none, is filling it with the first and then with the others. -/
theorem puts_override_iff {a b : Bindings (Arg σ)} {state : σ} {ts ms : List Token} :
    Puts (a.override b) state ts ms ↔ ∃ us, Puts a state ts us ∧ Puts b state us ms := by
  induction ts generalizing ms with
  | nil => simp [Puts]
  | cons t ts ih =>
    constructor
    · rintro ⟨v, vs, first, rest, rfl⟩
      obtain ⟨u, hu, hv⟩ := putsToken_override_iff.1 first
      obtain ⟨us, hus, hvs⟩ := ih.1 rest
      exact ⟨_, ⟨u, us, hu, hus, rfl⟩, puts_consMerged_iff.2 ⟨v, vs, hv, hvs, rfl⟩⟩
    · rintro ⟨_, ⟨u, us, hu, hus, rfl⟩, second⟩
      obtain ⟨v, vs, hv, hvs, rfl⟩ := puts_consMerged_iff.1 second
      exact ⟨v, vs, putsToken_override_iff.2 ⟨u, hu, hv⟩, ih.2 ⟨us, hus, hvs⟩, rfl⟩

/-- Binding makes a template of the tokens that the values leave, if they can be put in from some
state, and then from any. -/
theorem result_specialize_eq_ok_iff {args : Bindings (Arg σ)} (free : args.StateFree) (state : σ)
    {now : σ} {t u : Named σ} :
    ((t.specialize args).run now).result = .ok u ↔
      ∃ ms, Puts args state t.tokens ms ∧
        u = ofTokens ms (t.remainingDefaults args) t.strict t.validate := by
  simp only [specialize, Eval.result_bind_pure_eq_ok_iff]
  constructor
  · rintro ⟨us, hus, rfl⟩
    exact ⟨_, (puts_iff free state).2 ⟨us, hus, rfl⟩, rfl⟩
  · rintro ⟨_, put, rfl⟩
    obtain ⟨us, hus, rfl⟩ := (puts_iff free state).1 put
    exact ⟨us, hus, rfl⟩

theorem get?_remainingDefaults_eq (t : Named σ) (args : Bindings (Arg σ)) (name : String) :
    (t.remainingDefaults args).get? name =
      if name ∈ Token.occurrences t.tokens ∧ args.get? name = none then t.defaults.get? name
      else none := by
  simp [remainingDefaults, Bindings.get?_filterNames, Token.mem_names,
    Bindings.contains_eq_false_iff]

/-- The defaults that are left after two steps are those of names that neither step binds. -/
theorem remainingDefaults_of_specialize_yields {t s : Named σ} {a : Bindings (Arg σ)}
    {state left : σ} (h : (t.specialize a).Yields state s left) (b : Bindings (Arg σ)) :
    s.remainingDefaults b = t.remainingDefaults (a.override b) := by
  have names := occurrences_of_specialize_yields h
  have kept : s.defaults = t.remainingDefaults a := by
    obtain ⟨tokens, -, rfl⟩ := specialize_yields h
    rfl
  apply Bindings.ext_get?
  intro name
  simp only [get?_remainingDefaults_eq, kept, names, Bindings.get?_override, List.mem_filter,
    Bool.not_eq_true', Bindings.contains_eq_false_iff, Option.or_eq_none_iff]
  by_cases occurs : name ∈ Token.occurrences t.tokens
  · cases a.get? name <;> simp [occurs]
  · simp [occurs]

/-- Binding some names and then others is binding all of them, where those that were bound first
hold. -/
theorem result_specialize_specialize {a b : Bindings (Arg σ)} (ha : a.StateFree)
    (hb : b.StateFree) (t u : Named σ) (before now : σ) :
    ((t.specialize a >>= fun s => s.specialize b).run before).result = .ok u ↔
      ((t.specialize (a.override b)).run now).result = .ok u := by
  rw [Eval.result_bind_eq_ok_iff, result_specialize_eq_ok_iff (ha.override hb) now]
  constructor
  · rintro ⟨s, hs, hu⟩
    obtain ⟨left, yields⟩ := Eval.result_eq_ok_iff.1 hs
    obtain ⟨us, first, rfl⟩ := (result_specialize_eq_ok_iff ha now).1 hs
    obtain ⟨ms, second, rfl⟩ := (result_specialize_eq_ok_iff hb now).1 hu
    refine ⟨ms, puts_override_iff.2 ⟨us, first, second⟩, ?_⟩
    rw [remainingDefaults_of_specialize_yields yields]
    rfl
  · rintro ⟨ms, whole, rfl⟩
    obtain ⟨us, first, second⟩ := puts_override_iff.1 whole
    have hs : ((t.specialize a).run before).result =
        .ok (ofTokens us (t.remainingDefaults a) t.strict t.validate) :=
      (result_specialize_eq_ok_iff ha now).2 ⟨us, first, rfl⟩
    obtain ⟨left, yields⟩ := Eval.result_eq_ok_iff.1 hs
    refine ⟨_, hs, (result_specialize_eq_ok_iff hb now).2 ⟨ms, second, ?_⟩⟩
    rw [remainingDefaults_of_specialize_yields yields]
    rfl

theorem override_comm {a b : Bindings (Arg σ)}
    (disjoint : ∀ name, a.contains name = true → b.contains name = false) :
    a.override b = b.override a := by
  apply Bindings.ext_get?
  intro name
  rw [Bindings.get?_override, Bindings.get?_override]
  cases bound : a.get? name with
  | none => simp
  | some value =>
    have absent := disjoint name (Bindings.contains_iff.2 ⟨value, bound⟩)
    rw [Bindings.contains_eq_false_iff.1 absent, Option.none_or, Option.some_or]

/-- Binding some names and then others succeeds if and only if binding all of them does, where those
that were bound first hold, and it makes the same template. If no name is bound twice then it makes
no difference which are bound first. -/
theorem specialize_compose {a b : Bindings (Arg σ)} (ha : a.StateFree) (hb : b.StateFree)
    (t : Named σ) :
    (∀ (u : Named σ) (before now : σ),
      ((t.specialize a >>= fun s => s.specialize b).run before).result = .ok u ↔
        ((t.specialize (a.override b)).run now).result = .ok u) ∧
    ((∀ name, a.contains name = true → b.contains name = false) →
      ∀ (u : Named σ) (before now : σ),
        ((t.specialize a >>= fun s => s.specialize b).run before).result = .ok u ↔
          ((t.specialize b >>= fun s => s.specialize a).run now).result = .ok u) := by
  refine ⟨result_specialize_specialize ha hb t, ?_⟩
  intro disjoint u before now
  rw [result_specialize_specialize ha hb t u before now, override_comm disjoint,
    ← result_specialize_specialize hb ha t u now now]

/-- The first map fills `a` with nothing, twice, and so the second finds no `a` to fill; the name that
neither binds keeps its default. The third map is what the second adds, and can come first. -/
theorem specialize_compose_repeated :
    let t : Named Unit := ofTokens
      [.named "a", .fixed [colon], .named "b", .named "a", .fixed [comma], .named "c"]
      (.ofList [("a", .null), ("c", .null)]) true false
    let a : Bindings (Arg Unit) := .ofList [("a", .raw [])]
    let b : Bindings (Arg Unit) := .ofList [("a", .raw [zero]), ("b", .raw [zero + 1])]
    let c : Bindings (Arg Unit) := .ofList [("b", .raw [zero + 1])]
    let u : Named Unit := ofTokens
      [.fixed [colon, zero + 1, comma], .named "c"] (.ofList [("c", .null)]) true false
    a.StateFree ∧ b.StateFree ∧ c.StateFree ∧
      (∀ name, a.contains name = true → c.contains name = false) ∧
      ((t.specialize (a.override b)).run ()).result = .ok u ∧
      ((t.specialize a >>= fun s => s.specialize b).run ()).result = .ok u ∧
      ((t.specialize c >>= fun s => s.specialize a).run ()).result = .ok u := by
  intro t a b c u
  have raw (name : String) (bytes : Bytes) :
      ((.raw bytes : Arg Unit).encodeAs name).StateFree := by
    rw [Arg.encodeAs_raw]
    exact Eval.agree_pure bytes
  have ha : a.StateFree := Bindings.stateFree_empty.insert (raw _ _)
  have hb : b.StateFree := (Bindings.stateFree_empty.insert (raw _ _)).insert (raw _ _)
  have hc : c.StateFree := Bindings.stateFree_empty.insert (raw _ _)
  have disjoint : ∀ name, a.contains name = true → c.contains name = false := by
    intro name bound
    obtain ⟨value, found⟩ := Bindings.contains_iff.1 bound
    simp only [a, Bindings.ofList, Bindings.insertAll_cons, Bindings.insertAll_nil,
      Bindings.get?_insert, Bindings.get?_empty, Option.ite_none_right_eq_some] at found
    obtain ⟨rfl, -⟩ := found
    cbv
  have both : ((t.specialize (a.override b)).run ()).result = .ok u := by cbv
  have either : ((t.specialize a >>= fun s => s.specialize c).run ()).result = .ok u := by cbv
  refine ⟨ha, hb, hc, disjoint, both, ((specialize_compose ha hb t).1 u () ()).2 both, ?_⟩
  exact ((specialize_compose ha hc t).2 disjoint u () ()).1 either

end Stencil.Named
