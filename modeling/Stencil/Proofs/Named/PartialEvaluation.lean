import Mathlib
import Stencil.Proofs.Named.Fill

/-!
# Filling named templates in two steps

Binding some names first and rendering with other arguments later is rendering with all of them,
where those that were bound first hold. The two orders call providers at different times, so this
is about arguments that do not depend on the states of providers.
-/

namespace Stencil

variable {σ : Type}

/-- Every value encodes for its name to the same text, or with the same failure, from every
state. -/
def Bindings.StateFree (m : Bindings (Arg σ)) : Prop :=
  ∀ name value, m.get? name = some value → (value.encodeAs name).StateFree

theorem Bindings.stateFree_empty : (empty : Bindings (Arg σ)).StateFree := by
  intro name value found
  simp at found

theorem Bindings.StateFree.insert {m : Bindings (Arg σ)} (hm : m.StateFree) {name : String}
    {value : Arg σ} (free : (value.encodeAs name).StateFree) : (m.insert name value).StateFree := by
  intro other found h
  rw [get?_insert] at h
  split at h
  · rename_i same
    cases h
    exact same ▸ free
  · exact hm other found h

theorem Bindings.StateFree.override {m base : Bindings (Arg σ)} (hm : m.StateFree)
    (hbase : base.StateFree) : (m.override base).StateFree := by
  intro name value found
  rw [get?_override] at found
  rcases Option.or_eq_some_iff.1 found with inM | ⟨-, inBase⟩
  · exact hm name value inM
  · exact hbase name value inBase

namespace Named

open Ascii

theorem stateFree_valueText {args defaults : Bindings (Arg σ)} (hargs : args.StateFree)
    (hdefaults : defaults.StateFree) (strict : Bool) (name : String) :
    (valueText args defaults strict name).StateFree := by
  unfold valueText
  split
  · rename_i value found
    rcases Option.or_eq_some_iff.1 found with supplied | ⟨-, registered⟩
    · exact hargs name value supplied
    · exact hdefaults name value registered
  · exact fun _ _ => by cases strict <;> rfl

/-- The names that are left are those that were not bound. -/
theorem Binds.occurrences_eq {args : Bindings (Arg σ)} {ts us : List Token} {state last : σ}
    (h : Binds args state ts us last) :
    Token.occurrences us = (Token.occurrences ts).filter fun name => !args.contains name := by
  induction h with
  | nil => rfl
  | @keep t ts us _ _ unbound _ ih =>
    cases t with
    | named name =>
      have absent := Bindings.contains_eq_false_iff.2 (unbound name rfl)
      simp [ih, absent]
    | _ => simpa using ih
  | fill bound _ _ ih =>
    have present := Bindings.contains_iff.2 ⟨_, bound⟩
    simpa [present] using ih

/-- A sequence can be filled with bound values first, if it makes no difference when they are
evaluated. What was put in stands for itself when the other values are put in. -/
theorem agree_fill_of_binds {args : Bindings (Arg σ)} {f g : String → Eval σ Bytes}
    {ts us : List Token} {state last : σ} (h : Binds args state ts us last)
    (free : args.StateFree)
    (bound : ∀ name value, args.get? name = some value → g name = value.encodeAs name)
    (unbound : ∀ name ∈ Token.occurrences ts, args.get? name = none → (f name).Agree (g name)) :
    (fill f us).Agree (fill g ts) := by
  induction h with
  | nil => exact Eval.agree_pure _
  | @keep t ts us _ _ absent _ ih =>
    have hfill : (fill f us).Agree (fill g ts) := by
      apply ih
      intro name mem
      apply unbound name
      cases t <;> simp [mem]
    cases t with
    | fixed bytes => exact hfill.bind fun _ => Eval.agree_pure _
    | positional => exact hfill
    | named name =>
      have hname : (f name).Agree (g name) := unbound name (by simp) (absent name rfl)
      exact hname.bind fun _ => hfill.bind fun _ => Eval.agree_pure _
  | @fill name value bytes ts us _ _ _ found hvalue _ ih =>
    have hfill : (fill f us).Agree (fill g ts) := by
      apply ih
      intro other mem
      exact unbound other (List.mem_cons_of_mem name mem)
    have hname : (pure bytes : Eval σ Bytes).Agree (g name) := by
      rw [bound name value found]
      exact (free name value found).agree_pure_of_yields hvalue
    have hrest : (pure bytes >>= fun b => do return b ++ (← fill f us) : Eval σ Bytes).Agree
        (fill g (.named name :: ts)) :=
      hname.bind fun _ => hfill.bind fun _ => Eval.agree_pure _
    rwa [pure_bind] at hrest

/-- If a bound value fails then so does filling the sequence, though perhaps with the failure of
a name that is not bound. -/
theorem exists_fails_fill_of_bindArgs_fails {args : Bindings (Arg σ)} {g : String → Eval σ Bytes}
    {ts : List Token} {state : σ} {e : Error} (h : (bindArgs args ts).Fails state e)
    (named : .positional ∉ ts) (free : args.StateFree)
    (bound : ∀ name value, args.get? name = some value → g name = value.encodeAs name) (now : σ) :
    ∃ e, (fill g ts).Fails now e := by
  obtain ⟨name, mem, value, mid, found, hvalue⟩ := fails_of_bindArgs_fails h
  have hname : ∀ now, (g name).Fails now e := by
    rw [bound name value found]
    exact (free name value found).fails hvalue
  obtain ⟨e', hfails⟩ := Eval.exists_fails_mapM_of_mem mem hname now
  rw [fill_eq_assemble named]
  exact ⟨e', Eval.fails_bind_pure_iff.2 hfails⟩

theorem valueText_override_of_bound {a : Bindings (Arg σ)} {name : String} {value : Arg σ}
    (found : a.get? name = some value) (b defaults : Bindings (Arg σ)) (strict : Bool) :
    valueText (a.override b) defaults strict name = value.encodeAs name := by
  simp [valueText, Bindings.get?_override, found]

/-- The expected arguments are the names of the template, each with whether there is a default for
it. -/
theorem get?_expectedArgs (t : Named σ) (name : String) :
    t.expectedArgs.get? name = if name ∈ t.names then some (t.defaults.contains name) else none :=
  Bindings.get?_ofList_map (fun n => t.defaults.contains n) t.names name

/-- A name that is left keeps its default. -/
theorem get?_remainingDefaults {t : Named σ} {args : Bindings (Arg σ)} {name : String}
    (mem : name ∈ Token.occurrences t.tokens) (absent : args.get? name = none) :
    (t.remainingDefaults args).get? name = t.defaults.get? name := by
  have left : name ∈ Token.names t.tokens := Token.mem_names.2 mem
  simp [remainingDefaults, Bindings.get?_filterNames, left, Bindings.contains_eq_false_iff.2 absent]

/-- When arguments are bound the names that are not bound are still expected, with the defaults that
they had. -/
theorem expectedArgs_of_specialize_yields {t s : Named σ} (consistent : t.Consistent)
    {args : Bindings (Arg σ)} {state last : σ} (h : (t.specialize args).Yields state s last) :
    s.expectedArgs = t.expectedArgs.filterNames fun name => !args.contains name := by
  obtain ⟨tokens, htokens, rfl⟩ := specialize_yields h
  apply Bindings.ext_get?
  intro name
  rw [Bindings.get?_filterNames, get?_expectedArgs, get?_expectedArgs]
  simp only [ofTokens, Token.mem_names, Token.occurrences_merge, consistent.mem_names,
    (binds_of_bindArgs_yields htokens).occurrences_eq, List.mem_filter]
  by_cases mem : name ∈ Token.occurrences t.tokens
  · cases absent : args.contains name with
    | false =>
      have kept := get?_remainingDefaults mem (Bindings.contains_eq_false_iff.1 absent)
      simp [mem, Bindings.contains, kept]
    | true => simp
  · simp [mem]

/-- Rendering later, with whatever arguments, agrees with rendering at once with these and, before
them, those that were bound. -/
theorem agree_render_override {t s : Named σ} (consistent : t.Consistent)
    (hdefaults : t.defaults.StateFree) {a : Bindings (Arg σ)} (ha : a.StateFree) {state last : σ}
    (h : (t.specialize a).Yields state s last) {b : Bindings (Arg σ)} (hb : b.StateFree) :
    (s.render b).Agree (t.render (a.override b)) := by
  obtain ⟨tokens, htokens, rfl⟩ := specialize_yields h
  have binds := binds_of_bindArgs_yields htokens
  have named := binds.positional_notMem consistent.positional_notMem
  rw [render_eq_fill (consistent_ofTokens (positional_notMem_merge named) _ _ _),
    render_eq_fill consistent]
  simp only [ofTokens, fill_merge, resolve_eq_valueText]
  apply agree_fill_of_binds binds ha
  · intro name value found
    exact valueText_override_of_bound found b t.defaults t.strict
  · intro name mem absent
    have same : valueText b (t.remainingDefaults a) t.strict name =
        valueText (a.override b) t.defaults t.strict name := by
      simp [valueText, Bindings.get?_override, get?_remainingDefaults mem absent, absent]
    rw [same]
    exact stateFree_valueText (ha.override hb) hdefaults t.strict name

/-- If binding values fails then so does every rendering in which they stand in front of others. -/
theorem exists_fails_render_override {t : Named σ} (consistent : t.Consistent)
    {a : Bindings (Arg σ)} (ha : a.StateFree) {state : σ} {e : Error}
    (h : (t.specialize a).Fails state e) (b : Bindings (Arg σ)) (now : σ) :
    ∃ e, (t.render (a.override b)).Fails now e := by
  have hbind := Eval.fails_bind_pure_iff.1 h
  rw [render_eq_fill consistent, resolve_eq_valueText]
  exact exists_fails_fill_of_bindArgs_fails hbind consistent.positional_notMem ha
    (fun name value found => valueText_override_of_bound found b t.defaults t.strict) now

/-- Binding some names and rendering with other arguments later gives the same octets, or fails
with the same error, as rendering with all of them at once, where those that were bound come
before the others. The names that are left are those that were not bound, each with its default
if it had one. If the binding fails then so does every rendering. -/
theorem result_render_specialize {t : Named σ} (reach : t.Reachable)
    (hdefaults : t.defaults.StateFree) {a : Bindings (Arg σ)} (ha : a.StateFree) (state : σ) :
    match ((t.specialize a).run state).result with
    | .ok s =>
      (∀ b : Bindings (Arg σ), b.StateFree → ∀ now now',
        ((s.render b).run now).result = ((t.render (a.override b)).run now').result) ∧
      s.expectedArgs = t.expectedArgs.filterNames fun name => !a.contains name
    | .error _ =>
      ∀ (b : Bindings (Arg σ)) (now : σ),
        ∃ e, ((t.render (a.override b)).run now).result = .error e := by
  have consistent := reach.consistent
  cases hspecialize : ((t.specialize a).run state).result with
  | ok s =>
    obtain ⟨last, yields⟩ := Eval.result_eq_ok_iff.1 hspecialize
    constructor
    · intro b hb
      exact agree_render_override consistent hdefaults ha yields hb
    · exact expectedArgs_of_specialize_yields consistent yields
  | error e =>
    intro b now
    exact exists_fails_render_override consistent ha hspecialize b now

/-- Of two values for a name the one that was bound holds, and a name that has none later keeps its
default. -/
theorem result_render_specialize_pair :
    let t : Named Unit := ofTokens
      [.fixed [openBracket], .named "a", .fixed [comma], .named "b", .fixed [closeBracket]]
      (.ofList [("b", .raw [zero])]) true false
    let a : Bindings (Arg Unit) := .ofList [("a", .raw [zero + 1])]
    let b : Bindings (Arg Unit) := .ofList [("a", .raw [zero + 2])]
    t.Reachable ∧ t.defaults.StateFree ∧ a.StateFree ∧ b.StateFree ∧
      ∃ s, ((t.specialize a).run ()).result = .ok s ∧
        ((s.render b).run ()).result = .ok [openBracket, zero + 1, comma, zero, closeBracket] ∧
        ((t.render (a.override b)).run ()).result = ((s.render b).run ()).result := by
  intro t a b
  have compiled : (compile "[?a,?b]" [.defaultArgValue "b" (.raw [zero])]).Yields () t () :=
    ⟨[], by cbv⟩
  have free (n : String) (bytes : Bytes) :
      (Bindings.ofList [(n, (.raw bytes : Arg Unit))]).StateFree := by
    intro name value found
    simp only [Bindings.ofList, Bindings.insertAll_cons, Bindings.insertAll_nil,
      Bindings.get?_insert, Bindings.get?_empty, Option.ite_none_right_eq_some,
      Option.some.injEq] at found
    obtain ⟨-, rfl⟩ := found
    rw [Arg.encodeAs_raw]
    exact Eval.agree_pure bytes
  have both := result_render_specialize (.compile compiled) (free _ _) (free "a" [zero + 1]) ()
  refine ⟨.compile compiled, free _ _, free _ _, free _ _, _, rfl, ?_, ?_⟩
  · cbv
  · exact (both.1 b (free _ _) () ()).symm

end Named

end Stencil
