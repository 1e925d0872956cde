import Mathlib
import Stencil.Proofs.Completion

/-!
# The name that a provider is asked for

A provider is asked for the name of the innermost member around it, however many answers of other
providers lie between, and outside of members for the name that encoding began with. Where a
provider stands is told by the steps that lead to it from the value that is encoded: `Asks` goes
through the values that are due and keeps the whole way to each, so no name is handed down in it,
and `Asks.calls_eq` says that the calls are those for the names read off the ways.
-/

namespace Stencil

open Ascii

variable {σ α : Type}

/-- A step from a value to one that belongs to it. -/
inductive Step where
  /-- To what the provider of a computed value answers. -/
  | answer
  /-- To the value of a member. -/
  | member (name : String)
  deriving DecidableEq, Repr

/-- The name of the member that a step enters. -/
def Step.name? : Step → Option String
  | answer => none
  | member name => some name

/-- Where a value stands: below which name encoding began, and the steps from there on. -/
structure Place where
  root : String
  path : List Step := []
  deriving DecidableEq, Repr

namespace Place

/-- The name of the innermost member around a place. -/
def enclosing? (place : Place) : Option String := (place.path.filterMap Step.name?).getLast?

/-- The name that holds at a place: that of the innermost member around it, or else the root. -/
def scope (place : Place) : String := place.enclosing?.getD place.root

/-- The place one step further. -/
def below (place : Place) (step : Step) : Place := { place with path := place.path ++ [step] }

@[simp] theorem scope_root (root : String) : scope ⟨root, []⟩ = root := rfl

@[simp] theorem scope_below_answer (place : Place) : (place.below .answer).scope = place.scope := by
  simp [scope, enclosing?, below, Step.name?]

@[simp] theorem scope_below_member (place : Place) (name : String) :
    (place.below (.member name)).scope = name := by
  simp [scope, enclosing?, below, Step.name?]

end Place

namespace Arg

/-- What is due when a value has been taken up at a place, and the state then: the answer of its
provider, which is asked for the name that holds there, or the values of its members, each at its
own place. What an encoder refuses is the end. -/
def below? (place : Place) (state : σ) : Arg σ → Option (List (Place × Arg σ) × σ)
  | null => some ([], state)
  | raw _ => some ([], state)
  | json (.ok _) => some ([], state)
  | json (.error _) => none
  | deferred p =>
    let (value, left) := p.answer place.scope state
    some ([(place.below .answer, value)], left)
  | pair m => some ([(place.below (.member m.name), m.value)], state)
  | pairs ms => some (ms.map fun m => (place.below (.member m.name), m.value), state)

/-- The provider that is asked when a value is taken up at a place, if there is one. -/
def asked (place : Place) : Arg σ → List (Place × Provider σ (Arg σ))
  | deferred p => [(place, p)]
  | _ => []

/-- The providers that are asked when values that are due are taken up one after the other, each
with the place where it stands. What is below a value comes before what is due behind the value. -/
inductive Asks : List (Place × Arg σ) → σ → List (Place × Provider σ (Arg σ)) → Prop where
  | done {state : σ} : Asks [] state []
  | refused {place : Place} {arg : Arg σ} {due : List (Place × Arg σ)} {state : σ} :
    arg.below? place state = none → Asks ((place, arg) :: due) state []
  | next {place : Place} {arg : Arg σ} {below due : List (Place × Arg σ)} {state left : σ}
    {asks : List (Place × Provider σ (Arg σ))} :
    arg.below? place state = some (below, left) → Asks (below ++ due) left asks →
    Asks ((place, arg) :: due) state (arg.asked place ++ asks)

/-- The call of a provider for the name that holds where it stands. -/
def callAt (ask : Place × Provider σ (Arg σ)) : Call := ⟨ask.2.label, ask.1.scope⟩

/-- Values that are due, each with the name that holds at its place. -/
def inScope (due : List (Place × Arg σ)) : List (String × Arg σ) :=
  due.map fun d => (d.1.scope, d.2)

@[simp] theorem inScope_cons (place : Place) (arg : Arg σ) (due : List (Place × Arg σ)) :
    inScope ((place, arg) :: due) = (place.scope, arg) :: inScope due := rfl

/-- Taking up a value makes the call of its provider and leaves what is below to be encoded. -/
theorem calls_encodeEach_of_below? {place : Place} {arg : Arg σ} {below due : List (Place × Arg σ)}
    {state left : σ} (h : arg.below? place state = some (below, left)) :
    ((encodeEach (inScope ((place, arg) :: due))).run state).calls =
      (arg.asked place).map callAt ++ ((encodeEach (inScope (below ++ due))).run left).calls := by
  cases arg with
  | null =>
    cases h
    rw [inScope_cons, encodeEach_cons, encodeAs_null, pure_bind]
    rfl
  | raw bytes =>
    cases h
    rw [inScope_cons, encodeEach_cons, encodeAs_raw, pure_bind]
    rfl
  | json encoding =>
    cases encoding with
    | error cause => cases h
    | ok bytes =>
      cases h
      rw [inScope_cons, encodeEach_cons, encodeAs_json]
      rfl
  | deferred p =>
    cases h
    rw [inScope_cons, encodeEach_deferred, List.singleton_append, inScope_cons,
      Place.scope_below_answer]
    rfl
  | pair m =>
    cases h
    rw [inScope_cons, encodeEach_pair, List.singleton_append, inScope_cons,
      Place.scope_below_member]
    rfl
  | pairs ms =>
    cases h
    rw [inScope_cons, encodeEach_pairs]
    simp [inScope, asked, Function.comp_def]

theorem calls_encodeEach_of_refused {place : Place} {arg : Arg σ} {due : List (Place × Arg σ)}
    {state : σ} (h : arg.below? place state = none) :
    ((encodeEach (inScope ((place, arg) :: due))).run state).calls = [] := by
  cases arg with
  | json encoding =>
    cases encoding with
    | error cause => rfl
    | ok bytes => cases h
  | _ => cases h

/-- Encoding the values that are due calls the providers that are asked, in this order and for the
names that hold where they stand. -/
theorem Asks.calls_eq {due : List (Place × Arg σ)} {state : σ}
    {asks : List (Place × Provider σ (Arg σ))} (h : Asks due state asks) :
    ((encodeEach (inScope due)).run state).calls = asks.map callAt := by
  induction h with
  | done => rfl
  | refused refuses => exact calls_encodeEach_of_refused refuses
  | next h _ ih => rw [calls_encodeEach_of_below? h, ih, List.map_append]

/-- A value can be taken up wherever one can go on behind it. The induction goes through what
providers may answer and the values of members. -/
theorem exists_asks_cons (arg : Arg σ) (place : Place) {due : List (Place × Arg σ)}
    (rest : ∀ state, ∃ asks, Asks due state asks) (state : σ) :
    ∃ asks, Asks ((place, arg) :: due) state asks := by
  induction arg generalizing place due state with
  | json encoding =>
    cases encoding with
    | error cause => exact ⟨_, .refused rfl⟩
    | ok bytes =>
      obtain ⟨asks, h⟩ := rest state
      exact ⟨_, .next rfl h⟩
  | deferred p ih =>
    obtain ⟨asks, h⟩ :=
      ih place.scope state (place.below .answer) rest (p.answer place.scope state).2
    exact ⟨_, .next rfl h⟩
  | pair m ih =>
    obtain ⟨asks, h⟩ := ih (place.below (.member m.name)) rest state
    exact ⟨_, .next rfl h⟩
  | pairs ms ih =>
    have members : ∀ state, ∃ asks,
        Asks (ms.map (fun m => (place.below (.member m.name), m.value)) ++ due) state asks := by
      induction ms with
      | nil => exact rest
      | cons m ms ihs =>
        have further := ihs fun n mem => ih n (List.mem_cons_of_mem m mem)
        exact ih m List.mem_cons_self (place.below (.member m.name)) further
    obtain ⟨asks, h⟩ := members state
    exact ⟨_, .next rfl h⟩
  | _ =>
    obtain ⟨asks, h⟩ := rest state
    exact ⟨_, .next rfl h⟩

theorem exists_asks (due : List (Place × Arg σ)) (state : σ) : ∃ asks, Asks due state asks := by
  induction due generalizing state with
  | nil => exact ⟨[], .done⟩
  | cons d due ih => exact exists_asks_cons d.2 d.1 ih state

/-! ## Ways -/

/-- The steps lead from one value to another: through whatever a provider may answer and into the
values of members. -/
inductive Leads (top : Arg σ) : List Step → Arg σ → Prop where
  | here : Leads top [] top
  | answer {path : List Step} {p : Provider σ (Arg σ)} (name : String) (state : σ) :
    Leads top path (.deferred p) → Leads top (path ++ [.answer]) (p.answer name state).1
  | pair {path : List Step} {m : Member (Arg σ)} :
    Leads top path (.pair m) → Leads top (path ++ [.member m.name]) m.value
  | pairs {path : List Step} {ms : List (Member (Arg σ))} {m : Member (Arg σ)} :
    Leads top path (.pairs ms) → m ∈ ms → Leads top (path ++ [.member m.name]) m.value

/-- Values to begin with, each for its own name. -/
def atRoots (values : List (String × Arg σ)) : List (Place × Arg σ) :=
  values.map fun v => (⟨v.1, []⟩, v.2)

theorem inScope_atRoots (values : List (String × Arg σ)) : inScope (atRoots values) = values := by
  simp [inScope, atRoots, Function.comp_def]

/-- The way to a place leads from one of the values that encoding begins with, and there to a
value. -/
def Stands (values : List (String × Arg σ)) (place : Place) (value : Arg σ) : Prop :=
  ∃ v ∈ values, place.root = v.1 ∧ Leads v.2 place.path value

theorem stands_atRoots {values : List (String × Arg σ)} :
    ∀ d ∈ atRoots values, Stands values d.1 d.2 := by
  rw [atRoots, List.forall_mem_map]
  exact fun v mem => ⟨v, mem, rfl, .here⟩

/-- Outside of members the name that holds is that of the value that the way leads from. -/
theorem Stands.exists_scope_eq {values : List (String × Arg σ)} {place : Place} {value : Arg σ}
    (stands : Stands values place value) (outside : place.enclosing? = none) :
    ∃ v ∈ values, place.scope = v.1 ∧ Leads v.2 place.path value := by
  obtain ⟨v, mem, root, leads⟩ := stands
  exact ⟨v, mem, by rw [Place.scope, outside, Option.getD_none, root], leads⟩

/-- What is due when a value has been taken up stands one step further on the way. -/
theorem Stands.below? {values : List (String × Arg σ)} {place : Place} {arg : Arg σ}
    {state left : σ} {below : List (Place × Arg σ)} (stands : Stands values place arg)
    (h : arg.below? place state = some (below, left)) : ∀ d ∈ below, Stands values d.1 d.2 := by
  obtain ⟨v, mem, root, leads⟩ := stands
  cases arg with
  | json encoding =>
    cases encoding with
    | error cause => cases h
    | ok bytes =>
      cases h
      nofun
  | deferred p =>
    cases h
    exact List.forall_mem_singleton.2 ⟨v, mem, root, leads.answer _ _⟩
  | pair m =>
    cases h
    exact List.forall_mem_singleton.2 ⟨v, mem, root, leads.pair⟩
  | pairs ms =>
    cases h
    rw [List.forall_mem_map]
    exact fun m inMembers => ⟨v, mem, root, leads.pairs inMembers⟩
  | _ =>
    cases h
    nofun

/-- A way leads to every provider that is asked, if one leads to all values that are due. -/
theorem Asks.stands {values : List (String × Arg σ)} {due : List (Place × Arg σ)} {state : σ}
    {asks : List (Place × Provider σ (Arg σ))} (h : Asks due state asks)
    (stand : ∀ d ∈ due, Stands values d.1 d.2) : ∀ a ∈ asks, Stands values a.1 (.deferred a.2) := by
  induction h with
  | done => nofun
  | refused => nofun
  | @next place arg below due state left asks h _ ih =>
    obtain ⟨first, rest⟩ := List.forall_mem_cons.1 stand
    refine List.forall_mem_append.2 ⟨?_, ih (List.forall_mem_append.2 ⟨first.below? h, rest⟩)⟩
    cases arg with
    | deferred p => exact List.forall_mem_singleton.2 first
    | _ => nofun

/-- From every state the evaluation calls the providers that are asked when the values are taken up,
each where a way from one of the values leads to it and for the name that holds there. -/
def CallsInScope (x : Eval σ α) (values : List (String × Arg σ)) : Prop :=
  ∀ state, ∃ asks, Asks (atRoots values) state asks ∧ (x.run state).calls = asks.map callAt ∧
    ∀ a ∈ asks, Stands values a.1 (.deferred a.2)

theorem callsAs_encodeEach (due : List (String × Arg σ)) :
    (encodeEach due).CallsAs (due.map fun d => d.2.encodeAs d.1) := by
  induction due with
  | nil => exact Eval.callsAs_pure ()
  | cons d due ih => exact .bind fun _ => ih

/-- An evaluation that makes the calls of encoding values in turn makes them in scope. -/
theorem callsInScope_of_callsAs {x : Eval σ α} {values : List (String × Arg σ)}
    (h : x.CallsAs (values.map fun v => v.2.encodeAs v.1)) : CallsInScope x values := by
  intro state
  obtain ⟨asks, hasks⟩ := exists_asks (atRoots values) state
  refine ⟨asks, hasks, ?_, hasks.stands stands_atRoots⟩
  rw [h state, ← callsAs_encodeEach values state, ← hasks.calls_eq, inScope_atRoots]

/-- Encoding an argument calls providers in scope, with the name of the encoding at the root. -/
theorem callsInScope_encodeAs (arg : Arg σ) (name : String) :
    CallsInScope (arg.encodeAs name) [(name, arg)] := by
  have alone : (arg.encodeAs name >>= pure).CallsAs [arg.encodeAs name] :=
    .bind fun bytes => Eval.callsAs_pure bytes
  rw [bind_pure] at alone
  exact callsInScope_of_callsAs alone

/-- For which name encoding begins makes no difference if only providers inside of members are
asked. A provider that is itself the argument is inside of none. -/
theorem run_encodeAs_eq_of_enclosed {arg : Arg σ} {name : String} {state : σ}
    {asks : List (Place × Provider σ (Arg σ))} (h : Asks (atRoots [(name, arg)]) state asks)
    (enclosed : ∀ a ∈ asks, a.1.enclosing?.isSome = true) (other : String) :
    (arg.encodeAs other).run state = (arg.encodeAs name).run state := by
  cases arg with
  | deferred p =>
    cases h with
    | refused refuses => cases refuses
    | next => cases enclosed _ List.mem_cons_self
  | _ => simp

end Arg

/-! ## Templates -/

namespace Positional

open Arg (CallsInScope Stands callsInScope_of_callsAs)

/-- Arguments are encoded for no name. -/
theorem encode_eq_encodeAs (args : List (Arg σ)) :
    args.map Arg.encode = (args.map fun arg => ("", arg)).map fun v => v.2.encodeAs v.1 := by
  rw [List.map_map]
  rfl

/-- A positional template renders arguments in scope, with no name at their roots. -/
theorem callsInScope_render {t : Positional} {args : List (Arg σ)}
    (arity : t.accepts args.length = true) :
    CallsInScope (t.render args) (args.map fun arg => ("", arg)) :=
  callsInScope_of_callsAs (encode_eq_encodeAs args ▸ callsAs_render_supplied arity)

theorem callsInScope_specialize {t : Positional} (consistent : t.Consistent) {args : List (Arg σ)}
    (enough : args.length ≤ t.argsCount) :
    CallsInScope (t.specialize args) (args.map fun arg => ("", arg)) :=
  callsInScope_of_callsAs (encode_eq_encodeAs args ▸ callsAs_specialize consistent enough)

theorem scope_eq_empty {args : List (Arg σ)} {place : Place} {value : Arg σ}
    (stands : Stands (args.map fun arg => ("", arg)) place value)
    (outside : place.enclosing? = none) : place.scope = "" := by
  obtain ⟨v, mem, scope, -⟩ := stands.exists_scope_eq outside
  obtain ⟨arg, -, rfl⟩ := List.mem_map.1 mem
  exact scope

end Positional

namespace Named

open Arg (CallsInScope Stands Leads callsInScope_of_callsAs)

/-- What names stand for, each with its name, as far as they stand for something: the first that
needs a value and has none is the end. -/
def standIns (t : Named σ) (args : Bindings (Arg σ)) : List String → List (String × Arg σ)
  | [] => []
  | name :: names =>
    match t.completed? args name with
    | some value => (name, value) :: t.standIns args names
    | none => []

/-- What is bound of names, each with its name. -/
def bound (args : Bindings (Arg σ)) (names : List String) : List (String × Arg σ) :=
  names.filterMap fun name => (args.get? name).map fun value => (name, value)

theorem mem_standIns {t : Named σ} {args : Bindings (Arg σ)} {names : List String}
    {v : String × Arg σ} (mem : v ∈ t.standIns args names) :
    v.1 ∈ names ∧ t.completed? args v.1 = some v.2 := by
  induction names with
  | nil => cases mem
  | cons name names ih =>
    rw [standIns] at mem
    cases h : t.completed? args name with
    | none =>
      rw [h] at mem
      cases mem
    | some value =>
      rw [h] at mem
      rcases List.mem_cons.1 mem with rfl | mem
      · exact ⟨List.mem_cons_self, h⟩
      · exact (ih mem).imp_left (List.mem_cons_of_mem name)

theorem mem_bound {args : Bindings (Arg σ)} {names : List String} {v : String × Arg σ} :
    v ∈ bound args names ↔ v.1 ∈ names ∧ args.get? v.1 = some v.2 := by
  rw [bound, List.mem_filterMap]
  constructor
  · rintro ⟨name, mem, h⟩
    obtain ⟨value, found, rfl⟩ := Option.map_eq_some_iff.1 h
    exact ⟨mem, found⟩
  · rintro ⟨mem, found⟩
    exact ⟨v.1, mem, by rw [found]; rfl⟩

/-- Outside of members the name that holds is that of a placeholder, and the way leads from what it
stands for. -/
theorem exists_completed_of_stands {t : Named σ} {args : Bindings (Arg σ)} {names : List String}
    {place : Place} {value : Arg σ} (outside : place.enclosing? = none)
    (stands : Stands (t.standIns args names) place value) :
    place.scope ∈ names ∧
      ∃ top, t.completed? args place.scope = some top ∧ Leads top place.path value := by
  obtain ⟨v, mem, scope, leads⟩ := stands.exists_scope_eq outside
  obtain ⟨occurs, found⟩ := mem_standIns mem
  rw [scope]
  exact ⟨occurs, v.2, found, leads⟩

theorem exists_bound_of_stands {args : Bindings (Arg σ)} {names : List String}
    {place : Place} {value : Arg σ} (outside : place.enclosing? = none)
    (stands : Stands (bound args names) place value) :
    place.scope ∈ names ∧
      ∃ top, args.get? place.scope = some top ∧ Leads top place.path value := by
  obtain ⟨v, mem, scope, leads⟩ := stands.exists_scope_eq outside
  obtain ⟨occurs, found⟩ := mem_bound.1 mem
  rw [scope]
  exact ⟨occurs, v.2, found, leads⟩

theorem callsAs_mapM_resolve (t : Named σ) (args : Bindings (Arg σ)) (names : List String) :
    (names.mapM (t.resolve args)).CallsAs
      ((t.standIns args names).map fun v => v.2.encodeAs v.1) := by
  induction names with
  | nil => exact Eval.callsAs_pure []
  | cons name names ih =>
    rw [List.mapM_cons, resolve_eq_completed?, standIns]
    cases t.completed? args name with
    | some value => exact .bind fun bytes => ih.map _
    | none => exact fun _ => rfl

/-- A named template renders what its names stand for in scope, each with its name at the root. -/
theorem callsInScope_render (t : Named σ) (args : Bindings (Arg σ)) :
    CallsInScope (t.render args) (t.standIns args (Token.occurrences t.tokens)) :=
  callsInScope_of_callsAs ((callsAs_mapM_resolve t args _).map _)

theorem callsInScope_specialize (t : Named σ) (args : Bindings (Arg σ)) :
    CallsInScope (t.specialize args) (bound args (Token.occurrences t.tokens)) := by
  refine callsInScope_of_callsAs ?_
  have same : encodings args t.tokens =
      (bound args (Token.occurrences t.tokens)).map fun v => v.2.encodeAs v.1 := by
    rw [encodings, bound, List.map_filterMap]
    simp only [Option.map_map, Function.comp_def]
  rw [← same]
  exact callsAs_specialize t args

end Named

/-- Encoding an argument calls each provider that is reached for the name of the innermost member
around it, through whatever other providers answer on the way, and outside of members for the name
of the encoding, which makes no difference if no provider is asked there. So templates call
providers outside of members for nothing if they are positional, and else for the name of the
placeholder that the value stands for. -/
theorem callsInScope_encodeAs_render_specialize :
    (∀ (arg : Arg σ) (name : String),
      Arg.CallsInScope (arg.encodeAs name) [(name, arg)] ∧
      ∀ (state : σ) (asks : List (Place × Provider σ (Arg σ))),
        Arg.Asks (Arg.atRoots [(name, arg)]) state asks →
        (∀ a ∈ asks, a.1.enclosing?.isSome = true) →
        ∀ other, (arg.encodeAs other).run state = (arg.encodeAs name).run state) ∧
    (∀ t : Positional, Positional.Reachable σ t → ∀ args : List (Arg σ),
      (t.accepts args.length = true →
        Arg.CallsInScope (t.render args) (args.map fun arg => ("", arg))) ∧
      (t.accepts args.length = false → ∀ state, ((t.render args).run state).calls = []) ∧
      (args.length ≤ t.expectedArgs →
        Arg.CallsInScope (t.specialize args) (args.map fun arg => ("", arg))) ∧
      (t.expectedArgs < args.length → ∀ state, ((t.specialize args).run state).calls = []) ∧
      ∀ (place : Place) (value : Arg σ),
        Arg.Stands (args.map fun arg => ("", arg)) place value →
        place.enclosing? = none → place.scope = "") ∧
    (∀ (t : Named σ) (args : Bindings (Arg σ)),
      Arg.CallsInScope (t.render args) (t.standIns args (Token.occurrences t.tokens)) ∧
      Arg.CallsInScope (t.specialize args) (Named.bound args (Token.occurrences t.tokens)) ∧
      ∀ (place : Place) (value : Arg σ), place.enclosing? = none →
        (Arg.Stands (t.standIns args (Token.occurrences t.tokens)) place value →
          place.scope ∈ Token.occurrences t.tokens ∧
          ∃ top, t.completed? args place.scope = some top ∧ Arg.Leads top place.path value) ∧
        (Arg.Stands (Named.bound args (Token.occurrences t.tokens)) place value →
          place.scope ∈ Token.occurrences t.tokens ∧
          ∃ top, args.get? place.scope = some top ∧ Arg.Leads top place.path value)) := by
  refine ⟨?_, ?_, ?_⟩
  · intro arg name
    exact ⟨Arg.callsInScope_encodeAs arg name, fun _ _ => Arg.run_encodeAs_eq_of_enclosed⟩
  · intro t reach args
    refine ⟨Positional.callsInScope_render, ?_, Positional.callsInScope_specialize reach.consistent,
      ?_, fun _ _ => Positional.scope_eq_empty⟩
    · intro arity state
      rw [Positional.render_eq_fail arity, Eval.run_fail]
    · intro tooMany state
      rw [Positional.specialize_eq_fail tooMany, Eval.run_fail]
  · intro t args
    refine ⟨Named.callsInScope_render t args, Named.callsInScope_specialize t args, ?_⟩
    exact fun _ _ outside => ⟨Named.exists_completed_of_stands outside,
      Named.exists_bound_of_stands outside⟩

/-- The answer of a provider that answers with a provider, inside of a member that a provider has
answered, is asked for the name of the member, and beside that member for its own. The name of the
encoding reaches the provider outside only. -/
theorem callsInScope_encodeAs_render_specialize_nested :
    let tick : Arg Nat := .deferred ⟨some "tick", fun _ n => (.ofInt n, n + 1)⟩
    let chain : Arg Nat := .deferred ⟨some "chain", fun _ n => (tick, n)⟩
    let ms : List (Member (Arg Nat)) :=
      [⟨"a", chain, true⟩, ⟨"b", .pair ⟨"c", tick, false⟩, false⟩, ⟨"d", tick, false⟩]
    let outer : Arg Nat := .deferred ⟨some "outer", fun _ n => (.pairs ms, n)⟩
    let t := Positional.ofTokens [.positional, .fixed [comma], .positional] true false
    let u : Named Nat := .ofTokens [.named "x", .fixed [comma], .named "y"]
      (.ofList [("y", chain)]) true false
    let args : Bindings (Arg Nat) := .ofList [("x", outer)]
    let inside : List Call := [⟨some "chain", "a"⟩, ⟨some "tick", "a"⟩, ⟨some "tick", "c"⟩,
      ⟨some "tick", "d"⟩]
    (∃ asks, Arg.Asks (Arg.atRoots [("top", outer)]) 0 asks ∧
      asks.map Arg.callAt = ⟨some "outer", "top"⟩ :: inside ∧
      ∀ a ∈ asks, Arg.Stands [("top", outer)] a.1 (.deferred a.2)) ∧
    (∃ asks, Arg.Asks (Arg.atRoots [("top", .pairs ms)]) 0 asks ∧
      asks.map Arg.callAt = inside ∧ ∀ a ∈ asks, a.1.enclosing?.isSome = true) ∧
    ((Arg.pairs ms).encodeAs "other").run 0 = ((Arg.pairs ms).encodeAs "top").run 0 ∧
    Positional.Reachable Nat t ∧
    (∃ asks, Arg.Asks (Arg.atRoots [("", outer), ("", tick)]) 0 asks ∧
      asks.map Arg.callAt = ⟨some "outer", ""⟩ :: inside ++ [⟨some "tick", ""⟩]) ∧
    ((t.render [outer]).run 0).calls = [] ∧
    (∃ asks, Arg.Asks (Arg.atRoots [("", chain)]) 0 asks ∧
      asks.map Arg.callAt = [⟨some "chain", ""⟩, ⟨some "tick", ""⟩]) ∧
    ((t.specialize [outer, tick, tick]).run 0).calls = [] ∧
    Arg.Stands [("", chain)] ⟨"", [.answer]⟩ tick ∧ Place.scope ⟨"", [.answer]⟩ = "" ∧
    (∃ asks, Arg.Asks (Arg.atRoots (u.standIns args (Token.occurrences u.tokens))) 0 asks ∧
      asks.map Arg.callAt =
        ⟨some "outer", "x"⟩ :: inside ++ [⟨some "chain", "y"⟩, ⟨some "tick", "y"⟩]) ∧
    Arg.Stands (u.standIns args (Token.occurrences u.tokens)) ⟨"y", [.answer]⟩ tick ∧
    (∃ top, u.completed? args "y" = some top ∧ Arg.Leads top [.answer] tick) := by
  intro tick chain ms outer t u args inside
  obtain ⟨encode, positional, named⟩ := callsInScope_encodeAs_render_specialize (σ := Nat)
  have compiled : (Positional.compile "?,?" ([] : List (TemplateOption Nat))).Yields 0 t 0 :=
    ⟨[], by cbv⟩
  have reach : Positional.Reachable Nat t := .compile compiled
  have enclosed : ∃ asks, Arg.Asks (Arg.atRoots [("top", .pairs ms)]) 0 asks ∧
      asks.map Arg.callAt = inside ∧ ∀ a ∈ asks, a.1.enclosing?.isSome = true :=
    ⟨_, .next rfl (.next rfl (.next rfl (.next rfl (.next rfl (.next rfl (.next rfl
      (.next rfl (.next rfl .done)))))))), by cbv, List.all_eq_true.1 (by cbv)⟩
  have answered : Arg.Leads chain [.answer] tick := .answer "y" 0 .here
  have stands : Arg.Stands [("", chain)] ⟨"", [.answer]⟩ tick :=
    ⟨("", chain), List.mem_cons_self, rfl, answered⟩
  have standsNamed :
      Arg.Stands (u.standIns args (Token.occurrences u.tokens)) ⟨"y", [.answer]⟩ tick :=
    ⟨("y", chain), List.mem_cons_of_mem _ List.mem_cons_self, rfl, answered⟩
  obtain ⟨full, -, -, -, -⟩ := positional t reach [outer, tick]
  obtain ⟨-, few, -, -, -⟩ := positional t reach [outer]
  obtain ⟨-, -, bound, -, nameless⟩ := positional t reach [chain]
  obtain ⟨-, -, -, tooMany, -⟩ := positional t reach [outer, tick, tick]
  obtain ⟨render, -, outside⟩ := named u args
  refine ⟨?_, enclosed, ?_, reach, ?_, few rfl 0, ?_, tooMany (by decide) 0, stands,
    nameless _ _ stands rfl, ?_, standsNamed, ((outside _ _ rfl).1 standsNamed).2⟩
  · obtain ⟨asks, h, calls, stand⟩ := (encode outer "top").1 0
    refine ⟨asks, h, ?_, stand⟩
    rw [← calls]
    cbv
  · obtain ⟨asks, h, -, within⟩ := enclosed
    exact (encode _ _).2 0 asks h within "other"
  · obtain ⟨asks, h, calls, -⟩ := full rfl 0
    refine ⟨asks, h, ?_⟩
    rw [← calls]
    cbv
  · obtain ⟨asks, h, calls, -⟩ := bound (by decide) 0
    refine ⟨asks, h, ?_⟩
    rw [← calls]
    cbv
  · obtain ⟨asks, h, calls, -⟩ := render 0
    refine ⟨asks, h, ?_⟩
    rw [← calls]
    cbv

end Stencil
