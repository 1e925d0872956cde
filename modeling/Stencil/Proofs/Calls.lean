import Stencil.Proofs.Encoding
import Stencil.Proofs.Members

/-!
# Calls of providers

What calls an evaluation makes, told from the calls of its parts. `CallsAs` says so of evaluations
that run others one after the other, and `visits_iff` of the encoding of an argument: every provider
that is reached is called once, whether or not it is asked if its answer is null.
-/

namespace Stencil

variable {σ α β γ : Type}

namespace Eval

/-- The calls of each of several evaluations, of which every one runs from the state that the one
before it left. The first that fails is the last to be run. -/
def callsInTurn : List (Eval σ α) → σ → List (List Call)
  | [], _ => []
  | x :: xs, state =>
    match x.run state with
    | ⟨.ok _, calls, next⟩ => calls :: callsInTurn xs next
    | ⟨.error _, calls, _⟩ => [calls]

/-- From every state the evaluation makes just the calls that the others make in turn. -/
def CallsAs (x : Eval σ β) (xs : List (Eval σ α)) : Prop :=
  ∀ state, (x.run state).calls = (callsInTurn xs state).flatten

theorem callsAs_pure (b : β) : (pure b : Eval σ β).CallsAs ([] : List (Eval σ α)) := fun _ => rfl

/-- What goes on after an evaluation makes the calls that come after those of the evaluation. -/
theorem CallsAs.bind {x : Eval σ α} {f : α → Eval σ β} {xs : List (Eval σ α)}
    (rest : ∀ a, (f a).CallsAs xs) : (x >>= f).CallsAs (x :: xs) := by
  intro state
  rw [run_bind, callsInTurn]
  rcases x.run state with ⟨_ | a, calls, next⟩
  · simp
  · simp [rest a next]

theorem CallsAs.map {x : Eval σ β} {xs : List (Eval σ α)} (h : x.CallsAs xs) (g : β → γ) :
    (x >>= fun b => pure (g b)).CallsAs xs := by
  intro state
  rw [← h state, run_bind]
  rcases x.run state with ⟨_ | b, calls, next⟩ <;> simp

theorem callsAs_mapM (f : β → Eval σ α) (bs : List β) : (bs.mapM f).CallsAs (bs.map f) := by
  induction bs with
  | nil => exact callsAs_pure []
  | cons b bs ih =>
    rw [List.mapM_cons, List.map_cons]
    exact .bind fun a => ih.map _

/-- Evaluations that make no calls can be left out at the end. -/
theorem flatten_callsInTurn_append_replicate (xs : List (Eval σ α)) (n : Nat) (a : α) (state : σ) :
    (callsInTurn (xs ++ List.replicate n (pure a)) state).flatten =
      (callsInTurn xs state).flatten := by
  induction xs generalizing state with
  | nil =>
    induction n with
    | zero => rfl
    | succ n ih => simpa [callsInTurn, List.replicate_succ] using ih
  | cons x xs ih =>
    rw [List.cons_append, callsInTurn, callsInTurn]
    rcases x.run state with ⟨_ | b, calls, next⟩
    · rfl
    · simp [ih next]

end Eval

/-! ## What encoding an argument reaches -/

namespace Arg

/-- How values that are due to be encoded, each for its name, call providers from a state on. The
first that is due is taken up. A provider is called for the name, and its answer is due in its
place; of members the values are due, each for the name of the member, and it makes no difference
whether the member is left out if its value is null. What an encoder refuses is the end. -/
inductive Visits : List (String × Arg σ) → σ → Outcome σ Unit → Prop where
  | done {state : σ} : Visits [] state ⟨.ok (), [], state⟩
  | null {name : String} {due : List (String × Arg σ)} {state : σ} {o : Outcome σ Unit} :
    Visits due state o → Visits ((name, .null) :: due) state o
  | raw {name : String} {bytes : Bytes} {due : List (String × Arg σ)} {state : σ}
    {o : Outcome σ Unit} : Visits due state o → Visits ((name, .raw bytes) :: due) state o
  | json {name : String} {bytes : Bytes} {due : List (String × Arg σ)} {state : σ}
    {o : Outcome σ Unit} : Visits due state o → Visits ((name, .json (.ok bytes)) :: due) state o
  | refused {name : String} {cause : Json.Error} {due : List (String × Arg σ)} {state : σ} :
    Visits ((name, .json (.error cause)) :: due) state ⟨.error (.encoding cause), [], state⟩
  | deferred {name : String} {p : Provider σ (Arg σ)} {due : List (String × Arg σ)} {state : σ}
    {o : Outcome σ Unit} :
    Visits ((name, (p.answer name state).1) :: due) (p.answer name state).2 o →
    Visits ((name, .deferred p) :: due) state (o.afterCall ⟨p.label, name⟩)
  | pair {name : String} {m : Member (Arg σ)} {due : List (String × Arg σ)} {state : σ}
    {o : Outcome σ Unit} :
    Visits ((m.name, m.value) :: due) state o → Visits ((name, .pair m) :: due) state o
  | pairs {name : String} {ms : List (Member (Arg σ))} {due : List (String × Arg σ)} {state : σ}
    {o : Outcome σ Unit} : Visits (ms.map (fun m => (m.name, m.value)) ++ due) state o →
    Visits ((name, .pairs ms) :: due) state o

/-- Encodes values, each for its name, and forgets the texts. -/
def encodeEach (due : List (String × Arg σ)) : Eval σ Unit :=
  due.foldr (fun d rest => d.2.encodeAs d.1 >>= fun _ => rest) (pure ())

theorem encodeEach_cons (name : String) (arg : Arg σ) (due : List (String × Arg σ)) :
    encodeEach ((name, arg) :: due) = arg.encodeAs name >>= fun _ => encodeEach due := rfl

end Arg

theorem Arg.isNull_iff {arg : Arg σ} : arg.isNull = true ↔ arg = .null := by
  cases arg <;> simp [isNull]

/-- A member has the effects of its value, for whether it is left out is decided by an answer that
is to be written otherwise. -/
theorem Member.render_bind_eq (m : Member (Arg σ)) (rest : Eval σ β) :
    m.render >>= (fun _ => rest) = m.value.encodeAs m.name >>= fun _ => rest := by
  rw [Member.render_eq, Arg.encodeAs_eq_resolve, bind_assoc, bind_assoc]
  congr 1
  funext value
  cases hvalue : value.isNull with
  | false => simp
  | true =>
    obtain rfl := Arg.isNull_iff.1 hvalue
    by_cases omitted : m.omitEmpty = true <;> simp [omitted]

namespace Arg

/-- If a provider is due first then it is called for the name, and its answer is due in its place.
-/
theorem encodeEach_deferred (name : String) (p : Provider σ (Arg σ))
    (due : List (String × Arg σ)) (state : σ) :
    (encodeEach ((name, .deferred p) :: due)).run state =
      ((encodeEach ((name, (p.answer name state).1) :: due)).run
        (p.answer name state).2).afterCall ⟨p.label, name⟩ := by
  rw [encodeEach_cons, encodeAs_deferred, bind_assoc, Eval.run_bind]
  rfl

theorem encodeEach_pair (name : String) (m : Member (Arg σ)) (due : List (String × Arg σ)) :
    encodeEach ((name, .pair m) :: due) = encodeEach ((m.name, m.value) :: due) := by
  rw [encodeEach_cons, encodeEach_cons, encodeAs_pair, Member.render_bind_eq]

/-- If members are due first then their values are, each for the name of the member. -/
theorem encodeEach_pairs (name : String) (ms : List (Member (Arg σ)))
    (due : List (String × Arg σ)) : encodeEach ((name, .pairs ms) :: due) =
      encodeEach (ms.map (fun m => (m.name, m.value)) ++ due) := by
  rw [encodeEach_cons, encodeAs_pairs, Member.renderAll, Member.renderOnto_eq_mapM, bind_assoc]
  simp only [pure_bind]
  induction ms with
  | nil => simp
  | cons m ms ih =>
    rw [List.mapM_cons, List.map_cons, List.cons_append, encodeEach_cons, ← ih]
    simp only [bind_assoc, pure_bind]
    exact Member.render_bind_eq m _

/-- Encoding the values that are due does what taking them up one after the other does. -/
theorem Visits.run_eq {due : List (String × Arg σ)} {state : σ} {o : Outcome σ Unit}
    (h : Visits due state o) : (encodeEach due).run state = o := by
  induction h with
  | done => rfl
  | null _ ih => rwa [encodeEach_cons, encodeAs_null, pure_bind]
  | raw _ ih => rwa [encodeEach_cons, encodeAs_raw, pure_bind]
  | json _ ih =>
    rw [encodeEach_cons, encodeAs_json]
    exact ih
  | refused =>
    rw [encodeEach_cons, encodeAs_json]
    rfl
  | deferred _ ih => rw [encodeEach_deferred, ih]
  | pair _ ih => rwa [encodeEach_pair]
  | pairs _ ih => rwa [encodeEach_pairs]

/-- An argument can be taken up wherever one can go on behind it. The induction goes through what
providers may answer and the values of members. -/
theorem exists_visits_cons (arg : Arg σ) (name : String) {due : List (String × Arg σ)}
    (rest : ∀ state, ∃ o, Visits due state o) (state : σ) :
    ∃ o, Visits ((name, arg) :: due) state o := by
  induction arg generalizing name due state with
  | null =>
    obtain ⟨o, h⟩ := rest state
    exact ⟨o, .null h⟩
  | raw bytes =>
    obtain ⟨o, h⟩ := rest state
    exact ⟨o, .raw h⟩
  | json encoding =>
    cases encoding with
    | error cause => exact ⟨_, .refused⟩
    | ok bytes =>
      obtain ⟨o, h⟩ := rest state
      exact ⟨o, .json h⟩
  | deferred p ih =>
    obtain ⟨o, h⟩ := ih name state name rest (p.answer name state).2
    exact ⟨_, .deferred h⟩
  | pair m ih =>
    obtain ⟨o, h⟩ := ih m.name rest state
    exact ⟨o, .pair h⟩
  | pairs ms ih =>
    have members : ∀ state, ∃ o, Visits (ms.map (fun m => (m.name, m.value)) ++ due) state o := by
      induction ms with
      | nil => exact rest
      | cons m ms ihs =>
        have further := ihs fun n mem => ih n (List.mem_cons_of_mem m mem)
        exact ih m List.mem_cons_self m.name further
    obtain ⟨o, h⟩ := members state
    exact ⟨o, .pairs h⟩

/-- Encoding an argument calls each provider that is reached once, where it is reached. -/
theorem visits_iff {arg : Arg σ} {name : String} {state : σ} {o : Outcome σ Unit} :
    Visits [(name, arg)] state o ↔ (arg.encodeAs name >>= fun _ => pure ()).run state = o := by
  constructor
  · exact Visits.run_eq
  · intro h
    have nothing : ∀ state : σ, ∃ o, Visits [] state o := fun _ => ⟨_, .done⟩
    obtain ⟨o', visits⟩ := exists_visits_cons arg name nothing state
    obtain rfl : o' = o := visits.run_eq.symm.trans h
    exact visits

end Arg

end Stencil
