import Stencil.Error

/-!
# Evaluation

Encoding an argument may call providers, which compute values, may keep a state of their own and
may be called again and give another answer. An evaluation therefore takes a state to an outcome:
a result or the first error, the provider calls that were made, in order, and the state they left.
Calls and state of a failed evaluation are kept.
-/

namespace Stencil

/-- A call of a provider: what the provider is labelled, and the name it was asked to answer for. -/
structure Call where
  provider : Option String
  name : String
  deriving DecidableEq, Repr

/-- What an evaluation ends in. -/
@[ext]
structure Outcome (σ α : Type) where
  result : Except Error α
  calls : List Call
  state : σ

/-- An outcome with one more call before its calls. -/
def Outcome.afterCall {σ α : Type} (call : Call) (o : Outcome σ α) : Outcome σ α :=
  { o with calls := call :: o.calls }

/-- A computation over provider states `σ` that gives an `α` or fails. -/
def Eval (σ α : Type) : Type := σ → Outcome σ α

namespace Eval

variable {σ τ α β γ : Type}

/-- The outcome of an evaluation from a state. -/
def run (x : Eval σ α) (state : σ) : Outcome σ α := x state

@[ext] theorem ext {x y : Eval σ α} (h : ∀ state, x.run state = y.run state) : x = y := funext h

/-- The evaluation that gives a value without a call. -/
def ok (a : α) : Eval σ α := fun state => ⟨.ok a, [], state⟩

/-- The evaluation that fails without a call. -/
def fail (e : Error) : Eval σ α := fun state => ⟨.error e, [], state⟩

/-- An outcome that does not depend on any state. -/
def ofExcept (r : Except Error α) : Eval σ α := fun state => ⟨r, [], state⟩

/-- Evaluates `x`, and then `f` with its value from the state that `x` left. -/
def bind (x : Eval σ α) (f : α → Eval σ β) : Eval σ β := fun state =>
  match x state with
  | ⟨.ok a, calls, state⟩ =>
    let next := f a state
    ⟨next.result, calls ++ next.calls, next.state⟩
  | ⟨.error e, calls, state⟩ => ⟨.error e, calls, state⟩

instance : Monad (Eval σ) where
  pure := ok
  bind := bind

@[simp] theorem run_pure (a : α) (state : σ) : (pure a : Eval σ α).run state = ⟨.ok a, [], state⟩ :=
  rfl

@[simp] theorem run_fail (e : Error) (state : σ) :
    (fail e : Eval σ α).run state = ⟨.error e, [], state⟩ :=
  rfl

/-- What goes on after an evaluation starts from the state that it left and makes its calls behind
those made before. After a failure nothing goes on. -/
theorem run_bind (x : Eval σ α) (f : α → Eval σ β) (state : σ) :
    (x >>= f).run state =
      match x.run state with
      | ⟨.ok a, calls, state⟩ =>
        ⟨((f a).run state).result, calls ++ ((f a).run state).calls, ((f a).run state).state⟩
      | ⟨.error e, calls, state⟩ => ⟨.error e, calls, state⟩ :=
  rfl

@[simp] theorem fail_bind (e : Error) (f : α → Eval σ β) : fail e >>= f = fail e := rfl

instance : LawfulMonad (Eval σ) := LawfulMonad.mk' (Eval σ)
  (by
    intro α x
    funext state
    change Eval.bind x ok state = x state
    unfold Eval.bind ok
    rcases x state with ⟨_ | a, calls, left⟩ <;> simp)
  (by
    intro α β a f
    funext state
    change Eval.bind (ok a) f state = f a state
    simp [Eval.bind, ok])
  (by
    intro α β γ x f g
    funext state
    change Eval.bind (Eval.bind x f) g state = Eval.bind x (fun a => Eval.bind (f a) g) state
    unfold Eval.bind
    rcases x state with ⟨_ | a, calls, left⟩
    · rfl
    · dsimp only
      generalize f a left = o
      rcases o with ⟨_ | b, further, after⟩ <;> simp [List.append_assoc])

/-- Runs an evaluation for its effects, whether it fails or not. -/
def attempt (x : Eval σ α) : Eval σ Unit := fun state => { x state with result := .ok () }

/-- Runs an evaluation that has a second state of its own, and gives the value together with what
is left of that state. -/
def withLocal (init : τ) (x : Eval (τ × σ) α) : Eval σ (α × τ) := fun state =>
  let o := x (init, state)
  ⟨o.result.map (·, o.state.1), o.calls, o.state.2⟩

end Eval

end Stencil
