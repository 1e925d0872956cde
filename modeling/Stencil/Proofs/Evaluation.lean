import Stencil.Eval

/-!
# Outcomes of evaluations

What an evaluation yields or fails with from a state, and how both compose: `yields_bind_iff` and
`fails_bind_iff` take a sequence of evaluations apart, and the lemmas on `mapM` do so for lists.
-/

namespace Stencil.Eval

variable {σ α β : Type}

/-- From `state` the evaluation gives `a` and leaves the state `next`. -/
def Yields (x : Eval σ α) (state : σ) (a : α) (next : σ) : Prop :=
  ∃ calls, x.run state = ⟨.ok a, calls, next⟩

/-- From `state` the evaluation fails with `e`. -/
def Fails (x : Eval σ α) (state : σ) (e : Error) : Prop := (x.run state).result = .error e

theorem result_eq_ok_iff {x : Eval σ α} {state : σ} {a : α} :
    (x.run state).result = .ok a ↔ ∃ next, x.Yields state a next := by
  constructor
  · intro h
    exact ⟨(x.run state).state, (x.run state).calls, by rw [← h]⟩
  · rintro ⟨next, calls, h⟩
    rw [h]

theorem Yields.result_eq {x : Eval σ α} {state next : σ} {a : α} (h : x.Yields state a next) :
    (x.run state).result = .ok a :=
  result_eq_ok_iff.2 ⟨next, h⟩

theorem Yields.unique {x : Eval σ α} {state next next' : σ} {a a' : α}
    (h : x.Yields state a next) (h' : x.Yields state a' next') : a = a' ∧ next = next' := by
  obtain ⟨calls, h⟩ := h
  obtain ⟨calls', h'⟩ := h'
  rw [h] at h'
  cases h'
  exact ⟨rfl, rfl⟩

theorem Yields.not_fails {x : Eval σ α} {state next : σ} {a : α} {e : Error}
    (h : x.Yields state a next) : ¬ x.Fails state e := by
  rw [Fails, h.result_eq]
  nofun

/-- From every state an evaluation either yields a value or fails. -/
theorem yields_or_fails (x : Eval σ α) (state : σ) :
    (∃ a next, x.Yields state a next) ∨ ∃ e, x.Fails state e := by
  cases h : (x.run state).result with
  | ok a =>
    obtain ⟨next, hx⟩ := result_eq_ok_iff.1 h
    exact .inl ⟨a, next, hx⟩
  | error e => exact .inr ⟨e, h⟩

@[simp] theorem yields_pure_iff {a b : α} {state next : σ} :
    (pure a : Eval σ α).Yields state b next ↔ a = b ∧ state = next := by
  simp [Yields]

@[simp] theorem fails_pure_iff {a : α} {state : σ} {e : Error} :
    (pure a : Eval σ α).Fails state e ↔ False := by
  simp [Fails]

@[simp] theorem yields_fail_iff {e : Error} {a : α} {state next : σ} :
    (fail e : Eval σ α).Yields state a next ↔ False := by
  simp [Yields]

@[simp] theorem fails_fail_iff {e e' : Error} {state : σ} :
    (fail e : Eval σ α).Fails state e' ↔ e = e' := by
  simp [Fails]

@[simp] theorem yields_ofExcept_iff {r : Except Error α} {a : α} {state next : σ} :
    (ofExcept r).Yields state a next ↔ r = .ok a ∧ state = next := by
  simp [Yields, ofExcept, run]

@[simp] theorem fails_ofExcept_iff {r : Except Error α} {state : σ} {e : Error} :
    (ofExcept r).Fails state e ↔ r = .error e := by
  simp [Fails, ofExcept, run]

theorem run_ofExcept (r : Except Error α) (state : σ) : (ofExcept r).run state = ⟨r, [], state⟩ :=
  rfl

theorem run_attempt (x : Eval σ α) (state : σ) :
    x.attempt.run state = { x.run state with result := .ok () } :=
  rfl

theorem run_withLocal {τ : Type} (init : τ) (x : Eval (τ × σ) α) (state : σ) :
    (withLocal init x).run state =
      ⟨(x.run (init, state)).result.map (·, (x.run (init, state)).state.1),
        (x.run (init, state)).calls, (x.run (init, state)).state.2⟩ :=
  rfl

theorem map_eq_error_iff {r : Except Error α} {f : α → β} {e : Error} :
    r.map f = .error e ↔ r = .error e := by
  cases r <;> simp [Except.map]

theorem fails_withLocal_iff {τ : Type} {init : τ} {x : Eval (τ × σ) α} {state : σ} {e : Error} :
    (withLocal init x).Fails state e ↔ x.Fails (init, state) e := by
  rw [Fails, run_withLocal, map_eq_error_iff, Fails]

theorem yields_withLocal_iff {τ : Type} {init : τ} {x : Eval (τ × σ) α} {state last : σ} {a : α}
    {left : τ} : (withLocal init x).Yields state (a, left) last ↔
      x.Yields (init, state) a (left, last) := by
  unfold Yields
  rw [run_withLocal]
  rcases x.run (init, state) with ⟨_ | b, calls, after⟩
  · simp [Except.map]
  · simp [Except.map, Prod.ext_iff, and_assoc]

/-! ## Sequences of evaluations -/

/-- The result of two evaluations in turn is the first error or else the value of the second. -/
theorem result_bind (x : Eval σ α) (f : α → Eval σ β) (state : σ) :
    ((x >>= f).run state).result =
      match (x.run state).result with
      | .ok a => ((f a).run (x.run state).state).result
      | .error e => .error e := by
  rw [run_bind]
  rcases x.run state with ⟨_ | a, calls, next⟩ <;> rfl

theorem result_bind_eq_ok_iff {x : Eval σ α} {f : α → Eval σ β} {state : σ} {b : β} :
    ((x >>= f).run state).result = .ok b ↔
      ∃ a, (x.run state).result = .ok a ∧ ((f a).run (x.run state).state).result = .ok b := by
  rw [result_bind]
  cases (x.run state).result <;> simp

theorem result_bind_pure_eq_ok_iff {x : Eval σ α} {f : α → β} {state : σ} {b : β} :
    ((x >>= fun a => pure (f a)).run state).result = .ok b ↔
      ∃ a, (x.run state).result = .ok a ∧ f a = b := by
  rw [result_bind_eq_ok_iff]
  simp

/-- Two evaluations in turn yield a value if the first yields one and the second goes on from there.
-/
theorem yields_bind_iff {x : Eval σ α} {f : α → Eval σ β} {state last : σ} {b : β} :
    (x >>= f).Yields state b last ↔
      ∃ a next, x.Yields state a next ∧ (f a).Yields next b last := by
  unfold Yields
  rw [run_bind]
  rcases hx : x.run state with ⟨_ | a, calls, next⟩
  · simp
  · constructor
    · rintro ⟨further, h⟩
      refine ⟨a, next, ⟨calls, rfl⟩, ((f a).run next).calls, ?_⟩
      simp only [Outcome.mk.injEq] at h
      rw [← h.1, ← h.2.2]
    · rintro ⟨a', next', ⟨calls', same⟩, further, h⟩
      cases same
      exact ⟨calls ++ further, by simp only [h]⟩

/-- Two evaluations in turn fail if the first fails, or if it yields a value and the second fails.
-/
theorem fails_bind_iff {x : Eval σ α} {f : α → Eval σ β} {state : σ} {e : Error} :
    (x >>= f).Fails state e ↔
      x.Fails state e ∨ ∃ a next, x.Yields state a next ∧ (f a).Fails next e := by
  unfold Fails Yields
  rw [result_bind]
  rcases hx : x.run state with ⟨_ | a, calls, next⟩
  · simp
  · constructor
    · intro h
      exact .inr ⟨a, next, ⟨calls, rfl⟩, h⟩
    · rintro (h | ⟨a', next', ⟨calls', same⟩, h⟩)
      · cases h
      · cases same
        exact h

theorem yields_bind_pure_iff {x : Eval σ α} {f : α → β} {state last : σ} {b : β} :
    (x >>= fun a => pure (f a)).Yields state b last ↔ ∃ a, x.Yields state a last ∧ f a = b := by
  rw [yields_bind_iff]
  constructor
  · rintro ⟨a, next, h, h'⟩
    obtain ⟨same, rfl⟩ := yields_pure_iff.1 h'
    exact ⟨a, h, same⟩
  · rintro ⟨a, h, rfl⟩
    exact ⟨a, last, h, yields_pure_iff.2 ⟨rfl, rfl⟩⟩

theorem fails_bind_pure_iff {x : Eval σ α} {f : α → β} {state : σ} {e : Error} :
    (x >>= fun a => pure (f a)).Fails state e ↔ x.Fails state e := by
  rw [fails_bind_iff]
  simp

/-- What goes on after an evaluation matters only for the values that it yields. -/
theorem bind_congr_of_yields {x : Eval σ α} {f g : α → Eval σ β}
    (same : ∀ state a next, x.Yields state a next → (f a).run next = (g a).run next) :
    x >>= f = x >>= g := by
  ext state : 1
  rw [run_bind, run_bind]
  rcases hx : x.run state with ⟨e | a, calls, next⟩
  · rfl
  · simp only [same state a next ⟨calls, hx⟩]

/-- Going through a list begins with its head and goes on from the state that was left. -/
theorem yields_mapM_cons_iff {f : β → Eval σ α} {x : β} {xs : List β} {state last : σ}
    {as : List α} :
    ((x :: xs).mapM f).Yields state as last ↔
      ∃ a mid bs, (f x).Yields state a mid ∧ (xs.mapM f).Yields mid bs last ∧ as = a :: bs := by
  rw [List.mapM_cons, yields_bind_iff]
  constructor
  · rintro ⟨a, mid, hx, h⟩
    obtain ⟨bs, hxs, rfl⟩ := yields_bind_pure_iff.1 h
    exact ⟨a, mid, bs, hx, hxs, rfl⟩
  · rintro ⟨a, mid, bs, hx, hxs, rfl⟩
    exact ⟨a, mid, hx, yields_bind_pure_iff.2 ⟨bs, hxs, rfl⟩⟩

theorem length_of_mapM_yields {f : β → Eval σ α} {xs : List β} {state last : σ} {as : List α}
    (h : (xs.mapM f).Yields state as last) : as.length = xs.length := by
  induction xs generalizing state as with
  | nil =>
    obtain ⟨rfl, -⟩ := yields_pure_iff.1 h
    rfl
  | cons x xs ih =>
    obtain ⟨a, mid, bs, -, rest, rfl⟩ := yields_mapM_cons_iff.1 h
    rw [List.length_cons, List.length_cons, ih rest]

/-- Evaluations of a list that are the same at its members are the same for the list. -/
theorem mapM_congr {f g : β → Eval σ α} {xs : List β} (same : ∀ x ∈ xs, f x = g x) :
    xs.mapM f = xs.mapM g := by
  induction xs with
  | nil => rfl
  | cons x xs ih =>
    obtain ⟨first, rest⟩ := List.forall_mem_cons.1 same
    rw [List.mapM_cons, List.mapM_cons, first, ih rest]

/-- The first evaluation of a list that fails decides what the evaluation of all fails with. -/
theorem fails_mapM_iff {f : β → Eval σ α} {xs : List β} {state : σ} {e : Error} :
    (xs.mapM f).Fails state e ↔
      ∃ before x after as next, xs = before ++ x :: after ∧
        (before.mapM f).Yields state as next ∧ (f x).Fails next e := by
  induction xs generalizing state with
  | nil => simp
  | cons x xs ih =>
    rw [List.mapM_cons, fails_bind_iff]
    constructor
    · rintro (h | ⟨a, mid, h, h'⟩)
      · exact ⟨[], x, xs, [], state, rfl, by simp, h⟩
      · obtain ⟨before, y, after, as, next, rfl, hbefore, hy⟩ := ih.1 (fails_bind_pure_iff.1 h')
        refine ⟨x :: before, y, after, a :: as, next, rfl, ?_, hy⟩
        exact yields_mapM_cons_iff.2 ⟨a, mid, as, h, hbefore, rfl⟩
    · rintro ⟨before, y, after, as, next, split, hbefore, hy⟩
      cases before with
      | nil =>
        obtain ⟨rfl, rfl⟩ := List.cons.inj split
        simp only [List.mapM_nil, yields_pure_iff] at hbefore
        rw [hbefore.2]
        exact .inl hy
      | cons z before =>
        obtain ⟨rfl, rfl⟩ := List.cons.inj split
        obtain ⟨a, mid, bs, h, hrest, -⟩ := yields_mapM_cons_iff.1 hbefore
        refine .inr ⟨a, mid, h, fails_bind_pure_iff.2 (ih.2 ?_)⟩
        exact ⟨before, y, after, bs, next, rfl, hrest, hy⟩

theorem mapM_eq_replicate {f : β → Eval σ α} {a : α} {xs : List β}
    (same : ∀ x ∈ xs, f x = pure a) : xs.mapM f = pure (List.replicate xs.length a) := by
  induction xs with
  | nil => rfl
  | cons x xs ih =>
    obtain ⟨hx, hxs⟩ := List.forall_mem_cons.1 same
    rw [List.mapM_cons, hx, ih hxs, pure_bind, pure_bind]
    rfl

/-- From `state` on, the evaluations of a list succeed one after the other, with values that all
have the property `P`. -/
def EachYields (P : α → Prop) : List (Eval σ α) → σ → Prop
  | [], _ => True
  | x :: xs, state => ∃ a next, x.Yields state a next ∧ P a ∧ EachYields P xs next

/-- If each evaluation in turn yields a value of a kind then going through the list yields values of
the kind. -/
theorem EachYields.mapM {P : α → Prop} {f : β → Eval σ α} {xs : List β} {state : σ}
    (each : EachYields P (xs.map f) state) :
    ∃ as next, (xs.mapM f).Yields state as next ∧ as.length = xs.length ∧ ∀ a ∈ as, P a := by
  induction xs generalizing state with
  | nil => exact ⟨[], state, by simp, rfl, by simp⟩
  | cons x xs ih =>
    obtain ⟨a, mid, hx, ha, rest⟩ := each
    obtain ⟨as, next, hxs, length, has⟩ := ih rest
    refine ⟨a :: as, next, ?_, by simp [length], List.forall_mem_cons.2 ⟨ha, has⟩⟩
    exact yields_mapM_cons_iff.2 ⟨a, mid, as, hx, hxs, rfl⟩

/-! ## Evaluations that do not depend on the state -/

/-- The evaluations have the same result, from whatever states. What they do to the states may
differ. -/
def Agree (x y : Eval σ α) : Prop := ∀ s t, (x.run s).result = (y.run t).result

/-- The result of the evaluation is the same from every state. -/
def StateFree (x : Eval σ α) : Prop := x.Agree x

theorem agree_pure (a : α) : (pure a : Eval σ α).Agree (pure a) := fun _ _ => rfl

/-- Evaluations that agree can be followed by others that agree. -/
theorem Agree.bind {x y : Eval σ α} {f g : α → Eval σ β} (hxy : x.Agree y)
    (hfg : ∀ a, (f a).Agree (g a)) : (x >>= f).Agree (y >>= g) := by
  intro s t
  rw [result_bind, result_bind, hxy s t]
  cases (y.run t).result with
  | error e => rfl
  | ok a => exact hfg a _ _

/-- What does not depend on the state is the constant that it has yielded once. -/
theorem StateFree.agree_pure_of_yields {x : Eval σ α} (free : x.StateFree) {s s' : σ} {a : α}
    (h : x.Yields s a s') : (pure a : Eval σ α).Agree x := fun _ t =>
  (free t s |>.trans h.result_eq).symm

theorem StateFree.fails {x : Eval σ α} (free : x.StateFree) {s : σ} {e : Error}
    (h : x.Fails s e) (t : σ) : x.Fails t e :=
  (free t s).trans h

/-- The evaluation of a list fails if one of its members fails from every state. -/
theorem exists_fails_mapM_of_mem {f : β → Eval σ α} {xs : List β} {x : β} {e : Error}
    (mem : x ∈ xs) (h : ∀ s, (f x).Fails s e) (state : σ) : ∃ e, (xs.mapM f).Fails state e := by
  induction xs generalizing state with
  | nil => cases mem
  | cons y ys ih =>
    rw [List.mapM_cons]
    rcases yields_or_fails (f y) state with ⟨a, next, hy⟩ | ⟨e', hy⟩
    · rcases List.mem_cons.1 mem with rfl | mem
      · exact ⟨e, fails_bind_iff.2 (.inl (h state))⟩
      · obtain ⟨e', hys⟩ := ih mem next
        exact ⟨e', fails_bind_iff.2 (.inr ⟨a, next, hy, fails_bind_pure_iff.2 hys⟩)⟩
    · exact ⟨e', fails_bind_iff.2 (.inl hy)⟩

end Stencil.Eval
