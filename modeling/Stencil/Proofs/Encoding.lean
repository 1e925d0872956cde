import Stencil.Arg.Encode
import Stencil.Proofs.Evaluation

/-!
# Encodings

What encoding an argument can fail with. A provider cannot fail, so only an encoder can, at any
depth of members and computed values.
-/

namespace Stencil

variable {σ : Type}

@[simp] theorem Provider.fails_call_iff {α : Type} {p : Provider σ α} {name : String} {state : σ}
    {e : Error} : (p.call name).Fails state e ↔ False := by
  simp [Eval.Fails, Eval.run, Provider.call]

theorem Provider.yields_call_iff {α : Type} {p : Provider σ α} {name : String} {state next : σ}
    {value : α} : (p.call name).Yields state value next ↔ p.answer name state = (value, next) := by
  simp [Eval.Yields, Eval.run, Provider.call, Prod.ext_iff]

namespace Arg

/-- Encoding an argument is encoding what one call makes of it. -/
theorem encodeAs_eq_resolve (arg : Arg σ) (name : String) :
    arg.encodeAs name = arg.resolve name >>= fun value => value.encodeAs name := by
  cases arg with
  | deferred p => exact encodeAs_deferred p name
  | _ => simp [resolve]

end Arg

/-- A member that fails does so because its value does. -/
theorem Member.fails_value_of_fails {m : Member (Arg σ)} {state : σ} {e : Error}
    (h : m.render.Fails state e) : (m.value.encodeAs m.name).Fails state e := by
  rw [Member.render_eq, Eval.fails_bind_iff] at h
  rw [Arg.encodeAs_eq_resolve, Eval.fails_bind_iff]
  rcases h with h | ⟨value, next, hvalue, h⟩
  · exact .inl h
  · split at h
    · exact absurd h (by simp)
    · exact .inr ⟨value, next, hvalue, Eval.fails_bind_pure_iff.1 h⟩

/-- Members that fail do so because one of them does. -/
theorem Arg.fails_member_of_fails {written : Bytes} {ms : List (Member (Arg σ))} {state : σ}
    {e : Error} (h : (renderOnto written ms).Fails state e) :
    ∃ m ∈ ms, ∃ mid, m.render.Fails mid e := by
  induction ms generalizing written state with
  | nil => simp [renderOnto] at h
  | cons m ms ih =>
    rw [renderOnto, Eval.fails_bind_iff] at h
    rcases h with h | ⟨text, next, -, h⟩
    · exact ⟨m, List.mem_cons_self, state, h⟩
    · have rest : ∃ written, (renderOnto written ms).Fails next e := by
        by_cases nothing : text.isEmpty
        · rw [if_pos nothing] at h
          exact ⟨written, h⟩
        rw [if_neg nothing] at h
        by_cases begins : written.isEmpty
        · rw [if_pos begins] at h
          exact ⟨text, h⟩
        · rw [if_neg begins] at h
          exact ⟨_, h⟩
      obtain ⟨written, hrest⟩ := rest
      obtain ⟨n, mem, found⟩ := ih hrest
      exact ⟨n, List.mem_cons_of_mem m mem, found⟩

/-- Encoding an argument fails with nothing but what an encoder fails with. The induction goes
through what providers may answer and what members hold. -/
theorem Arg.eq_encoding_of_fails {arg : Arg σ} {name : String} {state : σ} {e : Error}
    (h : (arg.encodeAs name).Fails state e) : ∃ cause, e = .encoding cause := by
  induction arg generalizing name state with
  | null => simp at h
  | raw bytes => simp at h
  | json encoding =>
    rw [encodeAs_json, Eval.fails_ofExcept_iff] at h
    cases encoding with
    | error cause => exact ⟨cause, (Except.error.inj h).symm⟩
    | ok bytes => cases h
  | deferred p ih =>
    rw [encodeAs_deferred, Eval.fails_bind_iff] at h
    rcases h with h | ⟨value, next, ⟨calls, hcall⟩, h⟩
    · exact absurd h (by simp)
    · have answered : value = (p.answer name state).1 := by
        simp only [Eval.run, Provider.call, Outcome.mk.injEq, Except.ok.injEq] at hcall
        exact hcall.1.symm
      subst answered
      exact ih name state h
  | pair m ih =>
    rw [encodeAs_pair] at h
    exact ih (Member.fails_value_of_fails h)
  | pairs ms ih =>
    rw [encodeAs_pairs] at h
    obtain ⟨m, mem, mid, h⟩ := fails_member_of_fails h
    exact ih m mem (Member.fails_value_of_fails h)

end Stencil
