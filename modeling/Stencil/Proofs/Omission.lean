import Mathlib
import Stencil.Proofs.Calls

/-!
# Members that are left out

A provider may answer with a value that is deferred as well. Encoding follows such answers to the
end, whereas a member that is to be left out if it is null looks at the first answer only. So it is
left out if its value is null or one call makes it null, but a null behind a second call is written.
-/

namespace Stencil

open Ascii

variable {σ : Type}

namespace Arg

/-- Whether an argument has yet to be computed. -/
def isDeferred : Arg σ → Bool
  | deferred _ => true
  | _ => false

mutual

/-- The value that is encoded for an argument in the end: what its provider answers, or if that is
deferred as well then what the provider of that answers, and so on. -/
def settle : Arg σ → String → Eval σ (Arg σ)
  | deferred p, name => settleCall p name
  | arg, _ => pure arg
termination_by structural arg => arg

/-- What calling a provider comes to in the end. -/
def settleCall : Provider σ (Arg σ) → String → Eval σ (Arg σ)
  | ⟨label, answer⟩, name => fun state =>
    (settleAnswer (answer name state) name).afterCall ⟨label, name⟩
termination_by structural p => p

/-- What a provider's answer comes to, from the state the provider left. -/
def settleAnswer : Arg σ × σ → String → Outcome σ (Arg σ)
  | (value, state), name => settle value name state
termination_by structural answer => answer

end

theorem settle_deferred (p : Provider σ (Arg σ)) (name : String) :
    (deferred p).settle name = p.call name >>= fun value => value.settle name := by
  obtain ⟨label, answer⟩ := p
  funext state
  simp only [settle, settleCall, Provider.call, Outcome.afterCall, bind, Eval.bind]
  rcases answer name state with ⟨value, left⟩
  simp [settleAnswer]

theorem settle_of_isDeferred_eq_false {arg : Arg σ} (final : arg.isDeferred = false)
    (name : String) : arg.settle name = pure arg := by
  cases arg with
  | deferred p => cases final
  | _ => simp [settle]

theorem settle_yields_iff_of_isDeferred_eq_false {arg value : Arg σ}
    (final : arg.isDeferred = false) {name : String} {state last : σ} :
    (arg.settle name).Yields state value last ↔ arg = value ∧ state = last := by
  rw [settle_of_isDeferred_eq_false final, Eval.yields_pure_iff]

/-- Following answers to the end begins with one call. -/
theorem settle_eq_resolve (arg : Arg σ) (name : String) :
    arg.settle name = arg.resolve name >>= fun value => value.settle name := by
  cases arg with
  | deferred p => exact settle_deferred p name
  | _ => simp [resolve]

/-- Following answers comes to an end, at a value that is not deferred. -/
theorem exists_settle_yields (arg : Arg σ) (name : String) (state : σ) :
    ∃ value last, (arg.settle name).Yields state value last ∧ value.isDeferred = false := by
  induction arg generalizing state with
  | deferred p ih =>
    obtain ⟨value, last, yields, final⟩ := ih name state (p.answer name state).2
    refine ⟨value, last, ?_, final⟩
    rw [settle_deferred]
    exact Eval.yields_bind_iff.2 ⟨_, _, Provider.yields_call_iff.2 rfl, yields⟩
  | _ =>
    refine ⟨_, state, (settle_yields_iff_of_isDeferred_eq_false ?_).2 ⟨rfl, rfl⟩, ?_⟩ <;> rfl

/-- Encoding an argument is encoding what it comes to in the end. -/
theorem encodeAs_eq_settle (arg : Arg σ) (name : String) :
    arg.encodeAs name = arg.settle name >>= fun value => value.encodeAs name := by
  induction arg with
  | deferred p ih =>
    rw [encodeAs_deferred, settle_deferred, bind_assoc]
    refine Eval.bind_congr_of_yields fun state value next yields => ?_
    have answered := Provider.yields_call_iff.1 yields
    have same := ih name state
    rw [answered] at same
    rw [same]
  | _ => rw [settle_of_isDeferred_eq_false rfl, pure_bind]

/-- A value that comes to null in the end is written as null, however many calls it takes. -/
theorem encodeAs_yields_nullText {arg : Arg σ} {name : String} {state last : σ}
    (null : (arg.settle name).Yields state .null last) :
    (arg.encodeAs name).Yields state Json.nullText last := by
  rw [encodeAs_eq_settle, Eval.yields_bind_iff]
  refine ⟨.null, last, null, ?_⟩
  rw [encodeAs_null]
  exact Eval.yields_pure_iff.2 ⟨rfl, rfl⟩

theorem exists_resolve_yields (arg : Arg σ) (name : String) (state : σ) :
    ∃ answer mid, (arg.resolve name).Yields state answer mid := by
  cases arg with
  | deferred p => exact ⟨_, _, Provider.yields_call_iff.2 rfl⟩
  | _ => exact ⟨_, state, Eval.yields_pure_iff.2 ⟨rfl, rfl⟩⟩

end Arg

namespace Member

theorem key_ne_nil {α : Type} (m : Member α) : m.key ≠ [] := by
  simp [key]

/-- A member that is to be left out if it is null looks for that at the answer to one call. -/
theorem result_render_eq_ok_iff {m : Member (Arg σ)} (omits : m.omitEmpty = true) {state mid : σ}
    {answer : Arg σ} (answered : (m.value.resolve m.name).Yields state answer mid) (text : Bytes) :
    (m.render.run state).result = .ok text ↔
      (answer = .null ∧ [] = text) ∨ (answer ≠ .null ∧
        ∃ encoding, ((answer.encodeAs m.name).run mid).result = .ok encoding ∧
          m.key ++ encoding = text) := by
  obtain ⟨calls, answered⟩ := answered
  rw [render_eq, Eval.result_bind, answered, omits]
  by_cases null : answer = .null
  · subst null
    simp [Arg.isNull]
  · have kept : answer.isNull = false := Bool.eq_false_iff.2 (mt Arg.isNull_iff.1 null)
    simp only [kept, null, Bool.and_false, Bool.false_eq_true, if_false, false_and, false_or, ne_eq,
      not_false_eq_true, true_and]
    exact Eval.result_bind_pure_eq_ok_iff

/-- A member that is to be left out if it is null writes nothing just if what its value comes to in
the end is null and the first answer is not deferred. If the first answer is deferred, a null that
it comes to is written. -/
theorem omits_iff {m : Member (Arg σ)} (omits : m.omitEmpty = true) (state : σ) :
    m.value.encodeAs m.name =
        (m.value.settle m.name >>= fun value => value.encodeAs m.name) ∧
      ∃ answer mid settled last,
        (m.value.resolve m.name).Yields state answer mid ∧
        (m.value.settle m.name).Yields state settled last ∧ settled.isDeferred = false ∧
        ((m.render.run state).result = .ok [] ↔ settled = .null ∧ answer.isDeferred = false) ∧
        (settled = .null → answer.isDeferred = true →
          (m.render.run state).result = .ok (m.key ++ Json.nullText)) ∧
        ∀ text, (m.render.run state).result = .ok text → text ≠ [] → m.key <+: text := by
  obtain ⟨answer, mid, answered⟩ := m.value.exists_resolve_yields m.name state
  obtain ⟨settled, last, followed, final⟩ := answer.exists_settle_yields m.name mid
  have settles : (m.value.settle m.name).Yields state settled last := by
    rw [Arg.settle_eq_resolve]
    exact Eval.yields_bind_iff.2 ⟨answer, mid, answered, followed⟩
  have rendered := result_render_eq_ok_iff omits answered
  refine ⟨m.value.encodeAs_eq_settle m.name, answer, mid, settled, last, answered, settles, final,
    ⟨fun empty => ?_, ?_⟩, ?_, ?_⟩
  · rcases (rendered _).1 empty with ⟨rfl, -⟩ | ⟨-, encoding, -, nil⟩
    · obtain ⟨null, -⟩ := (Arg.settle_yields_iff_of_isDeferred_eq_false rfl).1 followed
      exact ⟨null.symm, rfl⟩
    · exact absurd (List.append_eq_nil_iff.1 nil).1 m.key_ne_nil
  · rintro ⟨rfl, direct⟩
    obtain ⟨null, -⟩ := (Arg.settle_yields_iff_of_isDeferred_eq_false direct).1 followed
    exact (rendered _).2 (.inl ⟨null, rfl⟩)
  · rintro rfl deferred
    have kept : answer ≠ .null := by
      rintro rfl
      cases deferred
    have encoded := Arg.encodeAs_yields_nullText followed
    exact (rendered _).2 (.inr ⟨kept, Json.nullText, encoded.result_eq, rfl⟩)
  · intro text written something
    rcases (rendered _).1 written with ⟨-, nil⟩ | ⟨-, encoding, -, rfl⟩
    · exact absurd nil.symm something
    · exact List.prefix_append _ _

/-- A provider that counts its calls answers null at first and its count from then on. The member is
left out the first time and written the second time. -/
theorem omits_iff_counter :
    let counter : Provider Nat (Arg Nat) :=
      ⟨none, fun _ n => (if n = 0 then .null else .ofInt n, n + 1)⟩
    let m : Member (Arg Nat) := ⟨"seq", .deferred counter, true⟩
    let text := m.key ++ [zero + 1]
    m.omitEmpty = true ∧ (m.render.run 0).result = .ok [] ∧
      (m.render.run 1).result = .ok text ∧ m.key <+: text := by
  intro counter m text
  have omits : m.omitEmpty = true := rfl
  obtain ⟨-, answer, mid, settled, last, answered, settles, final, empty, -⟩ := omits_iff omits 0
  have first : (m.value.resolve m.name).Yields 0 .null 1 := ⟨[⟨none, "seq"⟩], rfl⟩
  have null : (m.value.settle m.name).Yields 0 .null 1 := ⟨[⟨none, "seq"⟩], rfl⟩
  obtain ⟨rfl, -⟩ := first.unique answered
  obtain ⟨rfl, -⟩ := null.unique settles
  obtain ⟨-, _, _, _, _, -, -, -, -, -, named⟩ := omits_iff omits 1
  have written : (m.render.run 1).result = .ok text := by
    subst text
    cbv
  have something : text ≠ [] := List.append_ne_nil_of_left_ne_nil m.key_ne_nil _
  exact ⟨omits, empty.2 ⟨rfl, rfl⟩, written, named text written something⟩

/-- A member whose value becomes null only with the second call is not left out. -/
theorem not_omits_null_behind_two_calls :
    let inner : Provider Unit (Arg Unit) := ⟨none, fun _ n => (.null, n)⟩
    let outer : Provider Unit (Arg Unit) := ⟨none, fun _ n => (.deferred inner, n)⟩
    let m : Member (Arg Unit) := ⟨"seq", .deferred outer, true⟩
    m.omitEmpty = true ∧ (m.value.settle m.name).Yields () .null () ∧
      (m.render.run ()).result = .ok (m.key ++ Json.nullText) ∧ (m.render.run ()).result ≠ .ok [] := by
  intro inner outer m
  have null : (m.value.settle m.name).Yields () .null () :=
    ⟨[⟨none, "seq"⟩, ⟨none, "seq"⟩], rfl⟩
  have written : (m.render.run ()).result = .ok (m.key ++ Json.nullText) := rfl
  refine ⟨rfl, null, written, ?_⟩
  rw [written]
  exact fun empty => m.key_ne_nil (List.append_eq_nil_iff.1 (Except.ok.inj empty)).1

end Member

end Stencil
