import Mathlib
import Stencil.Proofs.Members
import Stencil.Proofs.Omission

/-!
# Members joined by commas

Whether a comma is due is decided by what has been written so far, and not by the members. The two
come to the same because a member that is not left out writes its key at least, so that only members
that are left out write nothing. Hence the text of a list of members is that of its members in turn,
those that write nothing dropped, with one comma between each two.
-/

namespace Stencil

open Ascii

variable {σ : Type}

namespace Json

@[simp] theorem joinMember_nil_left (text : Bytes) : joinMember [] text = text := by
  cases text <;> rfl

@[simp] theorem joinMember_nil_right (written : Bytes) : joinMember written [] = written := rfl

theorem joinMember_of_ne_nil {written text : Bytes} (before : written ≠ []) (behind : text ≠ []) :
    joinMember written text = written ++ comma :: text := by
  simp [joinMember, before, behind]

/-- It makes no difference which of three texts are joined first. -/
theorem joinMember_assoc (a b c : Bytes) :
    joinMember (joinMember a b) c = joinMember a (joinMember b c) := by
  by_cases ha : a = []
  · simp [ha]
  by_cases hb : b = []
  · simp [hb]
  by_cases hc : c = []
  · simp [hc]
  rw [joinMember_of_ne_nil ha hb, joinMember_of_ne_nil hb hc, joinMember_of_ne_nil (by simp) hc,
    joinMember_of_ne_nil ha (by simp), List.append_assoc, List.cons_append]

instance : Std.Associative joinMember := ⟨joinMember_assoc⟩

theorem foldl_joinMember (written : Bytes) (texts : List Bytes) :
    texts.foldl joinMember written = joinMember written (texts.foldl joinMember []) := by
  have assoc : texts.foldl joinMember (joinMember written []) =
      joinMember written (texts.foldl joinMember []) := List.foldl_assoc
  rwa [joinMember_nil_right] at assoc

/-- Joining texts one by one puts one comma between each two that are not empty. -/
theorem foldl_joinMember_eq_intercalate (texts : List Bytes) :
    texts.foldl joinMember [] = [comma].intercalate (texts.filter (· ≠ [])) := by
  induction texts with
  | nil => rfl
  | cons text texts ih =>
    rw [List.foldl_cons, joinMember_nil_left, foldl_joinMember, ih]
    by_cases empty : text = []
    · simp [empty]
    rw [List.filter_cons_of_pos (by simpa using empty)]
    cases hrest : texts.filter (· ≠ []) with
    | nil => rw [List.intercalate_nil, List.intercalate_singleton, joinMember_nil_right]
    | cons next rest =>
      have kept : next ≠ [] := by
        have mem : next ∈ texts.filter (· ≠ []) := hrest ▸ List.mem_cons_self
        simpa using (List.mem_filter.1 mem).2
      have something : [comma].intercalate (next :: rest) ≠ [] := by
        cases rest <;> simp [List.intercalate_cons_cons, kept]
      rw [joinMember_of_ne_nil empty something, List.intercalate_cons_cons]
      simp

end Json

open Json

namespace Member

/-- Only a member that is left out writes nothing. -/
theorem render_yields_nil_iff {m : Member (Arg σ)} {state last : σ} :
    m.render.Yields state [] last ↔
      m.omitEmpty = true ∧ (m.value.resolve m.name).Yields state .null last := by
  rw [render_eq, Eval.yields_bind_iff]
  constructor
  · rintro ⟨value, mid, hvalue, h⟩
    by_cases omitted : (m.omitEmpty && value.isNull) = true
    · rw [if_pos omitted] at h
      obtain ⟨-, rfl⟩ := Eval.yields_pure_iff.1 h
      obtain ⟨omits, null⟩ := Bool.and_eq_true_iff.1 omitted
      exact ⟨omits, Arg.isNull_iff.1 null ▸ hvalue⟩
    · rw [if_neg omitted] at h
      obtain ⟨text, -, nil⟩ := Eval.yields_bind_pure_iff.1 h
      exact absurd (List.append_eq_nil_iff.1 nil).1 m.key_ne_nil
  · rintro ⟨omits, hvalue⟩
    refine ⟨.null, last, hvalue, ?_⟩
    rw [omits]
    exact Eval.yields_pure_iff.2 ⟨rfl, rfl⟩

theorem renderAll_eq_mapM (ms : List (Member (Arg σ))) :
    renderAll ms = do return [comma].intercalate ((← ms.mapM render).filter (· ≠ [])) := by
  simp only [renderAll, renderOnto_eq_mapM, foldl_joinMember_eq_intercalate]

/-- The text of two lists of members is that of the first joined to that of the second. -/
theorem renderAll_append (xs ys : List (Member (Arg σ))) :
    renderAll (xs ++ ys) = do return joinMember (← renderAll xs) (← renderAll ys) := by
  have joined (as bs : List Bytes) : (as ++ bs).foldl joinMember [] =
      joinMember (as.foldl joinMember []) (bs.foldl joinMember []) := by
    rw [List.foldl_append, foldl_joinMember]
  simp only [renderAll, renderOnto_eq_mapM, List.mapM_append, bind_assoc, pure_bind, joined]

theorem renderAll_cons (m : Member (Arg σ)) (ms : List (Member (Arg σ))) :
    renderAll (m :: ms) = do return joinMember (← m.render) (← renderAll ms) := by
  have single : renderAll [m] = m.render := by
    simp [renderAll, renderOnto_eq_mapM]
  rw [← List.singleton_append, renderAll_append, single]

/-- A member writes the same from every state if its value is the same from every state and has the
same encoding from every state. -/
theorem stateFree_render {m : Member (Arg σ)} (value : (m.value.resolve m.name).StateFree)
    (text : ∀ state answer next, (m.value.resolve m.name).Yields state answer next →
      (answer.encodeAs m.name).StateFree) : m.render.StateFree := by
  intro s t
  obtain ⟨answer, next, hs⟩ := m.value.exists_resolve_yields m.name s
  have ht : ((m.value.resolve m.name).run t).result = .ok answer :=
    (value t s).trans hs.result_eq
  rw [render_eq, Eval.result_bind, Eval.result_bind, hs.result_eq, ht]
  by_cases omitted : (m.omitEmpty && answer.isNull) = true
  · simp only [if_pos omitted]
    exact Eval.agree_pure [] _ _
  · simp only [if_neg omitted]
    have encoded := text s answer next hs
    exact encoded.bind (fun _ => Eval.agree_pure _) _ _

theorem stateFree_renderAll {ms : List (Member (Arg σ))}
    (free : ∀ m ∈ ms, m.render.StateFree) : (renderAll ms).StateFree := by
  induction ms with
  | nil =>
    rw [renderAll_nil]
    exact Eval.agree_pure []
  | cons m ms ih =>
    obtain ⟨first, rest⟩ := List.forall_mem_cons.1 free
    rw [renderAll_cons]
    exact first.bind fun _ => (ih rest).bind fun _ => Eval.agree_pure _

/-- A member that is left out makes no difference to the members behind it, if these do not depend on
the state that its provider leaves. -/
theorem agree_renderAll_cons_omitted {m : Member (Arg σ)} {ms : List (Member (Arg σ))}
    (omitted : ∀ state, (m.render.run state).result = .ok []) (free : (renderAll ms).StateFree) :
    (renderAll (m :: ms)).Agree (renderAll ms) := by
  have nothing : m.render.Agree (pure []) := fun state _ => omitted state
  have behind := nothing.bind (g := fun text => do return joinMember text (← renderAll ms)) fun text =>
    free.bind fun body => Eval.agree_pure (joinMember text body)
  rw [← renderAll_cons, pure_bind] at behind
  simpa only [joinMember_nil_left, bind_pure] using behind

/-- The text of members fails with the first member that fails, and if none does it is the texts of
the members in turn, those that write nothing dropped, with one comma between each two. A member
writes nothing just if it is left out. The text of two lists is made of the texts of the two, with a
comma if both write something; and where what members write does not depend on the states of
providers, those that are left out can be deleted. -/
theorem renderAll_eq_intercalate :
    (∀ (ms : List (Member (Arg σ))) (state : σ) (e : Error), (renderAll ms).Fails state e ↔
      ∃ before m after texts mid, ms = before ++ m :: after ∧
        (before.mapM render).Yields state texts mid ∧ m.render.Fails mid e) ∧
    (∀ (ms : List (Member (Arg σ))) (state : σ) (body : Bytes) (last : σ),
      (renderAll ms).Yields state body last ↔
        ∃ texts, (ms.mapM render).Yields state texts last ∧
          [comma].intercalate (texts.filter (· ≠ [])) = body) ∧
    (∀ (m : Member (Arg σ)) (state last : σ), m.render.Yields state [] last ↔
      m.omitEmpty = true ∧ (m.value.resolve m.name).Yields state .null last) ∧
    (∀ xs ys : List (Member (Arg σ)), renderAll (xs ++ ys) = do
      let a ← renderAll xs
      let b ← renderAll ys
      return if b = [] then a else if a = [] then b else a ++ comma :: b) ∧
    ∀ (xs ys : List (Member (Arg σ))) (m : Member (Arg σ)) (before : σ),
      (∀ n ∈ m :: ys, n.render.StateFree) → (m.render.run before).result = .ok [] →
        ∀ state, ((renderAll (xs ++ m :: ys)).run state).result =
          ((renderAll (xs ++ ys)).run state).result := by
  refine ⟨?_, ?_, fun m state last => render_yields_nil_iff, ?_, ?_⟩
  · intro ms state e
    rw [renderAll_eq_mapM, Eval.fails_bind_pure_iff, Eval.fails_mapM_iff]
  · intro ms state body last
    rw [renderAll_eq_mapM, Eval.yields_bind_pure_iff]
  · intro xs ys
    rw [renderAll_append]
    simp only [joinMember, List.isEmpty_iff]
  · intro xs ys m before free omitted state
    obtain ⟨freeM, freeYs⟩ := List.forall_mem_cons.1 free
    have nothing : ∀ now, (m.render.run now).result = .ok [] := fun now =>
      (freeM now before).trans omitted
    have tails := agree_renderAll_cons_omitted nothing (stateFree_renderAll freeYs)
    rw [renderAll_append, renderAll_append, Eval.result_bind, Eval.result_bind]
    cases ((renderAll xs).run state).result with
    | error e => rfl
    | ok text => exact tails.bind (fun _ => Eval.agree_pure _) _ _

/-- Behind a member that counts its calls, one that is null is left out, and one whose value is empty
is not. The comma stands between the two that are written, and without the one that is left out the
text is the same. -/
theorem renderAll_eq_intercalate_empty :
    let counter : Member (Arg Nat) := .ofProvider "a" { answer := fun _ n => (.ofInt n, n + 1) }
    let null : Provider Nat (Arg Nat) := { answer := fun _ n => (.null, n) }
    let nothing : Member (Arg Nat) := ⟨"b", .deferred null, true⟩
    let empty : Member (Arg Nat) := ⟨"c", .raw [], true⟩
    let text := counter.key ++ [zero] ++ comma :: empty.key
    (∀ n ∈ [nothing, empty], n.render.StateFree) ∧ (nothing.render.run 0).result = .ok [] ∧
      ((renderAll [counter, nothing, empty]).run 0).result = .ok text ∧
      ((renderAll [counter, empty]).run 0).result = .ok text := by
  intro counter null nothing empty text
  have freeNothing : nothing.render.StateFree := by
    refine stateFree_render (fun _ _ => rfl) fun state answer next yields => ?_
    have answered : null.answer "b" state = (answer, next) := Provider.yields_call_iff.1 yields
    obtain ⟨rfl, -⟩ := Prod.mk.inj answered
    rw [Arg.encodeAs_null]
    exact Eval.agree_pure _
  have freeEmpty : empty.render.StateFree := by
    refine stateFree_render (Eval.agree_pure _) fun state answer next yields => ?_
    obtain ⟨rfl, -⟩ := Eval.yields_pure_iff.1 yields
    rw [Arg.encodeAs_raw]
    exact Eval.agree_pure _
  have free : ∀ n ∈ [nothing, empty], n.render.StateFree := by
    simp only [List.forall_mem_cons]
    exact ⟨freeNothing, freeEmpty, nofun⟩
  have omitted : (nothing.render.run 0).result = .ok [] := rfl
  have written : ((renderAll [counter, nothing, empty]).run 0).result = .ok text := by
    subst text
    cbv
  have deleted := renderAll_eq_intercalate.2.2.2.2 [counter] [empty] nothing 0 free omitted 0
  exact ⟨free, omitted, written, deleted ▸ written⟩

end Member

end Stencil
