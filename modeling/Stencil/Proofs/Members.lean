import Mathlib
import Stencil.Proofs.Encoding
import Stencil.Proofs.Json.Member
import Stencil.Proofs.Positional.Fill

/-!
# Members between braces

The text of members is made in two steps: one evaluates the values of the members in turn, and the
other joins what they give. The second knows of no provider, so that members make the body of an
object (`accepts_renderAll`) follows from what holds of joining complete JSON texts.
-/

namespace Stencil

open Ascii

variable {σ : Type}

namespace Member

/-- The text of a member's value, or none if the member is to be omitted. -/
def valueText (m : Member (Arg σ)) : Eval σ (Option Bytes) := do
  let value ← m.value.resolve m.name
  if m.omitEmpty && value.isNull then return none
  else return some (← value.encodeAs m.name)

/-- The text of a member whose value has the given text, which is empty if there is none. -/
def withText (m : Member (Arg σ)) : Option Bytes → Bytes
  | none => []
  | some text => m.key ++ text

theorem render_eq_valueText (m : Member (Arg σ)) :
    m.render = m.valueText >>= fun text? => pure (m.withText text?) := by
  rw [render_eq, valueText, bind_assoc]
  congr 1
  funext value
  by_cases omitted : (m.omitEmpty && value.isNull) = true
  · rw [if_pos omitted, if_pos omitted, pure_bind]
    rfl
  · rw [if_neg omitted, if_neg omitted, bind_assoc]
    simp only [pure_bind]
    rfl

theorem renderOnto_cons (written : Bytes) (m : Member (Arg σ)) (ms : List (Member (Arg σ))) :
    Arg.renderOnto written (m :: ms) =
      m.render >>= fun text => Arg.renderOnto (Json.joinMember written text) ms := by
  rw [Arg.renderOnto, render]
  congr 1
  funext text
  unfold Json.joinMember
  split
  · rfl
  · split <;> rfl

/-- Members are rendered in turn, and what they render to is joined. -/
theorem renderOnto_eq_mapM (written : Bytes) (ms : List (Member (Arg σ))) :
    Arg.renderOnto written ms =
      ms.mapM render >>= fun texts => pure (texts.foldl Json.joinMember written) := by
  induction ms generalizing written with
  | nil =>
    rw [Arg.renderOnto, List.mapM_nil, pure_bind]
    rfl
  | cons m ms ih =>
    rw [renderOnto_cons, List.mapM_cons]
    simp only [ih, bind_assoc, pure_bind, List.foldl_cons]

/-- From `state` on, the members that are not omitted have values with complete JSON texts. -/
def EachComplete (ms : List (Member (Arg σ))) (state : σ) : Prop :=
  Eval.EachYields (fun text? => ∀ text ∈ text?, Json.Accepts text) (ms.map valueText) state

/-- If the members have complete values then each writes a member of an object or nothing. -/
theorem EachComplete.eachYields_render {ms : List (Member (Arg σ))} {state : σ}
    (complete : EachComplete ms state) :
    Eval.EachYields (fun text => text = [] ∨ Json.IsMember text) (ms.map render) state := by
  induction ms generalizing state with
  | nil => trivial
  | cons m ms ih =>
    obtain ⟨text?, next, htext, accepted, rest⟩ := complete
    refine ⟨m.withText text?, next, ?_, ?_, ih rest⟩
    · rw [render_eq_valueText, Eval.yields_bind_pure_iff]
      exact ⟨text?, htext, rfl⟩
    · cases text? with
      | none => exact .inl rfl
      | some text => exact .inr (Json.isMember_quoted m.name (accepted text rfl))

/-- If the members have complete values then together they write what can stand between braces. -/
theorem EachComplete.renderAll_yields {ms : List (Member (Arg σ))} {state : σ}
    (complete : EachComplete ms state) :
    ∃ body last, (renderAll ms).Yields state body last ∧ Json.IsBody body := by
  obtain ⟨texts, last, htexts, -, members⟩ := complete.eachYields_render.mapM
  refine ⟨texts.foldl Json.joinMember [], last, ?_, ?_⟩
  · rw [renderAll, renderOnto_eq_mapM, Eval.yields_bind_pure_iff]
    exact ⟨texts, htexts, rfl⟩
  · exact Json.isBody_foldl_joinMember (.inl rfl) members

end Member

/-- A placeholder between braces puts one argument there. -/
theorem Positional.render_braces (strict validate : Bool) (arg : Arg σ) :
    (ofTokens [.fixed [openBrace], .positional, .fixed [closeBrace]] strict validate).render [arg] =
      arg.encode >>= fun bytes => pure (openBrace :: (bytes ++ [closeBrace])) := by
  have one : (ofTokens [.fixed [openBrace], .positional, .fixed [closeBrace]] strict
      validate).accepts [arg].length = true := by
    rw [accepts_iff]
    exact ⟨Nat.le_refl 1, fun _ => rfl⟩
  rw [render_eq_fill (consistent_ofTokens _ _ _) one]
  simp [ofTokens, fill]

/-- The text of members whose values have complete JSON texts makes an object when it is put
between braces, whichever members are omitted, and `{?}` puts it there. -/
theorem accepts_renderAll {ms : List (Member (Arg σ))} {state : σ}
    (complete : Member.EachComplete ms state) :
    ∃ body last, (Member.renderAll ms).Yields state body last ∧
      Json.Accepts (openBrace :: (body ++ [closeBrace])) ∧
      (∀ before : σ, ∃ t, (Positional.compile "{?}" []).Yields before t before) ∧
      ∀ (options : List (TemplateOption σ)) (before after : σ) (t : Positional),
        (Positional.compile "{?}" options).Yields before t after →
          (t.render [.pairs ms]).Yields state (openBrace :: (body ++ [closeBrace])) last := by
  obtain ⟨body, last, hbody, isBody⟩ := complete.renderAll_yields
  let tokens : List Token := [.fixed [openBrace], .positional, .fixed [closeBrace]]
  have scanned : Token.ofText .positional "{?}" = .ok tokens := by cbv
  refine ⟨body, last, hbody, isBody.accepts_braces, ?_, ?_⟩
  · intro before
    exact Positional.exists_compile_yields "{?}" before
  · intro options before after t compiled
    obtain ⟨raw, strict, validate, hraw, rfl, -⟩ := Positional.compile_yields compiled
    obtain rfl : tokens = raw := Except.ok.inj (scanned.symm.trans hraw)
    have merged : Token.merge tokens = tokens := rfl
    rw [merged, Positional.render_braces, Arg.encode, Arg.encodeAs_pairs,
      Eval.yields_bind_pure_iff]
    exact ⟨body, hbody, rfl⟩

/-- A member with an escaped name and a counted value stands between members that are omitted, one
of them because its provider answers null. The last member is a null that is not omitted. -/
theorem accepts_renderAll_omitted :
    let counter : Provider Nat (Arg Nat) := ⟨none, fun _ n => (.ofInt n, n + 1)⟩
    let nothing : Provider Nat (Arg Nat) := ⟨none, fun _ n => (.null, n + 1)⟩
    let ms : List (Member (Arg Nat)) :=
      [⟨"a", .null, true⟩, ⟨"é\"\x07", .deferred counter, true⟩, ⟨"b", .deferred nothing, true⟩,
        ⟨"a", .null, false⟩]
    let body := Json.quoted "é\"\x07" ++ [colon, 0x37, comma] ++ Json.quoted "a" ++
      colon :: Json.nullText
    Member.EachComplete ms 7 ∧ (Member.renderAll ms).Yields 7 body 9 ∧
      Json.Accepts (openBrace :: (body ++ [closeBrace])) := by
  intro counter nothing ms body
  have complete : Member.EachComplete ms 7 := by
    have counted : Json.Accepts [0x37] := Json.accepts_iff.2 ⟨_, rfl, rfl⟩
    refine ⟨none, 7, ⟨_, rfl⟩, nofun, some [0x37], 8, ⟨_, rfl⟩, ?_, none, 9, ⟨_, rfl⟩, nofun,
      some Json.nullText, 9, ⟨_, rfl⟩, ?_, trivial⟩
    · rintro _ ⟨⟩
      exact counted
    · rintro _ ⟨⟩
      exact Json.accepts_nullText
  obtain ⟨text, last, htext, accepted, -⟩ := accepts_renderAll complete
  have rendered : (Member.renderAll ms).Yields 7 body 9 :=
    ⟨[⟨none, "é\"\x07"⟩, ⟨none, "b"⟩], by cbv⟩
  obtain ⟨rfl, -⟩ := rendered.unique htext
  exact ⟨complete, rendered, accepted⟩

end Stencil
