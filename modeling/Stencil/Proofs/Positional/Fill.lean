import Stencil.Proofs.Encoding
import Stencil.Proofs.Positional.Reachable

/-!
# Filling positional templates in one pass

Rendering first encodes all arguments and then puts their texts in. `render_eq_fill` says that this
is the same as encoding each argument where it is put, with the same calls and the same failures.
Binding encodes on the way, and `bindArgs_eq_bindTexts` says that it might as well encode first.
-/

namespace Stencil.Positional

variable {σ : Type}

/-- Goes through a sequence once and encodes each argument where it is put. A placeholder for which
none is left stands for null. -/
def fill : List Token → List (Arg σ) → Eval σ Bytes
  | [], _ => pure []
  | .fixed bytes :: ts, args => return bytes ++ (← fill ts args)
  | _ :: ts, [] => return Json.nullText ++ (← fill ts [])
  | _ :: ts, arg :: args => do
    let bytes ← arg.encode
    return bytes ++ (← fill ts args)

/-- A merged sequence stands for the same octets, with the same calls. -/
theorem fill_merge (ts : List Token) (args : List (Arg σ)) :
    fill (Token.merge ts) args = fill ts args := by
  -- Equality as functions, because behind a placeholder there is one argument less.
  have same : fill (σ := σ) (Token.merge ts) = fill ts := by
    apply Token.merge_eq_of
    · intro a b us
      funext args
      simp [fill, List.append_assoc]
    · intro t us vs same
      funext args
      cases t <;> cases args <;> simp only [fill, same]
  rw [same]

/-- Encoding in advance and encoding on the way come to the same, because what lies between two
arguments has no effect. -/
theorem fill_eq_assemble {ts : List Token} {args : List (Arg σ)}
    (enough : args.length ≤ Token.argCount ts) :
    fill ts args = do
      let encoded ← args.mapM Arg.encode
      let padding := List.replicate (Token.argCount ts - encoded.length) Json.nullText
      return Token.assemble ts (encoded ++ padding) := by
  fun_induction fill ts args with
  | case1 args =>
    obtain rfl : args = [] := List.eq_nil_of_length_eq_zero (Nat.le_zero.1 enough)
    simp
  | case2 bytes ts args ih =>
    rw [ih (by simpa [Token.isFixed] using enough)]
    simp [Token.isFixed]
  | case3 t ts notFixed ih =>
    have placeholder := Token.isFixed_eq_false notFixed
    rw [ih (Nat.zero_le _)]
    simp [Token.argCount_placeholder placeholder, List.replicate_succ,
      Token.assemble_placeholder placeholder]
  | case4 t ts arg args notFixed ih =>
    have placeholder := Token.isFixed_eq_false notFixed
    rw [Token.argCount_placeholder placeholder] at enough ⊢
    rw [ih (Nat.le_of_succ_le_succ enough)]
    simp [Token.assemble_placeholder placeholder]

/-- A rendering fills the tokens of the template with the arguments. -/
theorem render_eq_fill {t : Positional} (consistent : t.Consistent) {args : List (Arg σ)}
    (arity : t.accepts args.length = true) : t.render args = fill t.tokens args := by
  have enough := (accepts_iff.1 arity).1
  rw [consistent.argsCount_eq] at enough
  rw [render, if_pos arity, encodeArgs, fill_eq_assemble enough, consistent.argsCount_eq]
  simp

/-- Fills the first placeholders of a sequence with texts. -/
def bindTexts : List Token → List Bytes → List Token
  | [], _ => []
  | .fixed bytes :: ts, texts => .fixed bytes :: bindTexts ts texts
  | ts, [] => ts
  | _ :: ts, text :: texts => .fixed text :: bindTexts ts texts

@[simp] theorem bindTexts_nil (ts : List Token) : bindTexts ts [] = ts := by
  induction ts with
  | nil => rfl
  | cons t ts ih => cases t <;> simp [bindTexts, ih]

theorem bindTexts_placeholder {slot : Token} (placeholder : slot.isFixed = false)
    (ts : List Token) (text : Bytes) (texts : List Bytes) :
    bindTexts (slot :: ts) (text :: texts) = .fixed text :: bindTexts ts texts := by
  cases slot with
  | fixed bytes => cases placeholder
  | positional => rfl
  | named name => rfl

/-- Texts can be put in before or after joining, if all is joined in the end. Behind a placeholder
there is one text less, so the two ways are compared as functions of the texts. -/
theorem merge_bindTexts_merge (ts : List Token) (texts : List Bytes) :
    Token.merge (bindTexts (Token.merge ts) texts) = Token.merge (bindTexts ts texts) := by
  let bound (us : List Token) (texts : List Bytes) : List Token := Token.merge (bindTexts us texts)
  have same : bound (Token.merge ts) = bound ts := by
    apply Token.merge_eq_of
    · intro a b us
      funext texts
      simp [bound, bindTexts, Token.consMerged_append]
    · intro t us vs same
      have behind (texts : List Bytes) : Token.merge (bindTexts us texts) =
          Token.merge (bindTexts vs texts) := congrFun same texts
      have unbound : Token.merge us = Token.merge vs := by simpa using behind []
      funext texts
      cases t <;> cases texts <;> simp [bound, bindTexts, behind, unbound]
  exact congrFun same texts

/-- Binding encodes the arguments first and puts the texts in afterwards, as long as there are
placeholders for all of them. -/
theorem bindArgs_eq_bindTexts {ts : List Token} {args : List (Arg σ)}
    (enough : args.length ≤ Token.argCount ts) :
    bindArgs ts args = do return bindTexts ts (← args.mapM Arg.encode) := by
  fun_induction bindArgs ts args with
  | case1 args =>
    obtain rfl : args = [] := List.eq_nil_of_length_eq_zero (Nat.le_zero.1 enough)
    simp
  | case2 bytes ts args ih =>
    rw [ih (by simpa [Token.isFixed] using enough)]
    simp [bindTexts]
  | case3 t ts notFixed ih => simp [bindArgs_nil]
  | case4 t ts arg args notFixed ih =>
    have placeholder := Token.isFixed_eq_false notFixed
    rw [Token.argCount_placeholder placeholder] at enough
    rw [ih (Nat.le_of_succ_le_succ enough)]
    simp [bindTexts_placeholder placeholder]

/-- A rendering fails at the first argument that cannot be encoded. -/
theorem fails_render_iff {t : Positional} {args : List (Arg σ)}
    (arity : t.accepts args.length = true) {now : σ} {e : Error} :
    (t.render args).Fails now e ↔
      ∃ before arg after texts mid cause, args = before ++ arg :: after ∧
        (before.mapM Arg.encode).Yields now texts mid ∧
        arg.encode.Fails mid (.encoding cause) ∧ e = .encoding cause := by
  rw [render, if_pos arity, Eval.fails_bind_pure_iff, encodeArgs, Eval.fails_bind_pure_iff,
    Eval.fails_mapM_iff]
  constructor
  · rintro ⟨before, arg, after, texts, mid, hargs, hbefore, h⟩
    obtain ⟨cause, rfl⟩ := Arg.eq_encoding_of_fails h
    exact ⟨before, arg, after, texts, mid, cause, hargs, hbefore, h, rfl⟩
  · rintro ⟨before, arg, after, texts, mid, cause, hargs, hbefore, h, rfl⟩
    exact ⟨before, arg, after, texts, mid, hargs, hbefore, h⟩

end Stencil.Positional
