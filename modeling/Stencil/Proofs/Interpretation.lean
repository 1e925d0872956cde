import Mathlib
import Stencil.Proofs.Encoding
import Stencil.Proofs.Named.Fill
import Stencil.Proofs.Positional.Fill

/-!
# Templates as texts with holes

What a template text makes of arguments can be said without tokens: read the text from left to
right, write one question mark for two, put a value in place of every other question mark (and of
the name behind it), and copy everything else. Compiling a text and rendering the template is the
same, with the same calls and the same failures.
-/

namespace Stencil

open Ascii

variable {σ : Type}

/-! ## Positional texts -/

namespace Positional

/-- The octets that a text makes of arguments, read off the text in one pass. Where no argument is
left there is null. -/
def interpret : List Char → List (Arg σ) → Eval σ Bytes
  | [], _ => pure []
  | '?' :: '?' :: rest, args => return Ascii.question :: (← interpret rest args)
  | '?' :: rest, [] => return Json.nullText ++ (← interpret rest [])
  | '?' :: rest, arg :: args => do
    let bytes ← arg.encode
    return bytes ++ (← interpret rest args)
  | c :: rest, args => return String.utf8EncodeChar c ++ (← interpret rest args)

theorem interpret_literal {c : Char} (literal : c ≠ '?') (rest : List Char)
    (args : List (Arg σ)) :
    interpret (c :: rest) args = do return String.utf8EncodeChar c ++ (← interpret rest args) := by
  rw [interpret]
  all_goals simp [literal]

theorem interpret_takeWhile (rest : List Char) (args : List (Arg σ)) :
    interpret rest args = do
      return Utf8.encodeChars (rest.takeWhile Token.isLiteral) ++
        (← interpret (rest.dropWhile Token.isLiteral) args) := by
  apply Token.copies_takeWhile_isLiteral (fun cs => interpret cs args)
    (fun bytes octets => do return bytes ++ (← octets))
  · simp
  · simp [List.append_assoc]
  · exact fun c rest literal => interpret_literal literal rest args

/-- Reading a text in one pass makes of the arguments what its tokens make of them. -/
theorem interpret_eq_fill {cs : List Char} {ts : List Token} (h : Token.Lexes .positional cs ts)
    (args : List (Arg σ)) : interpret cs args = fill ts args := by
  generalize hmode : Mode.positional = mode at h
  induction h generalizing args with
  | nil => rfl
  | escape _ ih =>
    rw [interpret, ih _ hmode]
    rfl
  | slot alone _ ih =>
    cases args with
    | nil =>
      rw [interpret, ih _ hmode]
      · rfl
      · exact alone
    | cons arg args =>
      rw [interpret, ih _ hmode]
      · rfl
      · exact alone
  | name => cases hmode
  | literal notSlot _ ih =>
    rw [interpret_literal notSlot, interpret_takeWhile, ih _ hmode, fill]
    simp [List.append_assoc]

end Positional

/-! ## Named texts -/

namespace Named

/-- The octets that a text makes of what its names stand for, read off the text in one pass. -/
def interpret (value : String → Eval σ Bytes) : List Char → Eval σ Bytes
  | [] => pure []
  | '?' :: '?' :: rest => return Ascii.question :: (← interpret value rest)
  | '?' :: rest =>
    let name := rest.takeWhile Token.isNameChar
    if name.isEmpty then return Ascii.question :: (← interpret value rest)
    else do
      let bytes ← value (String.ofList name)
      return bytes ++ (← interpret value (rest.dropWhile Token.isNameChar))
  | c :: rest => return String.utf8EncodeChar c ++ (← interpret value rest)
termination_by cs => cs.length
decreasing_by
  · simp only [List.length_cons]; omega
  · simp
  · exact Token.length_dropWhile_lt Token.isNameChar '?' rest
  · simp

theorem interpret_literal {c : Char} (literal : c ≠ '?') (value : String → Eval σ Bytes)
    (rest : List Char) :
    interpret value (c :: rest) = do
      return String.utf8EncodeChar c ++ (← interpret value rest) := by
  rw [interpret]
  · exact fun _ h => absurd h literal
  · exact literal

theorem interpret_takeWhile (value : String → Eval σ Bytes) (rest : List Char) :
    interpret value rest = do
      return Utf8.encodeChars (rest.takeWhile Token.isLiteral) ++
        (← interpret value (rest.dropWhile Token.isLiteral)) := by
  apply Token.copies_takeWhile_isLiteral (interpret value)
    (fun bytes octets => do return bytes ++ (← octets))
  · simp
  · simp [List.append_assoc]
  · exact fun c rest literal => interpret_literal literal value rest

/-- Reading a text in one pass makes of what names stand for what its tokens make of it. -/
theorem interpret_eq_fill {cs : List Char} {ts : List Token} (h : Token.Lexes .named cs ts)
    (value : String → Eval σ Bytes) : interpret value cs = fill value ts := by
  generalize hmode : Mode.named = mode at h
  induction h with
  | nil => rw [interpret, fill]
  | escape _ ih =>
    rw [interpret, ih hmode]
    rfl
  | slot => cases hmode
  | name alone hasName _ ih =>
    rw [interpret, ih hmode]
    · simp [hasName, fill]
    · exact alone
  | literal notSlot _ ih =>
    rw [interpret_literal notSlot, interpret_takeWhile, ih hmode, fill]
    simp [List.append_assoc]

/-- Why what a name stands for fails at a placeholder that is reached in the state `now`. -/
inductive NameFails (args defaults : Bindings (Arg σ)) (strict : Bool) (name : String) (now : σ) :
    Error → Prop where
  | missing : args.get? name = none → defaults.get? name = none → strict = true →
    NameFails args defaults strict name now (.missingNamedArg name)
  | encoding {value : Arg σ} {cause : Json.Error} :
    (args.get? name).or (defaults.get? name) = some value →
    (value.encodeAs name).Fails now (.encoding cause) →
    NameFails args defaults strict name now (.encoding cause)

/-- A name has no text if it is missing where that is an error, or if what it stands for cannot be
encoded. -/
theorem fails_valueText_iff {args defaults : Bindings (Arg σ)} {strict : Bool} {name : String}
    {now : σ} {e : Error} :
    (valueText args defaults strict name).Fails now e ↔
      NameFails args defaults strict name now e := by
  unfold valueText
  constructor
  · intro h
    split at h
    · rename_i value hvalue
      obtain ⟨cause, rfl⟩ := Arg.eq_encoding_of_fails h
      exact .encoding hvalue h
    · rename_i absent
      obtain ⟨hargs, hdefaults⟩ := Option.or_eq_none_iff.1 absent
      split at h
      · rename_i hstrict
        obtain rfl := Eval.fails_fail_iff.1 h
        exact .missing hargs hdefaults hstrict
      · exact absurd h (by simp)
  · intro h
    cases h with
    | missing hargs hdefaults hstrict => simp [hargs, hdefaults, hstrict]
    | encoding hvalue h =>
      rw [hvalue]
      exact h

/-- A rendering fails at the first placeholder whose name has no text, when those before it have
theirs. -/
theorem fails_render_iff (t : Named σ) (args : Bindings (Arg σ)) (now : σ) (e : Error) :
    (t.render args).Fails now e ↔
      ∃ before name after texts mid, Token.occurrences t.tokens = before ++ name :: after ∧
        (before.mapM (valueText args t.defaults t.strict)).Yields now texts mid ∧
        NameFails args t.defaults t.strict name mid e := by
  rw [render, Eval.fails_bind_pure_iff, encodeArgs, Eval.fails_mapM_iff, resolve_eq_valueText]
  simp only [fails_valueText_iff]

end Named

/-- Rendering a compiled text, with whatever flags and defaults, is putting the values into the
text. What fails first is what the rendering fails with: the encoding of the first argument that
has none, or in named templates the first name that has no value or a value without encoding. -/
theorem render_eq_interpret :
    (∀ text : String,
      (∀ state : σ, ∃ t, (Positional.compile text []).Yields state t state) ∧
      ∀ (options : List (TemplateOption σ)) (state last : σ) (compiled : Positional),
        (Positional.compile text options).Yields state compiled last →
        ∀ (strict validate : Bool) (args : List (Arg σ)),
          let t : Positional := { compiled with strict, validate }
          t.accepts args.length = true →
            t.render args = Positional.interpret text.toList args ∧
            ∀ now e, (t.render args).Fails now e ↔
              ∃ before arg after texts mid cause, args = before ++ arg :: after ∧
                (before.mapM Arg.encode).Yields now texts mid ∧
                arg.encode.Fails mid (.encoding cause) ∧ e = .encoding cause) ∧
    (∀ (text : String) (options : List (TemplateOption σ)) (state last : σ) (compiled : Named σ),
      (Named.compile text options).Yields state compiled last →
      ∀ (defaults : Bindings (Arg σ)) (strict validate : Bool) (args : Bindings (Arg σ)),
        let t : Named σ := { compiled with defaults, strict, validate }
        t.render args = Named.interpret (Named.valueText args defaults strict) text.toList ∧
        ∀ now e, (t.render args).Fails now e ↔
          ∃ before name after texts mid,
            Token.occurrences t.tokens = before ++ name :: after ∧
            (before.mapM (Named.valueText args defaults strict)).Yields now texts mid ∧
            Named.NameFails args defaults strict name mid e) := by
  constructor
  · intro text
    constructor
    · intro state
      exact Positional.exists_compile_yields text state
    · intro options state last compiled hcompiled strict validate args t arity
      obtain ⟨raw, _, _, hraw, rfl, -⟩ := Positional.compile_yields hcompiled
      have consistent : t.Consistent :=
        (Positional.consistent_ofTokens _ _ _).configure strict validate
      constructor
      · rw [Positional.render_eq_fill consistent arity,
          Positional.interpret_eq_fill (Token.ofText_eq_ok_iff.1 hraw)]
        exact Positional.fill_merge raw args
      · intro now e
        exact Positional.fails_render_iff arity
  · intro text options state last compiled hcompiled defaults strict validate args t
    have consistent : t.Consistent :=
      (Named.Reachable.compile hcompiled).consistent.configure defaults strict validate
    obtain ⟨raw, _, _, _, hraw, rfl, -⟩ := Named.compile_yields hcompiled
    constructor
    · rw [Named.render_eq_fill consistent, Named.resolve_eq_valueText,
        Named.interpret_eq_fill (Token.ofText_eq_ok_iff.1 hraw)]
      exact Named.fill_merge _ raw
    · intro now e
      exact Named.fails_render_iff t args now e

/-- In a run of three question marks the first two are one that stands for itself. -/
theorem render_eq_interpret_questions :
    let t := Positional.ofTokens [.fixed [question], .positional] true false
    let u : Named Unit :=
      Named.ofTokens [.named "a", .fixed [question], .named "a"] .empty true false
    let args : Bindings (Arg Unit) := .ofList [("a", .raw [zero])]
    (Positional.compile "???" []).Yields () t () ∧
      (Named.compile "?a???a" []).Yields () u () ∧
      ((t.render [.raw [zero]]).run ()).result = .ok [question, zero] ∧
      ((u.render args).run ()).result = .ok [zero, question, zero] := by
  intro t u args
  have compiledT : (Positional.compile "???" []).Yields () t () := ⟨[], by cbv⟩
  have compiledU : (Named.compile "?a???a" []).Yields () u () := ⟨[], by cbv⟩
  have renderT : t.render [.raw [zero]] = Positional.interpret "???".toList [.raw [zero]] :=
    ((render_eq_interpret.1 "???").2 [] () () t compiledT true false [.raw [zero]] rfl).1
  have renderU : u.render args =
      Named.interpret (Named.valueText args .empty true) "?a???a".toList :=
    (render_eq_interpret.2 "?a???a" [] () () u compiledU .empty true false args).1
  refine ⟨compiledT, compiledU, ?_, ?_⟩
  · rw [renderT]
    cbv
  · rw [renderU]
    cbv

end Stencil
