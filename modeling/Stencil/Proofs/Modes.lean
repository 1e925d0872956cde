import Stencil.Proofs.Named.Reachable
import Stencil.Proofs.Positional.Reachable
import Stencil.Proofs.Token.Pieces

/-!
# One text in both modes

Where placeholders have no names, what would be a name is fixed text behind a placeholder. The scan
takes it together with the text that follows, so the two modes give the same tokens only after
merging.
-/

namespace Stencil

open Ascii

variable {σ τ : Type}

namespace Token

/-- What is read in place of a token where placeholders have no names. -/
def withoutName : Token → List Token
  | named name => [positional, fixed (Utf8.encode name)]
  | t => [t]

/-- How many octets the names in a sequence have together, each occurrence counted. -/
def namesLen (ts : List Token) : Nat :=
  ((occurrences ts).map fun name => (Utf8.encode name).length).sum

theorem argCount_withoutName (ts : List Token) :
    argCount (ts.flatMap withoutName) = argCount ts := by
  induction ts with
  | nil => rfl
  | cons t ts ih => cases t <;> simp [withoutName, isFixed, ih]

/-- Without names the octets of the names are fixed as well. -/
theorem fixedLen_withoutName (ts : List Token) :
    fixedLen (ts.flatMap withoutName) = fixedLen ts + namesLen ts := by
  induction ts with
  | nil => rfl
  | cons t ts ih =>
    cases t with
    | fixed bytes => simp [withoutName, namesLen, fixedSize, ih, Nat.add_assoc]
    | positional => simp [withoutName, namesLen, fixedSize, ih]
    | named name => simp [withoutName, namesLen, fixedSize, ih, Nat.add_left_comm]

/-- Both modes read a text as the same pieces. Behind a placeholder they differ in how far they
read, and behind the name they meet again. -/
theorem Lexes.merge_withoutName {cs : List Char} {ts : List Token} (h : Lexes .named cs ts) :
    merge (ts.flatMap withoutName) = merge (pieces cs) := by
  generalize hmode : Mode.named = mode at h
  induction h with
  | nil => rfl
  | escape _ ih =>
    rw [pieces, merge_cons, ← ih hmode]
    rfl
  | slot => cases hmode
  | @name rest ts alone hasName _ ih =>
    have noQuestion := notMem_takeWhile_isNameChar rest
    have named := merge_fixed_eq_pieces hasName noQuestion (ih hmode)
    rw [List.takeWhile_append_dropWhile] at named
    rw [pieces_slot alone, merge_cons, ← named, List.flatMap_cons, withoutName, Utf8.encode_ofList]
    rfl
  | @literal _ c rest ts notSlot _ ih =>
    have noQuestion := notMem_cons_takeWhile_isLiteral notSlot rest
    have text := merge_fixed_eq_pieces (List.cons_ne_nil _ _) noQuestion (ih hmode)
    rw [List.cons_append, List.takeWhile_append_dropWhile] at text
    exact text

/-- Reading names as text comes to the same before and after merging. -/
theorem merge_withoutName_merge (ts : List Token) :
    merge ((merge ts).flatMap withoutName) = merge (ts.flatMap withoutName) := by
  apply merge_eq_of (f := fun us => merge (us.flatMap withoutName))
  · intro a b us
    exact consMerged_append a b _
  · intro t us vs same
    exact merge_append_congr (withoutName t) same

end Token

/-- A text that makes tokens with names makes tokens without names too, and after merging these are
the same with every name as a fixed piece behind its placeholder. So of the templates of the text,
with whatever options, the positional one has a placeholder for each occurrence of a name, and its
fixed octets are more by those of the names. -/
theorem merge_ofText_positional {text : String} {ts : List Token}
    (h : Token.ofText .named text = .ok ts) :
    (∃ us, Token.ofText .positional text = .ok us ∧
      Token.merge us = Token.merge (ts.flatMap Token.withoutName)) ∧
    (∀ (now : σ) (now' : τ), ∃ t u, (Positional.compile text []).Yields now t now ∧
      (Named.compile text []).Yields now' u now') ∧
    ∀ {options : List (TemplateOption σ)} {options' : List (TemplateOption τ)}
      {state last : σ} {state' last' : τ} {t : Positional} {u : Named τ},
      (Positional.compile text options).Yields state t last →
      (Named.compile text options').Yields state' u last' →
      t.tokens = Token.merge (u.tokens.flatMap Token.withoutName) ∧
      t.expectedArgs = (Token.occurrences u.tokens).length ∧
      t.fixedLen = u.fixedLen + Token.namesLen u.tokens := by
  obtain ⟨us, hus, pieces⟩ := Token.exists_ofText_positional text
  have lexes := Token.ofText_eq_ok_iff.1 h
  have same : Token.merge us = Token.merge (ts.flatMap Token.withoutName) := by
    rw [pieces, lexes.merge_withoutName]
  refine ⟨⟨us, hus, same⟩, ?_, ?_⟩
  · intro now now'
    exact ⟨_, _, Positional.yields_compile_nil hus now, Named.yields_compile_nil h now'⟩
  · intro options options' state last state' last' t u compiledT compiledU
    obtain ⟨rawT, _, _, hrawT, rfl, -⟩ := Positional.compile_yields compiledT
    obtain ⟨rawU, _, _, _, hrawU, rfl, -⟩ := Named.compile_yields compiledU
    obtain rfl : us = rawT := Except.ok.inj (hus.symm.trans hrawT)
    obtain rfl : ts = rawU := Except.ok.inj (h.symm.trans hrawU)
    have named := Named.positional_notMem_merge lexes.positional_notMem
    simp only [Positional.ofTokens, Positional.expectedArgs, Named.ofTokens]
    rw [same, ← Token.merge_withoutName_merge]
    refine ⟨rfl, ?_, ?_⟩
    · rw [Token.argCount_merge, Token.argCount_withoutName,
        Token.argCount_eq_length_occurrences named]
    · rw [Token.fixedLen_merge, Token.fixedLen_withoutName]

/-- A name that an escape follows is one fixed piece with the escape and the text behind it. -/
theorem merge_ofText_positional_escape :
    let ts := [.named "ab", Token.escaped, .fixed (Utf8.encode "c"), .named "d", .fixed [space]]
    let t := Positional.ofTokens
      [.positional, .fixed (Utf8.encode "ab?c"), .positional, .fixed (Utf8.encode "d ")] true false
    let u : Named Unit := Named.ofTokens
      [.named "ab", .fixed (Utf8.encode "?c"), .named "d", .fixed [space]] .empty true false
    let noOptions : List (TemplateOption Unit) := []
    Token.ofText .named "?ab??c?d " = .ok ts ∧
      (Positional.compile "?ab??c?d " noOptions).Yields () t () ∧
      (Named.compile "?ab??c?d " noOptions).Yields () u () ∧
      t.tokens = Token.merge (u.tokens.flatMap Token.withoutName) ∧
      t.expectedArgs = 2 ∧ t.fixedLen = u.fixedLen + 3 := by
  intro ts t u noOptions
  have hts : Token.ofText .named "?ab??c?d " = .ok ts := by cbv
  have compiledT : (Positional.compile "?ab??c?d " noOptions).Yields () t () := ⟨[], by cbv⟩
  have compiledU : (Named.compile "?ab??c?d " noOptions).Yields () u () := ⟨[], by cbv⟩
  obtain ⟨-, -, templates⟩ := merge_ofText_positional (σ := Unit) (τ := Unit) hts
  exact ⟨hts, compiledT, compiledU, templates compiledT compiledU⟩

end Stencil
