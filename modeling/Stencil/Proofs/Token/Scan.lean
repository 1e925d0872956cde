import Stencil.Token.Scan

/-!
# The language of template texts

The rules by which a text is written as tokens, apart from how it is scanned. `scan_eq_ok_iff` says
that scanning finds tokens exactly where the rules give them; what holds of all scanned sequences
is proved by induction on the rules.
-/

namespace Stencil.Token

/-- A text consists of the given tokens. A placeholder is not followed by a question mark, with
which it would be an escape; names and literals are as long as they can be. -/
inductive Lexes : Mode → List Char → List Token → Prop where
  | nil {mode : Mode} : Lexes mode [] []
  | escape {mode : Mode} {rest : List Char} {ts : List Token} : Lexes mode rest ts →
    Lexes mode ('?' :: '?' :: rest) (escaped :: ts)
  | slot {rest : List Char} {ts : List Token} : (∀ more, rest ≠ '?' :: more) →
    Lexes .positional rest ts → Lexes .positional ('?' :: rest) (positional :: ts)
  | name {rest : List Char} {ts : List Token} : (∀ more, rest ≠ '?' :: more) →
    rest.takeWhile isNameChar ≠ [] → Lexes .named (rest.dropWhile isNameChar) ts →
    Lexes .named ('?' :: rest) (named (String.ofList (rest.takeWhile isNameChar)) :: ts)
  | literal {mode : Mode} {c : Char} {rest : List Char} {ts : List Token} : c ≠ '?' →
    Lexes mode (rest.dropWhile isLiteral) ts →
    Lexes mode (c :: rest) (fixed (Utf8.encodeChars (c :: rest.takeWhile isLiteral)) :: ts)

/-- A function that copies a literal character in front of what the rest gives copies all literal
characters that a text begins with. -/
theorem copies_takeWhile_isLiteral {α : Sort _} (f : List Char → α) (copy : Bytes → α → α)
    (nothing : ∀ a, copy [] a = a)
    (append : ∀ bytes more a, copy (bytes ++ more) a = copy bytes (copy more a))
    (literal : ∀ c rest, c ≠ '?' → f (c :: rest) = copy (String.utf8EncodeChar c) (f rest))
    (cs : List Char) :
    f cs = copy (Utf8.encodeChars (cs.takeWhile isLiteral)) (f (cs.dropWhile isLiteral)) := by
  induction cs with
  | nil => exact (nothing _).symm
  | cons c cs ih =>
    by_cases isLit : isLiteral c = true
    · rw [literal c cs (bne_iff_ne.1 isLit), List.takeWhile_cons_of_pos isLit,
        List.dropWhile_cons_of_pos isLit, Utf8.encodeChars_cons, append, ← ih]
    · rw [List.takeWhile_cons_of_neg isLit, List.dropWhile_cons_of_neg isLit]
      exact (nothing _).symm

/-- A step of a scan puts one token in front of what the rest gives. -/
theorem cons_eq_ok_iff {r : Except Error (List Token)} {t : Token} {ts : List Token} :
    (do return t :: (← r)) = Except.ok ts ↔ ∃ us, r = .ok us ∧ ts = t :: us := by
  cases r with
  | error e =>
    constructor
    · nofun
    · rintro ⟨us, h, -⟩
      cases h
  | ok us =>
    constructor
    · intro h
      exact ⟨us, rfl, (Except.ok.inj h).symm⟩
    · rintro ⟨_, ⟨⟩, rfl⟩
      rfl

/-- A text that can be scanned consists of the tokens that are found. -/
theorem lexes_of_scan {mode : Mode} {offset : Nat} {cs : List Char} {ts : List Token}
    (h : scan mode offset cs = .ok ts) : Lexes mode cs ts := by
  fun_induction scan mode offset cs generalizing ts with
  | case1 offset =>
    cases h
    exact .nil
  | case2 offset rest ih =>
    obtain ⟨us, hus, rfl⟩ := cons_eq_ok_iff.1 h
    exact .escape (ih hus)
  | case3 offset rest alone hmode ih =>
    subst hmode
    obtain ⟨us, hus, rfl⟩ := cons_eq_ok_iff.1 h
    exact .slot alone (ih hus)
  | case4 => cases h
  | case5 offset rest alone hmode name hasName =>
    rename_i ih
    subst hmode
    obtain ⟨us, hus, rfl⟩ := cons_eq_ok_iff.1 h
    have given : rest.takeWhile isNameChar ≠ [] := by simpa [name] using hasName
    exact .name alone given (ih hus)
  | case6 offset c rest notEscape notSlot literal =>
    rename_i ih
    obtain ⟨us, hus, rfl⟩ := cons_eq_ok_iff.1 h
    exact .literal notSlot (ih hus)

/-- A text that consists of tokens is scanned to these, at whatever offset. -/
theorem scan_of_lexes {mode : Mode} {cs : List Char} {ts : List Token} (h : Lexes mode cs ts) :
    ∀ offset, scan mode offset cs = .ok ts := by
  induction h with
  | nil =>
    intro offset
    rw [scan]
  | escape _ ih =>
    intro offset
    rw [scan]
    exact cons_eq_ok_iff.2 ⟨_, ih _, rfl⟩
  | slot alone _ ih =>
    intro offset
    rw [scan]
    · exact cons_eq_ok_iff.2 ⟨_, ih _, rfl⟩
    · exact alone
  | name alone hasName _ ih =>
    intro offset
    rw [scan]
    · simp only [List.isEmpty_iff, hasName, if_false]
      exact cons_eq_ok_iff.2 ⟨_, ih _, rfl⟩
    · exact alone
  | literal notSlot _ ih =>
    intro offset
    rw [scan]
    · exact cons_eq_ok_iff.2 ⟨_, ih _, rfl⟩
    · exact fun _ h => absurd h notSlot
    · exact notSlot

theorem scan_eq_ok_iff {mode : Mode} {offset : Nat} {cs : List Char} {ts : List Token} :
    scan mode offset cs = .ok ts ↔ Lexes mode cs ts :=
  ⟨lexes_of_scan, fun h => scan_of_lexes h offset⟩

theorem ofText_eq_ok_iff {mode : Mode} {text : String} {ts : List Token} :
    ofText mode text = .ok ts ↔ Lexes mode text.toList ts :=
  scan_eq_ok_iff

theorem cons_eq_error_iff {r : Except Error (List Token)} {t : Token} {e : Error} :
    (do return t :: (← r)) = Except.error e ↔ r = .error e := by
  cases r with
  | error e' => exact Iff.rfl
  | ok us => exact ⟨nofun, nofun⟩

theorem scan_positional_ne_error (offset : Nat) (cs : List Char) (e : Error) :
    scan .positional offset cs ≠ .error e := by
  generalize hmode : Mode.positional = mode
  intro h
  fun_induction scan mode offset cs with
  | case1 => cases h
  | case2 offset rest ih => exact ih (cons_eq_error_iff.1 h)
  | case3 offset rest alone positional ih =>
    subst positional
    exact ih (cons_eq_error_iff.1 h)
  | case4 offset rest alone named => cases hmode.trans named
  | case5 offset rest alone named => cases hmode.trans named
  | case6 offset c rest =>
    rename_i ih
    exact ih (cons_eq_error_iff.1 h)

/-- Every text has tokens if placeholders need no names. -/
theorem exists_lexes_positional (cs : List Char) : ∃ ts, Lexes .positional cs ts := by
  cases hscan : scan .positional 0 cs with
  | ok ts => exact ⟨ts, lexes_of_scan hscan⟩
  | error e => exact absurd hscan (scan_positional_ne_error 0 cs e)

/-- Placeholders of the other kind are not among the tokens of a named template. -/
theorem Lexes.positional_notMem {cs : List Char} {ts : List Token} (h : Lexes .named cs ts) :
    positional ∉ ts := by
  generalize hmode : Mode.named = mode at h
  induction h with
  | nil => exact List.not_mem_nil
  | escape _ ih => simpa [escaped] using ih hmode
  | slot => cases hmode
  | name _ _ _ ih => simpa using ih hmode
  | literal _ _ ih => simpa using ih hmode

end Stencil.Token
