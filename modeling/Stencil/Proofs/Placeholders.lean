import Mathlib
import Stencil.Proofs.Named.Reachable
import Stencil.Proofs.Positional.Reachable
import Stencil.Proofs.Token.Runs

/-!
# Placeholders in a text

Which question marks of a text are placeholders, and which octets of it are fixed, is told from its
runs of question marks alone: a run of odd length leaves one over at its end. The scan, which goes
from left to right, agrees with that; `placeholders_iff_odd_runs` says so of whole texts.
-/

namespace Stencil

namespace Token

/-- The question marks that are left over in runs of odd length: for each the text in front of it
and the text behind it. -/
def places (rs : List Run) : List (List Char × List Char) :=
  (rs.filter Run.isOdd).map fun r => (r.upToLast, r.after)

theorem places_alone {rest : List Char} (alone : ∀ more, rest ≠ '?' :: more)
    (before : List Char) : places (runs before ('?' :: rest)) =
      (before, rest) :: places (runs (before ++ ['?']) rest) := by
  rw [runs_alone alone]
  simp [places, Run.isOdd, Run.upToLast]

theorem places_escape (before rest : List Char) :
    places (runs before ('?' :: '?' :: rest)) = places (runs (before ++ ['?', '?']) rest) := by
  apply runs_escape (f := places) (g := id)
  · intro before after rs
    simp [places, Run.isOdd]
  · intro before n after rs
    have parity : (n + 3) % 2 = (n + 1) % 2 := by omega
    simp [places, List.filter_cons, Run.isOdd, Run.upToLast, parity, apply_ite,
      List.replicate_succ]

/-- How many escapes and placeholders the runs make together. -/
def totalHalves (rs : List Run) : Nat := (rs.map Run.halves).sum

theorem halves_alone {rest : List Char} (alone : ∀ more, rest ≠ '?' :: more)
    (before : List Char) :
    totalHalves (runs before ('?' :: rest)) = 1 + totalHalves (runs (before ++ ['?']) rest) := by
  rw [runs_alone alone]
  simp [totalHalves, Run.halves]

theorem halves_escape (before rest : List Char) :
    totalHalves (runs before ('?' :: '?' :: rest)) =
      1 + totalHalves (runs (before ++ ['?', '?']) rest) := by
  apply runs_escape (f := totalHalves) (g := (1 + ·))
  · intro before after rs
    simp [totalHalves, Run.halves]
  · intro before n after rs
    have half : (n + 3 + 1) / 2 = 1 + (n + 1 + 1) / 2 := by omega
    simp [totalHalves, Run.halves, half, Nat.add_assoc]

/-! ## What a scan finds -/

section Lexes

variable {mode : Mode} {cs : List Char} {ts : List Token}

/-- There are as many placeholders as question marks are left over. -/
theorem Lexes.argCount_eq (h : Lexes mode cs ts) (before : List Char) :
    argCount ts = (places (runs before cs)).length := by
  induction h generalizing before with
  | nil => rw [runs]; rfl
  | escape _ ih =>
    rw [places_escape, ← ih]
    simp [escaped, isFixed]
  | slot alone _ ih =>
    rw [places_alone alone, List.length_cons, ← ih]
    exact argCount_placeholder rfl _
  | @name rest _ alone _ _ ih =>
    rw [places_alone alone, List.length_cons, runs_name, ← ih]
    exact argCount_placeholder rfl _
  | literal notSlot _ ih =>
    rw [runs_literal notSlot, ← ih]
    simp [isFixed]

theorem size_takeWhile_add (p : Char → Bool) (cs : List Char) :
    Utf8.size (cs.takeWhile p) + Utf8.size (cs.dropWhile p) = Utf8.size cs := by
  rw [← Utf8.size_append, List.takeWhile_append_dropWhile]

/-- Name characters take one octet each. -/
theorem size_takeWhile_isNameChar (cs : List Char) :
    Utf8.size (cs.takeWhile isNameChar) = (cs.takeWhile isNameChar).length := by
  have one {c : Char} (h : isNameChar c = true) : c.utf8Size = 1 := by
    rw [Char.utf8Size_eq_one_iff]
    simp only [isNameChar, Bool.or_eq_true, decide_eq_true_eq] at h
    rcases h with (alphanumeric | rfl) | rfl
    · simp only [Char.isAlphanum, Char.isAlpha, Char.isUpper, Char.isLower, Char.isDigit]
        at alphanumeric
      grind
    · decide
    · decide
  induction cs with
  | nil => rfl
  | cons c cs ih =>
    by_cases hc : isNameChar c = true
    · rw [List.takeWhile_cons_of_pos hc, List.length_cons, ← ih, Nat.add_comm, ← one hc]
      rfl
    · rw [List.takeWhile_cons_of_neg hc]
      rfl

/-- The octets of a text are those of the fixed pieces and of the names, and one for every escape
and for every placeholder. -/
theorem Lexes.fixedLen_add (h : Lexes mode cs ts) (before : List Char) :
    fixedLen ts + totalHalves (runs before cs) +
      ((occurrences ts).map fun name => Utf8.size name.toList).sum = Utf8.size cs := by
  induction h generalizing before with
  | nil =>
    rw [runs]
    rfl
  | @escape _ rest ts _ ih =>
    have hrest := ih (before ++ ['?', '?'])
    have two : Utf8.size ('?' :: '?' :: rest) = 1 + (1 + Utf8.size rest) := rfl
    have one : fixedLen (escaped :: ts) = 1 + fixedLen ts := rfl
    rw [halves_escape, two, one]
    simp only [escaped, occurrences_fixed]
    omega
  | @slot rest ts alone _ ih =>
    have hrest := ih (before ++ ['?'])
    have one : Utf8.size ('?' :: rest) = 1 + Utf8.size rest := rfl
    rw [halves_alone alone, one]
    simp only [fixedLen_cons, fixedSize, occurrences_positional]
    omega
  | @name rest ts alone _ _ ih =>
    have hrest := ih (before ++ ['?'] ++ rest.takeWhile isNameChar)
    rw [← runs_name] at hrest
    have one : Utf8.size ('?' :: rest) = 1 + Utf8.size rest := rfl
    have split := size_takeWhile_add isNameChar rest
    rw [halves_alone alone, one]
    simp only [fixedLen_cons, fixedSize, occurrences_named, List.map_cons, List.sum_cons,
      String.toList_ofList]
    omega
  | @literal mode c rest ts notSlot _ ih =>
    have hrest := ih (before ++ c :: rest.takeWhile isLiteral)
    rw [← runs_literal notSlot] at hrest
    have split := size_takeWhile_add isLiteral rest
    have first (cs : List Char) : Utf8.size (c :: cs) = c.utf8Size + Utf8.size cs := rfl
    rw [first]
    simp only [fixedLen_cons, fixedSize, Utf8.length_encodeChars, first, occurrences_fixed]
    omega

theorem noNameAt_eq_isEmpty (cs : List Char) :
    noNameAt cs = (cs.takeWhile isNameChar).isEmpty := by
  cases cs with
  | nil => rfl
  | cons c cs => cases hc : isNameChar c <;> simp [noNameAt, hc]

/-- The names of a text are what follows the question marks that are left over, and none of these
lacks a name. -/
theorem Lexes.occurrences_eq (h : Lexes .named cs ts) (before : List Char) :
    occurrences ts =
        (places (runs before cs)).map (fun p => String.ofList (p.2.takeWhile isNameChar)) ∧
      (places (runs before cs)).find? (fun p => noNameAt p.2) = none := by
  generalize hmode : Mode.named = mode at h
  induction h generalizing before with
  | nil =>
    rw [runs]
    exact ⟨rfl, rfl⟩
  | escape _ ih =>
    rw [places_escape]
    exact ih _ hmode
  | slot => cases hmode
  | @name rest ts alone hasName _ ih =>
    obtain ⟨names, named⟩ := ih (before ++ ['?'] ++ rest.takeWhile isNameChar) hmode
    have present : noNameAt rest = false := by
      rw [noNameAt_eq_isEmpty, List.isEmpty_eq_false_iff]
      exact hasName
    rw [places_alone alone, runs_name, occurrences_named, List.map_cons, List.find?_cons, present,
      names]
    exact ⟨rfl, named⟩
  | literal notSlot _ ih =>
    rw [runs_literal notSlot]
    exact ih _ hmode

/-- A scan fails at the first question mark that is left over and lacks a name. -/
theorem find?_places_of_scan_error {offset : Nat} {e : Error}
    (h : scan .named offset cs = .error e) {before : List Char}
    (hoffset : offset = Utf8.size before) :
    ∃ p, (places (runs before cs)).find? (fun p => noNameAt p.2) = some p ∧
      e = .emptyArgName (Utf8.size p.1) := by
  generalize hmode : Mode.named = mode at h
  fun_induction scan mode offset cs generalizing before with
  | case1 => cases h
  | case2 offset rest ih =>
    rw [places_escape]
    refine ih ?_ (cons_eq_error_iff.1 h)
    rw [Utf8.size_append, hoffset]
    rfl
  | case3 offset rest alone positional => cases hmode.trans positional
  | case4 offset rest alone _ name =>
    rename_i noName
    have absent : noNameAt rest = true := by
      rw [noNameAt_eq_isEmpty]
      exact noName
    rw [places_alone alone, List.find?_cons, absent]
    refine ⟨(before, rest), rfl, ?_⟩
    rw [← hoffset]
    exact (Except.error.inj h).symm
  | case5 offset rest alone named name hasName =>
    rename_i ih
    subst named
    have present : noNameAt rest = false := by
      rw [noNameAt_eq_isEmpty]
      exact Bool.eq_false_iff.2 hasName
    rw [places_alone alone, List.find?_cons, present, runs_name]
    refine ih ?_ (cons_eq_error_iff.1 h)
    rw [Utf8.size_append, Utf8.size_append, size_takeWhile_isNameChar, hoffset]
    rfl
  | case6 offset c rest _ notSlot literal =>
    rename_i ih
    rw [runs_literal notSlot]
    refine ih ?_ (cons_eq_error_iff.1 h)
    rw [Utf8.size_append, hoffset]

end Lexes

/-- The first question mark that is left over and lacks a name ends the first run without one. -/
theorem find?_places (rs : List Run) : (places rs).find? (fun p => noNameAt p.2) =
    (rs.find? Run.isNameless).map fun r => (r.upToLast, r.after) := by
  have same : (fun r : Run => r.isOdd && noNameAt r.after) = Run.isNameless := rfl
  rw [places, List.find?_map, List.find?_filter]
  simp only [Function.comp_def, Bool.decide_and, Bool.decide_eq_true, same]

/-- A text that can be scanned has a placeholder for every odd run. -/
theorem argCount_of_ofText {mode : Mode} {text : String} {ts : List Token}
    (h : ofText mode text = .ok ts) :
    argCount ts = (runs [] text.toList).countP Run.isOdd := by
  rw [(ofText_eq_ok_iff.1 h).argCount_eq [], places, List.length_map, List.countP_eq_length_filter]

/-- The names of a text that can be scanned follow its odd runs. -/
theorem occurrences_eq_of_ofText {text : String} {ts : List Token}
    (h : ofText .named text = .ok ts) : occurrences ts =
      ((runs [] text.toList).filter Run.isOdd).map fun r => String.ofList r.name := by
  rw [((ofText_eq_ok_iff.1 h).occurrences_eq []).1, places, List.map_map]
  rfl

/-- The octets of a text that can be scanned are the fixed ones, those of the names, and one for
every escape and every placeholder. -/
theorem fixedLen_add_of_ofText {mode : Mode} {text : String} {ts : List Token}
    (h : ofText mode text = .ok ts) :
    fixedLen ts + totalHalves (runs [] text.toList) +
      ((occurrences ts).map fun name => Utf8.size name.toList).sum = (Utf8.encode text).length := by
  rw [Utf8.encode, Utf8.length_encodeChars]
  exact (ofText_eq_ok_iff.1 h).fixedLen_add []

/-- A text fails to be scanned for names exactly if one of its odd runs lacks a name, and the first
such run is the one that is reported. -/
theorem ofText_named_eq_error_iff {text : String} {e : Error} :
    ofText .named text = .error e ↔ ∃ r, (runs [] text.toList).find? Run.isNameless = some r ∧
      e = .emptyArgName (Utf8.size r.upToLast) := by
  have first {e : Error} (h : ofText .named text = .error e) :
      ∃ r, (runs [] text.toList).find? Run.isNameless = some r ∧
        e = .emptyArgName (Utf8.size r.upToLast) := by
    have nothingBefore : 0 = Utf8.size [] := rfl
    obtain ⟨p, found, rfl⟩ := find?_places_of_scan_error h nothingBefore
    rw [find?_places, Option.map_eq_some_iff] at found
    obtain ⟨r, hr, rfl⟩ := found
    exact ⟨r, hr, rfl⟩
  constructor
  · exact first
  · rintro ⟨r, found, rfl⟩
    cases htext : ofText .named text with
    | ok ts =>
      have none := ((ofText_eq_ok_iff.1 htext).occurrences_eq []).2
      rw [find?_places, found] at none
      cases none
    | error e =>
      obtain ⟨r', found', rfl⟩ := first htext
      rw [found] at found'
      rw [Option.some.inj found']

end Token

open Ascii Token

variable {σ : Type}

/-- Of the maximal runs of question marks of a text, those of odd length make its placeholders. If
placeholders need no names then every text is a template, with a slot for every odd run, and its
fixed octets are those of the text less one for every two question marks of a run and for one that
is left over. If they need names, a text is none exactly if some odd run is not followed by a name
character, and the last question mark of the first such run is reported; otherwise the names are
the name characters that follow the odd runs, and their octets are not fixed either. -/
theorem placeholders_iff_odd_runs (text : String) : ∃ rs, RunsOf text.toList rs ∧
    ((∃ ts, ofText .positional text = .ok ts) ∧
      (∀ state : σ, ∃ t, (Positional.compile text []).Yields state t state) ∧
      ∀ (options : List (TemplateOption σ)) (state last : σ) (t : Positional),
        (Positional.compile text options).Yields state t last →
          t.expectedArgs = rs.countP Run.isOdd ∧
          t.fixedLen + (rs.map Run.halves).sum = (Utf8.encode text).length) ∧
    ((∀ e, ofText .named text = .error e ↔
        ∃ r, rs.find? Run.isNameless = some r ∧ e = .emptyArgName (Utf8.size r.upToLast)) ∧
      (∀ ts, ofText .named text = .ok ts →
        occurrences ts = ((rs.filter Run.isOdd).map fun r => String.ofList r.name) ∧
        ∀ state : σ, ∃ t, (Named.compile text []).Yields state t state) ∧
      ∀ (options : List (TemplateOption σ)) (state last : σ) (t : Named σ),
        (Named.compile text options).Yields state t last →
          t.fixedLen + (rs.map Run.halves).sum +
            ((rs.filter Run.isOdd).map fun r => Utf8.size r.name).sum =
              (Utf8.encode text).length) := by
  obtain ⟨ts, lexes⟩ := exists_lexes_positional text.toList
  have hts : ofText .positional text = .ok ts := ofText_eq_ok_iff.2 lexes
  refine ⟨runs [] text.toList, runsOf_runs text.toList, ⟨⟨ts, hts⟩, ?_, ?_⟩, ?_, ?_, ?_⟩
  · intro state
    exact Positional.exists_compile_yields text state
  · intro options state last t compiled
    obtain ⟨raw, _, _, hraw, rfl, -⟩ := Positional.compile_yields compiled
    have sizes := fixedLen_add_of_ofText hraw
    have unnamed : occurrences raw = [] := by
      refine List.eq_nil_iff_forall_not_mem.2 fun name mem => ?_
      exact (ofText_eq_ok_iff.1 hraw).isRaw.named_notMem name (mem_occurrences.1 mem)
    rw [unnamed, List.map_nil, List.sum_nil, Nat.add_zero] at sizes
    constructor
    · rw [Positional.expectedArgs, Positional.ofTokens, argCount_merge, argCount_of_ofText hraw]
    · rw [Positional.ofTokens, fixedLen_merge]
      exact sizes
  · intro e
    exact ofText_named_eq_error_iff
  · intro ts hts
    exact ⟨occurrences_eq_of_ofText hts, fun state => ⟨_, Named.yields_compile_nil hts state⟩⟩
  · intro options state last t compiled
    obtain ⟨raw, _, _, _, hraw, rfl, -⟩ := Named.compile_yields compiled
    have names := occurrences_eq_of_ofText hraw
    have sizes := fixedLen_add_of_ofText hraw
    have lengths : (occurrences raw).map (fun name => Utf8.size name.toList) =
        ((runs [] text.toList).filter Run.isOdd).map fun r => Utf8.size r.name := by
      simp [names]
    rw [lengths] at sizes
    rw [Named.ofTokens, fixedLen_merge]
    exact sizes

/-- In `é??? ?a` both runs are odd, so there are two slots, but the first run lacks a name. Where it
has one, as in `é???a`, that is the only name of the text. -/
theorem odd_runs_of_questions :
    (∃ rs, RunsOf "é??? ?a".toList rs ∧ rs.countP Run.isOdd = 2 ∧
      ∃ r, rs.find? Run.isNameless = some r ∧ Utf8.size r.upToLast = 4) ∧
    ∃ rs, RunsOf "é???a".toList rs ∧
      ((rs.filter Run.isOdd).map fun r => String.ofList r.name) = ["a"] ∧
      (rs.map Run.halves).sum + ((rs.filter Run.isOdd).map fun r => Utf8.size r.name).sum = 3 := by
  constructor
  · obtain ⟨rs, all, ⟨-, -, slots⟩, errors, -⟩ := placeholders_iff_odd_runs (σ := Unit) "é??? ?a"
    let t := Positional.ofTokens
      [.fixed [0xC3, 0xA9, question], .positional, .fixed [space], .positional, .fixed [0x61]]
      true false
    have compiled : (Positional.compile "é??? ?a" []).Yields () t () := ⟨[], by cbv⟩
    have failed : ofText .named "é??? ?a" = .error (.emptyArgName 4) := by cbv
    obtain ⟨count, -⟩ := slots [] () () t compiled
    obtain ⟨r, found, offset⟩ := (errors _).1 failed
    exact ⟨rs, all, count.symm, r, found, (Error.emptyArgName.inj offset).symm⟩
  · obtain ⟨rs, all, -, -, names, sizes⟩ := placeholders_iff_odd_runs (σ := Unit) "é???a"
    let t : Named Unit :=
      .ofTokens [.fixed [0xC3, 0xA9, question], .named "a"] .empty true false
    have compiled : (Named.compile "é???a" []).Yields () t () := ⟨[], by cbv⟩
    have scanned : ofText .named "é???a" =
        .ok [.fixed [0xC3, 0xA9], escaped, .named "a"] := by cbv
    obtain ⟨same, -⟩ := names _ scanned
    have sum := sizes [] () () t compiled
    have fixed : t.fixedLen = 3 := rfl
    have total : (Utf8.encode "é???a").length = 6 := by cbv
    refine ⟨rs, all, same.symm, ?_⟩
    omega

end Stencil
