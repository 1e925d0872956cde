import Mathlib
import Stencil.Proofs.CheckedConstruction
import Stencil.Proofs.Configuration
import Stencil.Proofs.Placeholders
import Stencil.Proofs.Token.Passes

/-!
# Construction of templates

A text is read first, then options are applied, and then comes the check, if it is on in the end. It
renders the template like any other, but what comes of it can be read off the text alone:
`checkJson_eq` takes the template out, and `compile_eq_sequence` puts the three steps in a row.
-/

namespace Stencil

open Json Ascii Token

variable {σ τ : Type}

/-- The octets of a text with null in place of each placeholder, and of the name behind it, and one
question mark in place of two. -/
def withNulls (mode : Mode) : List Char → Bytes
  | [] => []
  | '?' :: '?' :: rest => question :: withNulls mode rest
  | '?' :: rest =>
    match mode with
    | .positional => nullText ++ withNulls .positional rest
    | .named => nullText ++ withNulls .named (rest.dropWhile isNameChar)
  | c :: rest => String.utf8EncodeChar c ++ withNulls mode rest
termination_by cs => cs.length
decreasing_by
  · simp only [List.length_cons]; omega
  · simp
  · exact length_dropWhile_lt isNameChar '?' rest
  · simp

theorem withNulls_literal {c : Char} (literal : c ≠ '?') (mode : Mode) (rest : List Char) :
    withNulls mode (c :: rest) = String.utf8EncodeChar c ++ withNulls mode rest := by
  rw [withNulls]
  · exact fun _ h => absurd h literal
  · exact literal

theorem withNulls_takeWhile (mode : Mode) (rest : List Char) :
    withNulls mode rest = Utf8.encodeChars (rest.takeWhile isLiteral) ++
      withNulls mode (rest.dropWhile isLiteral) := by
  apply copies_takeWhile_isLiteral (withNulls mode) (· ++ ·)
  · exact List.nil_append
  · exact List.append_assoc
  · exact fun c rest literal => withNulls_literal literal mode rest

/-- A text with nulls in it is the text of its tokens with nulls. -/
theorem Token.Lexes.withNulls_eq {mode : Mode} {cs : List Char} {ts : List Token}
    (h : Lexes mode cs ts) : withNulls mode cs = nullFilled ts := by
  induction h with
  | nil => rw [withNulls, nullFilled_nil]
  | escape _ ih =>
    rw [withNulls, ih, escaped, nullFilled_fixed]
    rfl
  | slot alone _ ih =>
    rw [withNulls, nullFilled_placeholder rfl]
    · simp only [ih]
    · exact alone
  | name alone _ _ ih =>
    rw [withNulls, nullFilled_placeholder rfl]
    · simp only [ih]
    · exact alone
  | literal notSlot _ ih =>
    rw [withNulls_literal notSlot, withNulls_takeWhile, ih, nullFilled_fixed,
      Utf8.encodeChars_cons, List.append_assoc]

theorem Json.nullFilled_merge (ts : List Token) : nullFilled (merge ts) = nullFilled ts := by
  rw [nullFilled, nullFilled, argCount_merge, assemble_merge]

/-- What the check at construction says of a text, where it is made. -/
def verdict (mode : Mode) (text : String) (s : Settings σ) : Except Error Unit :=
  if s.validate = some true then (check (withNulls mode text.toList)).mapError .validation
  else .ok ()

/-- Reads a text, applies options to the settings `start`, and checks the text if that is on. -/
def sequence (mode : Mode) (start : Settings σ) (make : List Token → Settings σ → τ)
    (text : String) (options : List (TemplateOption σ)) : Eval σ τ := do
  let tokens ← .ofExcept (ofText mode text)
  let ((), s) ← .withLocal start (TemplateOption.applyAll options)
  let () ← .ofExcept (verdict mode text s)
  return make tokens s

/-- The check fails exactly if it is on and the text with nulls is not complete JSON, and says
where. -/
theorem verdict_eq_error_iff {mode : Mode} {text : String} {s : Settings σ} {e : Error} :
    verdict mode text s = .error e ↔ s.validate = some true ∧
      ∃ cause, check (withNulls mode text.toList) = .error cause ∧ e = .validation cause := by
  unfold verdict
  by_cases on : s.validate = some true
  · rw [if_pos on]
    cases hcheck : check (withNulls mode text.toList) with
    | error cause =>
      constructor
      · rintro ⟨⟩
        exact ⟨on, cause, rfl, rfl⟩
      · rintro ⟨-, _, ⟨⟩, rfl⟩
        rfl
    | ok _ =>
      constructor
      · nofun
      · rintro ⟨-, _, h, -⟩
        cases h
  · rw [if_neg on]
    exact ⟨nofun, fun h => absurd h.1 on⟩

/-- A check that is made if the setting says so gives the verdict on the text. -/
theorem ite_bind_eq_verdict {mode : Mode} {text : String} {s : Settings σ} {on : Bool}
    {checked : Eval σ Unit} (hon : on = s.validate.getD false)
    (hchecked : checked = .ofExcept ((check (withNulls mode text.toList)).mapError .validation))
    (made : τ) : (if on = true then checked >>= fun _ => pure made else pure made) =
      .ofExcept (verdict mode text s) >>= fun _ => pure made := by
  subst hon hchecked
  unfold verdict
  rcases s.validate with _ | _ | _ <;> rfl

/-- A positional template is made by reading, applying options and checking, from the settings of a
target that has no defaults. -/
theorem Positional.compile_eq_sequence (text : String) (options : List (TemplateOption σ)) :
    compile text options = sequence .positional ⟨some false, some true, none⟩
      (fun tokens s => (ofTokens (merge tokens) true false).withSettings s) text options := by
  unfold compile sequence
  cases htext : ofText .positional text with
  | error e => rfl
  | ok tokens =>
    have nulls : nullFilled (merge tokens) = withNulls .positional text.toList := by
      rw [nullFilled_merge, (ofText_eq_ok_iff.1 htext).withNulls_eq]
    have consistent := consistent_ofTokens (merge tokens) true false
    show (Eval.withLocal _ _ >>= _) = (Eval.withLocal _ _ >>= _)
    congr 1
    funext ⟨_, s⟩
    refine ite_bind_eq_verdict rfl ?_ _
    rw [← nulls]
    exact checkJson_eq (consistent.configure _ _)

/-- A named template is made by reading, applying options and checking, from the settings of a
target that has defaults, which are empty. -/
theorem Named.compile_eq_sequence (text : String) (options : List (TemplateOption σ)) :
    compile text options = sequence .named ⟨some false, some true, some .empty⟩
      (fun tokens s => (ofTokens (merge tokens) .empty true false).withSettings s)
      text options := by
  unfold compile sequence
  cases htext : ofText .named text with
  | error e => rfl
  | ok tokens =>
    have lexes := ofText_eq_ok_iff.1 htext
    have nulls : nullFilled (merge tokens) = withNulls .named text.toList := by
      rw [nullFilled_merge, lexes.withNulls_eq]
    have named := positional_notMem_merge lexes.positional_notMem
    have consistent := consistent_ofTokens (σ := σ) named .empty true false
    show (Eval.withLocal _ _ >>= _) = (Eval.withLocal _ _ >>= _)
    congr 1
    funext ⟨_, s⟩
    refine ite_bind_eq_verdict rfl ?_ _
    rw [← nulls]
    exact checkJson_eq (consistent.configure _ _ _)

/-! ## Laws of construction -/

/-- How a text is made into a template. -/
structure Sequenced (mode : Mode) (text : String) (start : Settings σ)
    (construct : List (TemplateOption σ) → Eval σ τ) : Prop where
  /-- What is wrong with the text is reported, and no option is applied. -/
  unread : ∀ e, ofText mode text = .error e → ∀ options state,
    (construct options).run state = ⟨.error e, [], state⟩
  /-- The failure of the first option that fails is reported, and no later one is applied. -/
  stopped : ∀ tokens, ofText mode text = .ok tokens →
    ∀ before option after state calls mid e further last,
      (TemplateOption.applyAll before).run (start, state) = ⟨.ok (), calls, mid⟩ →
      option.apply.run mid = ⟨.error e, further, last⟩ →
      (construct (before ++ option :: after)).run state = ⟨.error e, calls ++ further, last.2⟩
  /-- If all options apply then nothing is called besides, and construction fails exactly if the
  check is on and does not accept the text with nulls. -/
  applied : ∀ tokens, ofText mode text = .ok tokens → ∀ options state calls s left,
    (TemplateOption.applyAll options).run (start, state) = ⟨.ok (), calls, s, left⟩ →
    ∃ r, (construct options).run state = ⟨r, calls, left⟩ ∧
      ∀ e, r = .error e ↔ s.validate = some true ∧
        ∃ cause, check (withNulls mode text.toList) = .error cause ∧ e = .validation cause
  /-- There are no other failures than these three. -/
  fails_iff : ∀ options state e, (construct options).Fails state e ↔
    ofText mode text = .error e ∨ ∃ tokens, ofText mode text = .ok tokens ∧
      ((∃ before option after mid, options = before ++ option :: after ∧
          (TemplateOption.applyAll before).Yields (start, state) () mid ∧
          option.apply.Fails mid e) ∨
        ∃ s left, (TemplateOption.applyAll options).Yields (start, state) () (s, left) ∧
          s.validate = some true ∧
          ∃ cause, check (withNulls mode text.toList) = .error cause ∧ e = .validation cause)
  /-- Where the check is made, its verdict is the same whatever else the options did. -/
  textDecides : ∀ options options' state state' s s' left left',
    (TemplateOption.applyAll options).Yields (start, state) () (s, left) →
    s.validate = some true →
    (TemplateOption.applyAll options').Yields (start, state') () (s', left') →
    s'.validate = some true →
    ∀ e, (construct options).Fails state e ↔ (construct options').Fails state' e
  /-- With options of the library nothing is called at all, and a failure tells whether the text is
  a template. -/
  builtIn : ∀ options, (∀ option ∈ options, option.isBuiltIn = true) → ∀ state,
    ∃ r, (construct options).run state = ⟨r, [], state⟩ ∧
      ∀ e, r = .error e → (e.isCompileError = true ↔ ∃ e', ofText mode text = .error e')

section Sequence

variable {mode : Mode} {start : Settings σ} {make : List Token → Settings σ → τ} {text : String}
  {options : List (TemplateOption σ)} {state : σ}

theorem run_sequence_unread {e : Error} (htext : ofText mode text = .error e) :
    (sequence mode start make text options).run state = ⟨.error e, [], state⟩ := by
  rw [sequence, htext]
  rfl

/-- Behind a text that is read, the outcome of the options decides. -/
theorem run_sequence {tokens : List Token} (htext : ofText mode text = .ok tokens) :
    (sequence mode start make text options).run state =
      match (TemplateOption.applyAll options).run (start, state) with
      | ⟨.error e, calls, _, left⟩ => ⟨.error e, calls, left⟩
      | ⟨.ok _, calls, s, left⟩ =>
        ⟨(verdict mode text s).map fun _ => make tokens s, calls, left⟩ := by
  rw [sequence, htext]
  show ((Eval.withLocal _ _ >>= _).run state) = _
  rw [Eval.run_bind, Eval.run_withLocal]
  rcases (TemplateOption.applyAll options).run (start, state) with ⟨_ | _, calls, s, left⟩
  · rfl
  · simp only [Except.map, Eval.run_bind, Eval.run_ofExcept]
    cases verdict mode text s with
    | error e => simp
    | ok _ => simp

/-- If the text can be read then construction fails because of an option or else because of the
check. -/
theorem fails_sequence_iff {tokens : List Token} (htext : ofText mode text = .ok tokens)
    {e : Error} : (sequence mode start make text options).Fails state e ↔
      (TemplateOption.applyAll options).Fails (start, state) e ∨
        ∃ s left, (TemplateOption.applyAll options).Yields (start, state) () (s, left) ∧
          verdict mode text s = .error e := by
  rw [sequence, htext]
  show (Eval.withLocal _ _ >>= _).Fails state e ↔ _
  rw [Eval.fails_bind_iff, Eval.fails_withLocal_iff]
  refine or_congr_right ?_
  constructor
  · rintro ⟨⟨_, s⟩, left, happly, h⟩
    refine ⟨s, left, Eval.yields_withLocal_iff.1 happly, ?_⟩
    exact Eval.fails_ofExcept_iff.1 (Eval.fails_bind_pure_iff.1 h)
  · rintro ⟨s, left, happly, h⟩
    refine ⟨((), s), left, Eval.yields_withLocal_iff.2 happly, ?_⟩
    exact Eval.fails_bind_pure_iff.2 (Eval.fails_ofExcept_iff.2 h)

theorem fails_sequence_iff_verdict {tokens : List Token} (htext : ofText mode text = .ok tokens)
    {s : Settings σ} {left : σ}
    (happly : (TemplateOption.applyAll options).Yields (start, state) () (s, left)) {e : Error} :
    (sequence mode start make text options).Fails state e ↔ verdict mode text s = .error e := by
  rw [fails_sequence_iff htext]
  constructor
  · rintro (h | ⟨s', left', happly', h⟩)
    · exact absurd h happly.not_fails
    · obtain ⟨-, same⟩ := happly.unique happly'
      cases same
      exact h
  · intro h
    exact .inr ⟨s, left, happly, h⟩

end Sequence

theorem isCompileError_of_ofText_eq_error {mode : Mode} {text : String} {e : Error}
    (h : ofText mode text = .error e) : e.isCompileError = true := by
  cases mode with
  | positional => exact absurd h (scan_positional_ne_error 0 text.toList e)
  | named =>
    obtain ⟨_, -, rfl⟩ := ofText_named_eq_error_iff.1 h
    rfl

/-- Reading, applying options and checking in this order has the laws of construction. -/
theorem sequenced_sequence (mode : Mode) (text : String) (start : Settings σ)
    (make : List Token → Settings σ → τ) :
    Sequenced mode text start (sequence mode start make text) where
  unread e htext options state := run_sequence_unread htext
  stopped tokens htext before option after state calls mid e further last hbefore hoption := by
    rw [run_sequence htext, TemplateOption.run_applyAll_of_fails hbefore hoption]
  applied tokens htext options state calls s left happly := by
    refine ⟨_, by rw [run_sequence htext, happly], fun e => ?_⟩
    rw [Eval.map_eq_error_iff, verdict_eq_error_iff]
  fails_iff options state e := by
    cases htext : ofText mode text with
    | error e' =>
      rw [Eval.Fails, run_sequence_unread htext]
      simp
    | ok tokens =>
      rw [fails_sequence_iff htext, TemplateOption.fails_applyAll_iff]
      simp only [verdict_eq_error_iff]
      simp
  textDecides options options' state state' s s' left left' happly on happly' on' e := by
    cases htext : ofText mode text with
    | error e' =>
      rw [Eval.Fails, Eval.Fails, run_sequence_unread htext, run_sequence_unread htext]
    | ok tokens =>
      rw [fails_sequence_iff_verdict htext happly, fails_sequence_iff_verdict htext happly',
        verdict, verdict, on, on']
  builtIn options builtIn state := by
    cases htext : ofText mode text with
    | error e' =>
      refine ⟨_, run_sequence_unread htext, ?_⟩
      rintro e ⟨⟩
      exact ⟨fun _ => ⟨e', rfl⟩, fun _ => isCompileError_of_ofText_eq_error htext⟩
    | ok tokens =>
      obtain ⟨r, s, hrun, unsupported⟩ :=
        TemplateOption.run_applyAll_of_isBuiltIn builtIn start state
      have readable : ¬ ∃ e', Except.ok tokens = (.error e' : Except Error (List Token)) := by simp
      rw [run_sequence htext, hrun]
      cases r with
      | error e' =>
        refine ⟨_, rfl, ?_⟩
        rintro e ⟨⟩
        obtain ⟨name, capability, rfl⟩ := unsupported e' rfl
        simp [Error.isCompileError]
      | ok _ =>
        refine ⟨_, rfl, fun e he => ?_⟩
        obtain ⟨-, cause, -, rfl⟩ := verdict_eq_error_iff.1 (Eval.map_eq_error_iff.1 he)
        simp [Error.isCompileError]

/-- Every text is made into templates of both kinds in this order: it is read, options are applied
up to the first that fails, and the check, if it is on in the end, is a matter of the text. -/
theorem sequenced_compile (text : String) :
    Sequenced .positional text ⟨some false, some true, none⟩
      (Positional.compile (σ := σ) text) ∧
    Sequenced .named text ⟨some false, some true, some .empty⟩ (Named.compile (σ := σ) text) := by
  have positional : Positional.compile (σ := σ) text = _ :=
    funext (Positional.compile_eq_sequence text)
  have named : Named.compile (σ := σ) text = _ := funext (Named.compile_eq_sequence text)
  rw [positional, named]
  exact ⟨sequenced_sequence _ _ _ _, sequenced_sequence _ _ _ _⟩

/-- A placeholder without a name is reported whatever the options are, and a registration that
positional templates lack whatever options come behind it. Where the registration is possible, the
provider registered is not called: the text `{null}` is refused. -/
theorem sequenced_compile_braces :
    let tick : Arg Nat := .deferred { answer := fun _ n => (.ofInt n, n + 1) }
    let register : TemplateOption Nat := .defaultArgValue "a" tick
    (∀ (options : List (TemplateOption Nat)) (state : Nat),
      (Named.compile "{?}" options).run state = ⟨.error (.emptyArgName 1), [], state⟩) ∧
    (∀ after : List (TemplateOption Nat),
      (Positional.compile "{?}" (.validate true :: register :: after)).run 0 =
        ⟨.error (.unsupportedOption "DefaultArgValue" .defaults), [], 0⟩) ∧
    (Named.compile "{?a}" [.validate true, register, .strict false]).run 0 =
      ⟨.error (.validation ⟨.fault .keyMustBeString, 1, 2⟩), [], 0⟩ := by
  intro tick register
  have nameless : ofText .named "{?}" = .error (.emptyArgName 1) := by cbv
  have slot : ofText .positional "{?}" =
      .ok [.fixed [openBrace], .positional, .fixed [closeBrace]] := by cbv
  have name : ofText .named "{?a}" = .ok [.fixed [openBrace], .named "a", .fixed [closeBrace]] :=
    by cbv
  have refused : check (withNulls .named "{?a}".toList) =
      .error ⟨.fault .keyMustBeString, 1, 2⟩ := by cbv
  refine ⟨(sequenced_compile "{?}").2.unread _ nameless, fun after => ?_, ?_⟩
  · exact (sequenced_compile "{?}").1.stopped _ slot [.validate true] register after 0 [] _ _ [] _
      rfl rfl
  · obtain ⟨r, hrun, verdict⟩ := (sequenced_compile "{?a}").2.applied _ name
      [.validate true, register, .strict false] 0 [] _ 0 rfl
    rw [hrun, (verdict _).2 ⟨rfl, _, refused, rfl⟩]

end Stencil
