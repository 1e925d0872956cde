import Stencil.Proofs.Json.Reading
import Stencil.Proofs.Token.Merge

/-!
# Places for values in a template

A sequence of tokens fits a reading if every placeholder stands where a value is due, whatever
values are put in. `fits_start_iff` reduces this to one text, the sequence with a null for every
placeholder; `Fits.advance_assemble` and `Fits.filled` carry it over to other values.
-/

namespace Stencil.Json

open Token

/-- The text of a sequence with a null for every placeholder. -/
def nullFilled (ts : List Token) : Bytes :=
  assemble ts (List.replicate (argCount ts) nullText)

/-- Whether a sequence is read on from `r` to a text that may end, with a value due at every
placeholder. -/
def Fits : Reading → List Token → Prop
  | r, [] => r.endFault? = none
  | r, .fixed bytes :: ts => ∃ q, r.advance bytes = some q ∧ Fits q ts
  | r, _ :: ts => r.TakesValue ∧ Fits ⟨.done, r.stack⟩ ts

/-- No placeholder of a sequence lies inside a string of its text with nulls. -/
def NullsOutsideStrings (ts : List Token) : Prop :=
  ∀ before slot after, ts = before ++ slot :: after → slot.isFixed = false →
    ∀ r, Reading.start.advance (nullFilled before) = some r → ¬ r.InString

@[simp] theorem nullFilled_nil : nullFilled [] = [] := rfl

@[simp] theorem nullFilled_fixed (bytes : Bytes) (ts : List Token) :
    nullFilled (.fixed bytes :: ts) = bytes ++ nullFilled ts := by
  simp [nullFilled, isFixed]

theorem nullFilled_placeholder {slot : Token} (placeholder : slot.isFixed = false)
    (ts : List Token) : nullFilled (slot :: ts) = nullText ++ nullFilled ts := by
  rw [nullFilled, argCount_placeholder placeholder, List.replicate_succ,
    assemble_placeholder placeholder, nullFilled]

theorem fits_placeholder {slot : Token} (placeholder : slot.isFixed = false) (r : Reading)
    (ts : List Token) : Fits r (slot :: ts) ↔ r.TakesValue ∧ Fits ⟨.done, r.stack⟩ ts := by
  cases slot with
  | fixed bytes => cases placeholder
  | positional => rfl
  | named name => rfl

/-- A sequence fits if its text with nulls may end and none of the nulls lies inside a string. -/
theorem fits_of_nullFilled {r q : Reading} (proper : r.Proper) {ts : List Token}
    (hread : r.advance (nullFilled ts) = some q) (hend : q.endFault? = none)
    (outside : ∀ before slot after, ts = before ++ slot :: after → slot.isFixed = false →
      ∀ p, r.advance (nullFilled before) = some p → ¬ p.InString) : Fits r ts := by
  -- The reading moves on with the sequence, and with it the start from which `outside` counts.
  induction ts generalizing r with
  | nil => exact Option.some.inj hread ▸ hend
  | cons t ts ih =>
    cases hfixed : t.isFixed with
    | true =>
      obtain ⟨bytes, rfl⟩ := isFixed_iff.1 hfixed
      rw [nullFilled_fixed, Reading.advance_append] at hread
      obtain ⟨p, hp, hrest⟩ := Option.bind_eq_some_iff.1 hread
      refine ⟨p, hp, ih (proper.advance hp) hrest ?_⟩
      intro before slot after hsplit placeholder p' hp'
      refine outside (.fixed bytes :: before) slot after (by rw [hsplit]; rfl) placeholder p' ?_
      rw [nullFilled_fixed, Reading.advance_append, hp]
      exact hp'
    | false =>
      rw [nullFilled_placeholder hfixed, Reading.advance_append] at hread
      obtain ⟨p, hp, hrest⟩ := Option.bind_eq_some_iff.1 hread
      have due : r.TakesValue :=
        Reading.takesValue_of_advance_nullText proper (outside [] t ts rfl hfixed r rfl) hp
      have after : r.advance nullText = some ⟨.done, r.stack⟩ := Reading.advance_nullText due
      obtain rfl : p = ⟨.done, r.stack⟩ := Option.some.inj (hp.symm.trans after)
      refine (fits_placeholder hfixed r ts).2 ⟨due, ih (proper.advance hp) hrest ?_⟩
      intro before slot after' hsplit placeholder p' hp'
      refine outside (t :: before) slot after' (by rw [hsplit]; rfl) placeholder p' ?_
      rw [nullFilled_placeholder hfixed, Reading.advance_append, hp]
      exact hp'

/-- Where a sequence fits, none of the nulls lies inside a string. -/
theorem Fits.outside {r : Reading} {ts : List Token} (fits : Fits r ts) {before after : List Token}
    {slot : Token} (hsplit : ts = before ++ slot :: after) (placeholder : slot.isFixed = false)
    {p : Reading} (hp : r.advance (nullFilled before) = some p) : ¬ p.InString := by
  induction before generalizing r ts with
  | nil =>
    subst hsplit
    obtain rfl := Option.some.inj hp
    obtain ⟨due, -⟩ := (fits_placeholder placeholder r after).1 fits
    rintro ⟨isKey, part, inString⟩
    rcases due with h | ⟨h, -⟩ <;> cases h.symm.trans inString
  | cons t before ih =>
    subst hsplit
    cases hfixed : t.isFixed with
    | true =>
      obtain ⟨bytes, rfl⟩ := isFixed_iff.1 hfixed
      obtain ⟨q, hq, hrest⟩ := fits
      rw [nullFilled_fixed, Reading.advance_append, hq] at hp
      exact ih hrest rfl hp
    | false =>
      obtain ⟨due, hrest⟩ := (fits_placeholder hfixed r _).1 fits
      rw [nullFilled_placeholder hfixed, Reading.advance_append, Reading.advance_nullText due] at hp
      exact ih hrest rfl hp

/-! ## Other values -/

/-- What follows a complete value follows a number as well. -/
theorem Fits.of_settled {phase : Phase} (settled : phase.settled) {stack : List Container}
    {ts : List Token} (fits : Fits ⟨.done, stack⟩ ts) : Fits ⟨phase, stack⟩ ts := by
  induction ts with
  | nil =>
    have ends : Reading.endFault? ⟨.done, stack⟩ = none := fits
    rw [Reading.endFault?_of_settled rfl] at ends
    exact (Reading.endFault?_of_settled settled stack).trans ends
  | cons t ts ih =>
    cases t with
    | fixed bytes =>
      obtain ⟨q, hq, hrest⟩ := fits
      cases bytes with
      | nil =>
        obtain rfl := Option.some.inj hq
        exact ⟨⟨phase, stack⟩, rfl, ih hrest⟩
      | cons b bytes =>
        obtain ⟨next, hstep, hnext⟩ := Reading.step_of_advance_cons hq
        refine ⟨q, ?_, hrest⟩
        rw [Reading.advance_cons_of_step (Reading.step_of_settled settled hstep)]
        exact hnext
    | positional => rcases fits.1 with h | ⟨h, -⟩ <;> cases h
    | named name => rcases fits.1 with h | ⟨h, -⟩ <;> cases h

/-- A sequence still fits when a placeholder is replaced by a complete JSON text. -/
theorem Fits.read_value {slot : Token} (placeholder : slot.isFixed = false) {r : Reading}
    {ts : List Token} (fits : Fits r (slot :: ts)) {bytes : Bytes} (accepted : Accepts bytes) :
    ∃ q, r.advance bytes = some q ∧ Fits q ts := by
  obtain ⟨due, hrest⟩ := (fits_placeholder placeholder r ts).1 fits
  obtain ⟨phase, settled, hread⟩ := Reading.advance_of_accepts due accepted
  exact ⟨⟨phase, r.stack⟩, hread, hrest.of_settled settled⟩

/-- Filling a sequence that fits with complete JSON texts gives a text that may end. -/
theorem Fits.advance_assemble {r : Reading} {ts : List Token} (fits : Fits r ts)
    {args : List Bytes} (count : args.length = argCount ts) (accepted : ∀ arg ∈ args, Accepts arg) :
    ∃ q, r.advance (assemble ts args) = some q ∧ q.endFault? = none := by
  induction ts generalizing r args with
  | nil => exact ⟨r, by rw [assemble_nil]; rfl, fits⟩
  | cons t ts ih =>
    cases hfixed : t.isFixed with
    | true =>
      obtain ⟨bytes, rfl⟩ := isFixed_iff.1 hfixed
      obtain ⟨p, hp, hrest⟩ := fits
      obtain ⟨q, hq, hend⟩ := ih hrest (by simpa [isFixed] using count) accepted
      refine ⟨q, ?_, hend⟩
      rw [assemble_fixed, Reading.advance_append, hp]
      exact hq
    | false =>
      rw [argCount_placeholder hfixed] at count
      obtain ⟨arg, args, rfl⟩ := List.exists_cons_of_length_eq_add_one count
      obtain ⟨hhead, htail⟩ := List.forall_mem_cons.1 accepted
      obtain ⟨p, hp, hrest⟩ := fits.read_value hfixed hhead
      obtain ⟨q, hq, hend⟩ := ih hrest (by simpa using count) htail
      refine ⟨q, ?_, hend⟩
      rw [assemble_placeholder hfixed, Reading.advance_append, hp]
      exact hq

/-- The text of a sequence that fits is accepted whatever complete JSON texts fill it. -/
theorem Fits.accepts_assemble {ts : List Token} (fits : Fits Reading.start ts)
    {args : List Bytes} (count : args.length = argCount ts) (accepted : ∀ arg ∈ args, Accepts arg) :
    Accepts (assemble ts args) :=
  accepts_iff.2 (fits.advance_assemble count accepted)

/-- A sequence fits the start of a text exactly if the validator accepts it with nulls, all of
them outside of strings. -/
theorem fits_start_iff {ts : List Token} :
    Fits Reading.start ts ↔ Accepts (nullFilled ts) ∧ NullsOutsideStrings ts := by
  constructor
  · intro fits
    refine ⟨fits.accepts_assemble List.length_replicate ?_, ?_⟩
    · intro arg mem
      rw [List.eq_of_mem_replicate mem]
      exact accepts_nullText
    · intro before slot after hsplit placeholder p hp
      exact fits.outside hsplit placeholder hp
  · rintro ⟨accepted, outside⟩
    obtain ⟨q, hread, hend⟩ := accepts_iff.1 accepted
    exact fits_of_nullFilled Reading.proper_start hread hend outside

/-- The second sequence is the first with complete JSON texts in place of some placeholders. -/
inductive Filled : List Token → List Token → Prop where
  | nil : Filled [] []
  | keep (t : Token) {ts us : List Token} : Filled ts us → Filled (t :: ts) (t :: us)
  | fill {slot : Token} {bytes : Bytes} {ts us : List Token} : slot.isFixed = false →
    Accepts bytes → Filled ts us → Filled (slot :: ts) (.fixed bytes :: us)

/-- Putting complete texts in for some of the placeholders leaves a value due at the others. -/
theorem Fits.filled {r : Reading} {ts us : List Token} (fits : Fits r ts) (filled : Filled ts us) :
    Fits r us := by
  induction filled generalizing r with
  | nil => exact fits
  | keep t _ ih =>
    cases t with
    | fixed bytes =>
      obtain ⟨q, hq, hrest⟩ := fits
      exact ⟨q, hq, ih hrest⟩
    | positional => exact ⟨fits.1, ih fits.2⟩
    | named name => exact ⟨fits.1, ih fits.2⟩
  | fill placeholder accepted _ ih =>
    obtain ⟨q, hq, hrest⟩ := fits.read_value placeholder accepted
    exact ⟨q, hq, ih hrest⟩

/-- Merging does not change how a sequence is read. -/
theorem fits_merge (r : Reading) (ts : List Token) : Fits r (merge ts) ↔ Fits r ts := by
  have same : (fun r => Fits r (merge ts)) = (fun r => Fits r ts) := by
    apply merge_eq_of (f := fun ts r => Fits r ts)
    · intro a b us
      funext r
      simp only [Fits, Reading.advance_append, Option.bind_eq_some_iff, eq_iff_iff]
      constructor
      · rintro ⟨q, ⟨p, hp, hq⟩, hrest⟩
        exact ⟨p, hp, q, hq, hrest⟩
      · rintro ⟨p, hp, q, hq, hrest⟩
        exact ⟨q, ⟨p, hp, hq⟩, hrest⟩
    · intro t us vs same
      have each : ∀ r, Fits r us = Fits r vs := congrFun same
      funext r
      cases t <;> simp only [Fits, each]
  exact (congrFun same r).to_iff

end Stencil.Json
