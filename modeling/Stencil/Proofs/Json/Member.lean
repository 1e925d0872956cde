import Stencil.Json.Quoted
import Stencil.Proofs.Json.Reading

/-!
# Members of objects

A quoted text is read as one string, whatever it quotes, so it can be the name of a member.
`joinMember` puts a member behind others, and `IsBody.joinMember` says that what can stand between
the braces of an object still can with the member behind it.
-/

namespace Stencil.Json

open Ascii

theorem isHexDigit_hexDigit {n : UInt8} (h : n < 16) : isHexDigit (hexDigit n) = true := by
  have all : ∀ i : Fin 16, isHexDigit (hexDigit (UInt8.ofNat i)) = true := by decide
  have digit := all ⟨n.toNat, h⟩
  rwa [UInt8.ofNat_toNat] at digit

namespace Reading

variable {isKey : Bool} {stack : List Container}

theorem advance_unicode {h l : UInt8} (high : isHexDigit h = true) (low : isHexDigit l = true) :
    advance ⟨.string isKey .plain, stack⟩ [backslash, lowerU, zero, zero, h, l] =
      some ⟨.string isKey .plain, stack⟩ := by
  have last : advance ⟨.string isKey .plain, stack⟩ [backslash, lowerU, zero, zero, h, l] =
    advance ⟨.string isKey (.hex 2 true), stack⟩ [h, l] := rfl
  rw [last]
  simp [advance, step, stepString, high, low]

/-- What stands for an octet of a quoted text is read without leaving the string. -/
theorem advance_escapeOctet (b : UInt8) :
    advance ⟨.string isKey .plain, stack⟩ (escapeOctet b) =
      some ⟨.string isKey .plain, stack⟩ := by
  unfold escapeOctet
  split
  iterate 7 rfl
  rename_i quoteMeets backslashMeets _ _ _ _ _
  have notQuote : b ≠ quote := quoteMeets
  have notBackslash : b ≠ backslash := backslashMeets
  by_cases control : b < 0x20
  · rw [if_pos control]
    have small : b.toNat < 32 := control
    have high : b / 16 < 16 := by
      rw [UInt8.lt_iff_toNat_lt, UInt8.toNat_div]
      show b.toNat / 16 < 16
      omega
    have low : b % 16 < 16 := by
      show b.toNat % 16 < 16
      omega
    exact advance_unicode (isHexDigit_hexDigit high) (isHexDigit_hexDigit low)
  · rw [if_neg control]
    have stays : step ⟨.string isKey .plain, stack⟩ b = .ok ⟨.string isKey .plain, stack⟩ := by
      simp only [step, stepString]
      rw [if_neg notQuote, if_neg notBackslash, if_neg control]
    rw [advance_cons_of_step stays, advance_nil]

/-- Inside of a string any octets can be read once they are escaped, and the string goes on. -/
theorem advance_flatMap_escapeOctet (bytes : Bytes) :
    advance ⟨.string isKey .plain, stack⟩ (bytes.flatMap escapeOctet) =
      some ⟨.string isKey .plain, stack⟩ := by
  induction bytes with
  | nil => rfl
  | cons b bytes ih =>
    rw [List.flatMap_cons, advance_append, advance_escapeOctet]
    exact ih

/-- Whether the name of a member may come next. -/
def TakesKey (r : Reading) : Prop :=
  (r.phase = .key ∨ r.phase = .first) ∧ r.stack.head? = some .object

/-- A quoted text is a name wherever one is due, and a colon is due behind it. -/
theorem advance_quoted {r : Reading} (due : r.TakesKey) (text : String) :
    r.advance (quoted text) = some ⟨.colon, r.stack⟩ := by
  obtain ⟨phase, stack⟩ := r
  have opens : step ⟨phase, stack⟩ quote = .ok ⟨.string true .plain, stack⟩ := by
    obtain ⟨rfl | rfl, inObject⟩ := due
    · rfl
    · match stack, inObject with
      | .object :: outer, _ => rfl
  rw [quoted, advance_cons_of_step opens, advance_append, advance_flatMap_escapeOctet]
  rfl

end Reading

open Reading

/-- The text can stand wherever a member can, and may end there. -/
def IsMember (text : Bytes) : Prop :=
  ∀ r : Reading, r.TakesKey → ∃ phase : Phase, phase.settled ∧
    r.advance text = some ⟨phase, r.stack⟩

/-- A quoted name, a colon and a complete text make a member, whatever characters the name has. -/
theorem isMember_quoted (name : String) {value : Bytes} (accepted : Accepts value) :
    IsMember (quoted name ++ [colon] ++ value) := by
  intro r due
  have behindKey : r.advance (quoted name ++ [colon]) = some ⟨.value, r.stack⟩ := by
    rw [advance_append, advance_quoted due]
    rfl
  obtain ⟨phase, settled, hread⟩ := advance_of_accepts (r := ⟨.value, r.stack⟩) (.inl rfl) accepted
  refine ⟨phase, settled, ?_⟩
  rw [advance_append, behindKey]
  exact hread

/-- Members behind what has been written, with a comma where something stands on both sides. -/
def joinMember (written text : Bytes) : Bytes :=
  if text.isEmpty then written
  else if written.isEmpty then text
  else written ++ comma :: text

/-- Whether a text can stand between the braces of an object: it is empty or ends where a member
may end. -/
def IsBody (text : Bytes) : Prop :=
  text = [] ∨ ∃ phase : Phase, phase.settled ∧
    advance ⟨.first, [.object]⟩ text = some ⟨phase, [.object]⟩

/-- One more member, or a text that is empty in its place, leaves a body a body. The comma ends a
number that the member before holds. -/
theorem IsBody.joinMember {written text : Bytes} (body : IsBody written)
    (member : text = [] ∨ IsMember text) : IsBody (joinMember written text) := by
  unfold Json.joinMember
  by_cases omitted : text.isEmpty = true
  · rw [if_pos omitted]
    exact body
  · rw [if_neg omitted]
    have isMember : IsMember text := member.resolve_left fun h => omitted (by simp [h])
    by_cases first : written.isEmpty = true
    · rw [if_pos first]
      exact .inr (isMember ⟨.first, [.object]⟩ ⟨.inr rfl, rfl⟩)
    · rw [if_neg first]
      obtain ⟨before, settled, hwritten⟩ := body.resolve_left fun h => first (by simp [h])
      obtain ⟨phase, ends, htext⟩ := isMember ⟨.key, [.object]⟩ ⟨.inl rfl, rfl⟩
      have separates : step ⟨before, [.object]⟩ comma = .ok ⟨.key, [.object]⟩ :=
        step_of_settled settled rfl
      refine .inr ⟨phase, ends, ?_⟩
      rw [advance_append, hwritten]
      show advance ⟨before, [.object]⟩ (comma :: text) = some ⟨phase, [.object]⟩
      rw [advance_cons_of_step separates]
      exact htext

/-- Members joined by commas make a body, and texts that are empty do not change it. -/
theorem isBody_foldl_joinMember {written : Bytes} (body : IsBody written) {texts : List Bytes}
    (members : ∀ text ∈ texts, text = [] ∨ IsMember text) :
    IsBody (texts.foldl joinMember written) := by
  induction texts generalizing written with
  | nil => exact body
  | cons text texts ih =>
    obtain ⟨member, rest⟩ := List.forall_mem_cons.1 members
    exact ih (body.joinMember member) rest

/-- A body makes an object. -/
theorem IsBody.accepts_braces {text : Bytes} (body : IsBody text) :
    Accepts (openBrace :: (text ++ [closeBrace])) := by
  rw [accepts_iff]
  refine ⟨⟨.done, []⟩, ?_, rfl⟩
  have opens : start.step openBrace = .ok ⟨.first, [.object]⟩ := rfl
  rw [advance_cons_of_step opens]
  rcases body with rfl | ⟨phase, settled, htext⟩
  · rfl
  · have closes : step ⟨phase, [.object]⟩ closeBrace = .ok ⟨.done, []⟩ :=
      step_of_settled settled rfl
    rw [advance_append, htext]
    exact advance_cons_of_step closes []

end Stencil.Json
