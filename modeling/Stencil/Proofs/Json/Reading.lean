import Stencil.Json.Recogniser
import Stencil.Json.Value

/-!
# Values inside texts

A complete JSON text can stand wherever a reading is due to read a value. `advance_of_accepts` says
where such a text leads from there: behind a complete value, with the containers that were open
before. The text may end in a number, which has no closing octet; `step_of_settled` says that such
an end reads every octet that may follow a complete value as the octet after one.
-/

namespace Stencil.Json

open Ascii

/-- Whether a text is one JSON value with whitespace around it. -/
def Accepts (bytes : Bytes) : Prop := check bytes = .ok ()

/-- Whether a complete value has been read, or a number that may end here. -/
def Phase.settled : Phase → Bool
  | .done => true
  | .number .zero | .number .whole | .number .fraction | .number .power => true
  | _ => false

namespace Reading

/-- The reading after more octets, if none of them is at fault. -/
def advance (r : Reading) : Bytes → Option Reading
  | [] => some r
  | b :: bytes =>
    match r.step b with
    | .ok next => next.advance bytes
    | .error _ => none

@[simp] theorem advance_nil (r : Reading) : r.advance [] = some r := rfl

theorem advance_cons_of_step {r next : Reading} {b : UInt8} (h : r.step b = .ok next)
    (bytes : Bytes) : r.advance (b :: bytes) = next.advance bytes := by
  rw [advance, h]

theorem step_of_advance_cons {r q : Reading} {b : UInt8} {bytes : Bytes}
    (h : r.advance (b :: bytes) = some q) :
    ∃ next, r.step b = .ok next ∧ next.advance bytes = some q := by
  rw [advance] at h
  cases hstep : r.step b with
  | error fault => simp [hstep] at h
  | ok next =>
    rw [hstep] at h
    exact ⟨next, rfl, h⟩

/-- Where faults are reported does not change what is read. -/
theorem run_eq_ok_iff {r q : Reading} {offset : Nat} {bytes : Bytes} :
    r.run offset bytes = .ok q ↔ r.advance bytes = some q := by
  induction bytes generalizing r offset with
  | nil => simp [run, advance]
  | cons b bytes ih =>
    cases h : r.step b with
    | error fault => simp [run, advance, h]
    | ok next => simp [run, advance, h, ih]

/-- Two pieces are read as the text is that they make up. -/
theorem advance_append (r : Reading) (as bs : Bytes) :
    r.advance (as ++ bs) = (r.advance as).bind (·.advance bs) := by
  refine Option.ext fun q => ?_
  rw [← @run_eq_ok_iff r q 0, run_append, Option.bind_eq_some_iff]
  constructor
  · intro h
    cases hfirst : r.run 0 as with
    | error fault =>
      rw [hfirst] at h
      cases h
    | ok next =>
      rw [hfirst] at h
      exact ⟨next, run_eq_ok_iff.1 hfirst, run_eq_ok_iff.1 h⟩
  · rintro ⟨next, hfirst, hrest⟩
    rw [run_eq_ok_iff.2 hfirst]
    exact run_eq_ok_iff.2 hrest

end Reading

/-- A text is one JSON value just if it is read without a fault to where it may end. -/
theorem accepts_iff {bytes : Bytes} :
    Accepts bytes ↔ ∃ q, Reading.start.advance bytes = some q ∧ q.endFault? = none := by
  unfold Accepts check
  cases h : Reading.start.run 0 bytes with
  | error fault =>
    have stuck : ∀ q, Reading.start.advance bytes ≠ some q := by
      intro q hq
      rw [Reading.run_eq_ok_iff.2 hq] at h
      cases h
    simp [stuck]
  | ok r =>
    rw [Reading.run_eq_ok_iff.1 h]
    cases hend : r.endFault? with
    | some fault => simp [hend]
    | none => simp [hend]

theorem accepts_nullText : Accepts nullText := by
  rw [accepts_iff]
  exact ⟨⟨.done, []⟩, rfl, rfl⟩

namespace Reading

/-- What holds of every reading that started at the start of a text: a bracket that has just been
read opened a container, and no more than the rest of a literal is due. -/
structure Proper (r : Reading) : Prop where
  opened : r.phase = .first → r.stack ≠ []
  begun : ∀ rest, r.phase = .literal rest → lowerN ∉ rest

theorem proper_start : start.Proper where
  opened := nofun
  begun := nofun

/-- The reading with further containers open around it. -/
def under (r : Reading) (outer : List Container) : Reading := ⟨r.phase, r.stack ++ outer⟩

/-- What holds of one octet as a step from the open containers: it leads to proper readings, and
where it is taken at all it is taken below further containers too, which stay open. -/
structure Regular (step : List Container → Except Fault Reading) : Prop where
  proper : ∀ {stack : List Container} {q : Reading}, step stack = .ok q → q.Proper
  under : ∀ {stack : List Container} {q : Reading}, step stack = .ok q →
    ∀ outer, step (stack ++ outer) = .ok (q.under outer)

namespace Regular

theorem fault (f : Fault) : Regular fun _ => .error f := ⟨nofun, nofun⟩

/-- A step may go on to a phase without a look at the containers. -/
theorem go {phase : Phase} (first : phase ≠ .first)
    (begun : ∀ rest, phase = .literal rest → lowerN ∉ rest) :
    Regular fun stack => .ok ⟨phase, stack⟩ where
  proper h := by
    cases h
    exact ⟨fun same => absurd same first, begun⟩
  under h outer := by
    cases h
    rfl

theorem opens (container : Container) :
    Regular fun stack => .ok ⟨.first, container :: stack⟩ where
  proper h := by
    cases h
    exact ⟨fun _ => List.cons_ne_nil _ _, nofun⟩
  under h outer := by
    cases h
    rfl

theorem ite {p : Prop} [Decidable p] {f g : List Container → Except Fault Reading}
    (hf : Regular f) (hg : Regular g) : Regular fun stack => if p then f stack else g stack := by
  by_cases h : p
  · simpa only [if_pos h] using hf
  · simpa only [if_neg h] using hg

end Regular

theorem isWhitespace_iff {b : UInt8} :
    isWhitespace b = true ↔ b ∈ [space, tab, newline, carriageReturn] := by
  constructor
  · intro white
    unfold isWhitespace at white
    split at white
    · decide
    · decide
    · decide
    · decide
    · cases white
  · intro mem
    simp only [List.mem_cons, List.not_mem_nil, or_false] at mem
    rcases mem with rfl | rfl | rfl | rfl <;> rfl

/-- What an octet after a complete value leads to, by the innermost container that is open. -/
inductive AfterValue : List Container → UInt8 → Reading → Prop where
  | white {stack : List Container} {b : UInt8} : isWhitespace b = true →
    AfterValue stack b ⟨.done, stack⟩
  | nextItem {outer : List Container} : AfterValue (.list :: outer) comma ⟨.value, .list :: outer⟩
  | closeList {outer : List Container} : AfterValue (.list :: outer) closeBracket ⟨.done, outer⟩
  | nextMember {outer : List Container} :
    AfterValue (.object :: outer) comma ⟨.key, .object :: outer⟩
  | closeObject {outer : List Container} : AfterValue (.object :: outer) closeBrace ⟨.done, outer⟩

/-- Behind a value there may be whitespace, a comma inside of a container, or what closes the
container. -/
theorem stepDone_eq_ok_iff {stack : List Container} {b : UInt8} {q : Reading} :
    stepDone stack b = .ok q ↔ AfterValue stack b q := by
  constructor
  · intro h
    unfold stepDone at h
    by_cases white : isWhitespace b = true
    · rw [if_pos white] at h
      cases h
      exact .white white
    rw [if_neg white] at h
    match stack with
    | [] => cases h
    | .list :: outer =>
      by_cases next : b = comma
      · rw [next] at h ⊢
        cases h
        exact .nextItem
      by_cases close : b = closeBracket
      · rw [close] at h ⊢
        cases h
        exact .closeList
      · simp [next, close] at h
    | .object :: outer =>
      by_cases next : b = comma
      · rw [next] at h ⊢
        cases h
        exact .nextMember
      by_cases close : b = closeBrace
      · rw [close] at h ⊢
        cases h
        exact .closeObject
      · simp [next, close] at h
  · intro h
    cases h with
    | white white => exact if_pos white
    | nextItem => rfl
    | closeList => rfl
    | nextMember => rfl
    | closeObject => rfl

theorem regular_stepDone (b : UInt8) : Regular (stepDone · b) where
  proper h := by
    cases stepDone_eq_ok_iff.1 h <;> exact ⟨nofun, nofun⟩
  under h outer := by
    refine stepDone_eq_ok_iff.2 ?_
    cases stepDone_eq_ok_iff.1 h with
    | white white => exact .white white
    | nextItem => exact .nextItem
    | closeList => exact .closeList
    | nextMember => exact .nextMember
    | closeObject => exact .closeObject

theorem regular_stepValue (b : UInt8) : Regular (stepValue · b) := by
  have waits : Regular fun stack => .ok ⟨.value, stack⟩ := .go nofun nofun
  have literal {rest : Bytes} (begun : lowerN ∉ rest) :
      Regular fun stack => .ok ⟨.literal rest, stack⟩ :=
    .go nofun fun _ same => Phase.literal.inj same ▸ begun
  have number (part : NumberPart) : Regular fun stack => .ok ⟨.number part, stack⟩ :=
    .go nofun nofun
  unfold stepValue
  split
  · exact waits
  · exact waits
  · exact waits
  · exact waits
  · exact literal (by decide)
  · exact literal (by decide)
  · exact literal (by decide)
  · exact number .minus
  · exact number .zero
  · exact .go nofun nofun
  · exact .opens .list
  · exact .opens .object
  · exact .ite (number .whole) (.fault _)

theorem regular_stepKey (b : UInt8) : Regular (stepKey · b) := by
  have waits : Regular fun stack => .ok ⟨.key, stack⟩ := .go nofun nofun
  have quoted : Regular fun stack => .ok ⟨.string true .plain, stack⟩ := .go nofun nofun
  unfold stepKey
  exact .ite waits (.ite quoted (.fault _))

theorem regular_stepColon (b : UInt8) : Regular (stepColon · b) := by
  have waits : Regular fun stack => .ok ⟨.colon, stack⟩ := .go nofun nofun
  have value : Regular fun stack => .ok ⟨.value, stack⟩ := .go nofun nofun
  unfold stepColon
  exact .ite waits (.ite value (.fault _))

theorem regular_stepString (isKey : Bool) (part : StringPart) (b : UInt8) :
    Regular (stepString · isKey part b) := by
  have inside (part : StringPart) : Regular fun stack => .ok ⟨.string isKey part, stack⟩ :=
    .go nofun nofun
  have behind : Regular fun stack => .ok ⟨if isKey then .colon else .done, stack⟩ := by
    cases isKey <;> exact .go nofun nofun
  cases part with
  | plain =>
    simp only [stepString]
    exact .ite behind (.ite (inside _) (.ite (.fault _) (inside _)))
  | escape =>
    simp only [stepString]
    exact .ite (inside _) (.ite (inside _) (.fault _))
  | hex seen valid =>
    simp only [stepString]
    exact .ite (inside _) (.ite (inside _) (.fault _))

theorem regular_stepLiteral {rest : Bytes} (begun : lowerN ∉ rest) (b : UInt8) :
    Regular (stepLiteral · rest b) := by
  match rest, begun with
  | [], _ => exact regular_stepDone b
  | [_], _ => exact .ite (.go nofun nofun) (.fault _)
  | _ :: next :: rest, begun =>
    have further : lowerN ∉ next :: rest := fun mem => begun (List.mem_cons_of_mem _ mem)
    exact .ite (.go nofun fun _ same => Phase.literal.inj same ▸ further) (.fault _)

theorem regular_stepNumber (part : NumberPart) (b : UInt8) : Regular (stepNumber · part b) := by
  have inside (part : NumberPart) : Regular fun stack => .ok ⟨.number part, stack⟩ :=
    .go nofun nofun
  have ends : Regular (stepDone · b) := regular_stepDone b
  cases part with
  | minus => exact .ite (inside _) (.ite (inside _) (.fault _))
  | zero => exact .ite (.fault _) (.ite (inside _) (.ite (inside _) ends))
  | whole => exact .ite (inside _) (.ite (inside _) (.ite (inside _) ends))
  | point => exact .ite (inside _) (.fault _)
  | fraction => exact .ite (inside _) (.ite (inside _) ends)
  | mark => exact .ite (inside _) (.ite (inside _) (.fault _))
  | sign => exact .ite (inside _) (.fault _)
  | power => exact .ite (inside _) ends

/-- Right behind the bracket that opens a container nothing but that container can be closed, so the
containers around it make no difference. -/
theorem stepFirst_under {stack : List Container} {b : UInt8} {q : Reading} (opened : stack ≠ [])
    (h : stepFirst stack b = .ok q) (outer : List Container) :
    stepFirst (stack ++ outer) b = .ok (q.under outer) := by
  unfold stepFirst at h ⊢
  by_cases white : isWhitespace b = true
  · rw [if_pos white] at h ⊢
    cases h
    rfl
  rw [if_neg white] at h ⊢
  match stack, opened with
  | .list :: inner, _ =>
    by_cases closes : b = closeBracket
    · simp only [List.cons_append, if_pos closes] at h ⊢
      cases h
      rfl
    · simp only [List.cons_append, if_neg closes] at h ⊢
      exact (regular_stepValue b).under h outer
  | .object :: inner, _ =>
    by_cases closes : b = closeBrace
    · simp only [List.cons_append, if_pos closes] at h ⊢
      cases h
      rfl
    · simp only [List.cons_append, if_neg closes] at h ⊢
      exact (regular_stepKey b).under h outer

theorem proper_stepFirst {stack : List Container} {b : UInt8} {q : Reading} (opened : stack ≠ [])
    (h : stepFirst stack b = .ok q) : q.Proper := by
  unfold stepFirst at h
  by_cases white : isWhitespace b = true
  · rw [if_pos white] at h
    cases h
    exact ⟨fun _ => opened, nofun⟩
  rw [if_neg white] at h
  match stack, opened with
  | .list :: inner, _ =>
    by_cases closes : b = closeBracket
    · simp only [if_pos closes] at h
      cases h
      exact ⟨nofun, nofun⟩
    · simp only [if_neg closes] at h
      exact (regular_stepValue b).proper h
  | .object :: inner, _ =>
    by_cases closes : b = closeBrace
    · simp only [if_pos closes] at h
      cases h
      exact ⟨nofun, nofun⟩
    · simp only [if_neg closes] at h
      exact (regular_stepKey b).proper h

/-- One octet leads from a proper reading to a proper one. -/
theorem Proper.step {r q : Reading} (proper : r.Proper) {b : UInt8} (h : r.step b = .ok q) :
    q.Proper := by
  obtain ⟨phase, stack⟩ := r
  cases phase with
  | value => exact (regular_stepValue b).proper h
  | first => exact proper_stepFirst (proper.opened rfl) h
  | key => exact (regular_stepKey b).proper h
  | colon => exact (regular_stepColon b).proper h
  | string isKey part => exact (regular_stepString isKey part b).proper h
  | literal rest => exact (regular_stepLiteral (proper.begun rest rfl) b).proper h
  | number part => exact (regular_stepNumber part b).proper h
  | done => exact (regular_stepDone b).proper h

/-- An octet that can be read can be read below further containers too, which stay open. -/
theorem step_under {r q : Reading} (proper : r.Proper) {b : UInt8} (h : r.step b = .ok q)
    (outer : List Container) : (r.under outer).step b = .ok (q.under outer) := by
  obtain ⟨phase, stack⟩ := r
  cases phase with
  | value => exact (regular_stepValue b).under h outer
  | first => exact stepFirst_under (proper.opened rfl) h outer
  | key => exact (regular_stepKey b).under h outer
  | colon => exact (regular_stepColon b).under h outer
  | string isKey part => exact (regular_stepString isKey part b).under h outer
  | literal rest => exact (regular_stepLiteral (proper.begun rest rfl) b).under h outer
  | number part => exact (regular_stepNumber part b).under h outer
  | done => exact (regular_stepDone b).under h outer

/-- Reading on keeps a reading proper. -/
theorem Proper.advance {r q : Reading} (proper : r.Proper) {bytes : Bytes}
    (h : r.advance bytes = some q) : q.Proper := by
  induction bytes generalizing r with
  | nil => exact Option.some.inj h ▸ proper
  | cons b bytes ih =>
    obtain ⟨next, hstep, hrest⟩ := step_of_advance_cons h
    exact ih (proper.step hstep) hrest

/-- Only whitespace, commas and closing brackets may follow a complete value. -/
theorem mem_of_stepDone {stack : List Container} {b : UInt8} {q : Reading}
    (h : stepDone stack b = .ok q) :
    b ∈ [space, tab, newline, carriageReturn, comma, closeBracket, closeBrace] := by
  cases stepDone_eq_ok_iff.1 h with
  | white white =>
    exact List.mem_append_left [comma, closeBracket, closeBrace] (isWhitespace_iff.1 white)
  | nextItem => decide
  | closeList => decide
  | nextMember => decide
  | closeObject => decide

/-- Where an octet may follow a complete value, it ends a number as well. -/
theorem step_of_settled {phase : Phase} (settled : phase.settled)
    {stack : List Container} {b : UInt8} {q : Reading} (h : stepDone stack b = .ok q) :
    step ⟨phase, stack⟩ b = .ok q := by
  have ends : isDigit b = false ∧ b ≠ Ascii.point ∧ isExponentMark b = false := by
    have mem := mem_of_stepDone h
    simp only [List.mem_cons, List.not_mem_nil, or_false] at mem
    rcases mem with rfl | rfl | rfl | rfl | rfl | rfl | rfl
    all_goals decide
  cases phase with
  | done => exact h
  | number part => cases part <;> simp_all [Phase.settled, step, stepNumber]
  | _ => cases settled

theorem endFault?_of_settled {phase : Phase} (settled : phase.settled)
    (stack : List Container) : endFault? ⟨phase, stack⟩ = endAfter stack := by
  cases phase with
  | done => rfl
  | number part =>
    cases part with
    | zero | whole | fraction | power => rfl
    | minus | point | mark | sign => cases settled
  | _ => cases settled

/-- What can be read at the start of a text can be read below open containers too, which it leaves
open. -/
theorem advance_under {r q : Reading} (proper : r.Proper) {bytes : Bytes}
    (h : r.advance bytes = some q) (outer : List Container) :
    (r.under outer).advance bytes = some (q.under outer) := by
  induction bytes generalizing r with
  | nil => exact congrArg (fun x : Reading => some (x.under outer)) (Option.some.inj h)
  | cons b bytes ih =>
    obtain ⟨next, hstep, hrest⟩ := step_of_advance_cons h
    rw [advance_cons_of_step (step_under proper hstep outer)]
    exact ih (proper.step hstep) hrest

/-- A proper reading of a text that may end there has read one complete value. -/
theorem settled_of_endFault? {r : Reading} (proper : r.Proper) (h : r.endFault? = none) :
    r.phase.settled ∧ r.stack = [] := by
  have empty : ∀ {stack : List Container}, endAfter stack = none → stack = [] := by
    intro stack hstack
    match stack, hstack with
    | [], _ => rfl
  obtain ⟨phase, stack⟩ := r
  cases phase with
  | first => exact absurd (empty h) (proper.opened rfl)
  | number part =>
    cases part with
    | zero | whole | fraction | power => exact ⟨rfl, empty h⟩
    | minus | point | mark | sign => cases h
  | done => exact ⟨rfl, empty h⟩
  | _ => cases h

/-- Whether a value is due next, also right after the bracket that opened a list. -/
def TakesValue (r : Reading) : Prop :=
  r.phase = .value ∨ r.phase = .first ∧ r.stack.head? ≠ some .object

/-- Right after the bracket that opened a list a value is read as at any other place for one. -/
theorem advance_first {stack : List Container} (inList : stack.head? ≠ some .object)
    {bytes : Bytes} {q : Reading} (h : advance ⟨.value, stack⟩ bytes = some q)
    (begun : q.phase ≠ .value) : advance ⟨.first, stack⟩ bytes = some q := by
  induction bytes with
  | nil => exact absurd (Option.some.inj h ▸ rfl) begun
  | cons b bytes ih =>
    obtain ⟨next, hstep, hrest⟩ := step_of_advance_cons h
    -- Whitespace leaves both readings where they are. Any other octet takes both to the same
    -- reading, since the one that closes a list right away is at fault where a value is due.
    by_cases white : isWhitespace b = true
    · have stays : stepValue stack b = .ok ⟨.value, stack⟩ := by
        have mem := isWhitespace_iff.1 white
        simp only [List.mem_cons, List.not_mem_nil, or_false] at mem
        rcases mem with rfl | rfl | rfl | rfl <;> rfl
      have same : next = ⟨.value, stack⟩ := Except.ok.inj (hstep.symm.trans stays)
      subst same
      have skips : step ⟨.first, stack⟩ b = .ok ⟨.first, stack⟩ := by
        simp [step, stepFirst, white]
      rw [advance_cons_of_step skips]
      exact ih hrest
    · have same : step ⟨.first, stack⟩ b = .ok next := by
        have notClosing : b ≠ closeBracket := by
          rintro rfl
          have fault : step ⟨.value, stack⟩ closeBracket = .error .expectedValue := rfl
          rw [fault] at hstep
          cases hstep
        simp only [step, stepFirst, white]
        match stack, inList with
        | [], _ => exact hstep
        | .list :: outer, _ =>
          have same : stepValue (.list :: outer) b = .ok next := hstep
          simpa [notClosing] using same
      rw [advance_cons_of_step same]
      exact hrest

/-- A complete JSON text stands for a value wherever one is due. It closes all that it opens, so the
containers that were open before it are open behind it. -/
theorem advance_of_accepts {r : Reading} (due : r.TakesValue) {bytes : Bytes}
    (accepted : Accepts bytes) :
    ∃ phase : Phase, phase.settled ∧ r.advance bytes = some ⟨phase, r.stack⟩ := by
  obtain ⟨q, hq, hend⟩ := accepts_iff.1 accepted
  obtain ⟨settled, closed⟩ := settled_of_endFault? (proper_start.advance hq) hend
  have inside : advance ⟨.value, r.stack⟩ bytes = some ⟨q.phase, r.stack⟩ := by
    have := advance_under proper_start hq r.stack
    simpa [under, start, closed] using this
  refine ⟨q.phase, settled, ?_⟩
  obtain ⟨phase, stack⟩ := r
  rcases due with rfl | ⟨rfl, inList⟩
  · exact inside
  · refine advance_first inList inside ?_
    intro same
    rw [same] at settled
    cases settled

/-- Null can be read wherever a value is due, and the containers that were open stay open. -/
theorem advance_nullText {r : Reading} (due : r.TakesValue) :
    r.advance nullText = some ⟨.done, r.stack⟩ := by
  obtain ⟨phase, stack⟩ := r
  rcases due with rfl | ⟨rfl, inList⟩
  · rfl
  · exact advance_first inList rfl nofun

/-- Whether the next octet belongs to a string. -/
def InString (r : Reading) : Prop := ∃ isKey part, r.phase = .string isKey part

/-- Outside of strings a null is read only where a value is due. -/
theorem takesValue_of_advance_nullText {r q : Reading} (proper : r.Proper)
    (outside : ¬ r.InString) (h : r.advance nullText = some q) : r.TakesValue := by
  obtain ⟨next, hstep, -⟩ := step_of_advance_cons h
  obtain ⟨phase, stack⟩ := r
  have notDone : ∀ stack, stepDone stack lowerN ≠ .ok next := by
    intro stack hdone
    exact absurd (mem_of_stepDone hdone) (by decide)
  cases phase with
  | value => exact .inl rfl
  | first =>
    refine .inr ⟨rfl, ?_⟩
    intro isObject
    match stack, isObject with
    | .object :: outer, _ => cases hstep
  | key => cases hstep
  | colon => cases hstep
  | string isKey part => exact absurd ⟨isKey, part, rfl⟩ outside
  | literal rest =>
    have notDue : lowerN ∉ rest := proper.begun rest rfl
    match rest, notDue with
    | [], _ => exact absurd hstep (notDone stack)
    | [last], notDue =>
      have different : lowerN ≠ last := fun same => notDue (same ▸ List.mem_cons_self)
      simp [step, stepLiteral, different] at hstep
    | due :: further :: rest, notDue =>
      have different : lowerN ≠ due := fun same => notDue (same ▸ List.mem_cons_self)
      simp [step, stepLiteral, different] at hstep
  | number part =>
    cases part with
    | minus | point | mark | sign => cases hstep
    | zero | whole | fraction | power => exact absurd hstep (notDone stack)
  | done => exact absurd hstep (notDone stack)

end Reading

end Stencil.Json
