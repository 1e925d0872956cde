import Mathlib
import Stencil.Proofs.Token.Neighbours

/-!
# Gaps between placeholders

The placeholders of a sequence divide it into gaps: one before the first, one between each and the
next, and one behind the last. Placeholders and gaps together determine the sequence. Merging
keeps the placeholders and makes one piece of every gap that has any, even if all of them are
empty, and it is the only way to do so. `toTokens_foldl_push` says that one pass from the left comes
to the same, which holds a run of fixed pieces back until a placeholder or the end is reached.
-/

namespace Stencil.Token

/-- The octets that a token stands for. -/
def octets : Token → Bytes
  | fixed bytes => bytes
  | _ => []

/-- The fixed tokens before, between and behind the placeholders of a sequence, gap by gap. -/
def gaps (ts : List Token) : List (List Token) := ts.splitOnP isSlot

/-- The tokens that make up a gap when its pieces are joined: none if it has none, and otherwise one
with the octets of all of them. -/
def joined (gap : List Token) : List Token :=
  if gap = [] then [] else [fixed (gap.flatMap octets)]

/-- How far merging from the left has come: the tokens that are made, and the run of fixed octets
behind them if one has begun. -/
structure Merging where
  made : List Token
  run? : Option Bytes

namespace Merging

/-- The tokens that are made when nothing else follows. -/
def toTokens (m : Merging) : List Token := m.made ++ (m.run?.map fixed).toList

/-- Reads one more token. A fixed piece goes on with the run or begins one, and a placeholder ends
it. -/
def push (m : Merging) : Token → Merging
  | fixed bytes => ⟨m.made, some (m.run?.getD [] ++ bytes)⟩
  | slot => ⟨m.toTokens ++ [slot], none⟩

end Merging

@[simp] theorem gaps_nil : gaps [] = [[]] := rfl

@[simp] theorem gaps_fixed (bytes : Bytes) (ts : List Token) :
    gaps (fixed bytes :: ts) = (gaps ts).modifyHead (fixed bytes :: ·) := by
  rw [gaps, List.splitOnP_cons_eq_if_modifyHead]
  rfl

theorem gaps_placeholder {slot : Token} (placeholder : slot.isFixed = false) (ts : List Token) :
    gaps (slot :: ts) = [] :: gaps ts := by
  have isSlot : slot.isSlot = true := by rw [isSlot, placeholder]; rfl
  rw [gaps, List.splitOnP_cons_eq_if_modifyHead, if_pos isSlot]
  rfl

/-- Sequences with the same placeholders and the same gaps are equal. -/
theorem eq_of_gaps_eq {ts us : List Token} (slots : us.filter isSlot = ts.filter isSlot)
    (same : gaps us = gaps ts) : us = ts := by
  have rebuilt := List.splitOnP_spec (p := isSlot) us
  rw [slots, ← gaps, same, gaps, List.splitOnP_spec] at rebuilt
  exact rebuilt.symm

theorem consMerged_slot {slot : Token} (placeholder : slot.isFixed = false) (ts : List Token) :
    consMerged slot ts = slot :: ts := by
  cases slot with
  | fixed bytes => cases placeholder
  | _ => simp [consMerged]

theorem consMerged_fixed_slot {slot : Token} (placeholder : slot.isFixed = false) (bytes : Bytes)
    (ts : List Token) : consMerged (fixed bytes) (slot :: ts) = fixed bytes :: slot :: ts := by
  cases slot with
  | fixed bytes => cases placeholder
  | _ => simp [consMerged]

theorem filter_isSlot_merge (ts : List Token) :
    (merge ts).filter isSlot = ts.filter isSlot := by
  apply merge_eq_of
  · intro a b ts
    rfl
  · intro t ts us same
    rw [List.filter_cons, List.filter_cons, same]

/-- A fixed piece in front of a sequence is joined to the first gap. -/
theorem gaps_consMerged_fixed (bytes : Bytes) (ts : List Token) :
    gaps (consMerged (fixed bytes) ts) = (gaps ts).modifyHead (consMerged (fixed bytes)) := by
  cases ts with
  | nil => rfl
  | cons t ts =>
    cases t with
    | fixed more =>
      rw [consMerged, gaps_fixed, gaps_fixed, List.modifyHead_modifyHead]
      rfl
    | _ =>
      rw [consMerged_fixed_slot rfl, gaps_fixed, gaps_placeholder rfl]
      rfl

theorem consMerged_joined (bytes : Bytes) (gap : List Token) :
    consMerged (fixed bytes) (joined gap) = joined (fixed bytes :: gap) := by
  cases gap with
  | nil => simp [joined, consMerged, octets]
  | cons t ts => simp [joined, consMerged, octets]

/-- Merging joins the pieces in each gap and nothing else. -/
theorem gaps_merge (ts : List Token) : gaps (merge ts) = (gaps ts).map joined := by
  induction ts with
  | nil => rfl
  | cons t ts ih =>
    cases t with
    | fixed bytes =>
      rw [merge_cons, gaps_consMerged_fixed, gaps_fixed, ih]
      cases gaps ts with
      | nil => rfl
      | cons gap rest => simp [consMerged_joined]
    | _ =>
      rw [merge_cons, consMerged_slot rfl, gaps_placeholder rfl, gaps_placeholder rfl, ih]
      rfl

-- An empty piece makes a piece of its gap, whereas a gap without pieces stays empty.
example (a b : Bytes) :
    gaps (merge [fixed [], positional, fixed a, fixed b, named "n", positional]) =
      [[fixed []], [fixed (a ++ b)], [], []] := rfl

namespace Merging

/-- What is made so far stays, and the run that has begun is merged with what follows. -/
theorem toTokens_foldl_push (m : Merging) (ts : List Token) :
    (ts.foldl push m).toTokens = m.made ++ merge ((m.run?.map fixed).toList ++ ts) := by
  induction ts generalizing m with
  | nil =>
    obtain ⟨made, _ | run⟩ := m <;> rfl
  | cons t ts ih =>
    rw [List.foldl_cons, ih]
    obtain ⟨made, run?⟩ := m
    cases t with
    | fixed bytes => cases run? <;> simp [push, consMerged_append]
    | _ => cases run? <;> simp [push, toTokens, consMerged]

end Merging

/-- Where no two fixed tokens meet, there is one more of them than of placeholders at most: behind
each but the last comes a placeholder. -/
theorem Apart.length_le : ∀ {ts : List Token}, Apart isFixed ts → ts.length ≤ 2 * argCount ts + 1
  | [], _ => by simp
  | [t], _ => by simp
  | t :: u :: ts, apart => by
    obtain ⟨first, rest⟩ := apart_cons.1 apart
    rw [argCount_cons t, List.length_cons]
    cases ht : t.isFixed with
    | true =>
      have hu : u.isFixed = false := first ht u rfl
      have shorter := (apart_cons.1 rest).2.length_le
      rw [argCount_placeholder hu, List.length_cons]
      simp only [if_true]
      omega
    | false =>
      have shorter := rest.length_le
      simp only [Bool.false_eq_true, if_false]
      omega

/-- Merging changes a sequence unless no two fixed tokens meet. -/
theorem merge_eq_self_iff {ts : List Token} : merge ts = ts ↔ Apart isFixed ts := by
  constructor
  · intro same
    rw [← same]
    exact apart_isFixed_merge ts
  · exact merge_eq_self

/-- Merging gives the one sequence in which no two fixed tokens meet, the placeholders are the same
and in the same order, and every gap has a single piece with the octets of its pieces if it had any,
and nothing otherwise. So it changes exactly the sequences in which fixed tokens meet, a second time
nothing, and never the number of placeholders or of fixed octets. A pass from the left that holds
each run back until it ends makes this sequence. -/
theorem eq_merge_iff_gaps :
    (∀ ts us : List Token, us = merge ts ↔
      Apart isFixed us ∧ us.filter isSlot = ts.filter isSlot ∧ gaps us = (gaps ts).map joined) ∧
    (∀ ts : List Token, merge ts = ts ↔ Apart isFixed ts) ∧
    (∀ ts : List Token, merge (merge ts) = merge ts) ∧
    (∀ ts : List Token, argCount (merge ts) = argCount ts ∧ fixedLen (merge ts) = fixedLen ts ∧
      (merge ts).length ≤ 2 * argCount ts + 1) ∧
    ∀ ts : List Token, (ts.foldl Merging.push ⟨[], none⟩).toTokens = merge ts := by
  refine ⟨?_, fun ts => merge_eq_self_iff, ?_, ?_, fun ts => Merging.toTokens_foldl_push _ ts⟩
  · intro ts us
    constructor
    · rintro rfl
      exact ⟨apart_isFixed_merge ts, filter_isSlot_merge ts, gaps_merge ts⟩
    · rintro ⟨-, slots, gap⟩
      rw [← filter_isSlot_merge ts] at slots
      rw [← gaps_merge] at gap
      exact eq_of_gaps_eq slots gap
  · intro ts
    exact merge_eq_self (apart_isFixed_merge ts)
  · intro ts
    have short := (apart_isFixed_merge ts).length_le
    rw [argCount_merge] at short
    exact ⟨argCount_merge ts, fixedLen_merge ts, short⟩

end Stencil.Token
