import Mathlib.Data.List.Chain
import Stencil.Proofs.Token.Merge
import Stencil.Proofs.Token.Unparse

/-!
# Neighbours in a sequence

Merging leaves no two fixed pieces next to one another, and it does not bring two placeholders
together. Filling placeholders does not do so either, since what stands in place of a placeholder
is fixed. Where neither kind has a neighbour of its own, the two alternate, and twice the number of
placeholders is the number of tokens, give or take one.
-/

namespace Stencil.Token

/-- Whether a token is a placeholder. -/
def isSlot (t : Token) : Bool := !t.isFixed

/-- No two tokens of a kind stand next to one another. -/
def Apart (kind : Token → Bool) (ts : List Token) : Prop :=
  ts.IsChain fun t u => ¬ (kind t = true ∧ kind u = true)

/-- Fixed tokens and placeholders take turns. -/
def Alternates (ts : List Token) : Prop := ts.IsChain fun t u => t.isFixed ≠ u.isFixed

theorem apart_cons {kind : Token → Bool} {t : Token} {ts : List Token} :
    Apart kind (t :: ts) ↔
      (kind t = true → ∀ u ∈ ts.head?, kind u = false) ∧ Apart kind ts := by
  unfold Apart
  rw [List.isChain_cons]
  refine and_congr_left fun _ => ?_
  constructor
  · intro different ht u hu
    exact Bool.eq_false_iff.2 fun hu' => different u hu ⟨ht, hu'⟩
  · rintro different u hu ⟨ht, hu'⟩
    rw [different ht u hu] at hu'
    cases hu'

/-- Merging leaves no two fixed tokens next to one another: a joined piece has the neighbours that
its second part had. -/
theorem apart_isFixed_merge (ts : List Token) : Apart isFixed (merge ts) := by
  induction ts with
  | nil => exact .nil
  | cons t ts ih =>
    rw [merge_cons]
    unfold consMerged
    split
    · rename_i a b us hus
      rw [hus, apart_cons] at ih
      rw [apart_cons]
      exact ih
    · rename_i notBoth
      rw [apart_cons]
      refine ⟨?_, ih⟩
      intro ht u hu
      obtain ⟨a, rfl⟩ := isFixed_iff.1 ht
      refine isFixed_eq_false ?_
      rintro b rfl
      obtain ⟨us, hus⟩ := List.head?_eq_some_iff.1 hu
      exact notBoth a b us rfl hus

/-- Where no two fixed pieces meet there is nothing to join. -/
theorem merge_eq_self {ts : List Token} (apart : Apart isFixed ts) : merge ts = ts := by
  induction ts with
  | nil => rfl
  | cons t ts ih =>
    obtain ⟨first, rest⟩ := apart_cons.1 apart
    rw [merge_cons, ih rest]
    unfold consMerged
    split
    · exact absurd (first rfl _ rfl) (by simp [isFixed])
    · rfl

/-- Merging neither brings placeholders together nor separates them. -/
theorem apart_isSlot_merge (ts : List Token) : Apart isSlot (merge ts) ↔ Apart isSlot ts := by
  let seen (ts : List Token) : Prop × Prop :=
    (∀ u ∈ ts.head?, isSlot u = false, Apart isSlot ts)
  have same : seen (merge ts) = seen ts := by
    apply merge_eq_of
    · intro a b ts
      simp [seen, apart_cons, isSlot, isFixed]
    · intro t ts us same
      obtain ⟨firsts, aparts⟩ := Prod.mk.inj same
      simp only [seen, apart_cons, firsts, aparts, List.head?_cons]
  exact (congrArg Prod.snd same).to_iff

/-- Placeholders that have no placeholder next to them have none after some are filled. -/
theorem Apart.filled {ts us : List Token} (apart : Apart isSlot ts)
    (filled : List.Forall₂ FilledBy ts us) : Apart isSlot us := by
  have slot_of {t u : Token} (h : FilledBy t u) (hu : isSlot u = true) : isSlot t = true := by
    rcases h with rfl | fixed
    · exact hu
    · rw [isSlot, fixed] at hu
      cases hu
  induction filled with
  | nil => exact .nil
  | @cons t u ts us first rest ih =>
    rw [apart_cons] at apart ⊢
    refine ⟨?_, ih apart.2⟩
    intro hu v hv
    have noSlot := apart.1 (slot_of first hu)
    cases rest with
    | nil => cases hv
    | @cons t' u' _ _ second _ =>
      obtain rfl : u' = v := Option.some.inj hv
      refine Bool.eq_false_iff.2 fun hu' => ?_
      have ht' := slot_of second hu'
      rw [noSlot t' rfl] at ht'
      cases ht'

/-- Where placeholders have no names, one that follows another makes an escape with it. -/
theorem IsRaw.apart_isSlot {ts : List Token} (raw : IsRaw .positional ts) : Apart isSlot ts := by
  refine raw.neighbours.imp_of_mem_imp ?_
  rintro t u ht hu precedes ⟨slotT, slotU⟩
  cases t with
  | fixed bytes => cases slotT
  | named name => exact raw.named_notMem name ht
  | positional =>
    cases u with
    | fixed bytes => cases slotU
    | named name => exact raw.named_notMem name hu
    | positional => exact precedes

/-- Fixed tokens and placeholders take turns where neither kind stands next to its own. -/
theorem alternates_of_apart {ts : List Token} (fixed : Apart isFixed ts) (slots : Apart isSlot ts) :
    Alternates ts := by
  induction ts with
  | nil => exact .nil
  | cons t ts ih =>
    rw [apart_cons] at fixed slots
    refine List.isChain_cons.2 ⟨?_, ih fixed.2 slots.2⟩
    intro u hu same
    cases ht : t.isFixed with
    | true =>
      rw [ht, fixed.1 ht u hu] at same
      cases same
    | false =>
      have slot : isSlot u = false := slots.1 (by rw [isSlot, ht]; rfl) u hu
      rw [isSlot, ← same, ht] at slot
      cases slot

/-- The first token decides which of the two kinds there may be one more of. -/
theorem Alternates.length_of_head {t : Token} {ts : List Token} (h : Alternates (t :: ts)) :
    (t.isFixed = true → 2 * argCount (t :: ts) ≤ (t :: ts).length ∧
      (t :: ts).length ≤ 2 * argCount (t :: ts) + 1) ∧
    (t.isFixed = false → (t :: ts).length ≤ 2 * argCount (t :: ts) ∧
      2 * argCount (t :: ts) ≤ (t :: ts).length + 1) := by
  induction ts generalizing t with
  | nil => cases ht : t.isFixed <;> simp [ht]
  | cons u us ih =>
    obtain ⟨different, rest⟩ := List.isChain_cons_cons.1 h
    have hrest := ih rest
    rw [argCount_cons t, List.length_cons]
    cases ht : t.isFixed with
    | true =>
      have hu : u.isFixed = false := by simpa [ht] using different
      have counts := hrest.2 hu
      refine ⟨fun _ => ?_, nofun⟩
      rw [if_pos rfl]
      omega
    | false =>
      have hu : u.isFixed = true := by simpa [ht] using different
      have counts := hrest.1 hu
      refine ⟨nofun, fun _ => ?_⟩
      rw [if_neg Bool.false_ne_true]
      omega

/-- Where the two kinds take turns, their numbers differ by one at most. -/
theorem Alternates.length_bounds {ts : List Token} (h : Alternates ts) :
    2 * argCount ts ≤ ts.length + 1 ∧ ts.length ≤ 2 * argCount ts + 1 := by
  cases ts with
  | nil => simp
  | cons t ts =>
    obtain ⟨fixedFirst, slotFirst⟩ := h.length_of_head
    cases ht : t.isFixed with
    | true =>
      have := fixedFirst ht
      omega
    | false =>
      have := slotFirst ht
      omega

end Stencil.Token
