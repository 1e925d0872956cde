import Mathlib.Data.List.Forall2
import Stencil.Token.Basic

/-!
# Merged sequences

Merging only moves the borders between fixed pieces. `merge_eq_of` states this once for every
function of a sequence that does not see those borders; what merging leaves unchanged follows
from it.
-/

namespace Stencil.Token

@[simp] theorem merge_nil : merge [] = [] := rfl

@[simp] theorem merge_cons (t : Token) (ts : List Token) :
    merge (t :: ts) = consMerged t (merge ts) := rfl

/-- Two fixed pieces merge with a sequence as the piece does that they join to. -/
theorem consMerged_append (a b : Bytes) (ts : List Token) :
    consMerged (fixed (a ++ b)) ts = consMerged (fixed a) (consMerged (fixed b) ts) := by
  cases ts with
  | nil => rfl
  | cons t ts =>
    cases t with
    | fixed c => simp [consMerged, List.append_assoc]
    | _ => rfl

/-- A function that gives the same for two fixed pieces and for the piece they join to, and whose
value on a sequence depends on the tail by the tail's value only, does not notice merging. -/
theorem merge_eq_of {α : Sort _} {f : List Token → α}
    (join : ∀ a b ts, f (fixed (a ++ b) :: ts) = f (fixed a :: fixed b :: ts))
    (tail : ∀ t ts us, f ts = f us → f (t :: ts) = f (t :: us)) (ts : List Token) :
    f (merge ts) = f ts := by
  induction ts with
  | nil => rfl
  | cons t ts ih =>
    -- Only the border behind the first token is left, if there is one.
    have separate : f (t :: merge ts) = f (t :: ts) := tail t _ _ ih
    rw [merge_cons, ← separate]
    unfold consMerged
    split
    · rename_i a b us hus
      rw [join, hus]
    · rfl

theorem isFixed_iff {t : Token} : t.isFixed = true ↔ ∃ bytes, t = fixed bytes := by
  cases t <;> simp [isFixed]

theorem isFixed_eq_false {t : Token} (h : ∀ bytes, t ≠ fixed bytes) : t.isFixed = false := by
  cases t with
  | fixed bytes => exact absurd rfl (h bytes)
  | _ => rfl

@[simp] theorem argCount_nil : argCount [] = 0 := rfl

@[simp] theorem argCount_cons (t : Token) (ts : List Token) :
    argCount (t :: ts) = (if t.isFixed then 0 else 1) + argCount ts := by
  cases t <;> simp [argCount, isFixed, Nat.add_comm]

theorem argCount_placeholder {slot : Token} (placeholder : slot.isFixed = false)
    (ts : List Token) : argCount (slot :: ts) = argCount ts + 1 := by
  rw [argCount_cons, placeholder, Nat.add_comm]
  rfl

@[simp] theorem fixedLen_cons (t : Token) (ts : List Token) :
    fixedLen (t :: ts) = t.fixedSize + fixedLen ts := rfl

theorem argCount_merge (ts : List Token) : argCount (merge ts) = argCount ts := by
  apply merge_eq_of
  · intro a b ts
    simp [isFixed]
  · intro t ts us same
    rw [argCount_cons, argCount_cons, same]

theorem fixedLen_merge (ts : List Token) : fixedLen (merge ts) = fixedLen ts := by
  apply merge_eq_of
  · intro a b ts
    simp only [fixedLen_cons, fixedSize, List.length_append]
    omega
  · intro t ts us same
    rw [fixedLen_cons, fixedLen_cons, same]

@[simp] theorem occurrences_nil : occurrences [] = [] := rfl

@[simp] theorem occurrences_fixed (bytes : Bytes) (ts : List Token) :
    occurrences (fixed bytes :: ts) = occurrences ts := rfl

@[simp] theorem occurrences_positional (ts : List Token) :
    occurrences (positional :: ts) = occurrences ts := rfl

@[simp] theorem occurrences_named (name : String) (ts : List Token) :
    occurrences (named name :: ts) = name :: occurrences ts := rfl

theorem occurrences_merge (ts : List Token) : occurrences (merge ts) = occurrences ts := by
  apply merge_eq_of
  · intro a b ts
    rfl
  · intro t ts us same
    cases t with
    | named name => rw [occurrences_named, occurrences_named, same]
    | _ => exact same

/-- Where all placeholders have names, there are as many as names occur. -/
theorem argCount_eq_length_occurrences {ts : List Token} (named : positional ∉ ts) :
    argCount ts = (occurrences ts).length := by
  induction ts with
  | nil => rfl
  | cons t ts ih =>
    have namedRest : positional ∉ ts := fun mem => named (List.mem_cons_of_mem t mem)
    cases t with
    | fixed bytes => simpa [isFixed] using ih namedRest
    | positional => exact absurd List.mem_cons_self named
    | named name =>
      rw [argCount_placeholder rfl, ih namedRest]
      rfl

theorem mem_occurrences {name : String} {ts : List Token} :
    name ∈ occurrences ts ↔ named name ∈ ts := by
  rw [occurrences, List.mem_filterMap]
  constructor
  · rintro ⟨t, mem, ht⟩
    cases t with
    | named other => exact Option.some.inj ht ▸ mem
    | _ => cases ht
  · intro mem
    exact ⟨named name, mem, rfl⟩

theorem mem_names {name : String} {ts : List Token} : name ∈ names ts ↔ name ∈ occurrences ts :=
  List.mem_eraseDups

/-- A placeholder is in a merged sequence if and only if it was there before. -/
theorem mem_merge_iff {slot : Token} (placeholder : slot.isFixed = false) (ts : List Token) :
    slot ∈ merge ts ↔ slot ∈ ts := by
  have different : ∀ bytes, slot ≠ fixed bytes := by
    rintro bytes rfl
    cases placeholder
  have same : (slot ∈ merge ts) = (slot ∈ ts) := by
    apply merge_eq_of (f := fun us => slot ∈ us)
    · intro a b us
      simp [different]
    · intro t us vs same
      simp only [List.mem_cons, same]
  rw [same]

@[simp] theorem assemble_nil (args : List Bytes) : assemble [] args = [] := by
  cases args <;> rfl

@[simp] theorem assemble_fixed (bytes : Bytes) (ts : List Token) (args : List Bytes) :
    assemble (fixed bytes :: ts) args = bytes ++ assemble ts args := by
  cases args <;> rfl

theorem assemble_placeholder {slot : Token} (placeholder : slot.isFixed = false)
    (ts : List Token) (arg : Bytes) (args : List Bytes) :
    assemble (slot :: ts) (arg :: args) = arg ++ assemble ts args := by
  cases slot with
  | fixed bytes => cases placeholder
  | positional => rfl
  | named name => rfl

/-- What may stand in place of a token when some placeholders are filled. -/
def FilledBy (t u : Token) : Prop := u = t ∨ u.isFixed = true

/-- A placeholder that is left was there before. -/
theorem mem_of_filled {slot : Token} (placeholder : slot.isFixed = false) {ts us : List Token}
    (filled : List.Forall₂ FilledBy ts us) (mem : slot ∈ us) : slot ∈ ts := by
  induction filled with
  | nil => exact mem
  | @cons t u ts us first rest ih =>
    rcases List.mem_cons.1 mem with rfl | mem
    · rcases first with rfl | fixed
      · exact List.mem_cons_self
      · rw [placeholder] at fixed
        cases fixed
    · exact List.mem_cons_of_mem t (ih mem)

end Stencil.Token
