import Mathlib
import Stencil.Proofs.Token.Gaps

/-!
# Passes from the left

Merging and filling are each one pass over a sequence, which keeps what it has done so far. A pass
that takes a fixed piece behind another as more of the same does not notice merging: `foldl_merge`.
Filling is such a pass, so a merged sequence stands for the same octets; and so is merging, which
therefore comes to the same whether or not parts of a sequence were merged before they were put
together.
-/

namespace Stencil.Token

/-- How far filling from the left has come: the octets that are written, and the arguments that are
left. -/
structure Filling where
  written : Bytes
  left : List Bytes

namespace Filling

/-- Goes on with one more token. A fixed piece is written as it is. A placeholder takes the next
argument, and nothing if none is left. -/
def push (f : Filling) : Token → Filling
  | fixed bytes => ⟨f.written ++ bytes, f.left⟩
  | _ =>
    match f.left with
    | [] => f
    | arg :: left => ⟨f.written ++ arg, left⟩

/-- Goes on with the tokens of a sequence. -/
def pushAll (f : Filling) (ts : List Token) : Filling := ts.foldl push f

end Filling

/-- A pass that comes to the same for two fixed pieces in turn and for the piece they join to comes
to the same for a sequence and for the merged one. The first token decides from where the pass goes
on, so the two passes are compared as functions. -/
theorem foldl_merge {α : Type*} {step : α → Token → α}
    (join : ∀ s a b, step (step s (fixed a)) (fixed b) = step s (fixed (a ++ b)))
    (s : α) (ts : List Token) : (merge ts).foldl step s = ts.foldl step s := by
  let pass (us : List Token) (s : α) : α := us.foldl step s
  have same : pass (merge ts) = pass ts := by
    apply merge_eq_of
    · intro a b us
      funext s
      simp only [pass, List.foldl_cons, join]
    · intro t us vs same
      funext s
      exact congrFun same (step s t)
  exact congrFun same s

/-! ## Filling from the left -/

/-- A placeholder stands for the next argument, and for nothing if there is none. -/
theorem assemble_headD {slot : Token} (placeholder : slot.isFixed = false) (ts : List Token)
    (args : List Bytes) : assemble (slot :: ts) args = args.headD [] ++ assemble ts args.tail := by
  cases slot with
  | fixed bytes => cases placeholder
  | _ => cases args <;> simp [assemble]

namespace Filling

theorem push_placeholder {slot : Token} (placeholder : slot.isFixed = false) (f : Filling) :
    f.push slot = ⟨f.written ++ f.left.headD [], f.left.tail⟩ := by
  obtain ⟨written, left⟩ := f
  cases slot with
  | fixed bytes => cases placeholder
  | _ => cases left <;> simp [push]

theorem pushAll_append (f : Filling) (xs ys : List Token) :
    f.pushAll (xs ++ ys) = (f.pushAll xs).pushAll ys := List.foldl_append

/-- A pass over a sequence writes what filling the sequence with the arguments that are left gives,
and takes an argument for each placeholder as long as there are any. -/
theorem pushAll_eq (f : Filling) (ts : List Token) :
    f.pushAll ts = ⟨f.written ++ assemble ts f.left, f.left.drop (argCount ts)⟩ := by
  induction ts generalizing f with
  | nil => simp [pushAll]
  | cons t ts ih =>
    show (f.push t).pushAll ts = _
    rw [ih]
    cases ht : t.isFixed with
    | true =>
      obtain ⟨bytes, rfl⟩ := isFixed_iff.1 ht
      simp [push, isFixed, List.append_assoc]
    | false =>
      rw [push_placeholder ht, argCount_placeholder ht, assemble_headD ht]
      simp [List.append_assoc]

/-- Filling from the left does not see whether fixed pieces are joined. -/
theorem pushAll_merge (f : Filling) (ts : List Token) : f.pushAll (merge ts) = f.pushAll ts := by
  refine foldl_merge (fun f a b => ?_) f ts
  simp only [push, List.append_assoc]

end Filling

theorem assemble_merge (ts : List Token) (args : List Bytes) :
    assemble (merge ts) args = assemble ts args := by
  have same := Filling.pushAll_merge ⟨[], args⟩ ts
  rw [Filling.pushAll_eq, Filling.pushAll_eq] at same
  exact congrArg Filling.written same

/-! ## Merging from the left -/

namespace Merging

/-- Merging is a pass from the left that holds runs back. -/
theorem merge_eq_toTokens (ts : List Token) : merge ts = (ts.foldl push ⟨[], none⟩).toTokens :=
  (toTokens_foldl_push ⟨[], none⟩ ts).symm

theorem foldl_push_merge (m : Merging) (ts : List Token) :
    (merge ts).foldl push m = ts.foldl push m := by
  refine foldl_merge (fun m a b => ?_) m ts
  simp [push, List.append_assoc]

/-- Filling keeps pace with merging: it comes as far with what merging has made, the run included,
as it does with the tokens themselves. -/
theorem pushAll_toTokens_foldl_push (m : Merging) (f : Filling) (ts : List Token) :
    f.pushAll (ts.foldl push m).toTokens = (f.pushAll m.toTokens).pushAll ts := by
  calc f.pushAll (ts.foldl push m).toTokens
    _ = (f.pushAll m.made).pushAll (merge ((m.run?.map fixed).toList ++ ts)) := by
      rw [toTokens_foldl_push, Filling.pushAll_append]
    _ = (f.pushAll m.toTokens).pushAll ts := by
      rw [Filling.pushAll_merge, Filling.pushAll_append, toTokens, Filling.pushAll_append]

end Merging

/-- A run that crosses the border between two sequences is joined afterwards as well as at once. -/
theorem merge_append_eq_merge (xs ys : List Token) :
    merge (xs ++ ys) = merge (merge xs ++ merge ys) := by
  calc merge (xs ++ ys)
    _ = (ys.foldl Merging.push (xs.foldl Merging.push ⟨[], none⟩)).toTokens := by
      rw [Merging.merge_eq_toTokens, List.foldl_append]
    _ = ((merge ys).foldl Merging.push ((merge xs).foldl Merging.push ⟨[], none⟩)).toTokens := by
      rw [Merging.foldl_push_merge, Merging.foldl_push_merge]
    _ = merge (merge xs ++ merge ys) := by
      rw [Merging.merge_eq_toTokens (merge xs ++ merge ys), List.foldl_append]

/-- Merged or not, a sequence stands for the same octets, with whatever arguments, be they too few or
too many; and two sequences put together merge as they do when each is merged before. Merging is a
pass from the left that holds runs back, and filling is one that writes what the sequence stands for
and takes an argument for each placeholder until none is left. The two keep pace with each other,
from wherever both have come to. -/
theorem assemble_merge_and_merge_append :
    (∀ (ts : List Token) (args : List Bytes), assemble (merge ts) args = assemble ts args) ∧
    (∀ xs ys : List Token, merge (xs ++ ys) = merge (merge xs ++ merge ys)) ∧
    (∀ ts : List Token, merge ts = (ts.foldl Merging.push ⟨[], none⟩).toTokens) ∧
    (∀ (f : Filling) (ts : List Token),
      f.pushAll ts = ⟨f.written ++ assemble ts f.left, f.left.drop (argCount ts)⟩) ∧
    ∀ (m : Merging) (f : Filling) (ts : List Token),
      f.pushAll (ts.foldl Merging.push m).toTokens = (f.pushAll m.toTokens).pushAll ts :=
  ⟨assemble_merge, merge_append_eq_merge, Merging.merge_eq_toTokens, Filling.pushAll_eq,
    Merging.pushAll_toTokens_foldl_push⟩

-- The run crosses the border, and the second placeholder takes nothing.
example (a b arg : Bytes) :
    merge ([positional, fixed a] ++ [fixed b, positional]) =
        [positional, fixed (a ++ b), positional] ∧
      (Filling.mk [] [arg]).pushAll [positional, fixed a, fixed b, positional] =
        ⟨arg ++ a ++ b, []⟩ := ⟨rfl, rfl⟩

end Stencil.Token
