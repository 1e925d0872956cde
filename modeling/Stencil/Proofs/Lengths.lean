import Mathlib
import Stencil.Proofs.Filling

/-!
# Lengths of outputs

Since exactly one text is put in each placeholder, the length of an output is known before it is
made, so the room that is set aside for it is neither too little nor too much. Binding arguments makes
the fixed octets more by just those of the texts that are put in.
-/

namespace Stencil

open Ascii

variable {σ : Type}

namespace Token

theorem fixedLen_placeholder {slot : Token} (placeholder : slot.isFixed = false)
    (ts : List Token) : fixedLen (slot :: ts) = fixedLen ts := by
  cases slot with
  | fixed bytes => cases placeholder
  | _ => exact Nat.zero_add _

/-- Where texts are put in, their octets become fixed. -/
theorem Bound.fixedLen_eq {ts us : List Token} {texts : List Bytes} (h : Bound ts texts us) :
    fixedLen us = fixedLen ts + (texts.map List.length).sum := by
  induction h with
  | nil => rfl
  | keep t _ ih => rw [fixedLen_cons, fixedLen_cons, ih, Nat.add_assoc]
  | fill placeholder _ ih =>
    rw [fixedLen_placeholder placeholder, fixedLen_cons, ih, fixedSize, List.map_cons,
      List.sum_cons]
    omega

end Token

open Token

end Stencil
