import Stencil.Proofs.Named.Reachable

/-!
# Filling named templates in one pass

Rendering first encodes what all placeholders stand for and then puts the texts in.
`render_eq_fill` says that this is the same as encoding each where it is put, with the same calls
and the same failures.
-/

namespace Stencil.Named

variable {σ : Type}

/-- Goes through a sequence once and evaluates what each name stands for where it is put. -/
def fill (value : String → Eval σ Bytes) : List Token → Eval σ Bytes
  | [] => pure []
  | .fixed bytes :: ts => return bytes ++ (← fill value ts)
  | .named name :: ts => do
    let bytes ← value name
    return bytes ++ (← fill value ts)
  | .positional :: ts => fill value ts

/-- A merged sequence stands for the same octets, with the same calls. -/
theorem fill_merge (value : String → Eval σ Bytes) (ts : List Token) :
    fill value (Token.merge ts) = fill value ts := by
  apply Token.merge_eq_of
  · intro a b us
    simp [fill, List.append_assoc]
  · intro t us vs same
    cases t <;> simp only [fill, same]

/-- Filling tokens one by one is assembling them with the texts of all names that occur. -/
theorem fill_eq_assemble {ts : List Token} (named : .positional ∉ ts)
    (value : String → Eval σ Bytes) :
    fill value ts = do return Token.assemble ts (← (Token.occurrences ts).mapM value) := by
  induction ts with
  | nil => simp [fill]
  | cons t ts ih =>
    have namedRest : .positional ∉ ts := fun mem => named (List.mem_cons_of_mem t mem)
    cases t with
    | fixed bytes => simp [fill, ih namedRest]
    | named name => simp [fill, ih namedRest, Token.assemble]
    | positional => exact absurd List.mem_cons_self named

/-- What a name stands for: the supplied argument or else the default, encoded for the name, or else
null unless every name needs a value. -/
def valueText (args defaults : Bindings (Arg σ)) (strict : Bool) (name : String) : Eval σ Bytes :=
  match (args.get? name).or (defaults.get? name) with
  | some value => value.encodeAs name
  | none => if strict then .fail (.missingNamedArg name) else pure Json.nullText

theorem resolve_eq_valueText (t : Named σ) (args : Bindings (Arg σ)) :
    t.resolve args = valueText args t.defaults t.strict := by
  funext name
  unfold resolve valueText
  cases args.get? name with
  | some value => rfl
  | none => cases t.defaults.get? name <;> rfl

/-- A rendering fills the tokens of the template with what their names stand for. -/
theorem render_eq_fill {t : Named σ} (consistent : t.Consistent) (args : Bindings (Arg σ)) :
    t.render args = fill (t.resolve args) t.tokens :=
  (fill_eq_assemble consistent.positional_notMem _).symm

/-- Templates with the same tokens render alike if the names that occur stand for the same. -/
theorem render_congr {t u : Named σ} {a b : Bindings (Arg σ)} (tokens : t.tokens = u.tokens)
    (same : ∀ name ∈ Token.occurrences t.tokens, t.resolve a name = u.resolve b name) :
    t.render a = u.render b := by
  rw [render, render, encodeArgs, encodeArgs, ← tokens, Eval.mapM_congr same]
  simp only [Token.octets_write]

end Stencil.Named
