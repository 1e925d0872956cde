import Mathlib
import Stencil.Proofs.Json.Slots
import Stencil.Proofs.Named.Reachable
import Stencil.Proofs.Positional.Reachable

/-!
# Checked templates

A template that passed the check at construction makes JSON of nulls. If none of these nulls lies
inside a string, then the template makes JSON of all arguments whose texts are JSON, and so does
every template that is made from it by filling placeholders with such arguments.
-/

namespace Stencil

open Json Ascii

variable {σ : Type}

theorem accepts_of_mapError {bytes : Bytes} {f : Json.Error → Error}
    (h : (check bytes).mapError f = .ok ()) : Accepts bytes := by
  unfold Accepts
  cases hcheck : check bytes with
  | ok _ => rfl
  | error fault =>
    rw [hcheck] at h
    cases h

/-! ## Positional templates -/

namespace Positional

/-- The check gives each placeholder one null, so that all of them are filled. -/
theorem checkJson_eq {t : Positional} (consistent : t.Consistent) :
    t.checkJson (σ := σ) = .ofExcept ((check (nullFilled t.tokens)).mapError .validation) := by
  have arity : t.accepts (List.replicate t.argsCount (Arg.null : Arg σ)).length = true := by
    rw [accepts_iff, List.length_replicate]
    exact ⟨Nat.le_refl _, fun _ => rfl⟩
  have nulls : (List.replicate t.argsCount (Arg.null : Arg σ)).mapM Arg.encode =
      pure (List.replicate t.argsCount nullText) := by
    rw [Eval.mapM_eq_replicate, List.length_replicate]
    intro arg harg
    rw [List.eq_of_mem_replicate harg]
    exact Arg.encodeAs_null ""
  rw [checkJson, render, if_pos arity, encodeArgs, nulls]
  simp only [pure_bind, List.length_replicate, Nat.sub_self, List.replicate_zero,
    List.append_nil]
  rw [consistent.argsCount_eq]
  rfl

/-- The check of a template is a check of its text with nulls. -/
theorem accepts_of_checkJson {t : Positional} (consistent : t.Consistent) {state last : σ}
    (h : t.checkJson.Yields state () last) : Accepts (nullFilled t.tokens) := by
  rw [checkJson_eq consistent, Eval.yields_ofExcept_iff] at h
  exact accepts_of_mapError h.1

/-- The second template comes from the first by filling placeholders with arguments whose texts are
complete JSON. -/
inductive Specialized (σ : Type) (t : Positional) : Positional → Prop where
  | refl : Specialized σ t t
  | specialize {u v : Positional} {args : List (Arg σ)} {state last : σ} : Specialized σ t u →
    Eval.EachYields Accepts (args.map Arg.encode) state →
    (u.specialize args).Yields state v last → Specialized σ t v

theorem filled_bindArgs {ts us : List Token} {args : List (Arg σ)} {state last : σ}
    (h : (bindArgs ts args).Yields state us last)
    (each : Eval.EachYields Accepts (args.map Arg.encode) state) : Filled ts us := by
  fun_induction bindArgs ts args generalizing us state with
  | case1 =>
    obtain ⟨rfl, -⟩ := Eval.yields_pure_iff.1 h
    exact .nil
  | case2 bytes ts args ih =>
    obtain ⟨rest, hrest, rfl⟩ := Eval.yields_bind_pure_iff.1 h
    exact .keep _ (ih hrest each)
  | case3 t ts notFixed ih =>
    obtain ⟨rest, hrest, rfl⟩ := Eval.yields_bind_pure_iff.1 h
    exact .keep _ (ih hrest each)
  | case4 t ts arg args notFixed ih =>
    rw [Eval.yields_bind_iff] at h
    obtain ⟨bytes, mid, hbytes, h⟩ := h
    obtain ⟨rest, hrest, rfl⟩ := Eval.yields_bind_pure_iff.1 h
    obtain ⟨bytes', mid', hbytes', accepted, each⟩ := each
    obtain ⟨rfl, rfl⟩ := hbytes.unique hbytes'
    exact .fill (Token.isFixed_eq_false notFixed) accepted (ih hrest each)

/-- What every template made in this way from a checked one has. -/
theorem Specialized.fits {t u : Positional} (consistent : t.Consistent)
    (fits : Fits Reading.start t.tokens) (h : Specialized σ t u) :
    u.Consistent ∧ Fits Reading.start u.tokens := by
  induction h with
  | refl => exact ⟨consistent, fits⟩
  | specialize _ each hyields ih =>
    obtain ⟨-, tokens, htokens, rfl⟩ := specialize_yields hyields
    refine ⟨consistent_ofTokens _ _ _, ?_⟩
    exact (fits_merge Reading.start tokens).2 (ih.2.filled (filled_bindArgs htokens each))

/-- Where a value is due at every placeholder, arguments with complete texts make a complete text.
-/
theorem accepts_render {t : Positional} (consistent : t.Consistent)
    (fits : Fits Reading.start t.tokens) {args : List (Arg σ)} (arity : t.accepts args.length)
    {state : σ} (each : Eval.EachYields Accepts (args.map Arg.encode) state) :
    ∃ bytes last, (t.render args).Yields state bytes last ∧ Accepts bytes := by
  obtain ⟨encoded, last, hencoded, length, accepted⟩ := each.mapM
  let padding := List.replicate (t.argsCount - encoded.length) nullText
  refine ⟨Token.assemble t.tokens (encoded ++ padding), last, ?_, ?_⟩
  · unfold render encodeArgs
    rw [if_pos arity, Eval.yields_bind_pure_iff]
    exact ⟨_, Eval.yields_bind_pure_iff.2 ⟨encoded, hencoded, rfl⟩, rfl⟩
  · apply fits.accepts_assemble
    · have enough := (accepts_iff.1 arity).1
      rw [List.length_append, List.length_replicate, ← consistent.argsCount_eq, length]
      omega
    · intro bytes mem
      rcases List.mem_append.1 mem with mem | mem
      · exact accepted bytes mem
      · rw [List.eq_of_mem_replicate mem]
        exact accepts_nullText

end Positional

/-! ## Named templates -/

namespace Named

/-- The check gives each name a null, which holds over any default. -/
theorem checkJson_eq {t : Named σ} (consistent : t.Consistent) :
    t.checkJson = .ofExcept ((check (nullFilled t.tokens)).mapError .validation) := by
  have nulls : (Token.occurrences t.tokens).mapM
      (t.resolve (.ofList (t.names.map fun name => (name, .null)))) =
        pure (List.replicate (Token.argCount t.tokens) nullText) := by
    rw [Eval.mapM_eq_replicate,
      Token.argCount_eq_length_occurrences consistent.positional_notMem]
    intro name mem
    rw [resolve, Bindings.get?_ofList_map (fun _ => Arg.null),
      if_pos (consistent.mem_names.2 mem)]
    exact Arg.encodeAs_null name
  rw [checkJson, render, encodeArgs, nulls]
  simp only [pure_bind]
  rfl

/-- The check of a template is a check of its text with nulls. -/
theorem accepts_of_checkJson {t : Named σ} (consistent : t.Consistent) {state last : σ}
    (h : t.checkJson.Yields state () last) : Accepts (nullFilled t.tokens) := by
  rw [checkJson_eq consistent, Eval.yields_ofExcept_iff] at h
  exact accepts_of_mapError h.1

/-- The second template comes from the first by binding names to arguments whose texts, wherever
they are filled in, are complete JSON. -/
inductive Specialized (t : Named σ) : Named σ → Prop where
  | refl : Specialized t t
  | specialize {u v : Named σ} {args : Bindings (Arg σ)} {state last : σ} : Specialized t u →
    Eval.EachYields Accepts (encodings args u.tokens) state →
    (u.specialize args).Yields state v last → Specialized t v

theorem Binds.filled {ts us : List Token} {args : Bindings (Arg σ)} {state last : σ}
    (h : Binds args state ts us last)
    (each : Eval.EachYields Accepts (encodings args ts) state) : Filled ts us := by
  induction h with
  | nil => exact .nil
  | keep unbound _ ih =>
    rw [encodings_cons_unbound unbound] at each
    exact .keep _ (ih each)
  | fill bound hvalue _ ih =>
    rw [encodings_cons_bound bound] at each
    obtain ⟨bytes, mid, hbytes, accepted, each⟩ := each
    obtain ⟨rfl, rfl⟩ := hvalue.unique hbytes
    exact .fill rfl accepted (ih each)

/-- Binding values with complete texts leaves a value due at every placeholder that remains. -/
theorem Specialized.fits {t u : Named σ} (consistent : t.Consistent)
    (fits : Fits Reading.start t.tokens) (h : Specialized t u) :
    u.Consistent ∧ Fits Reading.start u.tokens := by
  induction h with
  | refl => exact ⟨consistent, fits⟩
  | specialize _ each hyields ih =>
    obtain ⟨tokens, htokens, rfl⟩ := specialize_yields hyields
    have binds := binds_of_bindArgs_yields htokens
    have named := binds.positional_notMem ih.1.positional_notMem
    refine ⟨consistent_ofTokens (positional_notMem_merge named) _ _ _, ?_⟩
    exact (fits_merge Reading.start tokens).2 (ih.2.filled (binds.filled each))

/-- Where a value is due at every placeholder and each name is bound, values with complete texts
make a complete text. -/
theorem accepts_render {t : Named σ} (consistent : t.Consistent)
    (fits : Fits Reading.start t.tokens) {args : Bindings (Arg σ)}
    (covered : ∀ name ∈ t.names, args.contains name = true) {state : σ}
    (each : Eval.EachYields Accepts (encodings args t.tokens) state) :
    ∃ bytes last, (t.render args).Yields state bytes last ∧ Accepts bytes := by
  have supplied : encodings args t.tokens = (Token.occurrences t.tokens).map (t.resolve args) := by
    unfold encodings
    rw [List.filterMap_eq_map_iff_forall_eq_some]
    intro name mem
    obtain ⟨value, hvalue⟩ := Bindings.contains_iff.1 (covered name (consistent.mem_names.2 mem))
    simp only [hvalue, resolve, Option.map_some]
  rw [supplied] at each
  obtain ⟨encoded, last, hencoded, length, accepted⟩ := each.mapM
  refine ⟨Token.assemble t.tokens encoded, last, ?_, fits.accepts_assemble ?_ accepted⟩
  · exact Eval.yields_bind_pure_iff.2 ⟨encoded, hencoded, rfl⟩
  · rw [length, Token.argCount_eq_length_occurrences consistent.positional_notMem]

end Named

/-- A template that was checked at construction, with no null of the check inside a string, makes
JSON of JSON: for every number of arguments that it accepts, or for arguments to all its names, it
can be rendered and the output is accepted if the texts of the arguments are. So does every
template that is made from it by filling placeholders with such arguments. -/
theorem accepts_render_of_checked :
    (∀ (text : String) (options : List (TemplateOption σ)) (state last : σ) (t : Positional),
      (Positional.compile text options).Yields state t last → t.validate = true →
      NullsOutsideStrings t.tokens →
      ∀ u, Positional.Specialized σ t u →
      ∀ (args : List (Arg σ)) (now : σ), u.accepts args.length = true →
        Eval.EachYields Accepts (args.map Arg.encode) now →
        ∃ bytes, ((u.render args).run now).result = .ok bytes ∧ Accepts bytes) ∧
    (∀ (text : String) (options : List (TemplateOption σ)) (state last : σ) (t : Named σ),
      (Named.compile text options).Yields state t last → t.validate = true →
      NullsOutsideStrings t.tokens →
      ∀ u, Named.Specialized t u →
      ∀ (args : Bindings (Arg σ)) (now : σ), (∀ name ∈ u.names, args.contains name = true) →
        Eval.EachYields Accepts (Named.encodings args u.tokens) now →
        ∃ bytes, ((u.render args).run now).result = .ok bytes ∧ Accepts bytes) := by
  constructor
  · intro text options state last t compiled checked outside u made args now arity each
    have consistent : t.Consistent := (Positional.Reachable.compile compiled).consistent
    obtain ⟨-, -, -, -, -, hcheck⟩ := Positional.compile_yields compiled
    obtain ⟨mid, hcheck⟩ := hcheck checked
    have fits := fits_start_iff.2 ⟨Positional.accepts_of_checkJson consistent hcheck, outside⟩
    obtain ⟨consistent, fits⟩ := made.fits consistent fits
    obtain ⟨bytes, _, hrender, accepted⟩ := Positional.accepts_render consistent fits arity each
    exact ⟨bytes, hrender.result_eq, accepted⟩
  · intro text options state last t compiled checked outside u made args now covered each
    have consistent : t.Consistent := (Named.Reachable.compile compiled).consistent
    obtain ⟨-, -, -, -, -, -, hcheck⟩ := Named.compile_yields compiled
    obtain ⟨mid, hcheck⟩ := hcheck checked
    have fits := fits_start_iff.2 ⟨Named.accepts_of_checkJson consistent hcheck, outside⟩
    obtain ⟨consistent, fits⟩ := made.fits consistent fits
    obtain ⟨bytes, _, hrender, accepted⟩ := Named.accepts_render consistent fits covered each
    exact ⟨bytes, hrender.result_eq, accepted⟩

/-- The number `-0` fits behind a value with blanks around it, and in a named place of a list. -/
theorem accepts_render_lists :
    let t := Positional.ofTokens
      [.fixed [openBracket], .positional, .fixed [comma], .positional, .fixed [closeBracket]]
      true true
    let u := Positional.ofTokens
      [.fixed [openBracket, space, zero, space, comma], .positional, .fixed [closeBracket]]
      true true
    let v : Named Unit := Named.ofTokens
      [.fixed [openBracket], .named "a", .fixed [closeBracket]] .empty true true
    let args : Bindings (Arg Unit) := .ofList [("a", .raw [minus, zero])]
    (Positional.compile "[?,?]" [.validate true]).Yields () t () ∧
      (t.specialize [.raw [space, zero, space]]).Yields () u () ∧
      (Named.compile "[?a]" [.validate true]).Yields () v () ∧
      (∃ bytes, ((u.render [.raw [minus, zero]]).run ()).result = .ok bytes ∧ Accepts bytes) ∧
      ∃ bytes, ((v.render args).run ()).result = .ok bytes ∧ Accepts bytes := by
  intro t u v args
  have compiledT : (Positional.compile "[?,?]" [.validate true]).Yields () t () := ⟨[], by cbv⟩
  have compiledV : (Named.compile "[?a]" [.validate true]).Yields () v () := ⟨[], by cbv⟩
  have bound : (t.specialize [.raw [space, zero, space]]).Yields () u () := ⟨[], by cbv⟩
  have fitsT : Fits Reading.start t.tokens :=
    ⟨_, rfl, .inr ⟨rfl, by decide⟩, _, rfl, .inl rfl, _, rfl, rfl⟩
  have fitsV : Fits Reading.start v.tokens := ⟨_, rfl, .inr ⟨rfl, by decide⟩, _, rfl, rfl⟩
  have blanks : Accepts [space, zero, space] := accepts_iff.2 ⟨_, rfl, rfl⟩
  have number : Accepts [minus, zero] := accepts_iff.2 ⟨_, rfl, rfl⟩
  have each : ∀ bytes, Accepts bytes →
      Eval.EachYields Accepts ([Arg.raw bytes].map Arg.encode) () := by
    intro bytes accepted
    exact ⟨bytes, (), ⟨[], rfl⟩, accepted, trivial⟩
  have made : Positional.Specialized Unit t u := .specialize .refl (each _ blanks) bound
  refine ⟨compiledT, bound, compiledV, ?_, ?_⟩
  · exact accepts_render_of_checked.1 _ _ () () t compiledT rfl (fits_start_iff.1 fitsT).2
      u made _ () rfl (each _ number)
  · refine accepts_render_of_checked.2 _ _ () () v compiledV rfl (fits_start_iff.1 fitsV).2
      v .refl args () ?_ ⟨_, (), ⟨[], rfl⟩, number, trivial⟩
    decide

end Stencil
