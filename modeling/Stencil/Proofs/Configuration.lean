import Stencil.Proofs.Evaluation
import Stencil.Settings

/-!
# Options in a row

What applying a list of options comes to: `fails_applyAll_iff` says which option is to blame if it
fails, `run_applyAll_of_fails` that no later one matters, and `run_applyAll_of_isBuiltIn` that only
custom options can call providers.
-/

namespace Stencil.TemplateOption

variable {σ : Type}

/-- Whether what an option does is given by the library and not by the owner of the option. -/
def isBuiltIn : TemplateOption σ → Bool
  | custom _ => false
  | _ => true

@[simp] theorem applyAll_nil : applyAll ([] : List (TemplateOption σ)) = pure () := rfl

@[simp] theorem applyAll_cons (option : TemplateOption σ) (options : List (TemplateOption σ)) :
    applyAll (option :: options) = option.apply >>= fun _ => applyAll options := rfl

theorem applyAll_append (before after : List (TemplateOption σ)) :
    applyAll (before ++ after) = applyAll before >>= fun _ => applyAll after := by
  induction before with
  | nil => simp
  | cons option before ih => simp [ih]

/-- Options fail with the failure of the first that fails, in the settings that those before it have
made. -/
theorem fails_applyAll_iff {options : List (TemplateOption σ)} {start : Settings σ × σ}
    {e : Error} : (applyAll options).Fails start e ↔
      ∃ before option after mid, options = before ++ option :: after ∧
        (applyAll before).Yields start () mid ∧ option.apply.Fails mid e := by
  induction options generalizing start with
  | nil => simp
  | cons option options ih =>
    rw [applyAll_cons, Eval.fails_bind_iff]
    constructor
    · rintro (h | ⟨_, mid, hoption, h⟩)
      · exact ⟨[], option, options, start, rfl, by simp, h⟩
      · obtain ⟨before, other, after, last, rfl, hbefore, hother⟩ := ih.1 h
        refine ⟨option :: before, other, after, last, rfl, ?_, hother⟩
        exact Eval.yields_bind_iff.2 ⟨(), mid, hoption, hbefore⟩
    · rintro ⟨before, other, after, last, split, hbefore, hother⟩
      cases before with
      | nil =>
        obtain ⟨rfl, rfl⟩ := List.cons.inj split
        obtain ⟨-, rfl⟩ := Eval.yields_pure_iff.1 hbefore
        exact .inl hother
      | cons first before =>
        obtain ⟨rfl, rfl⟩ := List.cons.inj split
        obtain ⟨_, mid, hoption, hrest⟩ := Eval.yields_bind_iff.1 hbefore
        exact .inr ⟨(), mid, hoption, ih.2 ⟨before, other, after, last, rfl, hrest, hother⟩⟩

/-- Where an option fails there is the end, whatever options come behind it. -/
theorem run_applyAll_of_fails {before after : List (TemplateOption σ)} {option : TemplateOption σ}
    {start mid last : Settings σ × σ} {calls further : List Call} {e : Error}
    (hbefore : (applyAll before).run start = ⟨.ok (), calls, mid⟩)
    (hoption : option.apply.run mid = ⟨.error e, further, last⟩) :
    (applyAll (before ++ option :: after)).run start = ⟨.error e, calls ++ further, last⟩ := by
  rw [applyAll_append, Eval.run_bind, hbefore]
  simp only [applyAll_cons, Eval.run_bind, hoption]

/-- A change is made if the target has the setting, and else is refused. -/
theorem run_change (option : TemplateOption σ) (capability : Capability)
    (f : Settings σ → Option (Settings σ)) (s : Settings σ) (state : σ) :
    (option.change capability f).run (s, state) =
      ⟨if (f s).isSome then .ok () else .error (.unsupportedOption option.name capability), [],
        (f s).getD s, state⟩ := by
  simp only [TemplateOption.change, Eval.run]
  cases f s <;> rfl

/-- An option of the library changes settings, if it can, and does nothing else. -/
theorem exists_apply_eq_change {option : TemplateOption σ} (builtIn : option.isBuiltIn = true) :
    ∃ capability f, option.apply = option.change capability f := by
  cases option with
  | validate on => exact ⟨.validation, (·.setValidate? on), rfl⟩
  | strict on => exact ⟨.strictness, (·.setStrict? on), rfl⟩
  | defaultArgValue name value => exact ⟨.defaults, (·.setDefaults? [(name, value)]), rfl⟩
  | defaultArgValues values => exact ⟨.defaults, (·.setDefaults? values.entries), rfl⟩
  | custom action => cases builtIn

/-- Options of the library make no calls and leave the states of providers alone. They fail only
because of a capability that the target lacks. -/
theorem run_applyAll_of_isBuiltIn {options : List (TemplateOption σ)}
    (builtIn : ∀ option ∈ options, option.isBuiltIn = true) (s : Settings σ) (state : σ) :
    ∃ r s', (applyAll options).run (s, state) = ⟨r, [], s', state⟩ ∧
      ∀ e, r = .error e → ∃ name capability, e = .unsupportedOption name capability := by
  induction options generalizing s with
  | nil => exact ⟨_, _, rfl, nofun⟩
  | cons option options ih =>
    obtain ⟨first, rest⟩ := List.forall_mem_cons.1 builtIn
    obtain ⟨capability, f, hoption⟩ := exists_apply_eq_change first
    rw [applyAll_cons, hoption, Eval.run_bind, run_change]
    cases f s with
    | none =>
      refine ⟨_, _, rfl, ?_⟩
      rintro _ ⟨⟩
      exact ⟨_, _, rfl⟩
    | some mid =>
      obtain ⟨r, last, hrest, unsupported⟩ := ih rest mid
      refine ⟨r, last, ?_, unsupported⟩
      simp [hrest]

end Stencil.TemplateOption
