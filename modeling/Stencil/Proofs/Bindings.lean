import Mathlib.Data.List.Nodup
import Stencil.Bindings

/-!
# Looking up derived bindings

What a name is bound to after several insertions, after overriding and after restriction.
-/

namespace Stencil.Bindings

variable {α : Type}

@[simp] theorem insertAll_nil (m : Bindings α) : m.insertAll [] = m := rfl

@[simp] theorem insertAll_cons (m : Bindings α) (e : String × α) (entries : List (String × α)) :
    m.insertAll (e :: entries) = (m.insert e.1 e.2).insertAll entries := rfl

theorem contains_iff {m : Bindings α} {name : String} :
    m.contains name = true ↔ ∃ value, m.get? name = some value :=
  Option.isSome_iff_exists

theorem contains_eq_false_iff {m : Bindings α} {name : String} :
    m.contains name = false ↔ m.get? name = none := by
  unfold contains
  cases m.get? name <;> simp

/-- Entries in strictly increasing order of name hold for their names over what was bound. -/
theorem get?_insertAll_of_sorted (m : Bindings α) {entries : List (String × α)}
    (sorted : entries.Pairwise (fun a b => a.1 < b.1)) (name : String) :
    (m.insertAll entries).get? name = (lookupEntry name entries).or (m.get? name) := by
  induction entries generalizing m with
  | nil => rfl
  | cons e entries ih =>
    obtain ⟨above, sortedRest⟩ := List.pairwise_cons.1 sorted
    rw [insertAll_cons, ih _ sortedRest, get?_insert, lookupEntry]
    by_cases same : name = e.1
    · subst same
      simp [lookupEntry_eq_none_of_lt above]
    · simp [same]

/-- A name has the value from the map in front, or else the one from the base. -/
theorem get?_override (m base : Bindings α) (name : String) :
    (m.override base).get? name = (m.get? name).or (base.get? name) :=
  get?_insertAll_of_sorted base m.sorted name

/-- Entries whose values are a function of their names may repeat a name. -/
theorem get?_insertAll_map (m : Bindings α) (f : String → α) (names : List String)
    (name : String) : (m.insertAll (names.map fun n => (n, f n))).get? name =
      if name ∈ names then some (f name) else m.get? name := by
  induction names generalizing m with
  | nil => simp
  | cons n names ih =>
    rw [List.map_cons, insertAll_cons, ih, get?_insert]
    by_cases same : name = n
    · subst same
      simp
    · simp [same]

theorem get?_ofList_map (f : String → α) (names : List String) (name : String) :
    (ofList (names.map fun n => (n, f n))).get? name =
      if name ∈ names then some (f name) else none :=
  get?_insertAll_map empty f names name

theorem lookupEntry_filter (keep : String → Bool) (entries : List (String × α)) (name : String) :
    lookupEntry name (entries.filter fun e => keep e.1) =
      if keep name then lookupEntry name entries else none := by
  induction entries with
  | nil => simp [lookupEntry]
  | cons e entries ih =>
    by_cases same : name = e.1
    · subst same
      cases hkeep : keep e.1 <;> simp_all [lookupEntry]
    · cases hkeep : keep e.1 <;> simp_all [lookupEntry]

theorem get?_filterNames (m : Bindings α) (keep : String → Bool) (name : String) :
    (m.filterNames keep).get? name = if keep name then m.get? name else none :=
  lookupEntry_filter keep m.entries name

/-- Different names can be bound in either order. -/
theorem insert_comm (m : Bindings α) {a b : String} (different : a ≠ b) (x y : α) :
    (m.insert a x).insert b y = (m.insert b y).insert a x := by
  apply ext_get?
  intro name
  simp only [get?_insert]
  by_cases isA : name = a
  · simp [isA, different]
  · simp [isA]

/-- Entries that have a name each may be inserted in any order. -/
theorem insertAll_eq_of_perm (m : Bindings α) {values : Bindings α} {visited : List (String × α)}
    (perm : visited.Perm values.entries) : m.insertAll visited = m.insertAll values.entries := by
  have names : (values.entries.map Prod.fst).Nodup := by
    refine List.pairwise_map.2 (values.sorted.imp ?_)
    intro d e before same
    exact String.lt_irrefl _ (same ▸ before)
  apply perm.foldl_eq'
  intro d hd e he m
  by_cases same : d.1 = e.1
  · have entry : d = e :=
      List.inj_on_of_nodup_map names (perm.mem_iff.1 hd) (perm.mem_iff.1 he) same
    rw [entry]
  · exact insert_comm m same d.2 e.2

end Stencil.Bindings
