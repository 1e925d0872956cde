/-!
# Bindings

Finite maps from names to values, held as entries in strictly increasing order of name. Names are
ordered by code point, which is also the order of their UTF-8 forms.

`ext_get?` says that a map is determined by what it binds, so the order in which entries were
inserted leaves no trace.
-/

namespace Stencil

/-- A map from names to values. -/
@[ext]
structure Bindings (α : Type) where
  entries : List (String × α)
  sorted : entries.Pairwise (fun a b => a.1 < b.1)

namespace Bindings

variable {α β : Type}

/-- The map that binds nothing. -/
def empty : Bindings α := ⟨[], .nil⟩

instance : Inhabited (Bindings α) := ⟨empty⟩

/-- Puts an entry at its place among sorted entries, over any entry of the same name. -/
def insertEntry (name : String) (value : α) : List (String × α) → List (String × α)
  | [] => [(name, value)]
  | (other, old) :: rest =>
    if name < other then (name, value) :: (other, old) :: rest
    else if name = other then (name, value) :: rest
    else (other, old) :: insertEntry name value rest

/-- The value of a name in a list of entries. -/
def lookupEntry (name : String) : List (String × α) → Option α
  | [] => none
  | (other, value) :: rest => if name = other then some value else lookupEntry name rest

theorem lt_of_mem_insertEntry {bound name : String} {value : α} {entries : List (String × α)}
    (hname : bound < name) (hentries : ∀ e ∈ entries, bound < e.1) :
    ∀ e ∈ insertEntry name value entries, bound < e.1 := by
  induction entries with
  | nil => simpa [insertEntry] using hname
  | cons head rest ih =>
    obtain ⟨hhead, hrest⟩ := List.forall_mem_cons.1 hentries
    unfold insertEntry
    split
    · exact List.forall_mem_cons.2 ⟨hname, hentries⟩
    · split
      · exact List.forall_mem_cons.2 ⟨hname, hrest⟩
      · exact List.forall_mem_cons.2 ⟨hhead, ih hrest⟩

theorem pairwise_insertEntry {name : String} {value : α} {entries : List (String × α)}
    (sorted : entries.Pairwise (fun a b => a.1 < b.1)) :
    (insertEntry name value entries).Pairwise (fun a b => a.1 < b.1) := by
  induction entries with
  | nil => simp [insertEntry]
  | cons head rest ih =>
    obtain ⟨above, sortedRest⟩ := List.pairwise_cons.1 sorted
    unfold insertEntry
    split
    · rename_i before
      refine List.pairwise_cons.2 ⟨List.forall_mem_cons.2 ⟨before, ?_⟩, sorted⟩
      exact fun e he => String.lt_trans before (above e he)
    · split
      · rename_i same
        subst same
        exact List.pairwise_cons.2 ⟨above, sortedRest⟩
      · rename_i notBefore different
        have after : head.1 < name :=
          Classical.byContradiction fun notAfter =>
            different (String.le_antisymm (String.not_lt.1 notAfter) (String.not_lt.1 notBefore))
        exact List.pairwise_cons.2 ⟨lt_of_mem_insertEntry after above, ih sortedRest⟩

/-- Binds a name to a value, over any earlier binding of the name. -/
def insert (m : Bindings α) (name : String) (value : α) : Bindings α :=
  ⟨insertEntry name value m.entries, pairwise_insertEntry m.sorted⟩

/-- The value of a name, if it is bound. -/
def get? (m : Bindings α) (name : String) : Option α := lookupEntry name m.entries

/-- Whether a name is bound. -/
def contains (m : Bindings α) (name : String) : Bool := (m.get? name).isSome

/-- The bound names, in order. -/
def names (m : Bindings α) : List String := m.entries.map Prod.fst

/-- Binds every name of a list of entries in turn, so that the last entry of a name holds. -/
def insertAll (m : Bindings α) (entries : List (String × α)) : Bindings α :=
  entries.foldl (fun m e => m.insert e.1 e.2) m

/-- The map of a list of entries, the last of which holds for its name. -/
def ofList (entries : List (String × α)) : Bindings α := empty.insertAll entries

/-- The bindings of `m`, and those of `base` for the names that `m` does not bind. -/
def override (m base : Bindings α) : Bindings α := base.insertAll m.entries

/-- The bindings whose name passes a test. -/
def filterNames (m : Bindings α) (keep : String → Bool) : Bindings α :=
  ⟨m.entries.filter (fun e => keep e.1), m.sorted.sublist List.filter_sublist⟩

/-- A name that has been inserted stands for the new value, and any other for what it stood for
before. -/
theorem lookupEntry_insertEntry (name other : String) (value : α) (entries : List (String × α)) :
    lookupEntry other (insertEntry name value entries) =
      if other = name then some value else lookupEntry other entries := by
  induction entries with
  | nil => simp [insertEntry, lookupEntry]
  | cons head rest ih =>
    unfold insertEntry
    split
    · simp [lookupEntry]
    · split
      · rename_i same
        subst same
        simp only [lookupEntry]
        split <;> rfl
      · rename_i different
        simp only [lookupEntry, ih]
        split
        · rename_i found
          subst found
          simp [Ne.symm different]
        · rfl

@[simp] theorem get?_empty (name : String) : (empty : Bindings α).get? name = none := rfl

@[simp] theorem get?_insert (m : Bindings α) (name other : String) (value : α) :
    (m.insert name value).get? other = if other = name then some value else m.get? other :=
  lookupEntry_insertEntry name other value m.entries

theorem lookupEntry_eq_none_of_lt {name : String} {entries : List (String × α)}
    (below : ∀ e ∈ entries, name < e.1) : lookupEntry name entries = none := by
  induction entries with
  | nil => rfl
  | cons head rest ih =>
    obtain ⟨belowHead, belowRest⟩ := List.forall_mem_cons.1 below
    have different : name ≠ head.1 := fun same => String.lt_irrefl _ (same ▸ belowHead)
    simp [lookupEntry, different, ih belowRest]

/-- Sorted entries are determined by what their names stand for, so maps that bind all names alike
are equal. -/
theorem eq_of_lookupEntry_eq {as bs : List (String × α)}
    (sortedAs : as.Pairwise (fun a b => a.1 < b.1)) (sortedBs : bs.Pairwise (fun a b => a.1 < b.1))
    (same : ∀ name, lookupEntry name as = lookupEntry name bs) : as = bs := by
  induction as generalizing bs with
  | nil =>
    cases bs with
    | nil => rfl
    | cons b bs => simpa [lookupEntry] using same b.1
  | cons a as ih =>
    cases bs with
    | nil => simpa [lookupEntry] using same a.1
    | cons b bs =>
      obtain ⟨aboveA, sortedRestA⟩ := List.pairwise_cons.1 sortedAs
      obtain ⟨aboveB, sortedRestB⟩ := List.pairwise_cons.1 sortedBs
      have absentIn {x : String × α} {xs : List (String × α)} {name : String}
          (above : ∀ e ∈ xs, x.1 < e.1) (below : name < x.1) :
          lookupEntry name (x :: xs) = none :=
        lookupEntry_eq_none_of_lt
          (List.forall_mem_cons.2 ⟨below, fun e he => String.lt_trans below (above e he)⟩)
      have names : a.1 = b.1 := by
        apply String.le_antisymm
        · refine String.not_lt.1 fun h => ?_
          have := same b.1
          rw [absentIn aboveA h] at this
          simp [lookupEntry] at this
        · refine String.not_lt.1 fun h => ?_
          have := same a.1
          rw [absentIn aboveB h] at this
          simp [lookupEntry] at this
      have values : a.2 = b.2 := by
        have := same a.1
        simpa [lookupEntry, names] using this
      have heads : a = b := Prod.ext names values
      subst heads
      congr 1
      refine ih sortedRestA sortedRestB fun name => ?_
      by_cases h : name = a.1
      · subst h
        rw [lookupEntry_eq_none_of_lt aboveA, lookupEntry_eq_none_of_lt aboveB]
      · have := same name
        simpa [lookupEntry, h] using this

/-- Maps that bind the same names to the same values are equal. -/
theorem ext_get? {a b : Bindings α} (same : ∀ name, a.get? name = b.get? name) : a = b :=
  Bindings.ext (eq_of_lookupEntry_eq a.sorted b.sorted same)

end Bindings

end Stencil
