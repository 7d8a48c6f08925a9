/-! Tables from names to values, kept in the order of their names. Inserting a name again
replaces its value. -/
namespace Interop

abbrev Table (α : Type) := List (String × α)

namespace Table

variable {α : Type}

def insert (table : Table α) (name : String) (value : α) : Table α :=
  match table with
  | [] => [(name, value)]
  | entry :: rest =>
    if entry.1 = name then (name, value) :: rest
    else if name < entry.1 then (name, value) :: entry :: rest
    else entry :: insert rest name value

def ofEntries (entries : List (String × α)) : Table α :=
  entries.foldl (fun table entry => table.insert entry.1 entry.2) []

theorem mem_of_lookup {table : Table α} {name : String} {value : α}
    (entry : table.lookup name = some value) : (name, value) ∈ table := by
  obtain ⟨early, late, rfl, -⟩ := List.lookup_eq_some_iff.mp entry
  exact List.mem_append_right _ List.mem_cons_self

theorem lookup_insert_self (table : Table α) (name : String) (value : α) :
    (table.insert name value).lookup name = some value := by
  induction table with
  | nil => simp [insert]
  | cons entry rest ih =>
    obtain ⟨key, old⟩ := entry
    unfold insert
    split
    · simp
    · split
      · simp
      · next different _ =>
        have distinct : (name == key) = false := by simpa using Ne.symm different
        simp [List.lookup_cons, distinct, ih]

theorem lookup_insert_other (table : Table α) (name other : String) (value : α)
    (h : other ≠ name) : (table.insert name value).lookup other = table.lookup other := by
  have distinct : (other == name) = false := by simpa using h
  induction table with
  | nil => simp [insert, List.lookup_cons, distinct]
  | cons entry rest ih =>
    obtain ⟨key, old⟩ := entry
    unfold insert
    split
    · next same =>
      simp only at same
      subst same
      simp [List.lookup_cons, distinct]
    · split
      · simp [List.lookup_cons, distinct]
      · simp [List.lookup_cons, ih]

theorem insert_cons (entry : String × α) (rest : Table α) (name : String) (value : α) :
    insert (entry :: rest) name value =
      if entry.1 = name then (name, value) :: rest
      else if name < entry.1 then (name, value) :: entry :: rest
      else entry :: insert rest name value := rfl

theorem insert_comm_of_lt (table : Table α) {name other : String} (value value' : α) (less : name < other) :
    (table.insert name value).insert other value' = (table.insert other value').insert name value := by
  have different : name ≠ other := fun same => String.lt_irrefl other (same ▸ less)
  have later : ¬ other < name := String.lt_asymm less
  have first (rest : Table α) : insert ((name, value) :: rest) other value' =
      (name, value) :: rest.insert other value' := by
    simp only [insert_cons, different, later, if_false]
  induction table with
  | nil => simp [insert, less, later, different, Ne.symm different]
  | cons entry rest ih =>
    by_cases same : entry.1 = name
    · simp only [insert_cons, same, different, later, if_true, if_false]
    · by_cases before : name < entry.1
      · simp only [insert_cons entry rest name, same, before, if_true, if_false, first]
        simp only [insert_cons]
        split
        · simp [insert_cons, less, Ne.symm different]
        · split <;> simp [insert_cons, less, before, same, Ne.symm different]
      · have past : ¬ other < entry.1 := fun reached => before (String.lt_trans less reached)
        have distinct : entry.1 ≠ other := fun reached => before (reached ▸ less)
        simp only [insert_cons, same, before, past, distinct, if_false, ih]

theorem insert_comm (table : Table α) {name other : String} (value value' : α) (different : name ≠ other) :
    (table.insert name value).insert other value' = (table.insert other value').insert name value := by
  by_cases less : name < other
  · exact insert_comm_of_lt table value value' less
  · have greater : other < name := by
      rcases Std.lt_trichotomy name other with a | b | c
      · exact absurd a less
      · exact absurd b different
      · exact c
    exact (insert_comm_of_lt table value' value greater).symm

/-- Entries make the same table in any order, if those of one name are the same. -/
theorem ofEntries_perm {entries entries' : List (String × α)} (perm : entries.Perm entries')
    (agree : ∀ entry ∈ entries, ∀ entry' ∈ entries, entry.1 = entry'.1 → entry = entry') :
    ofEntries entries = ofEntries entries' := by
  refine perm.foldl_eq' (fun entry member entry' member' table => ?_) []
  by_cases same : entry.1 = entry'.1
  · rw [agree entry member entry' member' same]
  · exact insert_comm table entry.2 entry'.2 same

/-- The last entry of a name is the one in the table. -/
theorem lookup_ofEntries (entries : List (String × α)) (name : String) :
    (ofEntries entries).lookup name = entries.reverse.lookup name := by
  rw [ofEntries, ← List.foldr_reverse]
  induction entries.reverse with
  | nil => rfl
  | cons entry early ih =>
    rw [List.foldr_cons]
    by_cases same : name = entry.1
    · subst same
      rw [lookup_insert_self, List.lookup_cons_self]
    · have distinct : (name == entry.1) = false := by simpa using same
      rw [lookup_insert_other _ _ _ _ same, ih, List.lookup_cons, distinct]

theorem lookup_ofEntries_eq_some_iff {entries : List (String × α)} (distinct : (entries.map Prod.fst).Nodup)
    {name : String} {value : α} :
    (ofEntries entries).lookup name = some value ↔ (name, value) ∈ entries := by
  rw [lookup_ofEntries, ← List.mem_reverse]
  refine ⟨mem_of_lookup, fun member => ?_⟩
  obtain ⟨late, early, same⟩ := List.append_of_mem member
  have other : ((late ++ (name, value) :: early).map Prod.fst).Nodup := by
    rw [← same, List.map_reverse]
    exact List.pairwise_reverse.mpr (distinct.imp Ne.symm)
  rw [List.map_append, List.nodup_append] at other
  refine List.lookup_eq_some_iff.mpr ⟨late, early, same, fun entry listed => ?_⟩
  exact bne_iff_ne.mpr (other.2.2 _ (List.mem_map_of_mem listed) _ List.mem_cons_self).symm

end Table

end Interop
