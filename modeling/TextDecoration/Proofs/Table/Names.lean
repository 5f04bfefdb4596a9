import TextDecoration.Table

/-!
# Names of ordered tables

What the operations on tables do to the names, and that none of them makes a name occur twice.
Giving a value to a name that is there changes no name; giving one to a new name puts that name at
the end. Placing one table before an anchor of another keeps the names that the placed table does
not have. So with distinct names in both tables, the result has distinct names.
-/

namespace TextDecoration.Table

variable {α : Type}

/-- Tables with the same entries are the same table. The order of entries is a part of that. -/
theorem eq_of_entries_eq {table other : Table α} (same : table.entries = other.entries) :
    table = other := by
  cases table
  cases other
  exact congrArg Table.mk same

/-- The names of a table's entries are distinct. Tables that are made by the operations here all
have this property. -/
def Distinct (table : Table α) : Prop := table.names.Nodup

/-- A first entry's name comes before those of the later entries. -/
theorem names_cons (entry : String × α) (later : List (String × α)) :
    (⟨entry :: later⟩ : Table α).names = entry.1 :: (⟨later⟩ : Table α).names := rfl

/-- The table without entries has distinct names, so whatever is built from it has. -/
theorem distinct_empty : (empty : Table α).Distinct := List.nodup_nil

/-- Computing the value of a name that is there anew changes no name, and no place either. -/
theorem alterEntries_names {name : String} {value : Option α → α}
    {entries : List (String × α)} (present : name ∈ entries.map Prod.fst) :
    (alterEntries name value entries).map Prod.fst = entries.map Prod.fst := by
  induction entries with
  | nil => cases present
  | cons entry later inductionHypothesis =>
    obtain ⟨other, old⟩ := entry
    rw [alterEntries]
    split
    · rfl
    · next different =>
      have among : name ∈ later.map Prod.fst := by
        rcases List.mem_cons.mp present with same | among
        · exact absurd same.symm different
        · exact among
      rw [List.map_cons, List.map_cons, inductionHypothesis among]

/-- Computing the value of a name that is not there puts a new entry at the end, made from
nothing. -/
theorem alterEntries_absent {name : String} {value : Option α → α}
    {entries : List (String × α)} (absent : name ∉ entries.map Prod.fst) :
    alterEntries name value entries = entries ++ [(name, value none)] := by
  induction entries with
  | nil => rfl
  | cons entry later inductionHypothesis =>
    obtain ⟨other, old⟩ := entry
    rw [List.map_cons, List.mem_cons, not_or] at absent
    obtain ⟨different, further⟩ := absent
    rw [alterEntries, if_neg (Ne.symm different), inductionHypothesis further, List.cons_append]

/-- A value computed anew for a name keeps the names and adds that name at the end, if it was not
there. -/
theorem names_alter (table : Table α) (name : String) (value : Option α → α) :
    (table.alter name value).names =
      if name ∈ table.names then table.names else table.names ++ [name] := by
  split
  · next present => exact alterEntries_names present
  · next absent =>
    rw [names, alter, alterEntries_absent absent, List.map_append]
    rfl

/-- A value computed anew keeps the names distinct: a name is added only if it was not there. -/
theorem Distinct.alter {table : Table α} (distinct : table.Distinct) (name : String)
    (value : Option α → α) : (table.alter name value).Distinct := by
  rw [Distinct, names_alter]
  split
  · exact distinct
  · next absent =>
    refine List.nodup_append.mpr ⟨distinct, by simp, ?_⟩
    intro other member new among same
    rw [List.mem_singleton] at among
    exact absent (among ▸ same ▸ member)

/-- A value given to a name keeps the names distinct, whether the name was there or not. -/
theorem Distinct.put {table : Table α} (distinct : table.Distinct) (name : String) (value : α) :
    (table.put name value).Distinct := distinct.alter name fun _ => value

/-- Replacing the value under a name changes no name. A name that is not there is not added. -/
@[simp] theorem names_modify (table : Table α) (name : String) (image : α → α) :
    (table.modify name image).names = table.names := by
  rw [names, names, modify, List.map_map]
  apply List.map_congr_left
  intro entry _
  rw [Function.comp_apply]
  split <;> rfl

/-- Replacing the value under a name keeps the names distinct, as they are the same names. -/
theorem Distinct.modify {table : Table α} (distinct : table.Distinct) (name : String)
    (image : α → α) : (table.modify name image).Distinct := by
  rw [Distinct, names_modify]
  exact distinct

/-- Giving the entries of another table to a table keeps the names distinct, one entry after the
other. The other table's own names need not be distinct for this. -/
theorem Distinct.extend {table : Table α} (distinct : table.Distinct) (overrides : Table α) :
    (table.extend overrides).Distinct := by
  obtain ⟨entries⟩ := overrides
  rw [Table.extend]
  induction entries generalizing table with
  | nil => exact distinct
  | cons entry later inductionHypothesis => exact inductionHypothesis (distinct.put entry.1 entry.2)

/-- The entries of another table that has distinct names, none of them in the table, are appended
in their order. -/
theorem extend_entries {table overrides : Table α} (distinct : overrides.Distinct)
    (apart : ∀ name ∈ overrides.names, name ∉ table.names) :
    (table.extend overrides).entries = table.entries ++ overrides.entries := by
  obtain ⟨entries⟩ := overrides
  rw [Table.extend]
  induction entries generalizing table with
  | nil => exact (List.append_nil table.entries).symm
  | cons entry later inductionHypothesis =>
    obtain ⟨fresh, distinctLater⟩ := List.nodup_cons.mp distinct
    have absent : entry.1 ∉ table.entries.map Prod.fst := apart entry.1 List.mem_cons_self
    have put : (table.put entry.1 entry.2).entries = table.entries ++ [entry] := by
      rw [Table.put, alter, alterEntries_absent absent]
    have apartLater : ∀ name ∈ (⟨later⟩ : Table α).names,
        name ∉ (table.put entry.1 entry.2).names := by
      intro name member
      rw [names, put, List.map_append, List.mem_append, not_or]
      refine ⟨apart name (List.mem_cons_of_mem _ member), ?_⟩
      intro among
      exact fresh (List.mem_singleton.mp among ▸ member)
    rw [List.foldl_cons, inductionHypothesis distinctLater apartLater, put, List.append_assoc]
    rfl

/-- Whether a table has a name is whether the name is among its names. The test and the list say the
same. -/
theorem contains_iff {table : Table α} {name : String} :
    table.contains name = true ↔ name ∈ table.names := by
  rw [contains, List.contains_iff_mem]

/-- A table lacks a name if the name is not among its names, and only then. -/
theorem contains_eq_false_iff {table : Table α} {name : String} :
    table.contains name = false ↔ name ∉ table.names := by
  rw [← Bool.not_eq_true, contains_iff]

/-- The entries whose names another table does not have, in their order. These are what is left when
the other table is placed among them. -/
def without (added : Table α) (entries : List (String × α)) : List (String × α) :=
  entries.filter fun entry => !added.contains entry.1

/-- What is kept without another table's names has none of them, so placed entries meet no entry of
their own name. -/
theorem not_mem_of_mem_without {added : Table α} {entries : List (String × α)}
    {entry : String × α} (member : entry ∈ without added entries) : entry.1 ∉ added.names := by
  have kept := (List.mem_filter.mp member).2
  rw [Bool.not_eq_true', contains_eq_false_iff] at kept
  exact kept

/-- Among entries that are not the anchor, placing a table keeps those whose names it lacks. -/
theorem filter_off_anchor {added : Table α} {anchor : String} {entries : List (String × α)}
    (off : anchor ∉ entries.map Prod.fst) :
    (entries.filter fun entry => entry.1 == anchor || !added.contains entry.1) =
      without added entries := by
  apply List.filter_congr
  intro entry member
  have different : entry.1 ≠ anchor := by
    intro same
    exact off (List.mem_map.mpr ⟨entry, member, same⟩)
  rw [beq_eq_false_iff_ne.mpr different, Bool.false_or]

/-- Entries that are not the anchor are passed over in the search for it, from the first one on. -/
theorem ahead_of_anchor {anchor : String} {entries : List (String × α)}
    (off : anchor ∉ entries.map Prod.fst) :
    ∀ entry ∈ entries, (entry.1 != anchor) = true := by
  intro entry member
  rw [bne_iff_ne]
  intro same
  exact off (List.mem_map.mpr ⟨entry, member, same⟩)

/-- The names that are kept are among the names that were there. A name that was absent stays
absent. -/
theorem not_mem_without {added : Table α} {name : String} {entries : List (String × α)}
    (absent : name ∉ entries.map Prod.fst) : name ∉ (without added entries).map Prod.fst := by
  intro member
  obtain ⟨entry, kept, same⟩ := List.mem_map.mp member
  exact absent (List.mem_map.mpr ⟨entry, (List.mem_filter.mp kept).1, same⟩)

/-- Without the anchor, the placed table goes behind what is kept. Nothing is an error here. -/
theorem insertBefore_absent {table : Table α} {anchor : String} (added : Table α)
    (absent : anchor ∉ table.names) :
    (table.insertBefore anchor added).entries = without added table.entries ++ added.entries := by
  have passed : (without added table.entries).dropWhile (fun entry => entry.1 != anchor) = [] := by
    rw [← List.append_nil (without added table.entries),
      List.dropWhile_append_of_pos (ahead_of_anchor (not_mem_without absent)), List.dropWhile_nil]
  simp only [insertBefore, filter_off_anchor absent, passed]

/-- With the anchor, the placed table goes right before it, between what is kept of the entries
ahead of the anchor and behind it. The anchor's own entry stays unless the placed table has that
name. -/
theorem insertBefore_present {table : Table α} {anchor : String} {value : α} (added : Table α)
    {front back : List (String × α)} (parts : table.entries = front ++ (anchor, value) :: back)
    (before : anchor ∉ front.map Prod.fst) (after : anchor ∉ back.map Prod.fst) :
    (table.insertBefore anchor added).entries =
      without added front ++ added.entries ++
        ((if added.contains anchor then [] else [(anchor, value)]) ++ without added back) := by
  have kept : (table.entries.filter fun entry => entry.1 == anchor || !added.contains entry.1) =
      without added front ++ (anchor, value) :: without added back := by
    rw [parts, List.filter_append, List.filter_cons_of_pos (by simp), filter_off_anchor before,
      filter_off_anchor after]
  have passed : ∀ entry ∈ without added front, (entry.1 != anchor) = true :=
    ahead_of_anchor (not_mem_without before)
  have behind : (without added front ++ (anchor, value) :: without added back).dropWhile
      (fun entry => entry.1 != anchor) = (anchor, value) :: without added back := by
    rw [List.dropWhile_append_of_pos passed, List.dropWhile_cons_of_neg (by simp)]
  have ahead : (without added front ++ (anchor, value) :: without added back).takeWhile
      (fun entry => entry.1 != anchor) = without added front := by
    rw [List.takeWhile_append_of_pos passed, List.takeWhile_cons_of_neg (by simp),
      List.append_nil]
  simp only [insertBefore, kept, behind, ahead]
  split <;> simp

/-- The names that are kept are distinct if the names that were there are, and none of them is the
placed table's. -/
theorem nodup_without_append {added : Table α} (distinct : added.Distinct)
    {entries : List (String × α)} (unique : (entries.map Prod.fst).Nodup) :
    ((without added entries ++ added.entries).map Prod.fst).Nodup := by
  have keptUnique : ((without added entries).map Prod.fst).Nodup :=
    unique.sublist (List.filter_sublist.map Prod.fst)
  rw [List.map_append]
  refine List.nodup_append.mpr ⟨keptUnique, distinct, ?_⟩
  intro name member other among same
  obtain ⟨entry, kept, named⟩ := List.mem_map.mp member
  exact not_mem_of_mem_without kept (named.trans same ▸ among)

/-- A name that a table has stands at one place of it, with entries ahead and behind. -/
theorem exists_parts {table : Table α} {name : String} (present : name ∈ table.names) :
    ∃ ahead value behind, table.entries = ahead ++ (name, value) :: behind := by
  obtain ⟨⟨_, value⟩, member, rfl⟩ := List.mem_map.mp present
  obtain ⟨ahead, behind, parts⟩ := List.append_of_mem member
  exact ⟨ahead, value, behind, parts⟩

/-- Where names are distinct, the name of an entry stands neither ahead of the entry nor behind it.
The place is the only one then. -/
theorem Distinct.alone {table : Table α} (distinct : table.Distinct) {name : String} {value : α}
    {ahead behind : List (String × α)} (parts : table.entries = ahead ++ (name, value) :: behind) :
    name ∉ ahead.map Prod.fst ∧ name ∉ behind.map Prod.fst := by
  have separated : (ahead.map Prod.fst ++ name :: behind.map Prod.fst).Nodup := by
    rw [Distinct, names, parts, List.map_append] at distinct
    exact distinct
  obtain ⟨_, uniqueBehind, apart⟩ := List.nodup_append.mp separated
  constructor
  · intro among
    exact apart name among name List.mem_cons_self rfl
  · exact (List.nodup_cons.mp uniqueBehind).1

/-- Placing a table before an anchor keeps the names distinct. Wherever the placed entries go, the
result has the kept entries and the placed ones and no others. -/
theorem Distinct.insertBefore {table added : Table α} (distinct : table.Distinct)
    (distinctAdded : added.Distinct) (anchor : String) :
    (table.insertBefore anchor added).Distinct := by
  have unique := nodup_without_append distinctAdded distinct
  by_cases present : anchor ∈ table.names
  · obtain ⟨front, value, back, parts⟩ := exists_parts present
    obtain ⟨before, after⟩ := distinct.alone parts
    have kept : without added table.entries = without added front ++
        ((if added.contains anchor then [] else [(anchor, value)]) ++ without added back) := by
      rw [parts]
      cases has : added.contains anchor <;> simp [without, has]
    rw [Distinct, names, insertBefore_present added parts before after]
    rw [kept] at unique
    refine (List.Perm.map Prod.fst ?_).nodup unique
    simp only [List.append_assoc]
    refine List.Perm.append_left _ ?_
    rw [← List.append_assoc]
    exact List.perm_append_comm
  · rw [Distinct, names, insertBefore_absent added present]
    exact unique

end TextDecoration.Table
