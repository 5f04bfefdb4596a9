import TextDecoration.Proofs.Table.Names

/-!
# Values of ordered tables

A property of all values of a table survives the operations that keep values or put in such as have
the property: nothing but values of the tables at hand and images of them gets into a result. With
distinct names, the value under a name is that of the only entry with this name, so looking a name
up sees all there is under it.

An update is told by what is found afterwards: something else under its own name, and the same as
before under every other. Replacing values under two names therefore gives the same in either order,
and of two updates under one name the second works on what the first left there.
-/

namespace TextDecoration.Table

variable {α : Type} {property : α → Prop}

/-- A property that every value of a table has. Names have no say in it. -/
def Every (property : α → Prop) (table : Table α) : Prop :=
  ∀ entry ∈ table.entries, property entry.2

/-- The table without entries has no value that could fail the property. -/
theorem every_empty : (empty : Table α).Every property := by
  intro entry member
  cases member

/-- A value computed anew keeps the property, if it has it wherever the value that was there
does. -/
theorem Every.alter {table : Table α} (all : table.Every property) (name : String)
    {value : Option α → α} (fits : ∀ old, (∀ known, old = some known → property known) →
      property (value old)) : (table.alter name value).Every property := by
  obtain ⟨entries⟩ := table
  intro entry member
  rw [Table.alter] at member
  induction entries with
  | nil =>
    cases List.mem_singleton.mp member
    exact fits none fun known there => by cases there
  | cons first later inductionHypothesis =>
    obtain ⟨other, old⟩ := first
    have here : property old := all _ List.mem_cons_self
    have behind : (⟨later⟩ : Table α).Every property :=
      fun entry among => all entry (List.mem_cons_of_mem _ among)
    rw [alterEntries] at member
    split at member
    · rcases List.mem_cons.mp member with rfl | among
      · exact fits (some old) (fun known there => Option.some.inj there ▸ here)
      · exact behind entry among
    · rcases List.mem_cons.mp member with rfl | among
      · exact here
      · exact inductionHypothesis behind among

/-- A value with the property, given to a name, keeps it, as no other value changes. -/
theorem Every.put {table : Table α} (all : table.Every property) (name : String) {value : α}
    (fits : property value) : (table.put name value).Every property :=
  all.alter name fun _ _ => fits

/-- Replacing the value under a name keeps the property, if the image of a value with it has it. The
other values are untouched. -/
theorem Every.modify {table : Table α} (all : table.Every property) (name : String)
    {image : α → α} (fits : ∀ value, property value → property (image value)) :
    (table.modify name image).Every property := by
  intro entry member
  obtain ⟨old, among, rfl⟩ := List.mem_map.mp member
  split
  · exact fits old.2 (all old among)
  · exact all old among

/-- Two tables with the property make up a table with it. No value is made anew. -/
theorem Every.extend {table overrides : Table α} (all : table.Every property)
    (others : overrides.Every property) : (table.extend overrides).Every property := by
  obtain ⟨entries⟩ := overrides
  rw [Table.extend]
  induction entries generalizing table with
  | nil => exact all
  | cons entry later inductionHypothesis =>
    exact inductionHypothesis (all.put entry.1 (others entry List.mem_cons_self))
      (fun other among => others other (List.mem_cons_of_mem _ among))

/-- Placing a table before an anchor brings in no entry of its own. Every entry comes from one of
the two tables. -/
theorem mem_insertBefore {table added : Table α} {anchor : String} {entry : String × α}
    (member : entry ∈ (table.insertBefore anchor added).entries) :
    entry ∈ table.entries ∨ entry ∈ added.entries := by
  generalize keeping : (table.entries.filter fun entry =>
    entry.1 == anchor || !added.contains entry.1) = kept at member
  have fromTable : ∀ entry ∈ kept, entry ∈ table.entries := by
    intro entry among
    rw [← keeping] at among
    exact (List.mem_filter.mp among).1
  have ahead : ∀ entry ∈ kept.takeWhile fun entry => entry.1 != anchor, entry ∈ table.entries :=
    fun entry among => fromTable entry ((List.takeWhile_sublist _).subset among)
  have behind : ∀ entry ∈ kept.dropWhile fun entry => entry.1 != anchor, entry ∈ table.entries :=
    fun entry among => fromTable entry ((List.dropWhile_sublist _).subset among)
  simp only [insertBefore, keeping] at member
  split at member
  · rcases List.mem_append.mp member with among | among
    · exact Or.inl (fromTable entry among)
    · exact Or.inr among
  · next found later parts =>
    rw [parts] at behind
    have placed : entry ∈ kept.takeWhile (fun entry => entry.1 != anchor) ∨
        entry ∈ added.entries ∨ entry ∈ found :: later := by
      split at member
      · rcases List.mem_append.mp member with among | among
        · exact (List.mem_append.mp among).imp_right Or.inl
        · exact Or.inr (Or.inr (List.mem_cons_of_mem _ among))
      · rcases List.mem_append.mp member with among | among
        · exact (List.mem_append.mp among).imp_right Or.inl
        · exact Or.inr (Or.inr among)
    rcases placed with among | among | among
    · exact Or.inl (ahead entry among)
    · exact Or.inr among
    · exact Or.inl (behind entry among)

/-- A table with the property, placed before an anchor of another one with it, keeps it. -/
theorem Every.insertBefore {table added : Table α} (all : table.Every property)
    (others : added.Every property) (anchor : String) :
    (table.insertBefore anchor added).Every property := by
  intro entry member
  rcases mem_insertBefore member with among | among
  · exact all entry among
  · exact others entry among

/-- Nothing is found in no entries, under whatever name. -/
@[simp] theorem get?_nil (name : String) : (⟨[]⟩ : Table α).get? name = none := rfl

/-- What is found behind a first entry: its value under its own name, and what the later entries
have under any other. -/
theorem get?_cons (entry : String × α) (later : List (String × α)) (name : String) :
    (⟨entry :: later⟩ : Table α).get? name =
      if name = entry.1 then some entry.2 else (⟨later⟩ : Table α).get? name := by
  by_cases same : name = entry.1
  · simp [get?, same]
  · simp [get?, same, Ne.symm same]

/-- What is found in entries one after the other: what the front has, and the back otherwise. -/
theorem get?_append (front back : List (String × α)) (name : String) :
    (⟨front ++ back⟩ : Table α).get? name =
      ((⟨front⟩ : Table α).get? name).or ((⟨back⟩ : Table α).get? name) := by
  simp only [get?, List.find?_append, Option.map_or]

/-- Computing the value under a name anew changes what is found under this name and no other. The
new value may depend on the old one. -/
theorem get?_alter (table : Table α) (name other : String) (value : Option α → α) :
    (table.alter name value).get? other =
      if other = name then some (value (table.get? name)) else table.get? other := by
  obtain ⟨entries⟩ := table
  rw [alter]
  induction entries with
  | nil => by_cases same : other = name <;> simp [alterEntries, get?_cons, same]
  | cons first later inductionHypothesis =>
    obtain ⟨head, old⟩ := first
    by_cases here : head = name
    · subst here
      by_cases same : other = head <;> simp [alterEntries, get?_cons, same]
    · by_cases found : other = head
      · subst found
        simp [alterEntries, get?_cons, here]
      · simp only [alterEntries, if_neg here, get?_cons, if_neg found, if_neg (Ne.symm here)]
        exact inductionHypothesis

/-- Giving a value to a name changes what is found under this name and no other, whether the name
was there or not. -/
theorem get?_put (table : Table α) (name other : String) (value : α) :
    (table.put name value).get? other = if other = name then some value else table.get? other :=
  table.get?_alter name other fun _ => value

/-- Of values given to names one after the other, the last one given to a name is found under it,
and what was there before under a name that none was given to. -/
theorem get?_foldl_put (entries : List (String × α)) (table : Table α) (name : String) :
    (entries.foldl (fun table entry => table.put entry.1 entry.2) table).get? name =
      ((entries.findRev? fun entry => entry.1 == name).map Prod.snd).or (table.get? name) := by
  induction entries generalizing table with
  | nil => rfl
  | cons entry later inductionHypothesis =>
    rw [List.foldl_cons, inductionHypothesis, get?_put, List.findRev?]
    cases later.findRev? fun entry => entry.1 == name with
    | some last => rfl
    | none =>
      by_cases own : name = entry.1
      · simp [own]
      · simp [own, Ne.symm own]

/-- Where names are distinct, the value found under a name is that of every entry with the name.
Otherwise it is that of the first. -/
theorem get?_eq_some_iff {table : Table α} (distinct : table.Distinct) {name : String} {value : α} :
    table.get? name = some value ↔ (name, value) ∈ table.entries := by
  obtain ⟨entries⟩ := table
  rw [get?]
  induction entries with
  | nil => simp
  | cons first later inductionHypothesis =>
    obtain ⟨other, old⟩ := first
    obtain ⟨fresh, distinctLater⟩ := List.nodup_cons.mp distinct
    rw [List.find?_cons, List.mem_cons]
    by_cases same : other = name
    · subst same
      have alone : (other, value) ∉ later := fun among =>
        fresh (List.mem_map.mpr ⟨(other, value), among, rfl⟩)
      simp [alone, eq_comm]
    · simp only [beq_eq_false_iff_ne.mpr same]
      rw [inductionHypothesis distinctLater]
      simp [Ne.symm same]

/-- A name has a value exactly if it is among the names. The test for one is the test for the
other. -/
theorem contains_eq_isSome (table : Table α) (name : String) :
    table.contains name = (table.get? name).isSome := by
  rw [Bool.eq_iff_iff, contains_iff, get?, Option.isSome_map, List.find?_isSome, names]
  simp only [List.mem_map, beq_iff_eq]

/-- Nothing is found under a name exactly if the table does not have it. Values cannot be
missing. -/
theorem get?_eq_none_iff {table : Table α} {name : String} :
    table.get? name = none ↔ name ∉ table.names := by
  rw [← contains_iff, contains_eq_isSome]
  simp

/-- To look a name up in one table and then in another is to look it up in the one that has it. -/
theorem or_get? (upper lower : Table α) (name : String) :
    (upper.get? name).or (lower.get? name) =
      if upper.contains name then upper.get? name else lower.get? name := by
  rw [contains_eq_isSome]
  cases upper.get? name <;> rfl

/-- Replacing the value under a name changes what is found under this name and no other. Under a
name that is not there, nothing is found before and after. -/
theorem get?_modify (table : Table α) (name other : String) (image : α → α) :
    (table.modify name image).get? other =
      if other = name then (table.get? name).map image else table.get? other := by
  -- The names stay, so the same entry is found as before, in its new form.
  have looked : (fun entry : String × α => entry.1 == other) ∘
      (fun entry => if entry.1 = name then (entry.1, image entry.2) else entry) =
        fun entry => entry.1 == other := by
    funext entry
    rw [Function.comp_apply]
    split <;> rfl
  rw [modify, get?, List.find?_map, looked, get?, get?]
  cases found : table.entries.find? fun entry => entry.1 == other with
  | none =>
    by_cases same : other = name
    · simp [← same, found]
    · simp [same]
  | some entry =>
    have named : entry.1 = other := by simpa using List.find?_some found
    by_cases same : other = name
    · simp [← same, named, found]
    · simp [named, same]

/-- Replacing the value under a name that is not there changes nothing, not even the order. -/
theorem modify_absent {table : Table α} {name : String} (absent : name ∉ table.names)
    (image : α → α) : table.modify name image = table := by
  apply eq_of_entries_eq
  rw [modify]
  have kept : (table.entries.map fun entry =>
      if entry.1 = name then (entry.1, image entry.2) else entry) = table.entries.map id := by
    apply List.map_congr_left
    intro entry member
    have different : entry.1 ≠ name := by
      intro same
      exact absent (List.mem_map.mpr ⟨entry, member, same⟩)
    rw [if_neg different, id]
  rw [kept, List.map_id]

/-- Replacing the values under two names gives the same in either order. Under one name the order
would matter. -/
theorem modify_comm {name other : String} (different : name ≠ other) (table : Table α)
    (image imageOther : α → α) :
    (table.modify name image).modify other imageOther =
      (table.modify other imageOther).modify name image := by
  apply eq_of_entries_eq
  rw [modify, modify, modify, modify, List.map_map, List.map_map]
  apply List.map_congr_left
  intro entry _
  by_cases here : entry.1 = name
  · simp [here, different]
  · by_cases there : entry.1 = other
    · simp [there, Ne.symm different]
    · simp [here, there]

/-- Replacing the value under a name twice is replacing it once, by the one function behind the
other. -/
theorem modify_modify (table : Table α) (name : String) (first second : α → α) :
    (table.modify name first).modify name second = table.modify name (second ∘ first) := by
  apply eq_of_entries_eq
  rw [modify, modify, modify, List.map_map]
  apply List.map_congr_left
  intro entry _
  by_cases here : entry.1 = name <;> simp [here]

/-- Computing the value under a name anew twice is computing it once, the second time from the
first result. -/
theorem alter_alter (table : Table α) (name : String) (first second : Option α → α) :
    (table.alter name first).alter name second =
      table.alter name fun old => second (some (first old)) := by
  obtain ⟨entries⟩ := table
  apply eq_of_entries_eq
  change alterEntries name second (alterEntries name first entries) =
    alterEntries name (fun old => second (some (first old))) entries
  induction entries with
  | nil => simp [alterEntries]
  | cons entry later inductionHypothesis =>
    obtain ⟨other, old⟩ := entry
    by_cases here : other = name
    · simp [alterEntries, here]
    · simp only [alterEntries, if_neg here, inductionHypothesis]

/-- Of two values given to the same name the later one stays, at the same place. The first leaves
nothing behind but that place. -/
theorem put_put (table : Table α) (name : String) (first second : α) :
    (table.put name first).put name second = table.put name second :=
  table.alter_alter name (fun _ => first) fun _ => second

end TextDecoration.Table
