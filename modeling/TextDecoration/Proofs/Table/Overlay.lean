import Mathlib.Data.List.Basic
import TextDecoration.Proofs.Table.Values

/-!
# Laying tables over one another

A table with distinct names is determined by two things: its names in their order, and what is
found under each. So a law of tables comes down to one about names and one about lookups, and an
operation is described by saying what it does to both.

Giving the entries of one table to another keeps the places of the names that are there, and the
names that are not follow in their order; what is found comes from the table that was laid on top,
and from the one below only where the upper one is silent. It follows that laying over is
associative, that the empty table changes nothing on either side, and that a table laid over itself
stays as it is. The order of layers matters otherwise, and nothing is said about exchanging them.
-/

namespace TextDecoration.Table

variable {α : Type}

/-- A table with distinct names consists of its names, each with what is found under it. -/
theorem entries_eq_filterMap {table : Table α} (distinct : table.Distinct) :
    table.entries =
      table.names.filterMap fun name => (table.get? name).map fun value => (name, value) := by
  have entire : table.entries.filterMap ((fun name => (table.get? name).map fun value =>
      (name, value)) ∘ Prod.fst) = table.entries.filterMap some := by
    apply List.filterMap_congr
    intro entry member
    have found : table.get? entry.1 = some entry.2 := (get?_eq_some_iff distinct).mpr member
    simp only [Function.comp_apply, found, Option.map_some]
  rw [names, List.filterMap_map, entire, List.filterMap_some]

/-- Tables with the same distinct names in the same order, under which the same is found, are the
same table. -/
theorem eq_of_lookups {table other : Table α} (distinct : table.Distinct)
    (same : table.names = other.names) (lookups : ∀ name, table.get? name = other.get? name) :
    table = other := by
  have distinctOther : other.Distinct := by
    rw [Distinct, ← same]
    exact distinct
  apply eq_of_entries_eq
  rw [entries_eq_filterMap distinct, entries_eq_filterMap distinctOther, same]
  simp only [lookups]

/-- Laid over a table, the names that are new to it follow those that it has, in the order in which
the upper table has them. -/
theorem names_extend {overrides : Table α} (table : Table α) (distinct : overrides.Distinct) :
    (table.extend overrides).names =
      table.names ++ overrides.names.filter fun name => name ∉ table.names := by
  obtain ⟨entries⟩ := overrides
  rw [Table.extend]
  induction entries generalizing table with
  | nil => simp [names]
  | cons entry later inductionHypothesis =>
    obtain ⟨fresh, distinctLater⟩ := List.nodup_cons.mp distinct
    rw [List.foldl_cons, inductionHypothesis (table.put entry.1 entry.2) distinctLater, put,
      names_alter, names_cons]
    by_cases present : entry.1 ∈ table.names
    · simp [present]
    · -- No later entry repeats this one's name, so none is dropped for its sake.
      have others : (⟨later⟩ : Table α).names.filter (fun name => name ∉ table.names ++ [entry.1]) =
          (⟨later⟩ : Table α).names.filter fun name => name ∉ table.names := by
        apply List.filter_congr
        intro name member
        have different : name ≠ entry.1 := by
          rintro rfl
          exact fresh member
        simp [different]
      rw [if_neg present, others, List.filter_cons_of_pos (by simpa using present),
        List.append_assoc, List.singleton_append]

/-- A table has, laid over by another one, the names of both, and no others. -/
theorem mem_names_extend {overrides : Table α} (table : Table α) (distinct : overrides.Distinct)
    {name : String} :
    name ∈ (table.extend overrides).names ↔ name ∈ table.names ∨ name ∈ overrides.names := by
  rw [names_extend table distinct]
  by_cases present : name ∈ table.names <;> simp [present]

/-- Laid over a table, another one decides what is found, and the table below only where the upper
one has nothing. -/
theorem get?_extend {overrides : Table α} (table : Table α) (distinct : overrides.Distinct)
    (name : String) :
    (table.extend overrides).get? name = (overrides.get? name).or (table.get? name) := by
  obtain ⟨entries⟩ := overrides
  rw [Table.extend]
  induction entries generalizing table with
  | nil => rfl
  | cons entry later inductionHypothesis =>
    obtain ⟨fresh, distinctLater⟩ := List.nodup_cons.mp distinct
    rw [List.foldl_cons, inductionHypothesis (table.put entry.1 entry.2) distinctLater, get?_put,
      get?_cons]
    by_cases same : name = entry.1
    · subst same
      have silent : (⟨later⟩ : Table α).get? entry.1 = none := get?_eq_none_iff.mpr fresh
      simp [silent]
    · simp [same]

/-- Layers may be put together before they are laid over a table. The result is the same in entries
and in their order. -/
theorem extend_assoc {table first second : Table α} (distinct : table.Distinct)
    (distinctFirst : first.Distinct) (distinctSecond : second.Distinct) :
    (table.extend first).extend second = table.extend (first.extend second) := by
  have distinctBoth : (first.extend second).Distinct := distinctFirst.extend second
  apply eq_of_lookups ((distinct.extend first).extend second)
  · rw [names_extend _ distinctSecond, names_extend _ distinctFirst, names_extend _ distinctBoth,
      names_extend _ distinctSecond, List.filter_append, List.filter_filter, List.append_assoc]
    congr 2
    apply List.filter_congr
    intro name _
    by_cases present : name ∈ table.names <;> simp [present]
  · intro name
    rw [get?_extend _ distinctSecond, get?_extend _ distinctFirst, get?_extend _ distinctBoth,
      get?_extend _ distinctSecond, Option.or_assoc]

/-- The empty table, laid over another one, changes nothing. It is a unit on the right. -/
theorem extend_empty (table : Table α) : table.extend empty = table := rfl

/-- A table laid over the empty one is that table. It is a unit on the left, where names are
distinct. -/
theorem empty_extend {table : Table α} (distinct : table.Distinct) :
    empty.extend table = table := by
  apply eq_of_lookups (distinct_empty.extend table)
  · rw [names_extend _ distinct]
    simp [empty, names]
  · intro name
    rw [get?_extend _ distinct, empty, get?_nil, Option.or_none]

/-- A table laid over itself stays as it is, in its entries and their order. -/
theorem extend_self {table : Table α} (distinct : table.Distinct) : table.extend table = table := by
  apply eq_of_lookups (distinct.extend table)
  · rw [names_extend _ distinct]
    simp
  · intro name
    rw [get?_extend _ distinct, Option.or_self]

end TextDecoration.Table
