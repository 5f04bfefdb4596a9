import TextDecoration.Proofs.Table.Placement

/-!
# Entries laid over a table

An entry is laid over a table in its place, or at the end if its name is new, or else before an
anchor. Wherever it ends up, under its name is its value and nothing else has changed, and the other
entries have kept their order. So when entries are laid over a table one after the other, the last
one of a name decides, and the order of the entries that none of them names is what it was.

Where the entries themselves end up depends on anchors that may be missing, may have been moved, or
may be among the entries; nothing is said about it.
-/

namespace TextDecoration.Table

variable {α : Type}

/-- The table with an entry laid over it: before an anchor if one is given, else in its place. -/
def lay (table : Table α) (before : Option String) (entry : String × α) : Table α :=
  match before with
  | some anchor => table.insertBefore anchor ⟨[entry]⟩
  | none => table.extend ⟨[entry]⟩

/-- A table with distinct names, as entries laid over another one leave it. -/
structure Overlaid (base : Table α) (entries : List (String × α)) (table : Table α) : Prop where
  /-- No name occurs twice, in whatever order the entries were laid. -/
  distinct : table.Distinct
  /-- The last entry of a name decides what is found, and the table below where there is none. -/
  lookups : ∀ name, table.get? name = ((⟨entries.reverse⟩ : Table α).get? name).or (base.get? name)
  /-- Names that no entry has keep their order. Where the entries' own names stand depends on their
  anchors. -/
  order : (table.names.filter fun name => name ∉ entries.map Prod.fst) =
    base.names.filter fun name => name ∉ entries.map Prod.fst

/-- A table of one entry names nothing twice, so it may be laid over any other. -/
theorem distinct_single (entry : String × α) : (⟨[entry]⟩ : Table α).Distinct := by
  simp [Distinct, names]

/-- An entry laid over a table keeps its names distinct, with an anchor or without. -/
theorem Distinct.lay {table : Table α} (distinct : table.Distinct) (before : Option String)
    (entry : String × α) : (table.lay before entry).Distinct := by
  cases before with
  | none => exact distinct.extend _
  | some anchor => exact distinct.insertBefore (distinct_single entry) anchor

/-- An entry laid over a table changes what is found under its name and no other. The anchor decides
about places only. -/
theorem get?_lay {table : Table α} (distinct : table.Distinct) (before : Option String)
    (entry : String × α) (name : String) : (table.lay before entry).get? name =
      if name = entry.1 then some entry.2 else table.get? name := by
  have single : ((⟨[entry]⟩ : Table α).get? name).or (table.get? name) =
      if name = entry.1 then some entry.2 else table.get? name := by
    rw [get?_cons]
    split <;> rfl
  cases before with
  | none => exact (get?_extend table (distinct_single entry) name).trans single
  | some anchor => exact (get?_insertBefore distinct anchor _ name).trans single

/-- Entries that are kept beside a table have, of the names that the table does not have, those that
they had. -/
theorem filter_without {added : Table α} {test : String → Bool}
    (off : ∀ name ∈ added.names, test name = false) (entries : List (String × α)) :
    ((without added entries).map Prod.fst).filter test = (entries.map Prod.fst).filter test := by
  rw [without, List.filter_map, List.filter_map, List.filter_filter]
  congr 1
  apply List.filter_congr
  intro entry _
  rw [Function.comp_apply]
  cases kept : test entry.1 with
  | false => rfl
  | true =>
    have foreign : entry.1 ∉ added.names := fun named => by
      rw [off entry.1 named] at kept
      cases kept
    rw [contains_eq_false_iff.mpr foreign]
    rfl

/-- Placing a table before an anchor keeps the order of the names that it does not have. Those that
it has may move. -/
theorem filter_names_insertBefore {table added : Table α} (distinct : table.Distinct)
    (anchor : String) {test : String → Bool} (off : ∀ name ∈ added.names, test name = false) :
    (table.insertBefore anchor added).names.filter test = table.names.filter test := by
  have dropped : (added.entries.map Prod.fst).filter test = [] :=
    List.filter_eq_nil_iff.mpr fun name named => by simp [off name named]
  by_cases present : anchor ∈ table.names
  · obtain ⟨ahead, value, behind, parts⟩ := exists_parts present
    obtain ⟨before, after⟩ := distinct.alone parts
    -- The anchor's own entry is dropped only if the placed table has its name.
    have own : (((if added.contains anchor then [] else [(anchor, value)]) :
        List (String × α)).map Prod.fst).filter test = [anchor].filter test := by
      split
      · next replaced => simp [off anchor (contains_iff.mp replaced)]
      · rfl
    rw [names, insertBefore_present added parts before after, names, parts]
    simp only [List.map_append, List.filter_append, filter_without off, own, dropped,
      List.append_nil]
    rw [List.map_cons, ← List.filter_append, List.singleton_append]
  · rw [names, insertBefore_absent added present, List.map_append, List.filter_append,
      filter_without off, dropped, List.append_nil, names]

/-- Laying a table over another one keeps the order of the names that it does not have. No name
moves at all. -/
theorem filter_names_extend {overrides : Table α} (table : Table α) (distinct : overrides.Distinct)
    {test : String → Bool} (off : ∀ name ∈ overrides.names, test name = false) :
    (table.extend overrides).names.filter test = table.names.filter test := by
  have dropped : (overrides.names.filter fun name => name ∉ table.names).filter test = [] :=
    List.filter_eq_nil_iff.mpr fun name among => by simp [off name (List.mem_filter.mp among).1]
  rw [names_extend table distinct, List.filter_append, dropped, List.append_nil]

/-- An entry laid over a table keeps the order of the other names, in either way of laying it. -/
theorem filter_names_lay {table : Table α} (distinct : table.Distinct) (before : Option String)
    (entry : String × α) {test : String → Bool} (off : test entry.1 = false) :
    (table.lay before entry).names.filter test = table.names.filter test := by
  have offAll : ∀ name ∈ (⟨[entry]⟩ : Table α).names, test name = false := by
    intro name named
    rw [List.mem_singleton.mp named]
    exact off
  cases before with
  | none => exact filter_names_extend table (distinct_single entry) offAll
  | some anchor => exact filter_names_insertBefore distinct anchor offAll

namespace Overlaid

variable {base table : Table α} {entries : List (String × α)}

/-- No entry has been laid over the table itself. This is where an induction on entries begins. -/
theorem bare (distinct : table.Distinct) : Overlaid table [] table where
  distinct := distinct
  lookups _ := rfl
  order := rfl

/-- A table with one more entry laid over it, wherever that belongs, is overlaid with one entry
more. This is one step of an induction on entries. -/
theorem lay (laid : Overlaid base entries table) (before : Option String) (entry : String × α) :
    Overlaid base (entries ++ [entry]) (table.lay before entry) where
  distinct := laid.distinct.lay before entry
  lookups name := by
    rw [get?_lay laid.distinct, laid.lookups, List.reverse_concat, get?_cons]
    split <;> rfl
  order := by
    -- The new entry's name is now left out on both sides, and so are the names left out before.
    have further : ∀ names : List String,
        (names.filter fun name => name ∉ (entries ++ [entry]).map Prod.fst) =
          (names.filter fun name => name ∉ entries.map Prod.fst).filter (· ≠ entry.1) := by
      intro names
      rw [List.filter_filter]
      apply List.filter_congr
      intro name _
      rw [List.map_append, Bool.eq_iff_iff]
      simp [not_or, and_comm]
    rw [further base.names, ← laid.order, ← further]
    exact filter_names_lay laid.distinct before entry (by simp)

/-- The names are those of the table below and of the entries. Laying an entry removes no name. -/
theorem mem_names (laid : Overlaid base entries table) {name : String} :
    name ∈ table.names ↔ name ∈ base.names ∨ name ∈ entries.map Prod.fst := by
  have given : ((⟨entries.reverse⟩ : Table α).get? name).isSome = true ↔
      name ∈ entries.map Prod.fst := by
    rw [← contains_eq_isSome, contains_iff, names, List.map_reverse, List.mem_reverse]
  rw [← contains_iff, contains_eq_isSome, laid.lookups, Option.isSome_or, Bool.or_eq_true, given,
    ← contains_eq_isSome, contains_iff, or_comm]

/-- Under the name of the last entry that has it is that entry's value, whatever the anchors
were. -/
theorem get?_last (laid : Overlaid base entries table) {ahead behind : List (String × α)}
    {name : String} {value : α} (parts : entries = ahead ++ (name, value) :: behind)
    (last : name ∉ behind.map Prod.fst) : table.get? name = some value := by
  have silent : (⟨behind.reverse⟩ : Table α).get? name = none := by
    rw [get?_eq_none_iff, names, List.map_reverse, List.mem_reverse]
    exact last
  rw [laid.lookups, parts, List.reverse_append, List.reverse_cons, List.append_assoc, get?_append,
    silent, List.singleton_append, get?_cons, if_pos rfl]
  rfl

/-- Under a name that no entry has is what was there before, or nothing. -/
theorem get?_unnamed (laid : Overlaid base entries table) {name : String}
    (unnamed : name ∉ entries.map Prod.fst) : table.get? name = base.get? name := by
  have silent : (⟨entries.reverse⟩ : Table α).get? name = none := by
    rw [get?_eq_none_iff, names, List.map_reverse, List.mem_reverse]
    exact unnamed
  rw [laid.lookups, silent, Option.none_or]

end Overlaid

end TextDecoration.Table
