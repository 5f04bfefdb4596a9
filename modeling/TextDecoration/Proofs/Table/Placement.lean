import Mathlib.Data.List.TakeWhile
import TextDecoration.Proofs.Table.Overlay

/-!
# Placing tables before an anchor

A placed table stands right before the anchor, in one piece and in its own order; around it stays
what it does not name itself. What is found comes from the placed table first, wherever its entries
stand.

Placing one table after another before the same anchor is placing both at once, the first ahead of
the second, as long as they have no name in common and the first does not name the anchor. The
second may: it then replaces the anchor. Either table may name entries on both sides of the anchor,
and the anchor may be missing.

A table is also placed by positions: the entries are spliced in at the position of the anchor, and
the entry right behind them is erased if they name the anchor anew. This gives the same table.
-/

namespace TextDecoration.Table

variable {α : Type}

/-- The table with another one spliced in at the position of `anchor`. If the spliced table names
    the anchor, the entry at the position behind it is erased. -/
def spliceBefore (table : Table α) (anchor : String) (added : Table α) : Table α :=
  let kept := table.entries.filter fun entry => entry.1 == anchor || !added.contains entry.1
  match kept.findIdx? fun entry => entry.1 == anchor with
  | none => ⟨kept ++ added.entries⟩
  | some position =>
    let spliced := kept.take position ++ added.entries ++ kept.drop position
    ⟨if added.contains anchor then spliced.eraseIdx (position + added.size) else spliced⟩

/-- The entry behind spliced ones is the one that is erased, which is the anchor if the splice names
it. -/
theorem eraseIdx_behind (ahead added behind : List (String × α)) (found : String × α) :
    (ahead ++ added ++ found :: behind).eraseIdx (ahead.length + added.length) =
      ahead ++ added ++ behind := by
  rw [← List.length_append, List.eraseIdx_append_of_length_le (Nat.le_refl _), Nat.sub_self,
    List.eraseIdx_cons_zero]

/-- Splicing at the position of the anchor is placing before it. What is kept up to the first
anchor is as long as that anchor's position, so the entry behind the spliced ones is the anchor. -/
theorem spliceBefore_eq_insertBefore (table : Table α) (anchor : String) (added : Table α) :
    table.spliceBefore anchor added = table.insertBefore anchor added := by
  simp only [spliceBefore, insertBefore, size]
  generalize (table.entries.filter fun entry => entry.1 == anchor || !added.contains entry.1) = kept
  have parts : (kept.takeWhile fun entry => entry.1 != anchor) ++
      (kept.dropWhile fun entry => entry.1 != anchor) = kept := List.takeWhile_append_dropWhile
  have passed : (kept.takeWhile fun entry => entry.1 != anchor).findIdx?
      (fun entry => entry.1 == anchor) = none := by
    apply List.findIdx?_eq_none_iff.mpr
    intro entry member
    simpa using List.mem_takeWhile_imp member
  cases reached : kept.dropWhile fun entry => entry.1 != anchor with
  | nil =>
    rw [reached, List.append_nil] at parts
    rw [parts] at passed
    rw [passed]
  | cons found behind =>
    have here : (found.1 == anchor) = true := by
      have stopped := List.head?_dropWhile_not (fun entry => entry.1 != anchor) kept
      simpa [reached] using stopped
    generalize kept.takeWhile (fun entry => entry.1 != anchor) = ahead at parts passed
    rw [reached] at parts
    subst parts
    have position : (ahead ++ found :: behind).findIdx? (fun entry => entry.1 == anchor) =
        some ahead.length := by
      simp [List.findIdx?_append, passed, List.findIdx?_cons, here]
    rw [position]
    have spliced : (ahead ++ found :: behind).take ahead.length ++ added.entries ++
        (ahead ++ found :: behind).drop ahead.length =
          ahead ++ added.entries ++ found :: behind := by
      rw [List.take_left, List.drop_left]
    simp only [spliced, eraseIdx_behind]
    split <;> rfl

/-- What is found among the entries that are kept: nothing under a name of the placed table, and
under any other what was found before. -/
theorem get?_without (added : Table α) (entries : List (String × α)) (name : String) :
    (⟨without added entries⟩ : Table α).get? name =
      if added.contains name then none else (⟨entries⟩ : Table α).get? name := by
  by_cases named : added.contains name = true
  · rw [if_pos named]
    apply get?_eq_none_iff.mpr
    intro member
    obtain ⟨entry, kept, rfl⟩ := List.mem_map.mp member
    exact not_mem_of_mem_without kept (contains_iff.mp named)
  · -- An entry with the sought name is kept, and any other one is not looked for.
    have kept : ∀ entry : String × α, (!added.contains entry.1 && entry.1 == name) =
        (entry.1 == name) := by
      intro entry
      by_cases same : entry.1 = name
      · subst same
        simp [named]
      · simp [same]
    rw [if_neg named, get?, get?, without, List.find?_filter]
    simp only [Bool.decide_and, Bool.decide_eq_true, kept]

/-- Entries in two parts are kept part by part, since each is judged by its own name. -/
theorem without_append (added : Table α) (front back : List (String × α)) :
    without added (front ++ back) = without added front ++ without added back := by
  rw [without, List.filter_append, ← without, ← without]

/-- Entries that share no name with the placed table are all kept, in their order. -/
theorem without_apart {added : Table α} {entries : List (String × α)}
    (apart : ∀ name ∈ entries.map Prod.fst, name ∉ added.names) :
    without added entries = entries := by
  apply List.filter_eq_self.mpr
  intro entry member
  have foreign : entry.1 ∉ added.names := apart entry.1 (List.mem_map.mpr ⟨entry, member, rfl⟩)
  rw [contains_eq_false_iff.mpr foreign]
  rfl

/-- What is kept beside one table and then beside another is kept beside the two put together, in
one go. -/
theorem without_extend (first : Table α) {second : Table α} (distinct : second.Distinct)
    (entries : List (String × α)) :
    without second (without first entries) = without (first.extend second) entries := by
  rw [without, without, List.filter_filter, without]
  apply List.filter_congr
  intro entry _
  rw [Bool.eq_iff_iff]
  simp only [Bool.and_eq_true, Bool.not_eq_true', contains_eq_false_iff,
    mem_names_extend first distinct]
  constructor
  · rintro ⟨notSecond, notFirst⟩ (among | among)
    · exact notFirst among
    · exact notSecond among
  · intro neither
    constructor
    · intro among
      exact neither (Or.inr among)
    · intro among
      exact neither (Or.inl among)

/-- Placing a table before an anchor decides what is found like laying it over: the placed table
comes first, wherever its entries stand. -/
theorem get?_insertBefore {table : Table α} (distinct : table.Distinct) (anchor : String)
    (added : Table α) (name : String) :
    (table.insertBefore anchor added).get? name = (added.get? name).or (table.get? name) := by
  by_cases present : anchor ∈ table.names
  · obtain ⟨ahead, value, behind, parts⟩ := exists_parts present
    obtain ⟨before, after⟩ := distinct.alone parts
    have placed : table.insertBefore anchor added = ⟨without added ahead ++ added.entries ++
        ((if added.contains anchor then [] else [(anchor, value)]) ++ without added behind)⟩ :=
      eq_of_entries_eq (insertBefore_present added parts before after)
    have whole : table = ⟨ahead ++ (anchor, value) :: behind⟩ := eq_of_entries_eq parts
    rw [placed, whole]
    cases found : added.get? name with
    | some new => simp [get?_append, get?_without, contains_eq_isSome, found]
    | none =>
      -- The anchor's entry is gone only if the placed table has that name, and it has not this one.
      by_cases same : name = anchor
      · subst same
        simp [get?_append, get?_without, get?_cons, contains_eq_isSome, found]
      · cases replaced : added.get? anchor <;>
          simp [get?_append, get?_without, get?_cons, contains_eq_isSome, found, replaced, same]
  · have placed : table.insertBefore anchor added =
        ⟨without added table.entries ++ added.entries⟩ :=
      eq_of_entries_eq (insertBefore_absent added present)
    rw [placed, get?_append, get?_without, contains_eq_isSome]
    cases found : added.get? name <;> simp

/-- Placing the empty table changes nothing, with the anchor there or not. -/
theorem insertBefore_empty {table : Table α} (distinct : table.Distinct) (anchor : String) :
    table.insertBefore anchor empty = table := by
  have kept : ∀ entries : List (String × α), without empty entries = entries := by
    intro entries
    apply without_apart
    simp [empty, names]
  apply eq_of_entries_eq
  by_cases present : anchor ∈ table.names
  · obtain ⟨ahead, value, behind, parts⟩ := exists_parts present
    obtain ⟨before, after⟩ := distinct.alone parts
    rw [insertBefore_present empty parts before after, kept, kept, parts]
    simp [empty, contains, names]
  · rw [insertBefore_absent empty present, kept]
    simp [empty]

/-- A name that neither some entries nor the placed table have is not among what is kept and what is
placed. -/
theorem not_mem_placed {added : Table α} {name : String} {entries : List (String × α)}
    (absent : name ∉ entries.map Prod.fst) (unnamed : name ∉ added.names) :
    name ∉ (without added entries ++ added.entries).map Prod.fst := by
  rw [List.map_append, List.mem_append]
  rintro (among | among)
  · exact not_mem_without absent among
  · exact unnamed among

/-- Placing one table and then another before the same anchor is placing both at once, if they have
no name in common and the first does not name the anchor. -/
theorem insertBefore_insertBefore {table first second : Table α} (distinct : table.Distinct)
    (distinctSecond : second.Distinct) (apart : ∀ name ∈ second.names, name ∉ first.names)
    {anchor : String} (unnamed : anchor ∉ first.names) :
    (table.insertBefore anchor first).insertBefore anchor second =
      table.insertBefore anchor (first.extend second) := by
  have both : (first.extend second).entries = first.entries ++ second.entries :=
    extend_entries distinctSecond apart
  have firstKept : without second first.entries = first.entries := by
    apply without_apart
    intro name member named
    exact apart name named member
  apply eq_of_entries_eq
  by_cases present : anchor ∈ table.names
  · obtain ⟨ahead, value, behind, parts⟩ := exists_parts present
    obtain ⟨before, after⟩ := distinct.alone parts
    -- The first placement leaves the anchor in place, with the first table right ahead of it.
    have missing : first.contains anchor = false := contains_eq_false_iff.mpr unnamed
    have named : (first.extend second).contains anchor = second.contains anchor := by
      rw [Bool.eq_iff_iff, contains_iff, contains_iff, mem_names_extend first distinctSecond]
      simp [unnamed]
    have once : (table.insertBefore anchor first).entries =
        (without first ahead ++ first.entries) ++ (anchor, value) :: without first behind := by
      rw [insertBefore_present first parts before after, missing]
      simp
    rw [insertBefore_present second once (not_mem_placed before unnamed) (not_mem_without after),
      insertBefore_present (first.extend second) parts before after, both, named, without_append,
      firstKept, without_extend first distinctSecond, without_extend first distinctSecond]
    simp only [List.append_assoc]
  · have still : anchor ∉ (table.insertBefore anchor first).names := by
      rw [names, insertBefore_absent first present]
      exact not_mem_placed present unnamed
    rw [insertBefore_absent second still, insertBefore_absent first present,
      insertBefore_absent (first.extend second) present, both, without_append, firstKept,
      without_extend first distinctSecond, List.append_assoc]

/-- One more entry, placed before the same anchor as a table before, lengthens that table. Rules of
a configuration are placed in this way, one by one. -/
theorem insertBefore_entry {table placed : Table α} (distinct : table.Distinct) {anchor : String}
    (unnamed : anchor ∉ placed.names) {entry : String × α} (fresh : entry.1 ∉ placed.names) :
    (table.insertBefore anchor placed).insertBefore anchor ⟨[entry]⟩ =
      table.insertBefore anchor ⟨placed.entries ++ [entry]⟩ := by
  have single : (⟨[entry]⟩ : Table α).Distinct := by simp [Distinct, names]
  have apart : ∀ name ∈ (⟨[entry]⟩ : Table α).names, name ∉ placed.names := by
    intro name member
    rw [List.mem_singleton.mp member]
    exact fresh
  have both : placed.extend ⟨[entry]⟩ = ⟨placed.entries ++ [entry]⟩ :=
    eq_of_entries_eq (extend_entries single apart)
  rw [insertBefore_insertBefore distinct single apart unnamed, both]

end TextDecoration.Table
