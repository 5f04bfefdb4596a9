/-!
# Ordered tables

A table lists named entries in an order that means something. Giving a value to a name that is
already there keeps the entry's place; a new name goes to the end. So the order of a table is the
order in which its names were first used, and the operations here never make a name occur twice.
-/

namespace TextDecoration

/-- Named entries in order. That no name occurs twice is not part of the type; tables that are built
by the operations below keep it. -/
structure Table (α : Type) where
  entries : List (String × α)

namespace Table

variable {α : Type}

/-- The table without entries, from which tables are built. -/
def empty : Table α := ⟨[]⟩

instance : Inhabited (Table α) := ⟨empty⟩

/-- Names in order, which for a grammar is the order of priority. -/
def names (table : Table α) : List String := table.entries.map Prod.fst

/-- Number of entries, counting a name each time it occurs. -/
def size (table : Table α) : Nat := table.entries.length

/-- Whether there is no entry. An entry whose value is empty is still an entry. -/
def isEmpty (table : Table α) : Bool := table.entries.isEmpty

/-- Whether a name has an entry. It says nothing about the entry's value. -/
def contains (table : Table α) (name : String) : Bool := table.names.contains name

/-- Value under a name, that of the first entry with it. -/
def get? (table : Table α) (name : String) : Option α :=
  (table.entries.find? (fun entry => entry.1 == name)).map Prod.snd

/-- The entries with the value under `name` computed anew from the one that was there. Without one,
    the new value goes to the end. -/
def alterEntries (name : String) (value : Option α → α) : List (String × α) → List (String × α)
  | [] => [(name, value none)]
  | (other, old) :: later =>
    if other = name then (other, value (some old)) :: later
    else (other, old) :: alterEntries name value later

/-- The table with the value under `name` computed anew. The function is told whether there was a
value before. -/
def alter (table : Table α) (name : String) (value : Option α → α) : Table α :=
  ⟨alterEntries name value table.entries⟩

/-- The table with a value given to a name. A name that is there keeps its place, and a new one goes
to the end. -/
def put (table : Table α) (name : String) (value : α) : Table α := table.alter name fun _ => value

/-- The table with the value under `name` replaced by its image; without one, the table itself. No
entry is added or moved. -/
def modify (table : Table α) (name : String) (image : α → α) : Table α :=
  ⟨table.entries.map fun entry => if entry.1 = name then (entry.1, image entry.2) else entry⟩

/-- The table with the entries of another one given to it, in their order. Names of both keep their
places here and take the other's values. -/
def extend (table overrides : Table α) : Table α :=
  overrides.entries.foldl (fun table entry => table.put entry.1 entry.2) table

/-- The table with another one placed before the entry `anchor`. Entries that the other table
    names anew are dropped, the anchor's among them. Without the anchor, the other table goes to
    the end. -/
def insertBefore (table : Table α) (anchor : String) (added : Table α) : Table α :=
  let kept := table.entries.filter fun entry => entry.1 == anchor || !added.contains entry.1
  let ahead := kept.takeWhile fun entry => entry.1 != anchor
  match kept.dropWhile fun entry => entry.1 != anchor with
  | [] => ⟨kept ++ added.entries⟩
  | found :: behind =>
    if added.contains anchor then ⟨ahead ++ added.entries ++ behind⟩
    else ⟨ahead ++ added.entries ++ found :: behind⟩

end Table

end TextDecoration
