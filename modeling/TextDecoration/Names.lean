/-!
# Sorted sets of names

A set of names is kept in strictly ascending order, by the code points of the names. So a set is
always written in the same way, and two sets with the same members are equal.
-/

namespace TextDecoration

/-- A finite set of names, kept as a list in ascending order. Two sets with the same members are
equal, and comparing them decides that. -/
structure Names where
  /-- The members in order. -/
  toList : List String
  /-- The order is strict, so no member occurs twice. -/
  ascending : toList.Pairwise (· < ·)

namespace Names

/-- The list with a name put in its place, unless it is there already. -/
def place (name : String) : List String → List String
  | [] => [name]
  | other :: later =>
    if name < other then name :: other :: later
    else if name = other then other :: later
    else other :: place name later

/-- Placing a name adds that name and nothing else. Whether the list is in order does not matter
here. -/
theorem mem_place {name tested : String} {list : List String} :
    tested ∈ place name list ↔ tested = name ∨ tested ∈ list := by
  induction list with
  | nil => simp [place]
  | cons other later placed =>
    simp only [place]
    split
    · simp
    · split
      · rename_i same
        subst same
        simp
      · simp only [List.mem_cons, placed]
        grind

/-- Placing a name keeps the order, and since the order is strict it never makes a second copy. -/
theorem ascending_place {name : String} {list : List String}
    (ascending : list.Pairwise (· < ·)) : (place name list).Pairwise (· < ·) := by
  induction list with
  | nil => simp [place]
  | cons other later placed =>
    obtain ⟨below, rest⟩ := List.pairwise_cons.mp ascending
    simp only [place]
    split
    · rename_i ahead
      refine List.pairwise_cons.mpr ⟨fun tested member => ?_, ascending⟩
      rcases List.mem_cons.mp member with rfl | member
      · exact ahead
      · exact String.lt_trans ahead (below tested member)
    · split
      · exact ascending
      · rename_i notAhead different
        refine List.pairwise_cons.mpr ⟨fun tested member => ?_, placed rest⟩
        rcases mem_place.mp member with rfl | member
        · exact Std.lt_of_le_of_ne notAhead (Ne.symm different)
        · exact below tested member

/-- The set without members, as the tags of a plain token are. -/
def empty : Names := ⟨[], List.Pairwise.nil⟩

/-- The set with a further name. A name that is a member already changes nothing. -/
def insert (set : Names) (name : String) : Names :=
  ⟨place name set.toList, ascending_place set.ascending⟩

/-- The set of the names in a list. Their order and their repetitions are forgotten. -/
def ofList (names : List String) : Names := names.foldl insert empty

/-- The set of one name, as a range carries it that is tagged by its token alone. -/
def single (name : String) : Names := ⟨[name], List.pairwise_singleton ..⟩

/-- Whether a name is a member. Names are compared exactly, upper and lower case apart. -/
def contains (set : Names) (name : String) : Bool := set.toList.contains name

/-- A set is determined by its members in order, as the proof that they are in order carries no
data. -/
theorem eq_of_toList_eq {set other : Names} (same : set.toList = other.toList) : set = other := by
  cases set
  cases other
  cases same
  rfl

instance : DecidableEq Names := fun set other =>
  if same : set.toList = other.toList then isTrue (eq_of_toList_eq same)
  else isFalse fun equal => same (congrArg Names.toList equal)

/-- Inserting a name adds that name and nothing else, so inserting it twice is inserting it once. -/
@[simp] theorem mem_toList_insert {set : Names} {name tested : String} :
    tested ∈ (set.insert name).toList ↔ tested = name ∨ tested ∈ set.toList := mem_place

/-- Inserting names one after the other adds those names and nothing else. The induction is on the
names, with any set to begin with. -/
theorem mem_toList_foldl_insert {names : List String} {set : Names} {tested : String} :
    tested ∈ (names.foldl insert set).toList ↔ tested ∈ set.toList ∨ tested ∈ names := by
  induction names generalizing set with
  | nil => simp
  | cons name later inserted =>
    simp only [List.foldl_cons, inserted, mem_toList_insert, List.mem_cons]
    grind

/-- The set of a list has the list's members. What the list tells beyond them, order and repetition,
is lost. -/
@[simp] theorem mem_toList_ofList {names : List String} {tested : String} :
    tested ∈ (ofList names).toList ↔ tested ∈ names := by
  rw [ofList, mem_toList_foldl_insert]
  simp [empty]

end Names

end TextDecoration
