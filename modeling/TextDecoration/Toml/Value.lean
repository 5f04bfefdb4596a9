/-!
# Values of a TOML document

A document is a table. The entries of a table stand in the order in which their keys first occur in
the document. How a table was written (under a header, in braces, by dotted keys) is not kept.
-/

namespace TextDecoration.Toml

/-- A value. An array may hold values of different kinds, and a table keeps the order in which its
keys were written. -/
inductive Value where
  | string (text : String)
  | integer (n : Int)
  | float (x : Float)
  | boolean (b : Bool)
  /-- A date, a time of day or both, as written. It is checked and kept, but nothing is computed
  with it. -/
  | moment (text : String)
  | array (elements : List Value)
  | table (entries : List (String × Value))
  deriving Inhabited

namespace Value

mutual
/-- Whether two values are the same. Numbers with a fraction are compared as they are stored, so
that such a number is the same as itself also where it is no finite one. -/
def same : Value → Value → Bool
  | .string text, .string other => text == other
  | .integer n, .integer m => n == m
  | .float x, .float y => x = y
  | .boolean b, .boolean c => b == c
  | .moment text, .moment other => text == other
  | .array elements, .array others => sameElements elements others
  | .table entries, .table others => sameEntries entries others
  | _, _ => false

/-- Whether two lists have the same values, in the same order. -/
def sameElements : List Value → List Value → Bool
  | [], [] => true
  | element :: elements, other :: others => same element other && sameElements elements others
  | _, _ => false

/-- Whether two entries have the same value under the same key. -/
def sameEntry : String × Value → String × Value → Bool
  | (name, value), (otherName, other) => name == otherName && same value other

/-- Whether two tables have the same entries. Their order counts as well. -/
def sameEntries : List (String × Value) → List (String × Value) → Bool
  | [], [] => true
  | entry :: entries, other :: others => sameEntry entry other && sameEntries entries others
  | _, _ => false
end

mutual
/-- Values are found the same exactly if they are equal. Values of different kinds are never the
same, and arrays and tables are compared part by part. -/
theorem same_iff : ∀ value other : Value, same value other = true ↔ value = other
  | .string _, other | .integer _, other | .float _, other | .boolean _, other
  | .moment _, other => by cases other <;> simp [same]
  | .array elements, other => by
    cases other with
    | array others => rw [same, sameElements_iff, array.injEq]
    | _ => simp [same]
  | .table entries, other => by
    cases other with
    | table others => rw [same, sameEntries_iff, table.injEq]
    | _ => simp [same]

/-- Lists of values are found the same exactly if they are equal. -/
theorem sameElements_iff :
    ∀ elements others : List Value, sameElements elements others = true ↔ elements = others
  | [], others => by cases others <;> simp [sameElements]
  | element :: elements, others => by
    cases others with
    | nil => simp [sameElements]
    | cons other others =>
      rw [sameElements, Bool.and_eq_true, same_iff, sameElements_iff, List.cons.injEq]

/-- Entries are found the same exactly if they are equal. -/
theorem sameEntry_iff :
    ∀ entry other : String × Value, sameEntry entry other = true ↔ entry = other
  | (name, value), (otherName, other) => by
    rw [sameEntry, Bool.and_eq_true, beq_iff_eq, same_iff, Prod.mk.injEq]

/-- Lists of entries are found the same exactly if they are equal. -/
theorem sameEntries_iff : ∀ entries others : List (String × Value),
    sameEntries entries others = true ↔ entries = others
  | [], others => by cases others <;> simp [sameEntries]
  | entry :: entries, others => by
    cases others with
    | nil => simp [sameEntries]
    | cons other others =>
      rw [sameEntries, Bool.and_eq_true, sameEntry_iff, sameEntries_iff, List.cons.injEq]
end

instance : DecidableEq Value := fun value other =>
  decidable_of_iff (same value other = true) (same_iff value other)

end Value

end TextDecoration.Toml
