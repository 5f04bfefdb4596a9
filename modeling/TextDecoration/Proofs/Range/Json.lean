import TextDecoration.CommandLine.Invocation
import TextDecoration.Proofs.Json.Reader
import TextDecoration.Proofs.Registry.Lookups

/-!
# Ranges are read back from JSON

A reader of JSON recovers the ranges from what is printed for them. It looks a member of an object
up by its name, wherever the member stands, and takes a range without an alias among the members for
one that has none; an alias without characters is a different thing.

So ranges that are printed alike are the same ranges, in the same order.
-/

namespace TextDecoration

namespace Json.Value

/-- The text of a string; other values have none. -/
def text? : Value → Option String
  | .string text => some text
  | _ => none

/-- The number that a value is, if it is one. -/
def count? : Value → Option Nat
  | .number n => some n
  | _ => none

/-- What is read of an array, element by element. One element that cannot be read makes the array
unreadable. -/
def elements? {α : Type} (read : Value → Option α) : Value → Option (List α)
  | .array elements => elements.mapM read
  | _ => none

/-- An array is read back if its elements are, in their order. -/
theorem elements?_array {α : Type} {read : Value → Option α} {print : α → Value}
    (reads : ∀ item, read (print item) = some item) (items : List α) :
    elements? read (.array (items.map print)) = some items := by
  rw [elements?]
  induction items with
  | nil => rfl
  | cons item later inductionHypothesis =>
    rw [List.map_cons, List.mapM_cons, reads, inductionHypothesis]
    rfl

end Json.Value

/-- A set is the set of its members. A set of names is stored in one way only. -/
theorem Names.ofList_toList (set : Names) : Names.ofList set.toList = set := by
  apply Names.eq_of_toList_eq
  rw [Names.eq_toList_iff]
  constructor
  · exact (Names.ofList set.toList).ascending
  · simp

namespace Range

/-- The range that an object stands for. Members are found by name, and a member that is not known
does no harm. -/
def ofJson? : Json.Value → Option Range
  | .object members => do
    let tags ← (← members.lookup "tags").elements? Json.Value.text?
    let fallback ← match members.lookup "alias" with
      | some name => name.text?.map some
      | none => some none
    let start ← (← members.lookup "start").count?
    let stop ← (← members.lookup "end").count?
    let path ← (← members.lookup "path").elements? Json.Value.count?
    return { tags := Names.ofList tags, fallback, start, stop, path }
  | _ => none

/-- A range is recovered from its JSON value, with or without an alias. -/
theorem ofJson?_toJson (range : Range) : ofJson? range.toJson = some range := by
  obtain ⟨tags, fallback, start, stop, path⟩ := range
  have categories := Json.Value.elements?_array (fun name => rfl : ∀ name : String,
    Json.Value.text? (.string name) = some name) tags.toList
  have indices := Json.Value.elements?_array (fun n => rfl : ∀ n : Nat,
    Json.Value.count? (.number n) = some n) path
  cases fallback with
  | none => simp [toJson, ofJson?, List.lookup_cons, categories, indices, Json.Value.count?,
      Names.ofList_toList]
  | some name => simp [toJson, ofJson?, List.lookup_cons, categories, indices, Json.Value.count?,
      Json.Value.text?, Names.ofList_toList]

/-- What is printed for ranges as JSON: an array in the layout with one member on a line, and a line
feed. -/
def printedJson (ranges : List Range) : String :=
  unlines [(Json.Value.array (ranges.map toJson)).pretty]

/-- The ranges that a JSON text stands for, if it stands for any. The layout is not looked at. -/
def readJson? (text : String) : Option (List Range) := do
  (← Json.read? text).elements? ofJson?

/-- Ranges are recovered from what is printed for them, whatever characters stand in their tags. -/
theorem readJson?_printedJson (ranges : List Range) :
    readJson? (printedJson ranges) = some ranges := by
  have whole : printedJson ranges = (Json.Value.array (ranges.map toJson)).pretty ++ "\n" := by
    simp [printedJson, unlines]
  have blank : ∀ c ∈ "\n".toList, Json.isGap c = true := List.forall_mem_singleton.mpr (by decide)
  rw [readJson?, whole, Json.read?_pretty _ blank]
  exact Json.Value.elements?_array ofJson?_toJson ranges

/-- Printed JSON stands for one list of ranges only: a reader recovers it, and ranges that are
printed alike are the same. It is what a run prints that is asked for JSON. -/
theorem printedJson_decodable (ranges : List Range) :
    readJson? (printedJson ranges) = some ranges ∧
      (∀ others, printedJson ranges = printedJson others ↔ ranges = others) ∧
      ∀ (decorator : Decorator) (buffer : Buffer), OutputMode.json.written decorator buffer =
        printedJson (decorator.decorate buffer.textNodes) := by
  refine ⟨readJson?_printedJson ranges, fun others => ⟨fun same => ?_, ?_⟩, fun _ _ => rfl⟩
  · have read := readJson?_printedJson ranges
    rw [same, readJson?_printedJson others, Option.some.injEq] at read
    exact read.symm
  · rintro rfl
    rfl

/-- Neither the layout nor the order of members matters to the reader. -/
example : readJson? "[\x7b\"path\":[0],\"end\":2,\"start\":1,\"tags\":[\"b\"],\"alias\":\"\"\x7d]" =
      some [{ tags := Names.single "b", fallback := some "", start := 1, stop := 2
              path := [0] }] := by
  decide +kernel

end Range

end TextDecoration
