import TextDecoration.Toml.Value

/-!
# Tables that are being written

Headers and dotted keys add to tables step by step, and what may be added depends on how a table
came about. A table that was written out is never written again, and a dotted key may not reach
into it. A table that only a longer header implies may still get a header of its own. A table that
dotted keys made grows by dotted keys only.
-/

namespace TextDecoration.Toml

/-- How a table came about. It decides what may still be added to the table, and how. -/
inductive Origin where
  /-- A table that was written: under a header, in braces, or as the document itself. -/
  | written
  /-- A table that is on the way of a header. -/
  | implied
  /-- A table that is on the way of a dotted key. -/
  | dotted
  deriving DecidableEq

/-- A part of a document that may still grow. A value is complete as soon as it is there; tables may
be added to by later statements. -/
inductive Draft where
  | value (value : Value)
  | table (origin : Origin) (entries : List (String × Draft))
  /-- An array of tables, each under a header of its own. -/
  | tables (earlier : List (List (String × Draft))) (last : List (String × Draft))

/-- A key: its last part names an entry, the parts before it lead to the table. -/
structure Key where
  path : List String
  name : String

namespace Draft

/-- The entries of a table in order, each key once. -/
abbrev Entries := List (String × Draft)

/-- The entries with the one under a name made anew from the one there, if any. A new name goes to
the end, and an old one keeps its place. -/
def alter? (name : String) (change : Option Draft → Option Draft) : Entries → Option Entries
  | [] => do return [(name, ← change none)]
  | (other, draft) :: later => do
    if other = name then return (other, ← change (some draft)) :: later
    else return (other, draft) :: (← alter? name change later)

/-- Change the entries of the table at a path's end, and make the tables that are not there yet.
    In an array of tables the path goes on in the last one. A path of dotted keys does not lead
    through tables that were written. -/
def within? (byDots : Bool) (change : Origin → Entries → Option Entries) :
    List String → Origin → Entries → Option Entries
  | [], origin, entries => change origin entries
  | name :: path, _, entries =>
    alter? name
      (fun
        | none =>
          let origin : Origin := if byDots then .dotted else .implied
          (within? byDots change path origin []).map (.table origin)
        | some (.table origin inner) =>
          if byDots && origin = .written then none
          else (within? byDots change path origin inner).map (.table origin)
        | some (.tables earlier last) =>
          (within? byDots change path .written last).map (.tables earlier)
        | some (.value _) => none)
      entries

/-- Give a value to a key. There is none yet, since no value is ever replaced, and dotted keys alone
add to what dotted keys made. -/
def put? (key : Key) (value : Value) (origin : Origin) (entries : Entries) : Option Entries :=
  within? true
    (fun origin entries =>
      if decide (origin = .dotted) = key.path.isEmpty then none
      else alter? key.name (fun old => if old.isNone then some (.value value) else none) entries)
    key.path origin entries

/-- Open the table under a header. If it is implied so far, it moves behind the tables there; if it
was written, it cannot be opened once more. -/
def openTable? (name : String) (entries : Entries) : Option Entries :=
  match entries.lookup name with
  | none => some (entries ++ [(name, .table .written [])])
  | some (.table .implied inner) =>
    some (entries.filter (fun entry => entry.1 ≠ name) ++ [(name, .table .written inner)])
  | some _ => none

/-- Open a further table of an array of tables. What is under the name has to be such an array
already, or nothing. -/
def openElement? (name : String) : Entries → Option Entries :=
  alter? name fun
    | none => some (.tables [] [])
    | some (.tables earlier last) => some (.tables (earlier ++ [last]) [])
    | some _ => none

mutual
/-- What the draft amounts to, when nothing more is added. How its tables came about is
forgotten. -/
def finished : Draft → Value
  | .value known => known
  | .table _ entries => .table (finishedEntries entries)
  | .tables earlier last => .array (finishedTables earlier ++ [.table (finishedEntries last)])

/-- What the entries amount to, under the same keys in the same order. -/
def finishedEntries : List (String × Draft) → List (String × Value)
  | [] => []
  | entry :: later => finishedEntry entry :: finishedEntries later

/-- What an entry amounts to. -/
def finishedEntry : String × Draft → String × Value
  | (name, draft) => (name, finished draft)

/-- What a list of tables amounts to, table by table. -/
def finishedTables : List (List (String × Draft)) → List Value
  | [] => []
  | entries :: later => .table (finishedEntries entries) :: finishedTables later
end

end Draft

end TextDecoration.Toml
