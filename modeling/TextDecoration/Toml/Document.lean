import TextDecoration.Toml.Statement

/-!
# TOML documents

The statements of a document are carried out in order; a document is valid if each of them may stand
where it stands.
-/

namespace TextDecoration.Toml

/-- A document read in part: all tables so far, and the path of the one that entries go to. The path
is the last header's, or empty before the first one. -/
structure Progress where
  root : Draft.Entries
  here : List String

namespace Progress

/-- Nothing read yet: no table but the root, and entries go there. -/
def start : Progress := ⟨[], []⟩

/-- Carry out a statement, if it may stand here. A header says where later entries go; an assignment
is the only statement that brings a value. -/
def carryOut? (progress : Progress) : Statement → Option Progress
  | .table key => do
    let root ← Draft.within? false (fun _ => Draft.openTable? key.name) key.path .written
      progress.root
    return ⟨root, key.path ++ [key.name]⟩
  | .element key => do
    let root ← Draft.within? false (fun _ => Draft.openElement? key.name) key.path .written
      progress.root
    return ⟨root, key.path ++ [key.name]⟩
  | .entry key value => do
    let root ← Draft.within? false (Draft.put? key value) progress.here .written progress.root
    return { progress with root }

end Progress

/-- The text behind a mark of byte order, if there is one. Only the first such mark is no part of
the document. -/
def skipByteOrderMark : List Char → List Char
  | '\ufeff' :: cs => cs
  | cs => cs

/-- The entries of a document's root table, if the text is a document. What is wrong with any other
text is not told. -/
def document? (text : String) : Option (List (String × Value)) := do
  let cs := skipByteOrderMark text.toList
  let statements ← statements? (cs.length + 1) cs
  let progress ← statements.foldlM Progress.carryOut? Progress.start
  return Draft.finishedEntries progress.root

end TextDecoration.Toml
