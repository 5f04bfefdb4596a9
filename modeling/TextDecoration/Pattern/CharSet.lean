import TextDecoration.Unicode.Word
import TextDecoration.Unicode.Digit
import TextDecoration.Unicode.Blank
import TextDecoration.Unicode.CaseMap

/-!
# Sets of characters

What one position of a pattern admits, written as an expression over ranges and the three named
classes. An expression stays as it was read; membership evaluates it. Ignoring case changes
the expression: each range then admits the case mates of its members, while complements and
the named classes, which are closed under case mates, keep their shape. So a negated class is
widened first and negated afterwards.
-/

namespace TextDecoration.Pattern

open Unicode

/-- A set of characters, as a class of a pattern describes it. Two descriptions may stand for one
set. -/
inductive CharSet where
  /-- No character at all. -/
  | none
  /-- The characters from `first` to `last`, both included. -/
  | range (first last : Char)
  /-- Every character with a case mate between `first` and `last`. -/
  | mates (first last : Char)
  /-- Word characters. -/
  | word
  /-- Decimal digits. -/
  | digit
  /-- White space. -/
  | blank
  /-- Members of either set. -/
  | union (left right : CharSet)
  /-- Members of both sets. -/
  | inter (left right : CharSet)
  /-- All characters outside a set. -/
  | compl (set : CharSet)
  deriving DecidableEq, Inhabited

namespace CharSet

/-- The set of one character, as a range that begins and ends with it. -/
def single (c : Char) : CharSet := .range c c

/-- The characters of several ranges. -/
def ofRanges (ranges : List (Char × Char)) : CharSet :=
  ranges.foldl (fun set ends => .union set (.range ends.1 ends.2)) .none

/-- Every character, the line feed among them: what a dot admits where lines do not matter. -/
def all : CharSet := .compl .none

/-- Every character but the line feed: what a dot admits inside one line. -/
def notNewline : CharSet := .compl (single '\n')

/-- Whether a character lies between two others, both included. The order is that of code points. -/
def between (first last c : Char) : Bool := first ≤ c && c ≤ last

/-- Membership, decided by the description alone. -/
def contains : CharSet → Char → Bool
  | .none, _ => false
  | .range first last, c => between first last c
  | .mates first last, c => (caseMates c).any (between first last)
  | .word, c => isWord c
  | .digit, c => isDigit c
  | .blank, c => isBlank c
  | .union left right, c => left.contains c || right.contains c
  | .inter left right, c => left.contains c && right.contains c
  | .compl set, c => !set.contains c

/-- The set read without regard to case: every range takes in the mates of its members. The classes
that are closed under case already stay as they are. -/
def ignoringCase : CharSet → CharSet
  | .range first last => .mates first last
  | .union left right => .union left.ignoringCase right.ignoringCase
  | .inter left right => .inter left.ignoringCase right.ignoringCase
  | .compl set => .compl set.ignoringCase
  | set => set

/-- The set of one character has that character and no other one. -/
@[simp] theorem contains_single (c d : Char) : (single c).contains d = decide (d = c) := by
  have antisymmetric : (c ≤ d ∧ d ≤ c) ↔ d = c :=
    ⟨fun h => Char.le_antisymm h.2 h.1, fun h => by subst h; exact ⟨Char.le_refl _, Char.le_refl _⟩⟩
  simp [single, contains, between, ← antisymmetric, Bool.decide_and]

/-- No character is outside the set of all characters. -/
@[simp] theorem contains_all (c : Char) : all.contains c = true := rfl

/-- The line feed is the one character that a dot does not admit inside a line. -/
@[simp] theorem contains_notNewline (c : Char) : notNewline.contains c = !decide (c = '\n') := by
  simp [notNewline, contains]

end CharSet

end TextDecoration.Pattern
