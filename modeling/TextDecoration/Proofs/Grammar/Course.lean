import TextDecoration.Grammar.Find

/-!
# The course of a search for a token

To find a token is to search again and again: a fit that leaves an empty token is passed over, and
the next search begins one character behind its end. `Engine.Course` describes such a course without
a bound on its length: the positions searched from and what is found in the end. Every search begins
behind the one before and in the text, so finding a token follows its course to the end.
-/

namespace TextDecoration.Engine

/-- Positions that finding a token searches from, in order, at most `count` of them. -/
def searchesWithin (engine : Engine) (pattern : Pattern) (lookbehind : Bool) (text : Array Char) :
    (count position : Nat) → List Nat
  | 0, _ => []
  | count + 1, position =>
    position ::
      match engine pattern text position with
      | none => []
      | some fit =>
        let hit := fit.hit lookbehind
        let next := max fit.stop position
        if hit.start < hit.stop then []
        else if next < text.size then
          searchesWithin engine pattern lookbehind text count (next + 1)
        else []

/-- Positions that finding a token at or behind a position searches from, in order. No position
behind the text's end is among them. -/
def searches (engine : Engine) (pattern : Pattern) (lookbehind : Bool) (text : Array Char)
    (start : Nat) : List Nat :=
  engine.searchesWithin pattern lookbehind text (text.size + 1 - start) start

section Course

variable (engine : Engine) (pattern : Pattern) (lookbehind : Bool) (text : Array Char)

/-- The course of finding a token: from a position, over the positions searched from, to what is
found. -/
inductive Course : (position : Nat) → (searches : List Nat) → (found : Option Hit) → Prop where
  /-- Nothing fits, so nothing is found. -/
  | missed {position : Nat} (nothing : engine pattern text position = none) :
      Course position [position] none
  /-- The fit has a token, which is found. No later position is searched from. -/
  | found {position : Nat} {fit : Pattern.Fit}
      (located : engine pattern text position = some fit)
      (filled : (fit.hit lookbehind).start < (fit.hit lookbehind).stop) :
      Course position [position] (some (fit.hit lookbehind))
  /-- The fit leaves an empty token at the text's end, so there is no position left. -/
  | atEnd {position : Nat} {fit : Pattern.Fit}
      (located : engine pattern text position = some fit)
      (idle : ¬(fit.hit lookbehind).start < (fit.hit lookbehind).stop)
      (last : ¬max fit.stop position < text.size) : Course position [position] none
  /-- The fit leaves an empty token, and the search goes on one position behind the fit's end. -/
  | onward {position : Nat} {fit : Pattern.Fit} {searches : List Nat} {found : Option Hit}
      (located : engine pattern text position = some fit)
      (idle : ¬(fit.hit lookbehind).start < (fit.hit lookbehind).stop)
      (inside : max fit.stop position < text.size)
      (later : Course (max fit.stop position + 1) searches found) :
      Course position (position :: searches) found

variable {engine pattern lookbehind text}

/-- With at least as many steps as positions left, finding a token follows its course. -/
theorem findWithin_course {count position : Nat} (inside : position ≤ text.size)
    (enough : text.size + 1 - position ≤ count) :
    Course engine pattern lookbehind text position
      (engine.searchesWithin pattern lookbehind text count position)
      (engine.findWithin pattern lookbehind text count position) := by
  induction count generalizing position with
  | zero => omega
  | succ count inductionHypothesis =>
    rw [searchesWithin, findWithin]
    cases located : engine pattern text position with
    | none => exact Course.missed located
    | some fit =>
      dsimp only
      split
      · next filled => exact Course.found located filled
      · next idle =>
        split
        · next within =>
          exact Course.onward located idle within (inductionHypothesis within (by omega))
        · next last => exact Course.atEnd located idle last

/-- Finding a token follows its course. What is to be shown of finding can be shown along the
course, with no count of steps in it. -/
theorem find_course {start : Nat} (inside : start ≤ text.size) :
    Course engine pattern lookbehind text start
      (engine.searches pattern lookbehind text start)
      (engine.find pattern lookbehind text start) :=
  findWithin_course inside (Nat.le_refl _)

/-- Behind the text's end nothing is searched and nothing found. This is no step of a course, which
begins inside the text. -/
theorem find_beyond {start : Nat} (beyond : text.size < start) :
    engine.find pattern lookbehind text start = none := by
  have none : text.size + 1 - start = 0 := by omega
  rw [find, none, findWithin]

/-- There is one course from a position. Each of its cases excludes the others, and the next
position is computed. -/
theorem Course.unique {position : Nat} {searches others : List Nat} {found other : Option Hit}
    (one : Course engine pattern lookbehind text position searches found)
    (another : Course engine pattern lookbehind text position others other) :
    searches = others ∧ found = other := by
  induction one generalizing others other with
  | missed nothing =>
    cases another with
    | missed _ => exact ⟨rfl, rfl⟩
    | found located | atEnd located | onward located => cases nothing.symm.trans located
  | found located filled =>
    cases another with
    | missed nothing => cases nothing.symm.trans located
    | found located' filled' =>
      cases located.symm.trans located'
      exact ⟨rfl, rfl⟩
    | atEnd located' idle | onward located' idle =>
      cases located.symm.trans located'
      exact absurd filled idle
  | atEnd located idle last =>
    cases another with
    | missed nothing => cases nothing.symm.trans located
    | found located' filled =>
      cases located.symm.trans located'
      exact absurd filled idle
    | atEnd _ _ _ => exact ⟨rfl, rfl⟩
    | onward located' _ inside =>
      cases located.symm.trans located'
      exact absurd inside last
  | onward located idle inside later inductionHypothesis =>
    cases another with
    | missed nothing => cases nothing.symm.trans located
    | found located' filled =>
      cases located.symm.trans located'
      exact absurd filled idle
    | atEnd located' _ last =>
      cases located.symm.trans located'
      exact absurd inside last
    | onward located' _ _ later' =>
      cases located.symm.trans located'
      obtain ⟨same, equal⟩ := inductionHypothesis later'
      exact ⟨congrArg _ same, equal⟩

end Course

end TextDecoration.Engine
