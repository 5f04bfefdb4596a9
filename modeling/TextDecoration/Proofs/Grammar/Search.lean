import TextDecoration.Proofs.Grammar.Course
import TextDecoration.Proofs.Pattern.Bounds

/-!
# Tokens found by a search

Whatever a sound engine reports, a token that a search finds lies in the text at or behind the
position that the search began at, and it is not empty. The end of the first group can push the
token's start on but never before the fit's own start. A group that ends behind the fit makes the
token empty, so such a fit is passed over.
-/

namespace TextDecoration

namespace Engine

variable {engine : Engine} {pattern : Pattern} {lookbehind : Bool} {text : Array Char}

/-- The token of a fit begins where the fit begins or behind it. The group's end counts only if it
lies behind the fit's start. -/
theorem origin_le_start (fit : Pattern.Fit) :
    (fit.hit lookbehind).origin ≤ (fit.hit lookbehind).start := by
  simp only [Pattern.Fit.hit]
  split <;> omega

/-- A token in which a course ends is that of a fit that the engine reports, at the position
searched from last. All fits before it have left empty tokens. -/
theorem Course.fit {position : Nat} {searches : List Nat} {found : Option Hit} {hit : Hit}
    (course : Course engine pattern lookbehind text position searches found)
    (inside : position ≤ text.size) (token : found = some hit) :
    ∃ reached fit, position ≤ reached ∧ reached ≤ text.size ∧
      engine pattern text reached = some fit ∧ hit = fit.hit lookbehind ∧ hit.start < hit.stop := by
  induction course with
  | missed => cases token
  | atEnd => cases token
  | found located filled =>
    cases token
    exact ⟨_, _, Nat.le_refl _, inside, located, rfl, filled⟩
  | onward _ _ within _ inductionHypothesis =>
    obtain ⟨reached, fit, behind, later⟩ := inductionHypothesis within token
    exact ⟨reached, fit, by omega, later⟩

/-- A search finds the token of a fit that the engine reports, for one of the positions that it
comes to. -/
theorem find_fit {start : Nat} {hit : Hit}
    (found : engine.find pattern lookbehind text start = some hit) :
    ∃ reached fit, start ≤ reached ∧ reached ≤ text.size ∧
      engine pattern text reached = some fit ∧ hit = fit.hit lookbehind ∧ hit.start < hit.stop := by
  by_cases inside : start ≤ text.size
  · exact (find_course inside).fit inside found
  · cases (find_beyond (Nat.lt_of_not_le inside)).symm.trans found

/-- A search finds a token only where the text has it, and at or behind the position that it started
from. -/
theorem find_bounds (sound : engine.Sound) {start : Nat} {hit : Hit}
    (found : engine.find pattern lookbehind text start = some hit) :
    start ≤ hit.origin ∧ hit.origin ≤ hit.start ∧ hit.start < hit.stop ∧
      hit.stop ≤ text.size := by
  obtain ⟨reached, fit, behind, inside, located, rfl, filled⟩ := find_fit found
  exact ⟨Nat.le_trans behind (sound.ahead inside located), origin_le_start fit, filled,
    sound.within inside located⟩

end Engine

end TextDecoration
