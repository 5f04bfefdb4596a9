import TextDecoration.Grammar.Find
import TextDecoration.Proofs.Pattern.Sweep
import TextDecoration.Proofs.Pattern.Ways

/-!
# Fits lie inside the text

A search reports stretches of the text it was given: a fit begins at or behind the position that
the search began at, does not end before it begins, and ends at the text's end at the latest. This
is all that cutting relies on, and it holds of the searches that follow leads side by side as well
as of those that retry. Nothing is said about the end of the first group, which may lie anywhere,
nor about which stretch is preferred.

For retrying this is a fact about the ways of a tree: each of them ends between its position and the
text's end. Back-references, look-around and loops pass that position on and add nothing of their
own.
-/

namespace TextDecoration

/-- What is relied on of an engine. A search inside the text reports no fit that begins before the
position searched from, ends before it begins, or ends behind the text. -/
structure Engine.Sound (engine : Engine) : Prop where
  /-- No fit begins before the position that the search began at. -/
  ahead {pattern : Pattern} {text : Array Char} {position : Nat} {fit : Pattern.Fit}
    (inside : position ≤ text.size) (located : engine pattern text position = some fit) :
    position ≤ fit.start
  /-- No fit ends before it begins. -/
  ordered {pattern : Pattern} {text : Array Char} {position : Nat} {fit : Pattern.Fit}
    (inside : position ≤ text.size) (located : engine pattern text position = some fit) :
    fit.start ≤ fit.stop
  /-- No fit ends behind the text. -/
  within {pattern : Pattern} {text : Array Char} {position : Nat} {fit : Pattern.Fit}
    (inside : position ≤ text.size) (located : engine pattern text position = some fit) :
    fit.stop ≤ text.size

namespace Pattern

/-- Characters that stand at a position of the text end in the text, so a reference to a group does
not leave it. -/
theorem standsAt_bound {text : Array Char} {ignoreCase : Bool} {cs : List Char} {position : Nat}
    (inside : position ≤ text.size) (stands : standsAt text ignoreCase cs position = true) :
    position + cs.length ≤ text.size := by
  induction cs generalizing position with
  | nil => exact inside
  | cons c cs inductionHypothesis =>
    rw [standsAt] at stands
    split at stands
    · next d present =>
      obtain ⟨bound, _⟩ := Array.getElem?_eq_some_iff.mp present
      have later : position + 1 + cs.length ≤ text.size :=
        inductionHypothesis bound (Bool.and_eq_true_iff.mp stands).2
      rw [List.length_cons]
      omega
    · cases stands

/-- A place from which the text is not left: if the first place lies in the text, the second one
does, at the first one or behind it. -/
def Onward (text : Array Char) (first second : Stretch) : Prop :=
  first.stop ≤ text.size → first.stop ≤ second.stop ∧ second.stop ≤ text.size

/-- Further iterations of a body whose ways stay in the text stay in the text. The induction is on
the iterations that are allowed. -/
theorem iterations_bounds {text : Array Char} {greedy : Bool} {body : Nat → Slots → List Stretch}
    (bounds : ∀ position slots way, position ≤ text.size → way ∈ body position slots →
      position ≤ way.stop ∧ way.stop ≤ text.size)
    {ahead position : Nat} {slots : Slots} {way : Stretch} (inside : position ≤ text.size)
    (among : way ∈ iterations greedy body ahead position slots) :
    position ≤ way.stop ∧ way.stop ≤ text.size := by
  have refl : ∀ place, Onward text place place := fun place within => ⟨Nat.le_refl _, within⟩
  have trans : ∀ first second third, Onward text first second → Onward text second third →
      Onward text first third := by
    intro first second third ahead behind within
    obtain ⟨further, reached⟩ := ahead within
    obtain ⟨last, ends⟩ := behind reached
    exact ⟨Nat.le_trans further last, ends⟩
  exact iterations_related (Onward text) refl trans
    (fun position slots way taken within => bounds position slots way within taken) among inside

/-- Every way of a tree from a position in the text ends between that position and the text's end.
Looking around does not move the position. -/
theorem Node.ways_bounds {text : Array Char} (node : Node) {position : Nat} {slots : Slots}
    {way : Stretch} (inside : position ≤ text.size) (among : way ∈ node.ways text position slots) :
    position ≤ way.stop ∧ way.stop ≤ text.size := by
  induction node generalizing position slots way with
  | empty =>
    cases List.mem_singleton.mp among
    exact ⟨Nat.le_refl position, inside⟩
  | char set =>
    obtain ⟨c, present, _, rfl⟩ := Node.mem_ways_char.mp among
    obtain ⟨bound, _⟩ := Array.getElem?_eq_some_iff.mp present
    exact ⟨Nat.le_succ position, bound⟩
  | anchor condition =>
    obtain ⟨_, rfl⟩ := Node.mem_ways_anchor.mp among
    exact ⟨Nat.le_refl position, inside⟩
  | mark slot =>
    cases Node.mem_ways_mark.mp among
    exact ⟨Nat.le_refl position, inside⟩
  | seq first second firstBounds secondBounds =>
    obtain ⟨middle, taken, later⟩ := Node.mem_ways_seq.mp among
    obtain ⟨behind, within⟩ := firstBounds inside taken
    obtain ⟨further, ends⟩ := secondBounds within later
    exact ⟨Nat.le_trans behind further, ends⟩
  | alt first second firstBounds secondBounds =>
    rcases Node.mem_ways_alt.mp among with taken | taken
    · exact firstBounds inside taken
    · exact secondBounds inside taken
  | optional greedy body bodyBounds =>
    rcases Node.mem_ways_optional.mp among with taken | rfl
    · exact bodyBounds inside taken
    · exact ⟨Nat.le_refl position, inside⟩
  | star greedy body bodyBounds | more greedy body bodyBounds =>
    exact iterations_bounds (fun _ _ _ inside taken => bodyBounds inside taken) inside among
  | plus greedy body bodyBounds =>
    obtain ⟨first, taken, later⟩ := Node.mem_ways_plus.mp among
    obtain ⟨behind, within⟩ := bodyBounds inside taken
    obtain ⟨further, ends⟩ :=
      iterations_bounds (fun _ _ _ inside taken => bodyBounds inside taken) within later
    exact ⟨Nat.le_trans behind further, ends⟩
  | backref ignoreCase group =>
    obtain ⟨cs, _, stands, rfl⟩ := Node.mem_ways_backref.mp among
    exact ⟨Nat.le_add_right position cs.length, standsAt_bound inside stands⟩
  | look behind negated body bodyBounds =>
    cases behind with
    | false | true =>
      rcases mem_lookedFrom.mp among with ⟨_, _, _, rfl⟩ | ⟨_, _, rfl⟩
      · exact ⟨Nat.le_refl position, inside⟩
      · exact ⟨Nat.le_refl position, inside⟩
  | atomic body bodyBounds =>
    rw [Node.ways] at among
    split at among
    · exact Node.preferred_bounds inside (Option.mem_toList.mp among)
    · exact bodyBounds inside (List.mem_of_head? (Option.mem_toList.mp among))

/-- The first position at which a regular tree fits is among those tried, and the fit lies between
it and the text's end. -/
theorem firstFit_bounds {text : Array Char} {node : Node} {slots : Slots} {count position : Nat}
    {fit : Fit} (tried : position + count ≤ text.size + 1)
    (found : firstFit text node slots count position = some fit) :
    position ≤ fit.start ∧ fit.start ≤ fit.stop ∧ fit.stop ≤ text.size := by
  induction count generalizing position with
  | zero => cases found
  | succ count inductionHypothesis =>
    rw [firstFit] at found
    split at found
    · next stretch preferred =>
      cases found
      have inside : position ≤ text.size := by omega
      exact ⟨Nat.le_refl position, Node.preferred_bounds inside preferred⟩
    · obtain ⟨ahead, bounds⟩ := inductionHypothesis (by omega) found
      exact ⟨Nat.le_of_succ_le ahead, bounds⟩

/-- The first position at which a tree fits that is searched by retrying is among those tried, and
the fit lies between it and the text's end. -/
theorem firstFitRetrying_bounds {text : Array Char} {node : Node} {slots : Slots}
    {count position allowance : Nat} {fit : Fit} (tried : position + count ≤ text.size + 1)
    (found : firstFitRetrying text node slots count position allowance = some fit) :
    position ≤ fit.start ∧ fit.start ≤ fit.stop ∧ fit.stop ≤ text.size := by
  obtain ⟨ahead, before, stored, preferred, _⟩ := firstFitRetrying_way found
  exact ⟨ahead, node.ways_bounds (by omega) (List.mem_of_head? preferred)⟩

/-- The fits that this library's search reports lie in the text, at or behind the position, for
either kind of search. -/
theorem locate_bounds {pattern : Pattern} {text : Array Char} {position : Nat} {fit : Fit}
    (inside : position ≤ text.size) (located : pattern.locate text position = some fit) :
    position ≤ fit.start ∧ fit.start ≤ fit.stop ∧ fit.stop ≤ text.size := by
  have tried : position + (text.size + 1 - position) ≤ text.size + 1 := by omega
  unfold locate at located
  split at located
  · exact firstFitRetrying_bounds tried located
  · exact firstFit_bounds tried located

/-- The engine of this library is sound, for every pattern that either dialect admits. -/
theorem locate_sound : Engine.Sound Pattern.locate where
  ahead inside located := (locate_bounds inside located).1
  ordered inside located := (locate_bounds inside located).2.1
  within inside located := (locate_bounds inside located).2.2

end Pattern

end TextDecoration
