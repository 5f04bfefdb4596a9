import Mathlib.Data.List.Basic
import TextDecoration.Proofs.Pattern.Advances

/-!
# Ends of steady trees

A regular tree takes the same stretches whatever the slots hold, so what it takes from a position is
told by a list of ends. For *steady* trees, regular ones in which every iteration of a loop takes
some text, this list follows the tree: a sequence goes on from each end of its first part, a loop
from each end of its body, and a loop that may be left lists its own position before the others or
behind them.

In other regular trees an empty iteration is given up by the bound on the ways of a loop, and the
equation for loops does not hold.
-/

namespace TextDecoration.Pattern

/-- Whether a tree is regular and every iteration of its loops takes some text. Both kinds of search
agree on such trees. -/
def Node.steady : Node → Bool
  | .empty | .char _ | .anchor _ | .mark _ => true
  | .seq first second | .alt first second => first.steady && second.steady
  | .optional _ body => body.steady
  | .star _ body | .plus _ body | .more _ body => body.advances && body.steady
  | .backref _ _ | .look _ _ _ | .atomic _ => false

/-- Ends of a tree's ways from a position, best first. The slots are forgotten. -/
def Node.ends (text : Array Char) (node : Node) (position : Nat) : List Nat :=
  (node.ways text position []).map Stretch.stop

/-- The ends of a loop's iterations with the position at which the loop may be left, in the order
that the loop prefers. -/
def leaving (greedy : Bool) (position : Nat) (ends : List Nat) : List Nat :=
  if greedy then ends ++ [position] else position :: ends

section Ends

variable {text : Array Char} {position : Nat} {slots : Slots}

/-- Ways with the position at which a loop may be left have the ends of these ways with it, in the
same order. -/
theorem map_stop_inOrder (greedy : Bool) (ways : List Stretch) :
    (inOrder greedy ways [⟨position, slots⟩]).map Stretch.stop =
      leaving greedy position (ways.map Stretch.stop) := by
  cases greedy with
  | false => rfl
  | true => exact List.map_append

/-- Ways that go on from each of some ways have the ends that go on from each of their ends, if what
goes on depends on the ends alone. -/
theorem map_stop_flatMap {ways : List Stretch} {on : Stretch → List Stretch} (ends : Nat → List Nat)
    (same : ∀ way ∈ ways, (on way).map Stretch.stop = ends way.stop) :
    (ways.flatMap on).map Stretch.stop = (ways.map Stretch.stop).flatMap ends := by
  rw [List.map_flatMap, List.flatMap_map]
  exact List.flatMap_congr same

/-- The ends of further iterations do not depend on the slots if those of the body do not. The
induction is on the iterations. -/
theorem map_stop_iterations {greedy : Bool} {body : Nat → Slots → List Stretch}
    (same : ∀ position slots,
      (body position slots).map Stretch.stop = (body position []).map Stretch.stop)
    (ahead position : Nat) (slots : Slots) :
    (iterations greedy body ahead position slots).map Stretch.stop =
      (iterations greedy body ahead position []).map Stretch.stop := by
  induction ahead generalizing position slots with
  | zero => rfl
  | succ ahead inductionHypothesis =>
    let further : Nat → List Nat := fun stop =>
      if stop ≤ position then [] else (iterations greedy body ahead stop []).map Stretch.stop
    have on : ∀ way : Stretch, (if way.stop ≤ position then [] else
        iterations greedy body ahead way.stop way.slots).map Stretch.stop = further way.stop := by
      intro way
      dsimp only [further]
      split
      · rfl
      · exact inductionHypothesis way.stop way.slots
    rw [iterations, iterations, map_stop_inOrder, map_stop_inOrder,
      map_stop_flatMap further fun way _ => on way, map_stop_flatMap further fun way _ => on way,
      same]

/-- The ends of a steady tree's ways do not depend on the slots, since nothing in the tree asks for
what a group took. -/
theorem Node.map_stop_ways {node : Node} (steady : node.steady = true) (position : Nat)
    (slots : Slots) :
    (node.ways text position slots).map Stretch.stop = node.ends text position := by
  induction node generalizing position slots with
  | empty | mark slot => rfl
  | char set =>
    rw [ends, ways, ways]
    split
    · split <;> rfl
    · rfl
  | anchor condition =>
    rw [ends, ways, ways]
    split <;> rfl
  | seq first second firstSame secondSame =>
    obtain ⟨one, other⟩ := Bool.and_eq_true_iff.mp steady
    have on : ∀ way : Stretch, (second.ways text way.stop way.slots).map Stretch.stop =
        second.ends text way.stop := fun way => secondSame other way.stop way.slots
    rw [ends, ways, ways, map_stop_flatMap _ fun way _ => on way,
      map_stop_flatMap _ fun way _ => on way, firstSame one, firstSame one]
  | alt first second firstSame secondSame =>
    obtain ⟨one, other⟩ := Bool.and_eq_true_iff.mp steady
    rw [ends, ways, ways, List.map_append, List.map_append, firstSame one, secondSame other]
    rfl
  | optional greedy body bodySame =>
    rw [ends, ways, ways, map_stop_inOrder, map_stop_inOrder, bodySame steady]
    rfl
  | star greedy body bodySame | more greedy body bodySame =>
    exact map_stop_iterations (fun position => bodySame (Bool.and_eq_true_iff.mp steady).2 position)
      _ position slots
  | plus greedy body bodySame =>
    have same : ∀ position slots, (body.ways text position slots).map Stretch.stop =
        body.ends text position := fun position =>
          bodySame (Bool.and_eq_true_iff.mp steady).2 position
    have on : ∀ way : Stretch, (iterations greedy (body.ways text) (text.size - way.stop) way.stop
        way.slots).map Stretch.stop = (Node.more greedy body).ends text way.stop :=
      fun way => map_stop_iterations same _ way.stop way.slots
    rw [ends, ways, ways, map_stop_flatMap _ fun way _ => on way,
      map_stop_flatMap _ fun way _ => on way, same, same]
  | backref ignoreCase group => cases steady
  | look behind negated body => cases steady
  | atomic body => cases steady

/-- A sequence ends where the second tree does, from each end of the first, in the order of
these. -/
theorem Node.ends_seq {first second : Node} (steady : second.steady = true) :
    (Node.seq first second).ends text position =
      (first.ends text position).flatMap (second.ends text) := by
  rw [ends, ways, map_stop_flatMap _ fun way _ => map_stop_ways steady way.stop way.slots, ← ends]

/-- An alternative ends where the first tree does or where the second one does, and prefers the
first. -/
theorem Node.ends_alt (first second : Node) :
    (Node.alt first second).ends text position =
      first.ends text position ++ second.ends text position := by
  rw [ends, ways, List.map_append, ← ends, ← ends]

/-- An option ends where its body does, or at once. Which of these it prefers is told by its
greed. -/
theorem Node.ends_optional (greedy : Bool) (body : Node) :
    (Node.optional greedy body).ends text position =
      leaving greedy position (body.ends text position) := by
  rw [ends, ways, map_stop_inOrder, ← ends]

/-- A set ends behind one character of its own, and has one way at most. -/
theorem Node.mem_ends_char {set : CharSet} {stop : Nat} :
    stop ∈ (Node.char set).ends text position ↔
      ∃ c, text[position]? = some c ∧ set.contains c = true ∧ stop = position + 1 := by
  simp only [ends, List.mem_map, mem_ways_char]
  constructor
  · rintro ⟨_, ⟨c, present, admitted, rfl⟩, rfl⟩
    exact ⟨c, present, admitted, rfl⟩
  · rintro ⟨c, present, admitted, rfl⟩
    exact ⟨_, ⟨c, present, admitted, rfl⟩, rfl⟩

/-- An anchor ends at the position where its condition holds, and takes nothing. -/
theorem Node.mem_ends_anchor {condition : Anchor} {stop : Nat} :
    stop ∈ (Node.anchor condition).ends text position ↔
      condition.holds text position = true ∧ stop = position := by
  simp only [ends, List.mem_map, mem_ways_anchor]
  constructor
  · rintro ⟨_, ⟨holds, rfl⟩, rfl⟩
    exact ⟨holds, rfl⟩
  · rintro ⟨holds, rfl⟩
    exact ⟨_, ⟨holds, rfl⟩, rfl⟩

/-- A sequence ends where the second tree does from an end of the first. Order is left aside
here. -/
theorem Node.mem_ends_seq {first second : Node} (steady : second.steady = true) {stop : Nat} :
    stop ∈ (Node.seq first second).ends text position ↔
      ∃ middle ∈ first.ends text position, stop ∈ second.ends text middle := by
  rw [ends_seq steady, List.mem_flatMap]

/-- An alternative ends where one of its trees does. Order is left aside here. -/
theorem Node.mem_ends_alt {first second : Node} {stop : Nat} :
    stop ∈ (Node.alt first second).ends text position ↔
      stop ∈ first.ends text position ∨ stop ∈ second.ends text position := by
  rw [ends_alt, List.mem_append]

/-- At the end of the text no iteration of a body that stays in the text takes anything, so the loop
is left. -/
theorem iterations_atEnd {greedy : Bool} {body : Nat → Slots → List Stretch} {ahead : Nat}
    (within : ∀ way ∈ body text.size slots, way.stop ≤ text.size) :
    iterations greedy body ahead text.size slots = [⟨text.size, slots⟩] := by
  cases ahead with
  | zero => rfl
  | succ ahead =>
    have none : ((body text.size slots).flatMap fun way => if way.stop ≤ text.size then [] else
        iterations greedy body ahead way.stop way.slots) = [] :=
      List.flatMap_eq_nil_iff.mpr fun way taken => if_pos (within way taken)
    rw [iterations, none]
    cases greedy <;> rfl

/-- As many iterations as there are characters ahead are enough: more of them add no way, since each
takes a character. -/
theorem iterations_fuel {greedy : Bool} {body : Nat → Slots → List Stretch}
    (bounds : ∀ position slots, ∀ way ∈ body position slots, position ≤ text.size →
      way.stop ≤ text.size)
    {one other position : Nat} (slots : Slots) (inside : position ≤ text.size)
    (enough : text.size - position ≤ one) (enoughToo : text.size - position ≤ other) :
    iterations greedy body one position slots = iterations greedy body other position slots := by
  induction one generalizing position slots other with
  | zero =>
    obtain rfl : position = text.size := by omega
    have within := fun way taken => bounds _ slots way taken inside
    rw [iterations_atEnd within, iterations_atEnd within]
  | succ one inductionHypothesis =>
    cases other with
    | zero =>
      obtain rfl : position = text.size := by omega
      have within := fun way taken => bounds _ slots way taken inside
      rw [iterations_atEnd within, iterations_atEnd within]
    | succ other =>
      rw [iterations, iterations]
      congr 1
      refine List.flatMap_congr fun way taken => ?_
      split
      · rfl
      · have within := bounds position slots way taken inside
        have least : text.size - way.stop ≤ one := by omega
        have leastToo : text.size - way.stop ≤ other := by omega
        exact inductionHypothesis way.slots within least leastToo

/-- A loop ends where its body does and then the loop again, or it is left at once. There is no
bound on iterations in this law. -/
theorem Node.ends_more {greedy : Bool} {body : Node}
    (steady : (Node.more greedy body).steady = true)
    (inside : position ≤ text.size) :
    (Node.more greedy body).ends text position = leaving greedy position
      ((body.ends text position).flatMap ((Node.more greedy body).ends text)) := by
  have advancing : body.advances = true := (Bool.and_eq_true_iff.mp steady).1
  have bounds : ∀ position slots, ∀ way ∈ body.ways text position slots, position ≤ text.size →
      way.stop ≤ text.size :=
    fun position slots way taken inside => (body.ways_bounds inside taken).2
  have once : (Node.more greedy body).ways text position [] =
      iterations greedy (body.ways text) (text.size - position + 1) position [] :=
    iterations_fuel bounds [] inside (Nat.le_refl _) (Nat.le_succ _)
  have on : ∀ way ∈ body.ways text position [], (if way.stop ≤ position then [] else
      iterations greedy (body.ways text) (text.size - position) way.stop way.slots).map
        Stretch.stop = (Node.more greedy body).ends text way.stop := by
    intro way taken
    have further := lt_of_advances advancing inside taken
    have within := bounds position [] way taken inside
    rw [if_neg (Nat.not_le.mpr further), iterations_fuel bounds way.slots within
      (by omega : text.size - way.stop ≤ text.size - position) (Nat.le_refl _)]
    exact map_stop_ways steady way.stop way.slots
  rw [ends, once, iterations, map_stop_inOrder, map_stop_flatMap _ on, ← ends]

/-- A loop that has to be entered ends where its body does and then the loop again, which may be
left then. -/
theorem Node.ends_plus {greedy : Bool} {body : Node}
    (steady : (Node.plus greedy body).steady = true) :
    (Node.plus greedy body).ends text position =
      (body.ends text position).flatMap ((Node.more greedy body).ends text) := by
  have again : (Node.more greedy body).steady = true := steady
  rw [ends, ways]
  exact map_stop_flatMap _ fun way _ => map_stop_ways again way.stop way.slots

end Ends

end TextDecoration.Pattern
