import TextDecoration.Proofs.Grammar.FirstRule
import TextDecoration.Proofs.Pattern.Literals

/-!
# Rules for literal text

Two kinds of rules are told by where words stand. A rule whose pattern is a word finds the first
occurrence of the word. A rule whose pattern is an opening word, anything, and a closing word finds
the first stretch from the opening word up to the nearest closing word behind it: "anything" takes
as little as it can, and it takes line breaks too.
-/

namespace TextDecoration

open Pattern

section Trees

variable {rest : List Char} {position : Nat}

/-- A literal word is taken where it stands, and nowhere else. There is one way to take it. -/
theorem Pattern.Node.ends_word (word : List Char) :
    (sequence (literals word)).ends rest.toArray position =
      if word <+: rest.drop position then [position + word.length] else [] := by
  have alone : (sequence (literals word ++ [])).ends rest.toArray position =
      if word <+: rest.toArray.toList.drop position then
        (sequence []).ends rest.toArray (position + word.length)
      else [] := ends_literals word rfl
  rw [List.append_nil, List.toList_toArray] at alone
  exact alone

/-- The tree of a pattern that takes an opening word, then anything, then a closing word. What is
between is as short as it can be. -/
def Pattern.Node.between (opening closing : List Char) : Node :=
  sequence (literals opening ++ .star false (.char .all) :: literals closing)

/-- The tree of a delimited stretch takes the opening word where that stands, and then goes on
behind it for as long as it needs to. -/
theorem Pattern.Node.ends_between (opening : List Char) {closing : List Char}
    (filled : closing ≠ []) : (between opening closing).ends rest.toArray position =
      if opening <+: rest.drop position then
        (Node.seq (.star false (.char .all)) (sequence (literals closing))).ends rest.toArray
          (position + opening.length)
      else [] := by
  obtain ⟨c, cs, rfl⟩ := List.exists_cons_of_ne_nil filled
  have behind : sequence (.star false (.char .all) :: literals (c :: cs)) =
      .seq (.star false (.char .all)) (sequence (literals (c :: cs))) := rfl
  have steady : (sequence (.star false (.char .all) :: literals (c :: cs))).steady = true := by
    rw [steady_sequence, List.all_cons, steady_literals]
    rfl
  rw [between, ends_literals opening steady, List.toList_toArray, behind]

end Trees

section Rules

variable {rule : Rule} (bare : rule.lookbehind = false)
  (direct : rule.pattern.meaning.retries = false)

include bare direct

/-- A rule whose pattern is a word finds the first occurrence of the word. The pattern is told by
its tree, so that words of any length are covered. -/
theorem Rule.takes_occurrence {word : List Char} (filled : word ≠ [])
    (tree : rule.pattern.meaning.node = .sequence (Node.literals word)) :
    rule.Takes (Text.occurrence? word) := by
  have steady : rule.pattern.meaning.node.steady = true := by
    rw [tree, Node.steady_sequence, Node.steady_literals]
  have advancing : rule.pattern.meaning.node.advances = true := by
    obtain ⟨c, cs, rfl⟩ := List.exists_cons_of_ne_nil filled
    rw [tree, Node.advances_sequence]
    rfl
  refine Rule.takes_of_ends bare direct steady advancing ?_ ?_
  · intro rest start stop found
    obtain ⟨rfl, inside, here, before⟩ := Text.of_occurrence? found
    refine ⟨inside, fun earlier ahead => ?_, ?_⟩
    · rw [tree, Node.ends_word, if_neg (before earlier ahead)]
    · rw [tree, Node.ends_word, if_pos here, List.head?_cons]
  · intro rest missed position _
    have absent : ¬word <+: rest.drop position := fun there =>
      Text.of_occurrence?_none missed (Text.infix_of_prefix_drop there)
    rw [tree, Node.ends_word, if_neg absent]

/-- A rule whose pattern is an opening word, anything and a closing word finds the first stretch
between them, with the nearest closing word behind the first opening one that has any. -/
theorem Rule.takes_delimited {opening closing : List Char} (filled : closing ≠ [])
    (tree : rule.pattern.meaning.node = .between opening closing) :
    rule.Takes (Text.delimited? opening closing) := by
  have steadyClosing : (Node.sequence (Node.literals closing)).steady = true := by
    rw [Node.steady_sequence, Node.steady_literals]
  have steady : rule.pattern.meaning.node.steady = true := by
    rw [tree, Node.between, Node.steady_sequence, List.all_append, List.all_cons,
      Node.steady_literals, Node.steady_literals]
    rfl
  have advancing : rule.pattern.meaning.node.advances = true := by
    obtain ⟨c, cs, rfl⟩ := List.exists_cons_of_ne_nil filled
    rw [tree, Node.between, Node.advances_sequence]
    simp [Node.literals, Node.advances]
  refine Rule.takes_of_ends bare direct steady advancing ?_ ?_
  · intro rest start stop found
    obtain ⟨close, rfl, inside, opened, before, behind, closed, within⟩ := Text.of_delimited? found
    refine ⟨by omega, fun earlier ahead => ?_, ?_⟩
    · rw [tree, Node.ends_between opening filled, if_neg (before earlier ahead)]
    · rw [tree, Node.ends_between opening filled, if_pos opened]
      refine Node.head?_ends_anything steadyClosing behind (by simpa using inside) ?_ ?_
      · intro earlier from' until'
        rw [Node.ends_word, if_neg (within earlier from' until')]
      · rw [Node.ends_word, if_pos closed, List.head?_cons]
  · intro rest missed position inside
    rw [tree, Node.ends_between opening filled]
    split
    · next opened =>
      have reach : position + opening.length ≤ rest.toArray.size := by
        have counted := opened.length_le
        rw [List.length_drop] at counted
        rw [List.size_toArray]
        omega
      refine Node.ends_anything_nil steadyClosing reach fun close behind _ => ?_
      rw [Node.ends_word, if_neg (Text.of_delimited?_none missed opened behind)]
    · rfl

end Rules

end TextDecoration
