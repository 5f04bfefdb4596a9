import TextDecoration.Proofs.Markdown.Delimiters
import TextDecoration.Proofs.Pattern.Preferred

/-!
# Marks at the edges of a text

The patterns for the marks around bold and italic text take such a mark at the start of the text and
at its end, and nothing between. A search prefers the start. So as long as the text begins with a
mark, the search takes that one, also if it belongs to the body or overlaps the mark at the end;
only where no mark is left at the start does it take the one at the end.
-/

namespace TextDecoration.Builtin.Markdown

open Pattern

/-- A mark of emphasis stands at a position: the same star or low line `width` times. It may be a
part of a longer row. -/
def MarkAt (text : Array Char) (width position : Nat) : Prop :=
  ∃ mark, (mark = '*' ∨ mark = '_') ∧ ∀ i < width, text[position + i]? = some mark

/-- A pattern that takes such marks at the start and at the end of a text, and nothing else. At both
places it takes as much as the width. -/
def TakesEdges (marks : Pattern) (width : Nat) : Prop :=
  marks.meaning.retries = false ∧ marks.meaning.node.steady = true ∧
    ∀ text position stop, stop ∈ marks.meaning.node.ends text position ↔
      MarkAt text width position ∧ stop = position + width ∧ (position = 0 ∨ stop = text.size)

section Trees

/-- The same character twice, as a double mark is written. -/
def twice (c : Char) : Node := .seq (.char (.single c)) (.char (.single c))

/-- The same character twice at the end of the text, with nothing behind it. -/
def twiceAtEnd (c : Char) : Node :=
  .seq (.char (.single c)) (.seq (.char (.single c)) (.anchor .textEnd))

/-- The tree of the pattern for the marks around bold text: stars or low lines, at the start or at
the end. -/
def doubleEdges : Node :=
  .alt (.seq (.anchor .textStart) (twice '*')) (.alt (.seq (.anchor .textStart) (twice '_'))
    (.alt (twiceAtEnd '*') (twiceAtEnd '_')))

/-- The tree of the pattern for the marks around italic text, which tries the start before the
end. -/
def singleEdges : Node :=
  .alt (.seq (.anchor .textStart) singleMark) (.seq singleMark (.anchor .textEnd))

/-- The two patterns for marks have these trees and need no retries. Both are evaluated here,
once. -/
theorem nodes_of_marks :
    (boldMarks.meaning.node = doubleEdges ∧ boldMarks.meaning.retries = false) ∧
      italicMarks.meaning.node = singleEdges ∧ italicMarks.meaning.retries = false := by
  decide +kernel

variable {text : Array Char} {position stop : Nat} {c : Char}

/-- A single mark is taken where one stands, and it is all that is taken. -/
theorem mem_ends_singleMark :
    stop ∈ singleMark.ends text position ↔ MarkAt text 1 position ∧ stop = position + 1 := by
  rw [singleMark, Node.mem_ends_char]
  constructor
  · rintro ⟨c, present, admitted, rfl⟩
    refine ⟨⟨c, by simpa [CharSet.contains] using admitted, fun i few => ?_⟩, rfl⟩
    obtain rfl : i = 0 := by omega
    exact present
  · rintro ⟨⟨c, isMark, marked⟩, rfl⟩
    exact ⟨c, marked 0 Nat.one_pos, by simpa [CharSet.contains] using isMark, rfl⟩

/-- The same character twice is taken where it stands so, be it at an edge or not. -/
theorem mem_ends_twice : stop ∈ (twice c).ends text position ↔
    (text[position]? = some c ∧ text[position + 1]? = some c) ∧ stop = position + 2 := by
  rw [twice, Node.mem_ends_seq rfl]
  simp only [Node.mem_ends_char, CharSet.contains_single, decide_eq_true_eq]
  constructor
  · rintro ⟨_, ⟨_, first, rfl, rfl⟩, _, second, rfl, rfl⟩
    exact ⟨⟨first, second⟩, rfl⟩
  · rintro ⟨⟨first, second⟩, rfl⟩
    exact ⟨_, ⟨c, first, rfl, rfl⟩, c, second, rfl, rfl⟩

/-- At the end of the text the same character twice is taken where it stands so right before
that. -/
theorem mem_ends_twiceAtEnd : stop ∈ (twiceAtEnd c).ends text position ↔
    ((text[position]? = some c ∧ text[position + 1]? = some c) ∧ stop = position + 2) ∧
      stop = text.size := by
  have steady : (Node.anchor .textEnd).steady = true := rfl
  rw [twiceAtEnd, Node.mem_ends_seq rfl]
  simp only [Node.mem_ends_char, Node.mem_ends_seq steady, Node.mem_ends_anchor, Anchor.holds,
    CharSet.contains_single, decide_eq_true_eq, beq_iff_eq]
  constructor
  · rintro ⟨_, ⟨_, first, rfl, rfl⟩, _, ⟨_, second, rfl, rfl⟩, atEnd, rfl⟩
    exact ⟨⟨⟨first, second⟩, rfl⟩, atEnd⟩
  · rintro ⟨⟨⟨first, second⟩, rfl⟩, atEnd⟩
    exact ⟨_, ⟨c, first, rfl, rfl⟩, _, ⟨c, second, rfl, rfl⟩, atEnd, rfl⟩

/-- A double mark stands where one of its characters stands twice. A star next to a low line is
none. -/
theorem markAt_two : MarkAt text 2 position ↔
    (text[position]? = some '*' ∧ text[position + 1]? = some '*') ∨
      (text[position]? = some '_' ∧ text[position + 1]? = some '_') := by
  have split : ∀ c, (∀ i < 2, text[position + i]? = some c) ↔
      text[position]? = some c ∧ text[position + 1]? = some c := by
    intro c
    constructor
    · exact fun marked => ⟨marked 0 Nat.two_pos, marked 1 Nat.one_lt_two⟩
    · rintro ⟨first, second⟩ i few
      obtain rfl | rfl : i = 0 ∨ i = 1 := by omega
      · exact first
      · exact second
  simp only [MarkAt, split, or_and_right, exists_or, exists_eq_left]

end Trees

/-- The pattern for the marks around bold text takes double marks at the edges, and nothing anywhere
else. -/
theorem takesEdges_boldMarks : TakesEdges boldMarks 2 := by
  obtain ⟨tree, direct⟩ := nodes_of_marks.1
  refine ⟨direct, by rw [tree]; rfl, fun text position stop => ?_⟩
  rw [tree, doubleEdges, Node.mem_ends_alt, Node.mem_ends_alt, Node.mem_ends_alt,
    Node.mem_ends_seq rfl, Node.mem_ends_seq rfl, markAt_two]
  simp only [Node.mem_ends_anchor, mem_ends_twice, mem_ends_twiceAtEnd, Anchor.holds, beq_iff_eq]
  constructor
  · rintro (⟨_, ⟨rfl, rfl⟩, stars, rfl⟩ | ⟨_, ⟨rfl, rfl⟩, lines, rfl⟩ | ⟨⟨stars, rfl⟩, atEnd⟩ |
      ⟨⟨lines, rfl⟩, atEnd⟩)
    · exact ⟨Or.inl stars, rfl, Or.inl rfl⟩
    · exact ⟨Or.inr lines, rfl, Or.inl rfl⟩
    · exact ⟨Or.inl stars, rfl, Or.inr atEnd⟩
    · exact ⟨Or.inr lines, rfl, Or.inr atEnd⟩
  · rintro ⟨stars | lines, rfl, rfl | atEnd⟩
    · exact Or.inl ⟨0, ⟨rfl, rfl⟩, stars, rfl⟩
    · exact Or.inr (Or.inr (Or.inl ⟨⟨stars, rfl⟩, atEnd⟩))
    · exact Or.inr (Or.inl ⟨0, ⟨rfl, rfl⟩, lines, rfl⟩)
    · exact Or.inr (Or.inr (Or.inr ⟨⟨lines, rfl⟩, atEnd⟩))

/-- The pattern for the marks around italic text takes single marks at the edges, and nothing
anywhere else. -/
theorem takesEdges_italicMarks : TakesEdges italicMarks 1 := by
  obtain ⟨tree, direct⟩ := nodes_of_marks.2
  refine ⟨direct, by rw [tree]; rfl, fun text position stop => ?_⟩
  rw [tree, singleEdges, Node.mem_ends_alt, Node.mem_ends_seq rfl, Node.mem_ends_seq rfl]
  simp only [Node.mem_ends_anchor, mem_ends_singleMark, Anchor.holds, beq_iff_eq]
  constructor
  · rintro (⟨_, ⟨rfl, rfl⟩, marked, rfl⟩ | ⟨_, ⟨marked, rfl⟩, atEnd, rfl⟩)
    · exact ⟨marked, rfl, Or.inl rfl⟩
    · exact ⟨marked, rfl, Or.inr atEnd⟩
  · rintro ⟨marked, rfl, rfl | atEnd⟩
    · exact Or.inl ⟨0, ⟨rfl, rfl⟩, marked, rfl⟩
    · exact Or.inr ⟨_, ⟨marked, rfl⟩, atEnd, rfl⟩

/-- What is written as a mark between two parts of a text stands there, whatever the parts are. -/
theorem markAt_of_append {width : Nat} {mark : Char} (isMark : mark = '*' ∨ mark = '_')
    (ahead later : List Char) :
    MarkAt (ahead ++ (List.replicate width mark ++ later)).toArray width ahead.length := by
  refine ⟨mark, isMark, fun i within => ?_⟩
  rw [List.getElem?_toArray, List.getElem?_append_right (Nat.le_add_right _ _),
    Nat.add_sub_cancel_left, List.getElem?_append_left (by simpa using within),
    List.getElem?_replicate_of_lt within]

/-- A text with a mark at its start begins with that mark, of one of the two characters. -/
theorem prefix_of_markAt {width : Nat} {rest : List Char} (marked : MarkAt rest.toArray width 0) :
    ∃ mark, (mark = '*' ∨ mark = '_') ∧ List.replicate width mark <+: rest := by
  obtain ⟨mark, isMark, stands⟩ := marked
  refine ⟨mark, isMark, List.prefix_iff_getElem?.mpr fun i within => ?_⟩
  rw [List.length_replicate] at within
  have there := stands i within
  rw [Nat.zero_add, List.getElem?_toArray] at there
  rw [there, List.getElem_replicate]

section Search

variable {marks : Pattern} {width : Nat} (edges : TakesEdges marks width) (wide : 0 < width)
  {rest : List Char}

include edges wide

/-- A search for such a pattern reports a mark at an edge, and one at the start if there is one. -/
theorem search_edge {position : Nat} (marked : MarkAt rest.toArray width position)
    (atEdge : position = 0 ∨ position + width = rest.length) :
    ∃ start, (Rule.ofPattern marks).search Pattern.locate rest =
        some ⟨start, start, start + width⟩ ∧
      MarkAt rest.toArray width start ∧ (start = 0 ∨ start + width = rest.length) ∧
      (MarkAt rest.toArray width 0 → start = 0) := by
  obtain ⟨direct, steady, takes⟩ := edges
  have inside : position ≤ rest.toArray.size := by
    obtain ⟨mark, _, stands⟩ := marked
    exact Nat.le_of_lt (Array.getElem?_eq_some_iff.mp (stands 0 wide)).1
  have offered : position + width ∈ marks.meaning.node.ends rest.toArray position :=
    (takes _ _ _).mpr ⟨marked, rfl, by simpa using atEdge⟩
  cases located : marks.locate rest.toArray 0 with
  | none =>
    rw [locate_none direct steady located (Nat.zero_le position) inside] at offered
    cases offered
  | some fit =>
    obtain ⟨_, nothing, taken⟩ := locate_first direct steady (Nat.zero_le _) located
    obtain ⟨markedThere, stop, edge⟩ := (takes _ _ _).mp (List.mem_of_head? taken)
    have filled : fit.start < fit.stop := by omega
    refine ⟨fit.start, ?_, markedThere, ?_, fun markedFirst => ?_⟩
    · rw [← stop, Rule.search, Engine.find, Nat.sub_zero, Engine.findWithin]
      simp only [Rule.ofPattern, located, Fit.hit, Bool.false_eq_true, if_false, if_pos filled]
    · rw [← stop]
      simpa using edge
    · refine Nat.eq_zero_of_not_pos fun later => ?_
      have first : width ∈ marks.meaning.node.ends rest.toArray 0 :=
        (takes _ _ _).mpr ⟨markedFirst, (Nat.zero_add width).symm, Or.inl rfl⟩
      rw [nothing 0 (Nat.le_refl _) later] at first
      cases first

/-- A mark at the start of a text is found there, since no search reports a later fit when there is
an earlier one. -/
theorem search_opening {mark : Char} (isMark : mark = '*' ∨ mark = '_') (later : List Char) :
    (Rule.ofPattern marks).search Pattern.locate (List.replicate width mark ++ later) =
      some ⟨0, 0, width⟩ := by
  have marked : MarkAt (List.replicate width mark ++ later).toArray width 0 :=
    markAt_of_append isMark [] later
  obtain ⟨start, found, _, _, first⟩ := search_edge edges wide marked (Or.inl rfl)
  rw [first marked, Nat.zero_add] at found
  exact found

/-- Where there is no mark at the start, one at the end is found. No mark in between counts. -/
theorem search_closing {body : List Char} {mark : Char} (isMark : mark = '*' ∨ mark = '_')
    (unopened : ¬MarkAt (body ++ List.replicate width mark).toArray width 0) :
    (Rule.ofPattern marks).search Pattern.locate (body ++ List.replicate width mark) =
      some ⟨body.length, body.length, body.length + width⟩ := by
  have marked : MarkAt (body ++ List.replicate width mark).toArray width body.length := by
    simpa using markAt_of_append isMark body []
  obtain ⟨start, found, markedThere, edge, _⟩ :=
    search_edge edges wide marked (Or.inr (by simp))
  have place : start = body.length := by
    rcases edge with rfl | atEnd
    · exact absurd markedThere unopened
    · simpa using atEnd
  rw [place] at found
  exact found

end Search

end TextDecoration.Builtin.Markdown
