import TextDecoration.Proofs.Markdown.Delimiters
import TextDecoration.Proofs.Pattern.Endings

/-!
# Emphasised text ends at its first closing mark

The body of emphasised text is a lazy loop, so it stops at the first place where the opening mark
stands again and one character at least has been taken. That is shown here for bodies up to which
there is no line break: there every piece is one character and can be taken in one way only. So a
token that is a mark, some text without line breaks, the mark, and something more, has nothing more.

With line breaks the law would be the same, but a carriage return with a line feed may be taken in
two ways, and nothing here needs it.
-/

namespace TextDecoration.Builtin.Markdown

open Pattern Text

section Ways

variable {text : Array Char} {position : Nat} {slots : Slots} {way : Stretch}

/-- Characters that are found from a position on stand there, in the sense in which references to
groups are compared. -/
theorem standsAt_of_getElem? {cs : List Char}
    (there : ∀ i < cs.length, text[position + i]? = cs[i]?) :
    standsAt text false cs position = true := by
  induction cs generalizing position with
  | nil => rfl
  | cons c cs inductionHypothesis =>
    have here : text[position]? = some c := there 0 (Nat.succ_pos _)
    have later : standsAt text false cs (position + 1) = true := by
      refine inductionHypothesis fun i within => ?_
      have place : position + 1 + i = position + (i + 1) := by omega
      rw [place]
      exact there (i + 1) (Nat.succ_lt_succ within)
    simp [standsAt, here, later, sameChar]

/-- A character that is no line break is one piece, in one way. There is nothing to retry in such a
body. -/
theorem ways_piece {c : Char} (present : text[position]? = some c) (ordinary : ¬IsBreak c) :
    piece.ways text position slots = [⟨position + 1, slots⟩] := by
  have unbroken : lineBreak.ways text position slots = [] := by
    refine List.eq_nil_iff_forall_not_mem.mpr fun way among => ordinary ?_
    obtain ⟨_, ⟨first, _⟩ | ⟨only, _⟩ | ⟨only, _⟩⟩ := mem_ways_lineBreak among
    · exact Or.inr (Option.some.inj (present.symm.trans first))
    · exact Or.inl (Option.some.inj (present.symm.trans only))
    · exact Or.inr (Option.some.inj (present.symm.trans only))
  have admitted : CharSet.notNewline.contains c = true := by
    rw [CharSet.contains_notNewline]
    simpa using fun feed => ordinary (Or.inl feed)
  simp [piece, Node.ways, unbroken, present, admitted]

/-- A body stops no later than at a place behind which something follows, if there is no line break
up to it. -/
theorem head?_ways_body {next : Node} {stop : Nat} (further : position < stop)
    (ordinary : ∀ i, position ≤ i → i < stop → ∃ c, text[i]? = some c ∧ ¬IsBreak c)
    (follows : next.ways text stop slots ≠ [])
    (preferred : ((Node.seq (.plus false piece) next).ways text position slots).head? = some way) :
    ∃ first, first ≤ stop ∧ way ∈ next.ways text first slots := by
  have single : ∀ i, position ≤ i → i < stop →
      piece.ways text i slots = [⟨i + 1, slots⟩] := by
    intro i behind before
    obtain ⟨c, present, noBreak⟩ := ordinary i behind before
    exact ways_piece present noBreak
  have inside : stop ≤ text.size := by
    obtain ⟨c, present, _⟩ := ordinary (stop - 1) (by omega) (by omega)
    obtain ⟨bound, _⟩ := Array.getElem?_eq_some_iff.mp present
    omega
  rw [Node.ways, Node.ways, single position (Nat.le_refl _) further, List.flatMap_singleton]
    at preferred
  have enough : stop - (position + 1) ≤ text.size - (position + 1) := by omega
  exact head?_iterations_lazy further enough
    (fun i behind before => single i (Nat.le_of_succ_le behind) before) follows preferred

/-- A body and the mark that the second group holds end no later than with such a mark. The body is
lazy, so it takes no more pieces than it has to. -/
theorem stop_le_of_body {width stop : Nat} {c : Char}
    (holds : captured text slots 2 = some (List.replicate width c)) (further : position < stop)
    (ordinary : ∀ i, position ≤ i → i < stop → ∃ d, text[i]? = some d ∧ ¬IsBreak d)
    (closes : ∀ i < width, text[stop + i]? = some c)
    (preferred : ((Node.seq (.plus false piece) (.backref false 2)).ways text position
      slots).head? = some way) : way.stop ≤ stop + width := by
  have stands : standsAt text false (List.replicate width c) stop = true := by
    refine standsAt_of_getElem? fun i within => ?_
    rw [List.length_replicate] at within
    rw [List.getElem?_replicate_of_lt within]
    exact closes i within
  have follows : (Node.backref false 2).ways text stop slots ≠ [] :=
    List.ne_nil_of_mem (Node.mem_ways_backref.mpr ⟨_, holds, stands, rfl⟩)
  obtain ⟨first, before, closing⟩ := head?_ways_body further ordinary follows preferred
  obtain ⟨cs, again, _, rfl⟩ := Node.mem_ways_backref.mp closing
  obtain rfl : List.replicate width c = cs := Option.some.inj (holds.symm.trans again)
  rw [List.length_replicate]
  exact Nat.add_le_add_right before width

/-- The preferred way of the tree for emphasis ends no later than with a mark like the opening one
that stands somewhere behind the first character of the body, without a line break between. -/
theorem stop_le_of_head? {width : Nat} {mark : Node} (marks : Marks width mark)
    (preferred : ((emphasis mark).ways text position (List.replicate 6 none)).head? = some way) :
    ∃ start c, way.slots[3]? = some (some start) ∧ (∀ i < width, text[start + i]? = some c) ∧
      ∀ stop, start + width < stop →
        (∀ i, start + width ≤ i → i < stop → ∃ d, text[i]? = some d ∧ ¬IsBreak d) →
        (∀ i < width, text[stop + i]? = some c) → way.stop ≤ stop + width := by
  obtain ⟨first, context, rest⟩ := Node.head?_ways_seq preferred
  obtain ⟨⟨start, stored⟩, beside, rfl⟩ := Node.mem_ways_group.mp context
  obtain ⟨kept, _⟩ := mem_ways_context beside
  dsimp only at kept rest
  subst kept
  obtain ⟨second, opened, rest⟩ := Node.head?_ways_seq rest
  obtain ⟨inner, opening, rfl⟩ := Node.mem_ways_group.mp opened
  obtain ⟨rfl, c, _, opens⟩ := marks _ _ _ _ opening
  dsimp only at rest
  refine ⟨start, c, ?_, opens, fun stop further ordinary closes => ?_⟩
  · obtain ⟨⟨close, stored⟩, body, closing⟩ := Node.mem_ways_seq.mp (List.mem_of_head? rest)
    obtain ⟨kept, _⟩ := mem_ways_body body
    dsimp only at kept closing
    subst kept
    obtain ⟨_, _, _, rfl⟩ := Node.mem_ways_backref.mp closing
    rfl
  · -- The second group holds the opening mark.
    refine stop_le_of_body ?_ further ordinary closes rest
    exact congrArg some (extract_eq_replicate opens)

end Ways

/-- What a rule for emphasised text finds ends with the first mark like the opening one that closes
a body without line breaks. -/
theorem nil_of_finds {rule : Rule} {width : Nat} {matched : String} (wide : 0 < width)
    (emphasises : Emphasises rule.pattern width) (context : rule.lookbehind = true)
    (finds : rule.Finds Pattern.locate matched) {c : Char} {body last : List Char}
    (filled : body ≠ []) (ordinary : ∀ d ∈ body, ¬IsBreak d)
    (parts : matched.toList = List.replicate width c ++ body ++ List.replicate width c ++ last) :
    last = [] := by
  obtain ⟨rest, hit, searched, rfl⟩ := finds
  obtain ⟨mark, way, marks, preferred, stop, slot⟩ :=
    preferred_of_search emphasises context searched
  obtain ⟨start, opening, same, opens, earliest⟩ := stop_le_of_head? marks preferred
  rw [slot] at same
  cases same
  rw [String.toList_ofList] at parts
  have found : ∀ {i : Nat} {d : Char},
      (List.replicate width c ++ body ++ List.replicate width c ++ last)[i]? = some d →
        rest.toArray[hit.start + i]? = some d := by
    intro i d present
    rw [← parts] at present
    rw [List.getElem?_toArray]
    exact (getElem?_of_slice present).2
  have counted : hit.stop - hit.start = width + body.length + width + last.length := by
    have inside : hit.stop ≤ rest.length := by
      simpa using (Engine.find_bounds locate_sound searched).2.2.2
    rw [← length_slice inside, parts]
    simp [Nat.add_assoc]
  have same : opening = c := by
    have first : (List.replicate width c ++ body ++ List.replicate width c ++ last)[0]? =
        some c := by
      rw [List.append_assoc, List.append_assoc, List.getElem?_append_left (by simpa using wide),
        List.getElem?_replicate_of_lt wide]
    exact Option.some.inj ((opens 0 wide).symm.trans (found first))
  subst same
  have before : way.stop ≤ hit.start + (width + body.length) + width := by
    refine earliest _ ?_ ?_ ?_
    · have some : 0 < body.length := List.length_pos_iff.mpr filled
      omega
    · intro i behind within
      obtain ⟨j, rfl⟩ : ∃ j, i = hit.start + (width + j) := ⟨i - hit.start - width, by omega⟩
      have inBody : j < body.length := by omega
      refine ⟨body[j], found ?_, ordinary _ (List.getElem_mem inBody)⟩
      simp [List.getElem?_append, inBody]
    · intro i within
      rw [Nat.add_assoc]
      have ahead : (List.replicate width opening ++ body).length = width + body.length := by simp
      have inside : width + body.length + i <
          (List.replicate width opening ++ body ++ List.replicate width opening).length := by
        rw [List.length_append, ahead, List.length_replicate]
        omega
      apply found
      rw [List.getElem?_append_left inside, List.getElem?_append_right (by omega), ahead,
        Nat.add_sub_cancel_left, List.getElem?_replicate_of_lt within]
  refine List.eq_nil_of_length_eq_zero ?_
  omega

end TextDecoration.Builtin.Markdown
