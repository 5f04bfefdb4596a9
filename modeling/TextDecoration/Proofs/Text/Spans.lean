import Mathlib.Data.List.Basic
import Mathlib.Data.Nat.Find
import TextDecoration.Text.Slice

/-!
# Stretches found one behind the other

A way of finding reports the first stretch of a text that it looks for. Looking again and again,
each time in what is left behind the stretch before, gives stretches that do not overlap, in order.
Which these are is told here without any bound on their number: `Spans` has one case for a rest in
which nothing is found and one for a stretch with what follows behind it.

Two ways of finding are defined by where a word first occurs: an occurrence of the word itself, and
a stretch from an opening word up to the nearest closing word behind it.
-/

namespace TextDecoration.Text

section Occurrences

variable {word cs : List Char}

/-- A word that stands at a position of a text occurs in it, and the position is where. -/
theorem infix_of_prefix_drop {position : Nat} (there : word <+: cs.drop position) :
    word <:+: cs :=
  there.isInfix.trans (List.drop_suffix position cs).isInfix

/-- A text is cut at the first occurrence of a word: at no character before does the word begin. -/
theorem dropInfix?_eq_some {ahead behind : List Char} :
    cs.dropInfix? word = some (ahead, behind) ↔ cs = ahead ++ word ++ behind ∧
      ∀ position < ahead.length, ¬word <+: cs.drop position := by
  rw [List.dropInfix?_eq_some_iff]
  constructor
  · rintro ⟨⟨same, parts, equal⟩, least⟩
    rw [beq_iff_eq] at equal
    subst equal
    refine ⟨parts, fun position before => ?_⟩
    rintro ⟨later, there⟩
    have cut : cs = cs.take position ++ same ++ later := by
      rw [List.append_assoc, there, List.take_append_drop]
    have counted : (cs.take position).length ≤ position := List.length_take_le _ _
    have more := least _ _ _ cut (beq_self_eq_true same)
    omega
  · rintro ⟨parts, none⟩
    refine ⟨⟨word, parts, beq_self_eq_true word⟩, fun other same later cut equal => ?_⟩
    rw [beq_iff_eq] at equal
    subst equal
    rw [ge_iff_le, ← Nat.not_lt]
    intro before
    apply none _ before
    rw [cut, List.append_assoc, List.drop_left]
    exact List.prefix_append _ _

/-- A text is cut exactly if the word occurs in it. The empty word occurs in every text. -/
theorem dropInfix?_eq_none : cs.dropInfix? word = none ↔ ¬word <:+: cs := by
  constructor
  · -- If the word occurs at all, then there is a first position at which it does.
    rintro none ⟨ahead, behind, parts⟩
    have occurs : ∃ position, word <+: cs.drop position := by
      refine ⟨ahead.length, ?_⟩
      rw [← parts, List.append_assoc, List.drop_left]
      exact List.prefix_append word behind
    obtain ⟨first, here, before⟩ : ∃ first, word <+: cs.drop first ∧
        ∀ position < first, ¬word <+: cs.drop position :=
      ⟨Nat.find occurs, Nat.find_spec occurs, fun position => Nat.find_min occurs⟩
    obtain ⟨later, there⟩ := here
    have cut : cs.dropInfix? word = some (cs.take first, later) := by
      refine dropInfix?_eq_some.mpr ⟨?_, fun position within => before position ?_⟩
      · rw [List.append_assoc, there, List.take_append_drop]
      · exact Nat.lt_of_lt_of_le within (List.length_take_le _ _)
    rw [none] at cut
    cases cut
  · intro absent
    cases found : cs.dropInfix? word with
    | none => rfl
    | some parts =>
      obtain ⟨ahead, behind⟩ := parts
      exact absurd ⟨ahead, behind, (dropInfix?_eq_some.mp found).1.symm⟩ absent

/-- The first occurrence of a word, by its offsets. Nothing is said of later ones. -/
def occurrence? (word cs : List Char) : Option (Nat × Nat) :=
  (cs.dropInfix? word).map fun parts => (parts.1.length, parts.1.length + word.length)

/-- The first stretch from an opening word up to the nearest closing word behind it, both included,
    by its offsets. -/
def delimited? (opening closing cs : List Char) : Option (Nat × Nat) := do
  let (ahead, inside) ← cs.dropInfix? opening
  let (body, _) ← inside.dropInfix? closing
  return (ahead.length, ahead.length + opening.length + body.length + closing.length)

/-- The first occurrence of a word is where it stands first, and as long as the word is. -/
theorem of_occurrence? {start stop : Nat} (found : occurrence? word cs = some (start, stop)) :
    stop = start + word.length ∧ start ≤ cs.length ∧ word <+: cs.drop start ∧
      ∀ position < start, ¬word <+: cs.drop position := by
  obtain ⟨⟨ahead, behind⟩, cut, same⟩ := Option.map_eq_some_iff.mp found
  cases same
  obtain ⟨rfl, before⟩ := dropInfix?_eq_some.mp cut
  refine ⟨rfl, by simp, ?_, before⟩
  rw [List.append_assoc, List.drop_left]
  exact List.prefix_append word behind

/-- The stretch at which a word first occurs holds the word, and nothing else. -/
theorem slice_occurrence {start stop : Nat} (found : occurrence? word cs = some (start, stop)) :
    slice cs start stop = word := by
  obtain ⟨rfl, _, ⟨behind, here⟩, _⟩ := of_occurrence? found
  rw [slice, Nat.add_sub_cancel_left, ← here, List.take_left]

/-- Where there is no first occurrence, the word stands nowhere in the text. -/
theorem of_occurrence?_none (missed : occurrence? word cs = none) : ¬word <:+: cs :=
  dropInfix?_eq_none.mp (Option.map_eq_none_iff.mp missed)

/-- Before the first occurrence of a word it does not occur, not even in part of what is cut off. -/
theorem not_infix_take {start stop : Nat} (filled : word ≠ [])
    (found : occurrence? word cs = some (start, stop)) : ¬word <:+: cs.take start := by
  rintro ⟨ahead, behind, parts⟩
  obtain ⟨_, _, _, before⟩ := of_occurrence? found
  have counted := congrArg List.length parts
  rw [List.length_append, List.length_append, List.length_take] at counted
  have width : 0 < word.length := List.length_pos_of_ne_nil filled
  refine before ahead.length (by omega) ?_
  rw [← List.take_append_drop start cs, ← parts, List.append_assoc, List.append_assoc,
    List.drop_left]
  exact List.prefix_append word _

variable {opening closing : List Char}

/-- Behind a part of a text and a word, positions count from there, as they do in the rest taken
alone. -/
theorem drop_behind (ahead inside : List Char) (i : Nat) :
    (ahead ++ word ++ inside).drop (ahead.length + word.length + i) = inside.drop i := by
  rw [← List.length_append, List.drop_length_add_append]

/-- The first stretch between two words begins where the opening one stands first and ends with the
closing one that stands first behind it. -/
theorem of_delimited? {start stop : Nat}
    (found : delimited? opening closing cs = some (start, stop)) :
    ∃ close, stop = close + closing.length ∧ close ≤ cs.length ∧
      opening <+: cs.drop start ∧ (∀ position < start, ¬opening <+: cs.drop position) ∧
      start + opening.length ≤ close ∧ closing <+: cs.drop close ∧
      ∀ position, start + opening.length ≤ position → position < close →
        ¬closing <+: cs.drop position := by
  rw [delimited?, Option.bind_eq_bind, Option.bind_eq_some_iff] at found
  obtain ⟨⟨ahead, inside⟩, opened, found⟩ := found
  obtain ⟨⟨body, behind⟩, closed, found⟩ := Option.bind_eq_some_iff.mp found
  cases found
  obtain ⟨rfl, before⟩ := dropInfix?_eq_some.mp opened
  obtain ⟨rfl, within⟩ := dropInfix?_eq_some.mp closed
  refine ⟨ahead.length + opening.length + body.length, rfl, ?_, ?_, before, Nat.le_add_right _ _,
    ?_, fun position from' until' => ?_⟩
  · simp only [List.length_append]
    omega
  · rw [List.append_assoc, List.drop_left]
    exact List.prefix_append opening _
  · rw [drop_behind, List.append_assoc, List.drop_left]
    exact List.prefix_append closing behind
  · obtain ⟨further, rfl⟩ := Nat.exists_eq_add_of_le from'
    rw [drop_behind]
    exact within further (by omega)

/-- Where there is no such stretch, no closing word stands behind any opening one. One of the two
words may still be there. -/
theorem of_delimited?_none (missed : delimited? opening closing cs = none) {start close : Nat}
    (opened : opening <+: cs.drop start) (behind : start + opening.length ≤ close) :
    ¬closing <+: cs.drop close := by
  intro closed
  cases cut : cs.dropInfix? opening with
  | none => exact dropInfix?_eq_none.mp cut (infix_of_prefix_drop opened)
  | some parts =>
    obtain ⟨ahead, inside⟩ := parts
    obtain ⟨rfl, before⟩ := dropInfix?_eq_some.mp cut
    have first : ahead.length ≤ start := Nat.le_of_not_lt fun earlier => before start earlier opened
    have later : ahead.length + opening.length ≤ close :=
      Nat.le_trans (Nat.add_le_add_right first _) behind
    obtain ⟨further, rfl⟩ := Nat.exists_eq_add_of_le later
    rw [drop_behind] at closed
    cases ended : inside.dropInfix? closing with
    | none => exact dropInfix?_eq_none.mp ended (infix_of_prefix_drop closed)
    | some rest =>
      rw [delimited?, cut] at missed
      simp [ended] at missed

end Occurrences

/-- The stretches that a way of finding reports in a text, one behind the other. The text begins at
    an offset. -/
inductive Spans (first : List Char → Option (Nat × Nat)) :
    (offset : Nat) → (rest : List Char) → (spans : List (Nat × Nat)) → Prop where
  /-- Nothing is found in what is left, so there are no further stretches. -/
  | missed {offset : Nat} {rest : List Char} (nothing : first rest = none) :
      Spans first offset rest []
  /-- A stretch is found, and the others are found behind it. They cannot overlap for that
  reason. -/
  | found {offset start stop : Nat} {rest : List Char} {spans : List (Nat × Nat)}
      (here : first rest = some (start, stop))
      (later : Spans first (offset + stop) (rest.drop stop) spans) :
      Spans first offset rest ((offset + start, offset + stop) :: spans)

/-- There is one list of such stretches, as each step is determined by what is left of the text. -/
theorem Spans.unique {first : List Char → Option (Nat × Nat)} {offset : Nat} {rest : List Char}
    {spans others : List (Nat × Nat)} (one : Spans first offset rest spans)
    (another : Spans first offset rest others) : spans = others := by
  induction one generalizing others with
  | missed nothing =>
    cases another with
    | missed _ => rfl
    | found here _ => cases nothing.symm.trans here
  | found here later inductionHypothesis =>
    cases another with
    | missed nothing => cases nothing.symm.trans here
    | found hereToo laterToo =>
      cases here.symm.trans hereToo
      rw [inductionHypothesis laterToo]

/-- The stretches that the occurrences of a word make up hold the word, each at its own offsets in
the whole text. -/
theorem Spans.slice_eq {word text rest : List Char} {offset : Nat} {spans : List (Nat × Nat)}
    (here : text.drop offset = rest) (spaced : Spans (occurrence? word) offset rest spans) :
    ∀ span ∈ spans, slice text span.1 span.2 = word := by
  induction spaced with
  | missed _ => simp
  | @found offset start stop rest spans first later inductionHypothesis =>
    intro span among
    rcases List.mem_cons.mp among with rfl | further
    · rw [← slice_drop, here, slice_occurrence first]
    · exact inductionHypothesis (by rw [← here, List.drop_drop]) span further

end TextDecoration.Text
