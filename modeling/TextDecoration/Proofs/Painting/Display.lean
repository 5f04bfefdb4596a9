import TextDecoration.Proofs.Terminal.Styled

/-!
# What a painted text shows

Ranges that come in order of their starts may overlap, repeat each other, be empty or lie behind
the text. Painting still shows every character once and in order, in the style of the first range
that covers it, or unstyled if none does; and the terminal is left as it was found.

Order is what this rests on. Painting moves past the characters before a range's start for good,
and a later range that began before that place would come too late for them.
-/

namespace TextDecoration

/-! ## The style of an offset -/

/-- Style of the character at an offset: that of the first range that covers it, or the default
style. -/
def Theme.styleAt (theme : Theme) (ranges : List Range) (offset : Nat) : Style :=
  match ranges.find? fun range => range.covers offset with
  | some range => theme.styleFor range.tags.toList range.fallback
  | none => {}

/-- A range that covers the offset decides, whatever comes after it. Styles of ranges are not laid
over one another. -/
theorem Theme.styleAt_of_covers (theme : Theme) {range : Range} {offset : Nat}
    (covered : range.covers offset = true) (later : List Range) :
    theme.styleAt (range :: later) offset = theme.styleFor range.tags.toList range.fallback := by
  rw [styleAt, List.find?_cons, covered]

/-- A range that does not cover the offset leaves it to those after it, whatever its style. -/
theorem Theme.styleAt_of_not_covers (theme : Theme) {range : Range} {offset : Nat}
    (off : range.covers offset = false) (later : List Range) :
    theme.styleAt (range :: later) offset = theme.styleAt later offset := by
  rw [styleAt, List.find?_cons, off, styleAt]

/-- The first range that covers the offset decides, whatever ranges stand around it. -/
theorem Theme.styleAt_of_first (theme : Theme) {earlier : List Range} {range : Range}
    {offset : Nat} (off : ∀ other ∈ earlier, other.covers offset = false)
    (covered : range.covers offset = true) (later : List Range) :
    theme.styleAt (earlier ++ range :: later) offset =
      theme.styleFor range.tags.toList range.fallback := by
  induction earlier with
  | nil => exact theme.styleAt_of_covers covered later
  | cons other earlier inductionHypothesis =>
    rw [List.cons_append, theme.styleAt_of_not_covers (off other List.mem_cons_self)]
    exact inductionHypothesis fun between among => off between (List.mem_cons_of_mem other among)

/-- What no range covers is unstyled, whatever the theme. -/
theorem Theme.styleAt_eq_default (theme : Theme) {ranges : List Range} {offset : Nat}
    (off : ∀ range ∈ ranges, range.covers offset = false) : theme.styleAt ranges offset = {} := by
  have none : (ranges.find? fun range => range.covers offset) = none := by
    rw [List.find?_eq_none]
    intro range among
    simp [off range among]
  rw [styleAt, none]

/-- Where ranges do not overlap, any range that covers the offset decides, since there is no other
one. -/
theorem Theme.styleAt_of_mem (theme : Theme) {ranges : List Range} {offset : Nat}
    (apart : ranges.Pairwise fun earlier later => earlier.stop ≤ later.start) {range : Range}
    (among : range ∈ ranges) (covered : range.covers offset = true) :
    theme.styleAt ranges offset = theme.styleFor range.tags.toList range.fallback := by
  induction ranges with
  | nil => cases among
  | cons first later inductionHypothesis =>
    obtain ⟨before, apartLater⟩ := List.pairwise_cons.mp apart
    rcases List.mem_cons.mp among with rfl | behind
    · exact theme.styleAt_of_covers covered later
    · have off : first.covers offset = false := by
        have passed : first.stop ≤ range.start := before range behind
        rw [Range.covers, decide_eq_true_iff] at covered
        rw [Range.covers, decide_eq_false_iff_not]
        omega
      rw [theme.styleAt_of_not_covers off, inductionHypothesis apartLater behind]

/-! ## Styled characters -/

/-- The characters of a text that begins at an offset, each in the style of its offset. This is what
a terminal ought to show. -/
def styled (style : Nat → Style) (offset : Nat) (cs : List Char) : List (Char × Style) :=
  (cs.zipIdx offset).map fun place => (place.1, style place.2)

/-- Texts in a row are styled one after the other, the second one from where the first one ends. -/
theorem styled_append (style : Nat → Style) (offset : Nat) (first second : List Char) :
    styled style offset (first ++ second) =
      styled style offset first ++ styled style (offset + first.length) second := by
  rw [styled, List.zipIdx_append, List.map_append]
  rfl

/-- Only the styles of the text's own offsets count, so two ways of styling may differ anywhere
else. -/
theorem styled_congr {style other : Nat → Style} {offset : Nat} {cs : List Char}
    (same : ∀ position, offset ≤ position → position < offset + cs.length →
      style position = other position) : styled style offset cs = styled other offset cs := by
  refine List.map_congr_left ?_
  rintro ⟨c, position⟩ member
  obtain ⟨least, most, _⟩ := List.mem_zipIdx member
  rw [same position least most]

/-- A text whose offsets all have one style is shown in it, as a segment of that style is. -/
theorem styled_uniform {style : Nat → Style} {pen : Style} {offset : Nat} {cs : List Char}
    (same : ∀ position, offset ≤ position → position < offset + cs.length →
      style position = pen) : styled style offset cs = Segment.cells ⟨pen, cs⟩ := by
  have alike : styled style offset cs = styled (fun _ => pen) offset cs := styled_congr same
  rw [alike, styled, Segment.cells, ← List.zipIdx_map_fst offset cs, List.map_map,
    List.zipIdx_map_fst]
  rfl

/-- The characters of a styled text are those of the text: none is added and none is lost. -/
theorem styled_chars (style : Nat → Style) (offset : Nat) (cs : List Char) :
    (styled style offset cs).map Prod.fst = cs := by
  rw [styled, List.map_map]
  exact List.zipIdx_map_fst offset cs

/-- A character of a styled text has the style of its offset, which is its place counted from where
the text begins. -/
theorem style_of_styled {style : Nat → Style} {offset i : Nat} {cs : List Char} {c : Char}
    {pen : Style} (present : (styled style offset cs)[i]? = some (c, pen)) :
    pen = style (offset + i) := by
  rw [styled, List.getElem?_map, List.getElem?_zipIdx, Option.map_map] at present
  obtain ⟨shown, _, same⟩ := Option.map_eq_some_iff.mp present
  exact (congrArg Prod.snd same).symm

/-! ## Painting -/

/-- A range that ends before the place that painting has reached, or begins behind the text, has no
say in the style of what is left. -/
theorem styled_passed (theme : Theme) (cs : List Char) {range : Range} {position : Nat}
    (passed : min range.stop cs.length ≤ max (min range.start cs.length) position)
    (later : List Range) : styled (theme.styleAt (range :: later)) position (cs.drop position) =
      styled (theme.styleAt later) position (cs.drop position) := by
  refine styled_congr fun offset least most => theme.styleAt_of_not_covers ?_ later
  rw [List.length_drop] at most
  rw [Range.covers, decide_eq_false_iff_not]
  omega

/-- A range with something left to cover splits what is left: no range covers what stands before its
start, since later ones begin no earlier; the range is the first to cover its own slice; and it
covers nothing behind that. -/
theorem styled_split (theme : Theme) (cs : List Char) {range : Range} {position start stop : Nat}
    (begins : start = max (min range.start cs.length) position)
    (ends : stop = min range.stop cs.length) (ahead : start < stop) {later : List Range}
    (earliest : ∀ other ∈ later, range.start ≤ other.start) :
    styled (theme.styleAt (range :: later)) position (cs.drop position) =
      Segment.cells ⟨{}, slice cs position start⟩ ++
        (Segment.cells ⟨theme.styleFor range.tags.toList range.fallback, slice cs start stop⟩ ++
          styled (theme.styleAt later) stop (cs.drop stop)) := by
  have reached : position + (slice cs position start).length = start := by
    rw [length_slice (by omega)]
    omega
  have painted : start + (slice cs start stop).length = stop := by
    rw [length_slice (by omega)]
    omega
  have before : styled (theme.styleAt (range :: later)) position (slice cs position start) =
      Segment.cells ⟨{}, slice cs position start⟩ := by
    refine styled_uniform fun offset least most => theme.styleAt_eq_default ?_
    intro other among
    have begun : range.start ≤ other.start := by
      rcases List.mem_cons.mp among with rfl | behind
      · exact Nat.le_refl _
      · exact earliest other behind
    rw [Range.covers, decide_eq_false_iff_not]
    omega
  have inside : styled (theme.styleAt (range :: later)) start (slice cs start stop) =
      Segment.cells ⟨theme.styleFor range.tags.toList range.fallback, slice cs start stop⟩ := by
    refine styled_uniform fun offset least most => theme.styleAt_of_covers ?_ later
    rw [Range.covers, decide_eq_true_iff]
    omega
  have behind : styled (theme.styleAt (range :: later)) stop (cs.drop stop) =
      styled (theme.styleAt later) stop (cs.drop stop) := by
    refine styled_congr fun offset least most => theme.styleAt_of_not_covers ?_ later
    rw [List.length_drop] at most
    rw [Range.covers, decide_eq_false_iff_not]
    omega
  rw [← slice_append_drop cs (by omega : position ≤ start),
    ← slice_append_drop cs (by omega : start ≤ stop), styled_append, reached, styled_append,
    painted, before, inside, behind]

/-- From the place that painting has reached on, the segments show every character in the style of
the first range that covers it. -/
theorem segmentsFrom_cells (theme : Theme) (cs : List Char) {ranges : List Range}
    (ascending : ranges.Pairwise fun first second => first.start ≤ second.start)
    (position : Nat) :
    (segmentsFrom theme cs position ranges).flatMap Segment.cells =
      styled (theme.styleAt ranges) position (cs.drop position) := by
  induction ranges generalizing position with
  | nil =>
    have bare : styled (theme.styleAt []) position (cs.drop position) =
        Segment.cells ⟨{}, cs.drop position⟩ := styled_uniform fun _ _ _ => rfl
    rw [bare]
    exact List.append_nil _
  | cons range later inductionHypothesis =>
    obtain ⟨earliest, ascendingLater⟩ := List.pairwise_cons.mp ascending
    rw [segmentsFrom]
    split
    · next passed =>
      rw [styled_passed theme cs passed later]
      exact inductionHypothesis ascendingLater position
    · next ahead =>
      rw [styled_split theme cs rfl rfl (Nat.lt_of_not_le ahead) earliest, List.flatMap_cons,
        List.flatMap_cons, inductionHypothesis ascendingLater]

/-- The segments hold nothing but characters of the text. A text without escape characters has only
such segments. -/
theorem mem_of_mem_segmentsFrom {theme : Theme} {cs : List Char} {ranges : List Range}
    (ascending : ranges.Pairwise fun first second => first.start ≤ second.start)
    {position : Nat} {segment : Segment} (among : segment ∈ segmentsFrom theme cs position ranges)
    {c : Char} (inside : c ∈ segment.text) : c ∈ cs := by
  have shown : (c, segment.style) ∈ styled (theme.styleAt ranges) position (cs.drop position) := by
    rw [← segmentsFrom_cells theme cs ascending position]
    exact List.mem_flatMap.mpr ⟨segment, among, List.mem_map_of_mem inside⟩
  have member := List.mem_map_of_mem (f := Prod.fst) shown
  rw [styled_chars] at member
  exact List.mem_of_mem_drop member

/-- A text without an escape character that is painted with ranges in order is shown in full, every
character in the style of the first range that covers it, and nothing else of the terminal
changes. -/
theorem Terminal.feed_paint {terminal : Terminal} (outside : terminal.escape = .outside)
    (plain : terminal.pen = {}) (theme : Theme) {text : String} (clean : '\x1b' ∉ text.toList)
    {ranges : List Range}
    (ascending : ranges.Pairwise fun first second => first.start ≤ second.start) :
    terminal.feed (paint text ranges theme).toList =
      { terminal with
        shown := terminal.shown ++ styled (theme.styleAt ranges) 0 text.toList } := by
  rw [paint, segments, feed_segments outside plain, segmentsFrom_cells theme _ ascending,
    List.drop_zero]
  intro segment among present
  exact clean (mem_of_mem_segmentsFrom ascending among present)

/-- Of two ranges that overlap, the one that comes first decides where both cover. -/
example : Terminal.reading (paint "abc" [{ tags := Names.ofList ["bold"], start := 0, stop := 2 },
    { tags := Names.ofList ["code"], start := 1, stop := 3 }] Theme.markdown) =
      { shown :=
          [('a', { bold := true }), ('b', { bold := true }), ('c', { bg := .brightBlack })] } := by
  decide +kernel

/-- Reading a text without an escape character that is painted with ranges in order shows the text's
characters. Each of them has the style of the first range that covers its offset, and the default
style if none does. The terminal is left in its default state. -/
theorem Terminal.reading_paint (theme : Theme) {text : String} (clean : '\x1b' ∉ text.toList)
    {ranges : List Range}
    (ascending : ranges.Pairwise fun first second => first.start ≤ second.start) :
    ∃ shown, reading (paint text ranges theme) = { pen := {}, escape := .outside, shown := shown } ∧
      shown.map Prod.fst = text.toList ∧
      ∀ offset c style, shown[offset]? = some (c, style) →
        (∀ earlier range later, ranges = earlier ++ range :: later →
          (∀ other ∈ earlier, other.covers offset = false) → range.covers offset = true →
            style = theme.styleFor range.tags.toList range.fallback) ∧
        ((∀ range ∈ ranges, range.covers offset = false) → style = {}) := by
  refine ⟨styled (theme.styleAt ranges) 0 text.toList, ?_, styled_chars _ _ _, ?_⟩
  · exact feed_paint rfl rfl theme clean ascending
  · intro offset c style present
    rw [style_of_styled present, Nat.zero_add]
    constructor
    · rintro earlier range later rfl off covered
      exact theme.styleAt_of_first off covered later
    · exact theme.styleAt_eq_default

/-- Ranges in order: a bold one, an empty one, one of code that begins inside the first, and one
behind a text of four characters. -/
def overlapping : List Range :=
  [{ tags := Names.ofList ["bold"], start := 0, stop := 2 },
    { tags := Names.ofList ["url"], start := 1, stop := 1 },
    { tags := Names.ofList ["code"], start := 1, stop := 3 },
    { tags := Names.ofList ["title"], start := 7, stop := 9 }]

/-- Of four characters the second is bold, though it is in the range of code too, the third is code
and the last is as the terminal shows it by default. -/
theorem Terminal.reading_paint_overlapping : '\x1b' ∉ "aé b".toList ∧
    (overlapping.Pairwise fun first second => first.start ≤ second.start) ∧
    ∃ shown, reading (paint "aé b" overlapping Theme.markdown) = { shown := shown } ∧
      shown.map Prod.fst = ['a', 'é', ' ', 'b'] ∧
      (∀ c style, shown[1]? = some (c, style) → style = { bold := true }) ∧
      (∀ c style, shown[2]? = some (c, style) → style = { bg := .brightBlack }) ∧
      ∀ c (style : Style), shown[3]? = some (c, style) → style = {} := by
  have clean : '\x1b' ∉ "aé b".toList := by decide
  have ascending : overlapping.Pairwise fun first second => first.start ≤ second.start := by decide
  obtain ⟨shown, read, chars, styles⟩ := reading_paint Theme.markdown clean ascending
  refine ⟨clean, ascending, shown, read, chars, ?_, ?_, ?_⟩
  · intro c style present
    exact (styles 1 c style present).1 [] _ _ rfl (by decide) (by decide)
  · intro c style present
    exact (styles 2 c style present).1 (overlapping.take 2) _ _ rfl (by decide) (by decide)
  · intro c style present
    exact (styles 3 c style present).2 (by decide)

end TextDecoration
