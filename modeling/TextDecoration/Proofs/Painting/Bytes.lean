import TextDecoration.Painting
import TextDecoration.Proofs.Text.ByteSlices

/-!
# Painting by bytes

A text that is kept in its UTF-8 form is sliced by offsets in bytes. A slice is there only if its
offsets are in order, in the text and between characters. Painting finds the offsets of a range in a
list of those at which a character or the text's end stands, and is done with it only if every slice
it takes is there.

They all are, whatever the ranges, and each has the characters that painting by characters takes.
For the offsets that it goes by are always those of some number of characters, and it never moves
back.
-/

namespace TextDecoration

namespace Text

/-- Offsets in bytes at which a character of the text stands, and that of the text's end. There is
one more of them than there are characters. -/
def boundaries (cs : List Char) : List Nat := (List.range (cs.length + 1)).map (byteOffset cs)

/-- Offset in bytes of an offset in characters, with one behind the text taken for the text's
end. -/
def boundary? (cs : List Char) (offset : Nat) : Option Nat :=
  (boundaries cs)[min offset ((boundaries cs).length - 1)]?

/-- The list of the offsets is never left, since it ends with that of the text's end. -/
theorem boundary?_eq (cs : List Char) (offset : Nat) :
    boundary? cs offset = some (byteOffset cs (min offset cs.length)) := by
  have counted : (boundaries cs).length = cs.length + 1 := by
    rw [boundaries, List.length_map, List.length_range]
  have listed : min offset cs.length < cs.length + 1 := by omega
  rw [boundary?, counted, Nat.add_sub_cancel, boundaries, List.getElem?_map,
    List.getElem?_range listed, Option.map_some]

end Text

/-- The segments from an offset in bytes on that the ranges leave and paint, if every slice that is
taken of the text is there. -/
def byteSegmentsFrom? (theme : Theme) (cs : List Char) (position : Nat) :
    List Range → Option (List Segment)
  | [] => do
    let rest ← Text.byteSlice? cs position (Text.byteOffset cs cs.length)
    return [⟨{}, rest⟩]
  | range :: ranges => do
    let start := max (← Text.boundary? cs range.start) position
    let stop ← Text.boundary? cs range.stop
    if stop ≤ start then byteSegmentsFrom? theme cs position ranges
    else
      let before ← Text.byteSlice? cs position start
      let own ← Text.byteSlice? cs start stop
      let later ← byteSegmentsFrom? theme cs stop ranges
      return ⟨{}, before⟩ :: ⟨theme.styleFor range.tags.toList range.fallback, own⟩ :: later

/-- A text painted by bytes, if every slice that is taken of it is there. This is how a program
would do it that stores text as UTF-8. -/
def paintBytes? (text : String) (ranges : List Range) (theme : Theme) : Option String :=
  (byteSegmentsFrom? theme text.toList 0 ranges).map fun segments =>
    String.join (segments.map Segment.written)

/-- From the bytes of some number of characters on, every slice is there and the segments are those
of painting by characters. -/
theorem byteSegmentsFrom?_eq (theme : Theme) (cs : List Char) (ranges : List Range)
    {position : Nat} (inside : position ≤ cs.length) :
    byteSegmentsFrom? theme cs (Text.byteOffset cs position) ranges =
      some (segmentsFrom theme cs position ranges) := by
  induction ranges generalizing position with
  | nil =>
    rw [byteSegmentsFrom?, Text.byteSlice?_byteOffset inside (Nat.le_refl _), slice_eq_drop]
    rfl
  | cons range ranges inductionHypothesis =>
    rw [byteSegmentsFrom?, Text.boundary?_eq, Text.boundary?_eq, segmentsFrom]
    simp only [Option.bind_eq_bind, Option.bind_some]
    rw [Text.max_byteOffset]
    generalize begins : max (min range.start cs.length) position = start
    generalize ends : min range.stop cs.length = stop
    have onward : position ≤ start := by omega
    have entered : start ≤ cs.length := by omega
    have reached : stop ≤ cs.length := by omega
    -- Both are now split on one condition, since bytes are ordered as characters are.
    simp only [Text.byteOffset_le_iff reached entered]
    split
    · exact inductionHypothesis inside
    · next ahead =>
      have ordered : start ≤ stop := Nat.le_of_not_le ahead
      rw [Text.byteSlice?_byteOffset onward entered, Text.byteSlice?_byteOffset ordered reached,
        inductionHypothesis reached]
      rfl

/-- Painting by bytes finds every slice it takes and writes the same as painting by characters,
whatever the ranges are. -/
theorem paintBytes?_eq (text : String) (ranges : List Range) (theme : Theme) :
    paintBytes? text ranges theme = some (paint text ranges theme) := by
  have segmented := byteSegmentsFrom?_eq theme text.toList ranges (Nat.zero_le _)
  rw [Text.byteOffset_zero] at segmented
  rw [paintBytes?, segmented, Option.map_some, paint, segments]

end TextDecoration
