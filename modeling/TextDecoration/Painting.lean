import TextDecoration.Range.Basic
import TextDecoration.Style.Escape
import TextDecoration.Style.Theme
import TextDecoration.Text.Slice

/-!
# Painting a text

A text is painted by walking through its ranges and wrapping what each covers in its style. A range
paints only what no range before it has passed: what lies before the place that painting has
reached is left as it is, and an end beyond the text is taken for the text's end. So every
character is written exactly once and in order, whatever the ranges are.
-/

namespace TextDecoration

/-- A stretch of text and the style it is painted in. Segments stand side by side and make up the
line. -/
structure Segment where
  style : Style
  text : List Char

namespace Segment

/-- The written form: the text alone if the style changes nothing, and the text between the style's
escapes otherwise. An empty stretch with a style still writes the escapes. -/
def written (segment : Segment) : String :=
  let text := String.ofList segment.text
  if segment.style.isDefault then text else segment.style.wrap text

end Segment

/-- The segments from an offset on that the ranges leave and paint. A range counts from where
painting has come to, so of two that overlap the first in the list keeps what they share. -/
def segmentsFrom (theme : Theme) (cs : List Char) (position : Nat) : List Range → List Segment
  | [] => [⟨{}, cs.drop position⟩]
  | range :: ranges =>
    let start := max (min range.start cs.length) position
    let stop := min range.stop cs.length
    if stop ≤ start then segmentsFrom theme cs position ranges
    else
      ⟨{}, slice cs position start⟩ ::
        ⟨theme.styleFor range.tags.toList range.fallback, slice cs start stop⟩ ::
          segmentsFrom theme cs stop ranges

/-- The segments that a text falls into. The ranges are taken in the order given, which may be
any. -/
def segments (text : String) (ranges : List Range) (theme : Theme) : List Segment :=
  segmentsFrom theme text.toList 0 ranges

/-- A text painted with its ranges. Nothing is added but escapes, and the text is never cut inside a
character. -/
def paint (text : String) (ranges : List Range) (theme : Theme) : String :=
  String.join ((segments text ranges theme).map Segment.written)

end TextDecoration
