import TextDecoration.Unicode.Ranges

/-!
# Blank characters

Blank is the property White_Space: the ASCII blanks and line breaks, next line (U+0085), the
no-break and typographic spaces. The information separators, the zero-width space and the byte
order mark are not blank.
-/

namespace TextDecoration.Unicode

/-- Code points with the property White_Space. Some of them have no width, and some that look blank
are not among them. -/
def blankRanges : Ranges :=
  [(9, 13), (32, 32), (133, 133), (160, 160), (5760, 5760), (8192, 8202), (8232, 8233),
   (8239, 8239), (8287, 8287), (12288, 12288)]

/-- Whether a character is white space, in any script. -/
def isBlank (c : Char) : Bool := blankRanges.contains c.toNat

end TextDecoration.Unicode
