import TextDecoration.Style.Basic

/-!
# Terminal escapes of a style

A style is switched on by one escape for each colour that it names, the background first, and one
for each attribute. It is switched off by a full reset if it has attributes, and otherwise by one
escape for each colour. So the terminal is back in its default state behind every styled text.
-/

namespace TextDecoration

/-- Number of a colour in the terminal's palette; the terminal's own colour has none. The bright
colours follow the plain ones. -/
def Color.index? : Color → Option Nat
  | .default => none
  | .black => some 0
  | .red => some 1
  | .green => some 2
  | .yellow => some 3
  | .blue => some 4
  | .magenta => some 5
  | .cyan => some 6
  | .white => some 7
  | .brightBlack => some 8
  | .brightRed => some 9
  | .brightGreen => some 10
  | .brightYellow => some 11
  | .brightBlue => some 12
  | .brightMagenta => some 13
  | .brightCyan => some 14
  | .brightWhite => some 15

namespace Style

/-- An escape that selects graphic rendition: the escape character, a bracket, the parameters with
    semicolons between them, and the letter m. -/
def escape (parameters : List Nat) : String :=
  "\x1b[" ++ String.intercalate ";" (parameters.map fun n => toString n) ++ "m"

/-- Parameters of the attributes that are on, in ascending order of the numbers that switch them
on. -/
def attributes (style : Style) : List Nat :=
  [(style.bold, 1), (style.dim, 2), (style.italic, 3), (style.underline, 4), (style.reverse, 7)]
    |>.filterMap fun (on, parameter) => if on then some parameter else none

/-- Escapes that switch a style on, by their parameters: one for each colour that is named and one
for each attribute. -/
def opening (style : Style) : List (List Nat) :=
  (style.bg.index?.map ([48, 5, ·])).toList ++ (style.fg.index?.map ([38, 5, ·])).toList ++
    style.attributes.map ([·])

/-- Escapes that switch a style off, by their parameters. One escape resets everything if there are
attributes; otherwise each colour that was named is reset on its own. -/
def closing (style : Style) : List (List Nat) :=
  if style.attributes.isEmpty then
    (style.bg.index?.map fun _ => [49]).toList ++ (style.fg.index?.map fun _ => [39]).toList
  else [[0]]

/-- A text between the escapes of a style. Nothing is written around it that the style does not ask
for. -/
def wrap (style : Style) (text : String) : String :=
  String.join (style.opening.map escape) ++ text ++ String.join (style.closing.map escape)

end Style

end TextDecoration
