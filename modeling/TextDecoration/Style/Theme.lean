import TextDecoration.Style.Basic
import TextDecoration.Table

/-!
# Themes

A theme gives styles to categories. The style of a range is made of the styles of all its tags that
the theme knows, laid over one another in the tags' order. Only where it knows none of them does
the alias count; where it does not know that either, the text stays as it is.
-/

namespace TextDecoration

/-- Styles by category. The order of the entries has no meaning. -/
abbrev Theme := Table Style

namespace Theme

/-- The theme without styles, in which every range looks like plain text. -/
def empty : Theme := Table.empty

/-- The theme with a style given to a category, in the place of the one it had. -/
def set (theme : Theme) (category : String) (style : Style) : Theme := theme.put category style

/-- Styles laid over one another, the first at the bottom; none for no style. No style is a
different thing from one that changes nothing. -/
def layered : List Style → Option Style
  | [] => none
  | style :: styles => some (styles.foldl Style.merge style)

/-- Style of a range with these tags and this alias. The alias counts only where none of the tags
has a style. -/
def styleFor (theme : Theme) (tags : List String) (fallback : Option String) : Style :=
  match layered (tags.filterMap theme.get?) with
  | some style => style
  | none => (fallback.bind theme.get?).getD {}

/-- Styles for the categories of the markdown grammar and the aliases that its rules declare. -/
def markdown : Theme :=
  empty
    |>.set "bold" { bold := true }
    |>.set "italic" { italic := true }
    |>.set "underlined" { underline := true }
    |>.set "title" { fg := .brightWhite, bold := true }
    |>.set "list" { fg := .brightYellow }
    |>.set "hr" { fg := .brightBlack, dim := true }
    |>.set "blockquote" { fg := .brightBlack, italic := true }
    |>.set "code" { bg := .brightBlack }
    |>.set "url" { fg := .blue, underline := true }
    |>.set "important" { bold := true }
    |>.set "keyword" { fg := .magenta }
    |>.set "punctuation" { fg := .brightBlack }
    |>.set "comment" { fg := .brightBlack, italic := true }
    |>.set "tag" { fg := .cyan }
    |>.set "entity" { fg := .brightRed }

end Theme

end TextDecoration
