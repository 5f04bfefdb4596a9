import TextDecoration.Builtin.Markup

/-!
# The markdown grammar

The markdown rules stand in the markup grammar right before its processing instructions: a comment
is still found first, and every markdown construct beats the remaining markup. Bold and italic
text may hold links and each other. Italic is copied into bold before bold is copied into
italic, so the nesting ends: an italic text may hold a bold one that holds an italic one, and no
more.
-/

namespace TextDecoration.Builtin.Markdown

/-- The marks at the head of a quoted line, as many as there are, with the blanks between them. -/
def blockquote : Pattern :=
  .known "(?m)^>(?:[\\t ]*>)*"
    (by decide +kernel)

/-- A line of code, indented by four blanks or a tabulator. -/
def indentedCode : Pattern :=
  .known "(?m)^(?: \x7b4\x7d|\\t).+"
    (by decide +kernel)

/-- Code between one or two backquotes. Between two it may hold single backquotes, and in neither
form a line's end. -/
def inlineCode : Pattern :=
  .known "``.+?``|`[^`\\n]+`"
    (by decide +kernel)

/-- A title underlined with equals signs or hyphens. It begins at a word character, so a title of
other characters is found in part. -/
def underlinedTitle : Pattern :=
  .known "\\w+.*(?:\\r?\\n|\\r)(?:==+|--+)"
    (by decide +kernel)

/-- The line under a title, or a part of it that reaches to the end of the text searched. -/
def titleUnderline : Pattern :=
  .known "==+$|--+$"
    (by decide +kernel)

/-- A title behind number signs, which may be indented. The indentation is context, and no part of
the token. -/
def hashTitle : Pattern :=
  .known "(?m)(^\\s*)#+.+"
    (by decide +kernel)

/-- The number signs around a title. A run of them ends at a border of the text, and so is a mark
and no part of the title. -/
def titleMarks : Pattern :=
  .known "^#+|#+$"
    (by decide +kernel)

/-- A line of three or more stars or hyphens, all alike, with blanks between them if wanted. The
line's end is looked at and not taken. -/
def rule : Pattern :=
  .known "(?m)(^\\s*)([*-])(?:[\\t ]*\\2)\x7b2,\x7d(?=\\s*$)"
    (by decide +kernel)

/-- The mark of a list item, a star, plus sign, hyphen or number with a point. A blank has to follow
it, with something behind the blank. -/
def listMark : Pattern :=
  .known "(?m)(^\\s*)(?:[*+-]|\\d+\\.)(?=[\\t ].)"
    (by decide +kernel)

/-- A link target under a label, with an optional title. -/
def reference : Pattern :=
  .known "!?\\[[^\\]]+\\]:[\\t ]+(?:\\S+|<(?:\\\\.|[^>\\\\])+>)(?:[\\t ]+(?:\"(?:\\\\.|[^\"\\\\])*\"|'(?:\\\\.|[^'\\\\])*'|\\((?:\\\\.|[^)\\\\])*\\)))?"
    (by decide +kernel)

/-- The label of a link target. -/
def referenceLabel : Pattern :=
  .known "^(!?\\[)[^\\]]+"
    (by decide +kernel)

/-- The title of a link target. -/
def referenceTitle : Pattern :=
  .known "(?:\"(?:\\\\.|[^\"\\\\])*\"|'(?:\\\\.|[^'\\\\])*'|\\((?:\\\\.|[^)\\\\])*\\))$"
    (by decide +kernel)

/-- The marks of a link target. -/
def referencePunctuation : Pattern :=
  .known "^[\\[\\]!:]|[<>]"
    (by decide +kernel)

/-- Text between double stars or double low lines. It may hold single line breaks, but no
    blank line, and the mark before it must not be escaped. -/
def bold : Pattern :=
  .known "(^|[^\\\\])(\\*\\*|__)(?:(?:\\r?\\n|\\r)(?!\\r?\\n|\\r)|.)+?\\2"
    (by decide +kernel)

/-- The marks around bold text. -/
def boldMarks : Pattern :=
  .known "^\\*\\*|^__|\\*\\*$|__$"
    (by decide +kernel)

/-- Text between single stars or low lines, under the same conditions as bold text. -/
def italic : Pattern :=
  .known "(^|[^\\\\])([*_])(?:(?:\\r?\\n|\\r)(?!\\r?\\n|\\r)|.)+?\\2"
    (by decide +kernel)

/-- The marks around italic text. -/
def italicMarks : Pattern :=
  .known "^[*_]|[*_]$"
    (by decide +kernel)

/-- A link with its target, or with the label of one. -/
def link : Pattern :=
  .known "!?\\[[^\\]]+\\](?:\\([^\\s)]+(?:[\\t ]+\"(?:\\\\.|[^\"\\\\])*\")?\\)| ?\\[[^\\]\\n]*\\])"
    (by decide +kernel)

/-- The label that a link ends with. -/
def linkLabel : Pattern :=
  .known "(!?\\[)[^\\]]+(?=\\]$)"
    (by decide +kernel)

/-- The title that a link ends with. -/
def linkTitle : Pattern :=
  .known "\"(?:\\\\.|[^\"\\\\])*\"(?=\\)$)"
    (by decide +kernel)

/-- A grammar that finds marks of punctuation only. -/
def punctuation (marks : Pattern) : Grammar := Grammar.empty.rule "punctuation" (.ofPattern marks)

/-- The parts of a link target. -/
def referenceInside : Grammar :=
  Grammar.empty
    |>.rule "variable" (Rule.ofPattern referenceLabel).withLookbehind
    |>.rule "string" (.ofPattern referenceTitle)
    |>.rule "punctuation" (.ofPattern referencePunctuation)

/-- The parts of a link. -/
def linkInside : Grammar :=
  Grammar.empty
    |>.rule "variable" (Rule.ofPattern linkLabel).withLookbehind
    |>.rule "string" (.ofPattern linkTitle)

/-- The rules that markdown adds to markup, before any is put inside another. -/
def additions : Grammar :=
  Grammar.empty
    |>.rule "blockquote" ((Rule.ofPattern blockquote).withFallback "punctuation")
    |>.rule "code" ((Rule.ofPattern indentedCode).withFallback "keyword")
    |>.rule "code" ((Rule.ofPattern inlineCode).withFallback "keyword")
    |>.rule "title" (((Rule.ofPattern underlinedTitle).withFallback "important").withInside
      (punctuation titleUnderline))
    |>.rule "title" (((Rule.ofPattern hashTitle).withLookbehind.withFallback "important").withInside
      (punctuation titleMarks))
    |>.rule "hr" ((Rule.ofPattern rule).withLookbehind.withFallback "punctuation")
    |>.rule "list" ((Rule.ofPattern listMark).withLookbehind.withFallback "punctuation")
    |>.rule "url-reference" (((Rule.ofPattern reference).withFallback "url").withInside
      referenceInside)
    |>.rule "bold" ((Rule.ofPattern bold).withLookbehind.withInside (punctuation boldMarks))
    |>.rule "italic" ((Rule.ofPattern italic).withLookbehind.withInside (punctuation italicMarks))
    |>.rule "url" ((Rule.ofPattern link).withInside linkInside)

/-- A grammar with the rules that it has for `category` put inside its rules for `parent`. -/
def nest (grammar : Grammar) (parent category : String) : Grammar :=
  grammar.embed parent category ((grammar.get? category).getD [])

/-- The markdown grammar. -/
def grammar : Grammar :=
  let flat := Markup.grammar.insertBefore "prolog" additions
  let linked := nest (nest flat "bold" "url") "italic" "url"
  nest (nest linked "bold" "italic") "italic" "bold"

end TextDecoration.Builtin.Markdown
