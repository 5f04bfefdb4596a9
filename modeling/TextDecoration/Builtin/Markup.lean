import TextDecoration.Grammar.Basic

/-!
# The markup grammar

Tags, comments and entities as HTML and XML write them. Comments come first, so nothing inside one
is ever taken for anything else. A tag and a document type are cut once more into their parts.
-/

namespace TextDecoration.Builtin.Markup

/-- A comment, up to the nearest end mark. -/
def comment : Pattern :=
  .known "(?s)<!--.*?-->"
    (by decide +kernel)

/-- A processing instruction. -/
def prolog : Pattern :=
  .known "(?s)<\\?.+?\\?>"
    (by decide +kernel)

/-- A document type declaration with an optional internal subset. -/
def doctype : Pattern :=
  .known "(?i)<!DOCTYPE(?:[^>\"'\\[\\]]|\"[^\"]*\"|'[^']*')+(?:\\[[^\\]]*\\]\\s*)?>"
    (by decide +kernel)

/-- A quoted string in a document type. -/
def doctypeString : Pattern :=
  .known "\"[^\"]*\"|'[^']*'"
    (by decide +kernel)

/-- The marks that bound a document type and its subset. -/
def doctypePunctuation : Pattern :=
  .known "^<!|>$|[\\[\\]]"
    (by decide +kernel)

/-- The keyword of a document type. -/
def doctypeKeyword : Pattern :=
  .known "(?i)^DOCTYPE"
    (by decide +kernel)

/-- A name in a document type. -/
def doctypeName : Pattern :=
  .known "[^\\s<>'\"\\[\\]]+"
    (by decide +kernel)

/-- A character data section. -/
def cdata : Pattern :=
  .known "(?is)<!\\[CDATA\\[.*?\\]\\]>"
    (by decide +kernel)

/-- An opening, closing or empty tag with its attributes. -/
def tag : Pattern :=
  .known "</?(?!\\d)[^\\s>/=$<%]+(?:\\s(?:\\s*[^\\s>/=]+(?:\\s*=\\s*(?:\"[^\"]*\"|'[^']*'|[^\\s'\">=]+(?=[\\s>]))|(?=[\\s/>])))+)?\\s*/?>"
    (by decide +kernel)

/-- The opening of a tag with its name. -/
def tagName : Pattern :=
  .known "^</?[^\\s>/]+"
    (by decide +kernel)

/-- The mark that opens a tag. -/
def tagOpening : Pattern :=
  .known "^</?"
    (by decide +kernel)

/-- The mark that closes a tag. -/
def tagClosing : Pattern :=
  .known "/?>"
    (by decide +kernel)

/-- A name space and its colon. -/
def nameSpace : Pattern :=
  .known "^[^\\s>/:]+:"
    (by decide +kernel)

/-- An attribute's value with its equals sign. -/
def attributeValue : Pattern :=
  .known "=\\s*(?:\"[^\"]*\"|'[^']*'|[^\\s'\">=]+)"
    (by decide +kernel)

/-- The equals sign before a value. -/
def equalsSign : Pattern :=
  .known "^="
    (by decide +kernel)

/-- A quotation mark. -/
def quotationMark : Pattern :=
  .known "\"|'"
    (by decide +kernel)

/-- An attribute's name. -/
def attributeName : Pattern :=
  .known "[^\\s>/=]+"
    (by decide +kernel)

/-- An entity written by its name. -/
def namedEntity : Pattern :=
  .known "(?i)&[\\da-z]\x7b1,8\x7d;"
    (by decide +kernel)

/-- An entity written by its number. -/
def numericEntity : Pattern :=
  .known "(?i)&#x?[\\da-f]\x7b1,8\x7d;"
    (by decide +kernel)

/-- The parts of a document type. -/
def doctypeInside : Grammar :=
  Grammar.empty
    |>.rule "string" (.ofPattern doctypeString)
    |>.rule "punctuation" (.ofPattern doctypePunctuation)
    |>.rule "doctype-tag" (.ofPattern doctypeKeyword)
    |>.rule "name" (.ofPattern doctypeName)

/-- The parts of a tag's opening. -/
def tagNameInside : Grammar :=
  Grammar.empty
    |>.rule "punctuation" (.ofPattern tagOpening)
    |>.rule "namespace" (.ofPattern nameSpace)

/-- The parts of an attribute's value. -/
def attributeValueInside : Grammar :=
  Grammar.empty
    |>.rule "punctuation" ((Rule.ofPattern equalsSign).withFallback "attr-equals")
    |>.rule "punctuation" (.ofPattern quotationMark)

/-- The parts of an attribute's name. -/
def attributeNameInside : Grammar := Grammar.empty.rule "namespace" (.ofPattern nameSpace)

/-- The parts of a tag. -/
def tagInside : Grammar :=
  Grammar.empty
    |>.rule "tag" ((Rule.ofPattern tagName).withInside tagNameInside)
    |>.rule "attr-value" ((Rule.ofPattern attributeValue).withInside attributeValueInside)
    |>.rule "punctuation" (.ofPattern tagClosing)
    |>.rule "attr-name" ((Rule.ofPattern attributeName).withInside attributeNameInside)

/-- The markup grammar. -/
def grammar : Grammar :=
  Grammar.empty
    |>.rule "comment" (.ofPattern comment)
    |>.rule "prolog" (.ofPattern prolog)
    |>.rule "doctype" ((Rule.ofPattern doctype).withInside doctypeInside)
    |>.rule "cdata" (.ofPattern cdata)
    |>.rule "tag" ((Rule.ofPattern tag).withInside tagInside)
    |>.rule "entity" ((Rule.ofPattern namedEntity).withFallback "named-entity")
    |>.rule "entity" (.ofPattern numericEntity)

end TextDecoration.Builtin.Markup
