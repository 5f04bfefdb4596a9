/-!
# Styles

A style has two colours and five attributes. Laying one style over another keeps every attribute
that either has, and takes the upper colour wherever the upper one names a colour.
-/

namespace TextDecoration

/-- A colour of the terminal's palette of sixteen, or the terminal's own, which names none. -/
inductive Color where
  | default
  | black
  | red
  | green
  | yellow
  | blue
  | magenta
  | cyan
  | white
  | brightBlack
  | brightRed
  | brightGreen
  | brightYellow
  | brightBlue
  | brightMagenta
  | brightCyan
  | brightWhite
  deriving DecidableEq, Inhabited

/-- How text looks. Every attribute is off and no colour is named unless something says
otherwise. -/
structure Style where
  /-- Colour of the characters. -/
  fg : Color := .default
  /-- Colour behind them. -/
  bg : Color := .default
  bold : Bool := false
  italic : Bool := false
  underline : Bool := false
  /-- Faint text. -/
  dim : Bool := false
  /-- The two colours exchanged. -/
  reverse : Bool := false
  deriving DecidableEq, Inhabited

namespace Style

/-- The colour of the upper layer, if it names one. The terminal's own colour is not a choice, so it
does not cover the lower layer's. -/
def overColor (lower upper : Color) : Color := if upper = .default then lower else upper

/-- A style with another one laid over it. Attributes add up and are never switched off; a colour
covers the one below. -/
def merge (lower upper : Style) : Style where
  fg := overColor lower.fg upper.fg
  bg := overColor lower.bg upper.bg
  bold := lower.bold || upper.bold
  italic := lower.italic || upper.italic
  underline := lower.underline || upper.underline
  dim := lower.dim || upper.dim
  reverse := lower.reverse || upper.reverse

/-- Whether the style changes nothing, so that text in it is written without escapes. -/
def isDefault (style : Style) : Bool := decide (style = {})

end Style

end TextDecoration
