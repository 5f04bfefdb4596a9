import TextDecoration.Style.Theme

/-!
# Styles laid over one another

A style is its five attributes and its two colours. Laying styles over one another keeps every
attribute that any of them has. Of each colour it keeps the last one that is named, for the
terminal's own colour covers nothing. So it does not matter how the layers are grouped, only in
which order they come, and a layer laid over itself changes nothing.
-/

namespace TextDecoration

/-- The attributes of a style: what it does to text besides colouring it. They are all treated
alike. -/
inductive Effect where
  | bold
  | italic
  | underline
  | dim
  | reverse

/-- What has a colour: the characters, and the ground behind them. -/
inductive Ground where
  | characters
  | behind

namespace Style

/-- Whether a style has an attribute, with the attribute as a parameter. -/
def has (style : Style) : Effect → Bool
  | .bold => style.bold
  | .italic => style.italic
  | .underline => style.underline
  | .dim => style.dim
  | .reverse => style.reverse

/-- The colour that a style gives to the characters or to the ground behind them, with the choice as
a parameter. -/
def colour (style : Style) : Ground → Color
  | .characters => style.fg
  | .behind => style.bg

/-- Styles with the same attributes and colours are the same style. There is nothing else in a
style. -/
theorem eq_of_has_of_colour {style other : Style}
    (effects : ∀ effect, style.has effect = other.has effect)
    (colours : ∀ ground, style.colour ground = other.colour ground) : style = other := by
  obtain ⟨fg, bg, bold, italic, underline, dim, reverse⟩ := style
  obtain ⟨fg', bg', bold', italic', underline', dim', reverse'⟩ := other
  obtain rfl : fg = fg' := colours .characters
  obtain rfl : bg = bg' := colours .behind
  obtain rfl : bold = bold' := effects .bold
  obtain rfl : italic = italic' := effects .italic
  obtain rfl : underline = underline' := effects .underline
  obtain rfl : dim = dim' := effects .dim
  obtain rfl : reverse = reverse' := effects .reverse
  rfl

/-- Of two layers, both keep their attributes. No layer can take an attribute back. -/
@[simp] theorem has_merge (lower upper : Style) (effect : Effect) :
    (lower.merge upper).has effect = (lower.has effect || upper.has effect) := by
  cases effect <;> rfl

/-- Each colour is that of the upper layer, if it names one, and that of the lower layer if it does
not. -/
@[simp] theorem colour_merge (lower upper : Style) (ground : Ground) :
    (lower.merge upper).colour ground = overColor (lower.colour ground) (upper.colour ground) := by
  cases ground <;> rfl

/-- The terminal's own colour covers nothing. To go back to it over a coloured layer is not
possible. -/
@[simp] theorem overColor_default (lower : Color) : overColor lower .default = lower := rfl

/-- Any other colour covers what is below, whatever that is. -/
theorem overColor_named {upper : Color} (named : upper ≠ .default) (lower : Color) :
    overColor lower upper = upper := if_neg named

/-- How colours in layers are grouped does not matter: the last one that is named decides. -/
theorem overColor_assoc (lower middle upper : Color) :
    overColor (overColor lower middle) upper = overColor lower (overColor middle upper) := by
  by_cases own : upper = .default
  · rw [own, overColor_default, overColor_default]
  · rw [overColor_named own, overColor_named own, overColor_named own]

/-- A colour over itself is that colour, whether it is named or not. -/
theorem overColor_self (colour : Color) : overColor colour colour = colour := ite_self colour

/-- How layers are grouped does not matter, since it matters neither to attributes nor to
colours. -/
theorem merge_assoc (lower middle upper : Style) :
    (lower.merge middle).merge upper = lower.merge (middle.merge upper) := by
  apply eq_of_has_of_colour
  · intro effect
    rw [has_merge, has_merge, has_merge, has_merge, Bool.or_assoc]
  · intro ground
    rw [colour_merge, colour_merge, colour_merge, colour_merge, overColor_assoc]

instance : Std.Associative Style.merge := ⟨merge_assoc⟩

/-- A style laid over itself is that style. To know a tag twice is as good as knowing it once. -/
theorem merge_self (style : Style) : style.merge style = style := by
  apply eq_of_has_of_colour
  · intro effect
    rw [has_merge, Bool.or_self]
  · intro ground
    rw [colour_merge, overColor_self]

/-- The last colour of a list that is not the terminal's own, or the terminal's own if there is no
other. -/
def lastNamed (colours : List Color) : Color :=
  (colours.filter (· ≠ .default)).getLastD .default

/-- Colours laid over a lower one leave the last of them that is named, or the lower one. The
induction is on the list of colours. -/
theorem foldl_overColor (colours : List Color) (lower : Color) :
    colours.foldl overColor lower = (colours.filter (· ≠ .default)).getLastD lower := by
  induction colours generalizing lower with
  | nil => rfl
  | cons upper colours inductionHypothesis =>
    rw [List.foldl_cons, inductionHypothesis]
    by_cases own : upper = .default
    · rw [own, overColor_default, List.filter_cons_of_neg (by simp)]
    · rw [overColor_named own, List.filter_cons_of_pos (by simpa using own), List.getLastD_cons]

end Style

namespace Theme

open Style

/-- There is no result for no layers, and one for any others. A layer that changes nothing counts as
a layer. -/
theorem layered_eq_none_iff {styles : List Style} : layered styles = none ↔ styles = [] := by
  cases styles <;> simp [layered]

section Layered

variable {styles : List Style} {style : Style}

/-- Layers have the attributes that any of them has, in whatever order they lie. -/
theorem has_layered (result : layered styles = some style) (effect : Effect) :
    style.has effect = styles.any fun layer => layer.has effect := by
  have further : ∀ (layers : List Style) (lowest : Style),
      (layers.foldl merge lowest).has effect =
        (lowest.has effect || layers.any fun layer => layer.has effect) := by
    intro layers
    induction layers with
    | nil => simp
    | cons layer layers inductionHypothesis =>
      intro lowest
      rw [List.foldl_cons, inductionHypothesis, has_merge, List.any_cons, Bool.or_assoc]
  cases styles with
  | nil => cases result
  | cons lowest layers =>
    cases result
    rw [further, List.any_cons]

/-- Layers have the last colour that any of them names, for the characters and for the ground
alike. -/
theorem colour_layered (result : layered styles = some style) (ground : Ground) :
    style.colour ground = lastNamed (styles.map fun layer => layer.colour ground) := by
  have further : ∀ (layers : List Style) (lowest : Style),
      (layers.foldl merge lowest).colour ground =
        (layers.map fun layer => layer.colour ground).foldl overColor (lowest.colour ground) := by
    intro layers
    induction layers with
    | nil => exact fun _ => rfl
    | cons layer layers inductionHypothesis =>
      intro lowest
      rw [List.foldl_cons, inductionHypothesis, colour_merge, List.map_cons, List.foldl_cons]
  cases styles with
  | nil => cases result
  | cons lowest layers =>
    cases result
    -- The lowest colour covers the terminal's own, whichever it is.
    have covered : overColor .default (lowest.colour ground) = lowest.colour ground := by
      rw [overColor, ite_eq_right_iff]
      exact Eq.symm
    rw [further, lastNamed, ← foldl_overColor, List.map_cons, List.foldl_cons, covered]

/-- Layers over other layers are the result of the one over the result of the other. -/
theorem layered_append {others : List Style} {other : Style} (lower : layered styles = some style)
    (upper : layered others = some other) :
    layered (styles ++ others) = some (style.merge other) := by
  cases styles with
  | nil => cases lower
  | cons lowest layers =>
    cases others with
    | nil => cases upper
    | cons first later =>
      cases lower
      cases upper
      rw [List.cons_append, layered, List.foldl_append, List.foldl_cons, List.foldl_assoc]

/-- The uppermost layer once more changes nothing. A lower one might, as it would cover what lies
above it. -/
theorem layered_repeat (layers : List Style) (uppermost : Style) :
    layered (layers ++ [uppermost, uppermost]) = layered (layers ++ [uppermost]) := by
  have once : layered [uppermost, uppermost] = layered [uppermost] := by
    rw [layered, layered, List.foldl_cons, List.foldl_nil, List.foldl_nil, merge_self]
  cases below : layered layers with
  | none =>
    rw [layered_eq_none_iff.mp below]
    exact once
  | some style => rw [layered_append below (once.trans rfl), layered_append below rfl]

end Layered

end Theme

end TextDecoration
