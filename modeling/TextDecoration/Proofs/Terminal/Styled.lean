import TextDecoration.Painting
import TextDecoration.Proofs.Terminal.Basic

/-!
# Styled text on a terminal

The escapes that switch a style on turn the default pen into exactly that style, and those that
switch it off turn the pen back, whichever of the two ways of switching off a style takes. So text
without an escape character is shown between them in its style, and nothing of the style is left
behind it.
-/

namespace TextDecoration

/-- The number of a colour leads back to it, so writing a colour by its number loses nothing. -/
theorem Color.ofIndex?_of_index? {color : Color} {index : Nat}
    (numbered : color.index? = some index) : Color.ofIndex? index = some color := by
  cases color <;> simp only [Color.index?, Option.some.injEq, reduceCtorEq] at numbered <;>
    subst numbered <;> rfl

/-- Only the terminal's own colour has no number, and no escape is written for it. -/
theorem Color.eq_default_of_index? {color : Color} (unnumbered : color.index? = none) :
    color = .default := by
  cases color <;> simp only [Color.index?, reduceCtorEq] at unnumbered
  rfl

namespace Style

/-! ## Switching on -/

/-- An escape that is written for a colour with a number sets that colour, be it that of the text
or that behind it. -/
theorem select_color (set : Color → Style) {code : Nat → List Nat}
    (sets : ∀ index chosen, Color.ofIndex? index = some chosen →
      (set .default).select (code index) = set chosen) (color : Color) :
    (color.index?.map code).toList.foldl select (set .default) = set color := by
  cases numbered : color.index? with
  | none =>
    rw [Color.eq_default_of_index? numbered]
    rfl
  | some index => exact sets index color (Color.ofIndex?_of_index? numbered)

/-- The escapes for the attributes set those that are on, and leave the colours as they are. -/
theorem select_attributes (style : Style) :
    (style.attributes.map ([·])).foldl select { fg := style.fg, bg := style.bg } = style := by
  obtain ⟨fg, bg, bold, italic, underline, dim, reverse⟩ := style
  cases bold <;> cases italic <;> cases underline <;> cases dim <;> cases reverse <;> rfl

/-- The escapes that switch a style on turn the default pen into the style. Over another pen they
might leave a part of it. -/
theorem select_opening (style : Style) : style.opening.foldl select {} = style := by
  have background : (style.bg.index?.map ([48, 5, ·])).toList.foldl select {} =
      { bg := style.bg } :=
    select_color (fun color => { bg := color })
      (fun index chosen named => by rw [select, named]; rfl) style.bg
  have foreground : (style.fg.index?.map ([38, 5, ·])).toList.foldl select { bg := style.bg } =
      { fg := style.fg, bg := style.bg } :=
    select_color (fun color => { fg := color, bg := style.bg })
      (fun index chosen named => by rw [select, named]; rfl) style.fg
  rw [opening, List.foldl_append, List.foldl_append, background, foreground]
  exact select_attributes style

/-! ## Switching off -/

/-- A style without attributes has its colours alone, as there is nothing else in a style. -/
theorem eq_colours {style : Style} (bare : style.attributes.isEmpty = true) :
    ∃ fg bg : Color, style = { fg, bg } := by
  obtain ⟨fg, bg, bold, italic, underline, dim, reverse⟩ := style
  refine ⟨fg, bg, ?_⟩
  cases bold <;> cases italic <;> cases underline <;> cases dim <;> cases reverse <;>
    first | rfl | cases bare

/-- An escape that is written for a colour with a number and takes it back leaves the terminal's
own colour. -/
theorem reset_color (set : Color → Style) {code : List Nat}
    (resets : ∀ chosen, (set chosen).select code = set .default) (color : Color) :
    (color.index?.map fun _ => code).toList.foldl select (set color) = set .default := by
  cases numbered : color.index? with
  | none =>
    rw [Color.eq_default_of_index? numbered]
    rfl
  | some index => exact resets color

/-- The escapes that switch a style off turn a pen of that style into the default pen. They need not
be right for any other pen. -/
theorem select_closing (style : Style) : style.closing.foldl select style = {} := by
  cases bare : style.attributes.isEmpty with
  | false =>
    rw [closing, bare]
    rfl
  | true =>
    obtain ⟨fg, bg, rfl⟩ := eq_colours bare
    have background : (bg.index?.map fun _ => [49]).toList.foldl select { fg, bg } = { fg } :=
      reset_color (fun color => { fg, bg := color }) (fun _ => rfl) bg
    have foreground : (fg.index?.map fun _ => [39]).toList.foldl select { fg } = {} :=
      reset_color (fun color => { fg := color }) (fun _ => rfl) fg
    rw [closing, bare, if_pos rfl, List.foldl_append, background, foreground]

/-! ## No escape is empty -/

/-- Every escape that switches a style on has a parameter. One without would reset the pen. -/
theorem nil_not_mem_opening (style : Style) : [] ∉ style.opening := by
  simp [opening, Option.map_eq_some_iff]

/-- Every escape that switches a style off has a parameter. One without would reset the pen as well,
but is not written. -/
theorem nil_not_mem_closing (style : Style) : [] ∉ style.closing := by
  rw [closing]
  split <;> simp

end Style

/-- What a segment shows: its characters in its style, one cell for each. -/
def Segment.cells (segment : Segment) : List (Char × Style) :=
  segment.text.map fun c => (c, segment.style)

namespace Terminal

/-- Outside an escape and with the default pen, a text between a style's escapes is shown in that
style, and the terminal is as it was but for what it shows. -/
theorem feed_wrap {terminal : Terminal} (outside : terminal.escape = .outside)
    (plain : terminal.pen = {}) {text : String} (clean : '\x1b' ∉ text.toList) (style : Style) :
    terminal.feed (style.wrap text).toList =
      { terminal with shown := terminal.shown ++ text.toList.map fun c => (c, style) } := by
  have opened : terminal.feed (String.join (style.opening.map Style.escape)).toList =
      { terminal with pen := style } := by
    rw [feed_escapes terminal outside style.nil_not_mem_opening, plain, style.select_opening]
  have through : ({ terminal with pen := style } : Terminal).feed text.toList =
      { terminal with
        pen := style, shown := terminal.shown ++ text.toList.map fun c => (c, style) } :=
    feed_text { terminal with pen := style } outside clean
  have closed (cells : List (Char × Style)) :
      ({ terminal with pen := style, shown := cells } : Terminal).feed
        (String.join (style.closing.map Style.escape)).toList =
      { terminal with shown := cells } := by
    rw [feed_escapes { terminal with pen := style, shown := cells } outside
      style.nil_not_mem_closing, style.select_closing, ← plain]
  rw [Style.wrap, String.toList_append, String.toList_append, feed_append, feed_append, opened,
    through, closed]

/-- A segment is shown in its style, and the terminal is as it was but for what it shows. -/
theorem feed_written {terminal : Terminal} (outside : terminal.escape = .outside)
    (plain : terminal.pen = {}) {segment : Segment} (clean : '\x1b' ∉ segment.text) :
    terminal.feed segment.written.toList =
      { terminal with shown := terminal.shown ++ segment.cells } := by
  rw [Segment.written, Segment.cells]
  cases unstyled : segment.style.isDefault with
  | false =>
    rw [if_neg Bool.false_ne_true, feed_wrap outside plain (by rwa [String.toList_ofList]),
      String.toList_ofList]
  | true =>
    have nothing : segment.style = {} := of_decide_eq_true unstyled
    rw [if_pos rfl, String.toList_ofList, feed_text terminal outside clean, plain, nothing]

/-- Segments in a row are shown one after the other, each in its style. The induction is on the
segments, with the terminal left open. -/
theorem feed_segments {terminal : Terminal} (outside : terminal.escape = .outside)
    (plain : terminal.pen = {}) {segments : List Segment}
    (clean : ∀ segment ∈ segments, '\x1b' ∉ segment.text) :
    terminal.feed (String.join (segments.map Segment.written)).toList =
      { terminal with shown := terminal.shown ++ segments.flatMap Segment.cells } := by
  induction segments generalizing terminal with
  | nil => simp [feed]
  | cons segment later inductionHypothesis =>
    rw [List.map_cons, String.join_cons, String.toList_append, feed_append,
      feed_written outside plain (clean segment List.mem_cons_self)]
    refine Eq.trans (inductionHypothesis outside plain
      fun other among => clean other (List.mem_cons_of_mem _ among)) ?_
    rw [List.flatMap_cons, List.append_assoc]

end Terminal

end TextDecoration
