import TextDecoration.Style.Escape

/-!
# A terminal

A terminal shows characters one after the other in the style of its pen. An escape that selects
graphic rendition shows nothing and changes the pen: it begins with the escape character and a
bracket, holds decimal parameters with semicolons between them, and ends with the letter m. A
parameter switches an attribute on, resets one colour or resets everything; three together choose
a colour of the palette. Other escapes are read over.

Only what a style's own escapes ask for is modelled. There is no cursor: what is shown is the
sequence of characters, line feeds among them, each with the style it is shown in.
-/

namespace TextDecoration

/-- The colour with a number in the palette of sixteen. Larger numbers belong to other palettes. -/
def Color.ofIndex? : Nat → Option Color
  | 0 => some .black
  | 1 => some .red
  | 2 => some .green
  | 3 => some .yellow
  | 4 => some .blue
  | 5 => some .magenta
  | 6 => some .cyan
  | 7 => some .white
  | 8 => some .brightBlack
  | 9 => some .brightRed
  | 10 => some .brightGreen
  | 11 => some .brightYellow
  | 12 => some .brightBlue
  | 13 => some .brightMagenta
  | 14 => some .brightCyan
  | 15 => some .brightWhite
  | _ => none

namespace Style

/-- The style after one parameter that stands alone. One that is not known changes nothing. -/
def selectOne (style : Style) : Nat → Style
  | 0 => {}
  | 1 => { style with bold := true }
  | 2 => { style with dim := true }
  | 3 => { style with italic := true }
  | 4 => { style with underline := true }
  | 7 => { style with reverse := true }
  | 39 => { style with fg := .default }
  | 49 => { style with bg := .default }
  | _ => style

/-- The style after all parameters of an escape, from left to right. A colour takes three of
them. -/
def select (style : Style) : List Nat → Style
  | [] => style
  | 38 :: 5 :: index :: later =>
    select { style with fg := (Color.ofIndex? index).getD style.fg } later
  | 48 :: 5 :: index :: later =>
    select { style with bg := (Color.ofIndex? index).getD style.bg } later
  | parameter :: later => select (style.selectOne parameter) later

end Style

/-- How far a terminal has come in reading an escape. Only escapes of the kind that this library
writes are followed to their end. -/
inductive EscapeState where
  /-- In no escape, so the next character is shown or begins one. -/
  | outside
  /-- Behind the escape character, where an opening bracket has to follow. -/
  | begun
  /-- Among the parameters: those that are complete, and the value of the one being read. -/
  | parameters (complete : List Nat) (current : Nat)
  deriving DecidableEq

/-- A terminal. As long as nothing has been read, it is in its default state. -/
structure Terminal where
  /-- Style in which the next character is shown. It stays until an escape changes it. -/
  pen : Style := {}
  /-- What has been read of an escape, if the terminal is inside one. -/
  escape : EscapeState := .outside
  /-- The characters shown so far with their styles, line feeds among them. -/
  shown : List (Char × Style) := []
  deriving DecidableEq

namespace Terminal

/-- Read one character. It is shown, or it is a part of an escape. -/
def step (terminal : Terminal) (c : Char) : Terminal :=
  match terminal.escape with
  | .outside =>
    if c = '\x1b' then { terminal with escape := .begun }
    else { terminal with shown := terminal.shown ++ [(c, terminal.pen)] }
  | .begun =>
    if c = '[' then { terminal with escape := .parameters [] 0 }
    else { terminal with escape := .outside }
  | .parameters complete current =>
    if c.isDigit then
      { terminal with escape := .parameters complete (10 * current + (c.toNat - '0'.toNat)) }
    else if c = ';' then { terminal with escape := .parameters (complete ++ [current]) 0 }
    else if c = 'm' then
      { terminal with pen := terminal.pen.select (complete ++ [current]), escape := .outside }
    else { terminal with escape := .outside }

/-- Read characters one after the other. There is nothing that a terminal would wait for. -/
def feed (terminal : Terminal) (cs : List Char) : Terminal := cs.foldl step terminal

/-- The terminal that has read an output from its default state on. -/
def reading (output : String) : Terminal := feed {} output.toList

/-- Reading one output and then another is reading them in a row. The terminal's state is all that
passes from the one to the other. -/
theorem feed_append (terminal : Terminal) (first second : List Char) :
    terminal.feed (first ++ second) = (terminal.feed first).feed second := List.foldl_append

/-- Outside an escape, text without an escape character is shown as it is, in the pen's style. -/
theorem feed_text (terminal : Terminal) (outside : terminal.escape = .outside) {cs : List Char}
    (clean : '\x1b' ∉ cs) :
    terminal.feed cs =
      { terminal with shown := terminal.shown ++ cs.map fun c => (c, terminal.pen) } := by
  induction cs generalizing terminal with
  | nil => simp [feed]
  | cons c cs inductionHypothesis =>
    rw [List.mem_cons, not_or] at clean
    obtain ⟨different, cleanLater⟩ := clean
    have read : terminal.step c =
        { terminal with shown := terminal.shown ++ [(c, terminal.pen)] } := by
      rw [step, outside]
      exact if_neg (Ne.symm different)
    rw [feed, List.foldl_cons, read]
    refine Eq.trans (inductionHypothesis _ outside cleanLater) ?_
    rw [List.append_assoc]
    rfl

/-- Digits continue the parameter that is being read, and show nothing. -/
theorem feed_digits {terminal : Terminal} {complete : List Nat} {current : Nat}
    (among : terminal.escape = .parameters complete current) {digits : List Char}
    (decimal : ∀ c ∈ digits, c.isDigit = true) :
    terminal.feed digits =
      { terminal with escape := .parameters complete (Nat.ofDigitChars 10 digits current) } := by
  induction digits generalizing terminal current with
  | nil => rw [Nat.ofDigitChars_nil, ← among]; rfl
  | cons c digits inductionHypothesis =>
    have read : terminal.step c = { terminal with
        escape := .parameters complete (10 * current + (c.toNat - '0'.toNat)) } := by
      rw [step, among]
      exact if_pos (decimal c List.mem_cons_self)
    rw [feed, List.foldl_cons, read, Nat.ofDigitChars_cons]
    exact inductionHypothesis rfl fun c member => decimal c (List.mem_cons_of_mem _ member)

/-- A number written out becomes the parameter that is being read, read as the number that it
was. -/
theorem feed_number {terminal : Terminal} {complete : List Nat}
    (among : terminal.escape = .parameters complete 0) (n : Nat) :
    terminal.feed (toString n).toList = { terminal with escape := .parameters complete n } := by
  have decimal : ∀ c ∈ (toString n).toList, c.isDigit = true := by
    intro c member
    rw [Nat.toString_eq_repr, Nat.toList_repr] at member
    exact Nat.isDigit_of_mem_toDigits (by decide) (by decide) member
  rw [feed_digits among decimal, Nat.toString_eq_repr, Nat.toList_repr,
    Nat.ofDigitChars_ten_toDigits]

/-- Parameters that are written out with semicolons between them and closed by the letter m change
the pen, in one go with those that were complete before. -/
theorem feed_parameters {terminal : Terminal} {complete : List Nat}
    (among : terminal.escape = .parameters complete 0) {parameters : List Nat}
    (some : parameters ≠ []) :
    terminal.feed ((String.intercalate ";" (parameters.map fun n => toString n)).toList ++ ['m']) =
      { terminal with
        pen := terminal.pen.select (complete ++ parameters), escape := .outside } := by
  induction parameters generalizing terminal complete with
  | nil => exact absurd rfl some
  | cons parameter later inductionHypothesis =>
    cases later with
    | nil =>
      rw [List.map_singleton, String.intercalate_singleton, feed_append, feed_number among]
      rfl
    | cons next later =>
      rw [List.map_cons, List.map_cons, String.intercalate_cons_cons, ← List.map_cons,
        String.toList_append, String.toList_append, List.append_assoc, List.append_assoc,
        feed_append, feed_number among, feed_append]
      refine Eq.trans (inductionHypothesis rfl (List.cons_ne_nil next later)) ?_
      rw [List.append_assoc]
      rfl

/-- An escape that selects graphic rendition changes the pen and shows nothing. Behind it the
terminal is outside an escape again. -/
theorem feed_escape {terminal : Terminal} (outside : terminal.escape = .outside)
    {parameters : List Nat} (some : parameters ≠ []) :
    terminal.feed (Style.escape parameters).toList =
      { terminal with pen := terminal.pen.select parameters } := by
  have opened : terminal.feed ['\x1b', '['] = { terminal with escape := .parameters [] 0 } := by
    have began : terminal.step '\x1b' = { terminal with escape := .begun } := by
      rw [step, outside]
      exact if_pos rfl
    rw [feed, List.foldl_cons, began]
    rfl
  have parts : (Style.escape parameters).toList = ['\x1b', '['] ++
      ((String.intercalate ";" (parameters.map fun n => toString n)).toList ++ ['m']) := by
    rw [Style.escape, String.toList_append, String.toList_append]
    rfl
  rw [parts, feed_append, opened]
  refine Eq.trans (feed_parameters rfl some) ?_
  rw [List.nil_append, ← outside]

/-- Escapes in a row change the pen one after the other. None of them may be without parameters. -/
theorem feed_escapes (terminal : Terminal) (outside : terminal.escape = .outside)
    {escapes : List (List Nat)} (some : [] ∉ escapes) :
    terminal.feed (String.join (escapes.map Style.escape)).toList =
      { terminal with pen := escapes.foldl Style.select terminal.pen } := by
  induction escapes generalizing terminal with
  | nil => rfl
  | cons parameters later inductionHypothesis =>
    rw [List.mem_cons, not_or] at some
    obtain ⟨filled, filledLater⟩ := some
    rw [List.map_cons, String.join_cons, String.toList_append, feed_append,
      feed_escape outside (Ne.symm filled)]
    exact inductionHypothesis _ outside filledLater

end Terminal

end TextDecoration
