/-!
# Blank lines

A line break is a carriage return with a line feed, a line feed, or a carriage return alone. Two
line breaks, one right behind the other, enclose a blank line. A carriage return and a line feed
that follows it are one break and no blank line.
-/

namespace TextDecoration.Text

/-- The text behind the line break in front, if there is one. A carriage return with a line feed is
one line break. -/
def afterLineBreak? : List Char → Option (List Char)
  | '\r' :: '\n' :: rest => some rest
  | '\n' :: rest => some rest
  | '\r' :: rest => some rest
  | _ => none

/-- A text begins with a line break and another one right behind it. The line between the two is
empty. -/
def OpensBlankLine (cs : List Char) : Prop :=
  ∃ rest, afterLineBreak? cs = some rest ∧ (afterLineBreak? rest).isSome = true

/-- Somewhere in a text, a line break follows another one, which makes a blank line. -/
def HasBlankLine (cs : List Char) : Prop :=
  ∃ ahead behind, cs = ahead ++ behind ∧ OpensBlankLine behind

/-- The characters that line breaks begin with. -/
def IsBreak (c : Char) : Prop := c = '\n' ∨ c = '\r'

/-- A line break begins with a character that line breaks begin with, whichever of the three forms
it has. -/
theorem exists_isBreak_of_afterLineBreak? {cs : List Char}
    (found : (afterLineBreak? cs).isSome = true) : ∃ c rest, cs = c :: rest ∧ IsBreak c := by
  unfold afterLineBreak? at found
  split at found
  · exact ⟨_, _, rfl, Or.inr rfl⟩
  · exact ⟨_, _, rfl, Or.inl rfl⟩
  · exact ⟨_, _, rfl, Or.inr rfl⟩
  · cases found

/-- A blank line begins with a line break right behind a line feed, which may stand behind a
carriage return, or with two carriage returns. -/
theorem OpensBlankLine.cases {cs : List Char} (opens : OpensBlankLine cs) :
    (∃ c rest, cs = '\n' :: c :: rest ∧ IsBreak c) ∨
      (∃ c rest, cs = '\r' :: '\n' :: c :: rest ∧ IsBreak c) ∨
      ∃ rest, cs = '\r' :: '\r' :: rest := by
  obtain ⟨rest, first, second⟩ := opens
  obtain ⟨c, later, rfl, kind⟩ := exists_isBreak_of_afterLineBreak? second
  unfold afterLineBreak? at first
  split at first
  · cases first
    exact Or.inr (Or.inl ⟨c, later, rfl, kind⟩)
  · cases first
    exact Or.inl ⟨c, later, rfl, kind⟩
  · next rest alone =>
    cases first
    rcases kind with rfl | rfl
    · exact absurd rfl (alone later)
    · exact Or.inr (Or.inr ⟨later, rfl⟩)
  · cases first

/-- A text that begins with a line feed or a carriage return begins with a line break. -/
theorem isSome_afterLineBreak? {c : Char} (kind : IsBreak c) (rest : List Char) :
    (afterLineBreak? (c :: rest)).isSome = true := by
  unfold afterLineBreak?
  split
  · rfl
  · rfl
  · rfl
  · next noPair noFeed noReturn =>
    rcases kind with rfl | rfl
    · exact absurd rfl (noFeed rest)
    · exact absurd rfl (noReturn rest)

/-- Two carriage returns in a row are two line breaks, whatever stands behind them. -/
theorem OpensBlankLine.of_returns (rest : List Char) : OpensBlankLine ('\r' :: '\r' :: rest) :=
  ⟨'\r' :: rest, rfl, isSome_afterLineBreak? (Or.inr rfl) rest⟩

end TextDecoration.Text
