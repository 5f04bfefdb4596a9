import TextDecoration.Proofs.Text.Lines

/-!
# Lines and their ends

A text is its lines, each with the end that stands behind it. An end is a line feed, alone or behind
a carriage return; behind the last line there may be none. `Ended` says which sequences of lines and
ends are the parts of a text, and it does not mention how a text is cut. Every text has such parts,
its lines are theirs, and lines that are put together with ends are found again. So writing lines
out and reading them back gives the same lines, whichever of the two ends is written.

A carriage return belongs to an end only right before a line feed. Everywhere else it is a character
of its line, at the line's end too.
-/

namespace TextDecoration

namespace Text

/-- What stands behind a line. The three cases are all that a text can have. -/
inductive LineEnd where
  /-- A line feed. -/
  | feed
  /-- A carriage return and a line feed. -/
  | returnFeed
  /-- Nothing: the text ends with the line. -/
  | textEnd
  deriving DecidableEq

/-- The characters of an end, of which there are two at most. -/
def LineEnd.chars : LineEnd → List Char
  | .feed => ['\n']
  | .returnFeed => ['\r', '\n']
  | .textEnd => []

/-- A line and its end, as they stand in a text one behind the other. -/
structure EndedLine where
  line : List Char
  ending : LineEnd
  deriving DecidableEq

/-- The characters of a line and of its end, in this order. -/
def EndedLine.chars (part : EndedLine) : List Char := part.line ++ part.ending.chars

/-- A line goes on up to its end and no further: it holds no line feed, and the carriage return
before a line feed is not left to it. What the text ends with is a line only if it is something. -/
structure EndedLine.Proper (part : EndedLine) : Prop where
  unbroken : '\n' ∉ part.line
  whole : part.ending = .feed → part.line.getLast? ≠ some '\r'
  filled : part.ending = .textEnd → part.line ≠ []

/-- Lines with their ends, as they follow each other in a text. Only the last one may be without. -/
inductive Ended : List EndedLine → Prop where
  | nil : Ended []
  | last {part : EndedLine} (proper : part.Proper) : Ended [part]
  | cons {part : EndedLine} {later : List EndedLine} (proper : part.Proper)
      (ends : part.ending ≠ .textEnd) (ended : Ended later) : Ended (part :: later)

/-- An empty line may stand in front of lines with their ends. -/
theorem Ended.cons_nil {parts : List EndedLine} (ended : Ended parts) {ending : LineEnd}
    (ends : ending ≠ .textEnd) : Ended (⟨[], ending⟩ :: parts) := by
  refine Ended.cons ⟨List.not_mem_nil, ?_, ?_⟩ ends ended
  · intro _ isReturn
    cases isReturn
  · exact fun none => absurd none ends

/-- The text of lines with their ends. Nothing is put between them. -/
def joined (parts : List EndedLine) : List Char := parts.flatMap EndedLine.chars

/-- The text begins with its first line, and then comes that line's end. -/
theorem joined_cons (part : EndedLine) (later : List EndedLine) :
    joined (part :: later) = part.line ++ part.ending.chars ++ joined later := List.flatMap_cons

/-- Each of the lines is proper, the last one too. -/
theorem Ended.proper {parts : List EndedLine} (ended : Ended parts) {part : EndedLine}
    (member : part ∈ parts) : part.Proper := by
  induction ended with
  | nil => cases member
  | last proper =>
    cases List.mem_singleton.mp member
    exact proper
  | cons proper ends ended inductionHypothesis =>
    rcases List.mem_cons.mp member with rfl | behind
    · exact proper
    · exact inductionHypothesis behind

/-- A character that neither is a line feed nor stands as a carriage return before one goes to the
front of the first line. -/
theorem lines_cons {c : Char} {cs : List Char} (other : c ≠ '\n')
    (apart : c = '\r' → cs.head? ≠ some '\n') :
    lines (c :: cs) = (c :: (lines cs).headD []) :: (lines cs).tail := by
  rw [lines]
  · cases lines cs with
    | nil => rfl
    | cons first later => rfl
  · exact fun feed => other feed
  · intro rest isReturn follows
    exact apart isReturn (by rw [follows]; rfl)

/-- Text without a line feed goes to the front of the first line behind it, unless it ends with a
carriage return and a line feed follows. -/
theorem lines_append {line tail : List Char} (filled : line ≠ []) (unbroken : '\n' ∉ line)
    (apart : line.getLast? = some '\r' → tail.head? ≠ some '\n') :
    lines (line ++ tail) = (line ++ (lines tail).headD []) :: (lines tail).tail := by
  induction line with
  | nil => exact absurd rfl filled
  | cons c line inductionHypothesis =>
    rw [List.mem_cons, not_or] at unbroken
    obtain ⟨other, unbrokenLater⟩ := unbroken
    rw [List.cons_append]
    by_cases single : line = []
    · subst single
      apply lines_cons (Ne.symm other)
      intro isReturn
      exact apart (by rw [isReturn]; rfl)
    · have headed : (line ++ tail).head? ≠ some '\n' := by
        rw [List.head?_append, List.head?_eq_some_head single, Option.some_or]
        intro feed
        apply unbrokenLater
        rw [← Option.some.inj feed]
        exact List.head_mem single
      rw [List.getLast?_cons_of_ne_nil single] at apart
      rw [lines_cons (Ne.symm other) fun _ => headed,
        inductionHypothesis single unbrokenLater apart]
      rfl

/-- A proper line with an end is the first line of a text, and what stands behind has its own. -/
theorem lines_ended {part : EndedLine} (proper : part.Proper) (ends : part.ending ≠ .textEnd)
    (rest : List Char) :
    lines (part.line ++ part.ending.chars ++ rest) = part.line :: lines rest := by
  have after : lines (part.ending.chars ++ rest) = [] :: lines rest := by
    cases ending : part.ending with
    | feed => rfl
    | returnFeed => rfl
    | textEnd => exact absurd ending ends
  rw [List.append_assoc]
  by_cases empty : part.line = []
  · rw [empty, List.nil_append, after]
  · have apart : part.line.getLast? = some '\r' →
        (part.ending.chars ++ rest).head? ≠ some '\n' := by
      intro isReturn
      cases ending : part.ending with
      | feed => exact absurd isReturn (proper.whole ending)
      | returnFeed => exact fun feed => by cases feed
      | textEnd => exact absurd ending ends
    rw [lines_append empty proper.unbroken apart, after, List.headD_cons, List.append_nil,
      List.tail_cons]

/-- Lines that are put together with their ends are found again, whichever of the ends each of them
has. -/
theorem lines_joined {parts : List EndedLine} (ended : Ended parts) :
    lines (joined parts) = parts.map EndedLine.line := by
  induction ended with
  | nil => rfl
  | @last part proper =>
    rw [joined_cons]
    by_cases ends : part.ending = .textEnd
    · have apart : part.line.getLast? = some '\r' → ([] : List Char).head? ≠ some '\n' := by
        intro _ feed
        cases feed
      have alone := lines_append (proper.filled ends) proper.unbroken apart
      rw [ends]
      simpa [LineEnd.chars, joined, lines] using alone
    · exact lines_ended proper ends _
  | cons proper ends _ inductionHypothesis =>
    rw [joined_cons, lines_ended proper ends, inductionHypothesis, List.map_cons]

/-- Every text is put together from lines with ends, and these are its lines. The induction follows
the cutting: a line feed begins a new part, any other character goes to the front of the first. -/
theorem exists_ended (cs : List Char) :
    ∃ parts, Ended parts ∧ joined parts = cs ∧ lines cs = parts.map EndedLine.line := by
  fun_induction lines cs with
  | case1 => exact ⟨[], Ended.nil, rfl, rfl⟩
  | case2 cs inductionHypothesis =>
    obtain ⟨parts, ended, text, cut⟩ := inductionHypothesis
    refine ⟨⟨[], .feed⟩ :: parts, ended.cons_nil (by decide), ?_, ?_⟩
    · rw [joined_cons, text]
      rfl
    · rw [cut, List.map_cons]
  | case3 cs inductionHypothesis =>
    obtain ⟨parts, ended, text, cut⟩ := inductionHypothesis
    refine ⟨⟨[], .returnFeed⟩ :: parts, ended.cons_nil (by decide), ?_, ?_⟩
    · rw [joined_cons, text]
      rfl
    · rw [cut, List.map_cons]
  | case4 c cs other _ none inductionHypothesis =>
    obtain rfl : cs = [] := Decidable.byContradiction fun filled => lines_ne_nil filled none
    refine ⟨[⟨[c], .textEnd⟩], Ended.last ⟨?_, ?_, ?_⟩, rfl, rfl⟩
    · exact fun inside => other (List.mem_singleton.mp inside).symm
    · exact fun ends => by cases ends
    · exact fun _ => List.cons_ne_nil c []
  | case5 c cs other apart first later known inductionHypothesis =>
    obtain ⟨parts, ended, text, cut⟩ := inductionHypothesis
    cases parts with
    | nil => rw [known] at cut; cases cut
    | cons part parts =>
      rw [known, List.map_cons, List.cons.injEq] at cut
      obtain ⟨rfl, behind⟩ := cut
      rw [joined_cons] at text
      have proper : EndedLine.Proper ⟨c :: part.line, part.ending⟩ := by
        have before := ended.proper List.mem_cons_self
        refine ⟨?_, ?_, fun _ => List.cons_ne_nil _ _⟩
        · rw [List.mem_cons, not_or]
          exact ⟨fun feed => other feed.symm, before.unbroken⟩
        · intro ends
          by_cases empty : part.line = []
          · rw [empty, List.getLast?_singleton]
            intro isReturn
            refine apart (joined parts) (Option.some.inj isReturn) ?_
            have ending : part.ending = .feed := ends
            rw [← text, empty, ending]
            rfl
          · rw [List.getLast?_cons_of_ne_nil empty]
            exact before.whole ends
      refine ⟨⟨c :: part.line, part.ending⟩ :: parts, ?_, ?_, ?_⟩
      · cases ended with
        | last _ => exact Ended.last proper
        | cons _ ends ended => exact Ended.cons proper ends ended
      · rw [joined_cons, ← text]
        rfl
      · rw [behind, List.map_cons]

/-- A character of two texts in a row stands in the first or in the second, and what is around it is
told for both cases. -/
theorem side_of_append {first second ahead behind : List Char} {c : Char}
    (text : first ++ second = ahead ++ c :: behind) :
    (∃ right, first = ahead ++ c :: right ∧ behind = right ++ second) ∨
      ∃ left, ahead = first ++ left ∧ second = left ++ c :: behind := by
  rcases List.append_eq_append_iff.mp text with ⟨left, before, rest⟩ | ⟨inside, before, rest⟩
  · exact Or.inr ⟨left, before, rest⟩
  · cases inside with
    | nil => exact Or.inr ⟨[], by rw [before, List.append_nil, List.append_nil], rest.symm⟩
    | cons d right =>
      obtain ⟨rfl, follows⟩ := List.cons.inj rest
      exact Or.inl ⟨right, before, follows⟩

/-- A character of a text stands in a line, or it belongs to a line's end. The induction is on the
lines. -/
theorem place_of_joined {parts : List EndedLine} {ahead behind : List Char} {c : Char}
    (text : joined parts = ahead ++ c :: behind) :
    ∃ earlier part later, parts = earlier ++ part :: later ∧
      ((∃ left right, part.line = left ++ c :: right ∧ ahead = joined earlier ++ left) ∨
        ∃ left right, part.ending.chars = left ++ c :: right ∧ behind = right ++ joined later) := by
  induction parts generalizing ahead with
  | nil => exact absurd text (List.append_ne_nil_of_right_ne_nil _ (List.cons_ne_nil _ _)).symm
  | cons part parts inductionHypothesis =>
    rw [joined_cons, List.append_assoc] at text
    rcases side_of_append text with ⟨right, inLine, _⟩ | ⟨left, rfl, rest⟩
    · exact ⟨[], part, parts, rfl, Or.inl ⟨ahead, right, inLine, rfl⟩⟩
    · rcases side_of_append rest with ⟨right, inEnd, follows⟩ | ⟨further, rfl, later⟩
      · exact ⟨[], part, parts, rfl, Or.inr ⟨left, right, inEnd, follows⟩⟩
      · obtain ⟨earlier, found, later, split, place⟩ := inductionHypothesis later
        refine ⟨part :: earlier, found, later, by rw [split, List.cons_append], ?_⟩
        rcases place with ⟨left, right, inLine, before⟩ | inEnd
        · refine Or.inl ⟨left, right, inLine, ?_⟩
          rw [before, joined_cons, List.append_assoc, List.append_assoc]
        · exact Or.inr inEnd

/-- In an end, a carriage return has the line feed behind it, so a lone one is no part of an end. -/
theorem LineEnd.feed_of_return {ending : LineEnd} {left right : List Char}
    (inEnd : ending.chars = left ++ '\r' :: right) : right = ['\n'] := by
  cases ending with
  | feed => rcases left with _ | ⟨_, _ | ⟨_, _⟩⟩ <;> cases inEnd
  | returnFeed =>
    rcases left with _ | ⟨_, _ | ⟨_, _ | ⟨_, _⟩⟩⟩ <;> cases inEnd
    rfl
  | textEnd => exact absurd inEnd.symm (List.append_ne_nil_of_right_ne_nil _ (List.cons_ne_nil _ _))

/-- A carriage return that no line feed follows stands in a line. -/
theorem return_of_joined {parts : List EndedLine} {ahead behind : List Char}
    (text : joined parts = ahead ++ '\r' :: behind) (lone : behind.head? ≠ some '\n') :
    ∃ earlier left right ending later,
      parts = earlier ++ ⟨left ++ '\r' :: right, ending⟩ :: later ∧
        ahead = joined earlier ++ left := by
  obtain ⟨earlier, ⟨line, ending⟩, later, split, place⟩ := place_of_joined text
  rcases place with ⟨left, right, inLine, before⟩ | ⟨left, right, inEnd, follows⟩
  · cases inLine
    exact ⟨earlier, left, right, ending, later, split, before⟩
  · rw [follows, LineEnd.feed_of_return inEnd] at lone
    exact absurd rfl lone

/-- Lines that go on up to an end of one kind are the parts of a text, if none of them holds a line
feed or ends with a carriage return. -/
theorem ended_map {texts : List String} {ending : LineEnd} (ends : ending ≠ .textEnd)
    (clean : ∀ line ∈ texts, '\n' ∉ line.toList ∧ line.toList.getLast? ≠ some '\r') :
    Ended (texts.map fun line => ⟨line.toList, ending⟩) := by
  induction texts with
  | nil => exact Ended.nil
  | cons line later inductionHypothesis =>
    obtain ⟨unbroken, whole⟩ := clean line List.mem_cons_self
    refine Ended.cons ⟨unbroken, fun _ => whole, fun none => absurd none ends⟩ ends ?_
    exact inductionHypothesis fun other member => clean other (List.mem_cons_of_mem _ member)

/-- The text of lines that have an end of one kind is what writing them out with that end gives. -/
theorem joined_map (texts : List String) (ending : LineEnd) :
    joined (texts.map fun line => ⟨line.toList, ending⟩) =
      (String.join (texts.map (· ++ String.ofList ending.chars))).toList := by
  induction texts with
  | nil => rfl
  | cons line later inductionHypothesis =>
    rw [List.map_cons, joined_cons, inductionHypothesis, List.map_cons, String.join_cons,
      String.toList_append, String.toList_append, String.toList_ofList]

/-- Lines that are written out, each with the same end behind it, are found again. A line that ends
with a carriage return would lose it to a line feed behind. -/
theorem lines_join {texts : List String} {ending : LineEnd} (ends : ending ≠ .textEnd)
    (clean : ∀ line ∈ texts, '\n' ∉ line.toList ∧ line.toList.getLast? ≠ some '\r') :
    lines (String.join (texts.map (· ++ String.ofList ending.chars))).toList =
      texts.map String.toList := by
  rw [← joined_map, lines_joined (ended_map ends clean), List.map_map]
  rfl

end Text

namespace Buffer

/-- A buffer of a text that is not empty has the text's lines. The empty text makes a buffer with
one empty line. -/
theorem lines_ofText_of_ne {text : String} (filled : text.toList ≠ []) (name : String) :
    (ofText name text).lines = (Text.lines text.toList).map String.ofList := by
  rw [ofText, dif_neg filled]

/-- Lines that are written out, each with the same end behind it, are read back, whatever name the
buffer is given. -/
theorem lines_written {texts : List String} (some : texts ≠ []) {ending : Text.LineEnd}
    (ends : ending ≠ .textEnd)
    (clean : ∀ line ∈ texts, '\n' ∉ line.toList ∧ line.toList.getLast? ≠ .some '\r')
    (name : String) :
    (ofText name (String.join (texts.map (· ++ String.ofList ending.chars)))).lines = texts := by
  have cut : Text.lines (String.join (texts.map (· ++ String.ofList ending.chars))).toList =
      texts.map String.toList := Text.lines_join ends clean
  have filled : (String.join (texts.map (· ++ String.ofList ending.chars))).toList ≠ [] := by
    intro none
    rw [none] at cut
    exact some (List.map_eq_nil_iff.mp cut.symm)
  rw [lines_ofText_of_ne filled, cut, List.map_map]
  exact List.map_id'' (fun _ => String.ofList_toList) texts

/-- Lines that hold no line feed and do not end with a carriage return are read back as they are,
whether they were written out with line feeds behind them or with carriage returns and line feeds.
Conversely every text that is not empty is its lines, each with one of the two ends behind it, where
the last one may be without. No line holds a line feed, and a carriage return with anything but a
line feed behind it stands in a line: in the one that goes on at that place of the text. -/
theorem lines_round_trip (name : String) :
    (∀ texts : List String, texts ≠ [] →
      (∀ line ∈ texts, '\n' ∉ line.toList ∧ line.toList.getLast? ≠ some '\r') →
        (ofText name (String.join (texts.map (· ++ "\n")))).lines = texts ∧
          (ofText name (String.join (texts.map (· ++ "\r\n")))).lines = texts) ∧
      ∀ text : String, text ≠ "" →
        ∃ parts, Text.Ended parts ∧ text.toList = Text.joined parts ∧
          (ofText name text).lines = parts.map (fun part => String.ofList part.line) ∧
          (∀ line ∈ (ofText name text).lines, '\n' ∉ line.toList) ∧
          ∀ ahead behind, text.toList = ahead ++ '\r' :: behind → behind.head? ≠ some '\n' →
            ∃ earlier left right ending later,
              parts = earlier ++ ⟨left ++ '\r' :: right, ending⟩ :: later ∧
                ahead = Text.joined earlier ++ left := by
  constructor
  · intro texts some clean
    exact ⟨lines_written some (by decide : Text.LineEnd.feed ≠ .textEnd) clean name,
      lines_written some (by decide : Text.LineEnd.returnFeed ≠ .textEnd) clean name⟩
  · intro text filled
    obtain ⟨parts, ended, together, cut⟩ := Text.exists_ended text.toList
    have present : text.toList ≠ [] := fun none => filled (String.toList_eq_nil_iff.mp none)
    have lines : (ofText name text).lines = parts.map fun part => String.ofList part.line := by
      rw [lines_ofText_of_ne present, cut, List.map_map]
      rfl
    refine ⟨parts, ended, together.symm, lines, ?_, ?_⟩
    · intro line member
      rw [lines] at member
      obtain ⟨part, among, rfl⟩ := List.mem_map.mp member
      rw [String.toList_ofList]
      exact (ended.proper among).unbroken
    · intro ahead behind split lone
      exact Text.return_of_joined (together.trans split) lone

/-- Two empty lines around one with a carriage return in it are read back. Of three carriage returns
in a row before a line feed, the second one stands in the line, and so does the one at the text's
end. -/
theorem lines_round_trip_returns :
    ((∀ line ∈ ["", "a\rb", ""], '\n' ∉ line.toList ∧ line.toList.getLast? ≠ some '\r') ∧
      (ofText "notes" "\na\rb\n\n").lines = ["", "a\rb", ""] ∧
      (ofText "notes" "\r\na\rb\r\n\r\n").lines = ["", "a\rb", ""]) ∧
      "\r\r\r\n\r" ≠ "" ∧
      ∃ parts, Text.Ended parts ∧ "\r\r\r\n\r".toList = Text.joined parts ∧
        parts.map (fun part => String.ofList part.line) = ["\r\r", "\r"] ∧
        ∃ earlier left right ending later,
          parts = earlier ++ ⟨left ++ '\r' :: right, ending⟩ :: later ∧
            ['\r'] = Text.joined earlier ++ left := by
  have clean : ∀ line ∈ ["", "a\rb", ""],
      '\n' ∉ line.toList ∧ line.toList.getLast? ≠ some '\r' := by decide
  obtain ⟨written, cut⟩ := lines_round_trip "notes"
  obtain ⟨feeds, returns⟩ := written ["", "a\rb", ""] (by decide) clean
  obtain ⟨parts, ended, together, lines, _, lone⟩ := cut "\r\r\r\n\r" (by decide)
  have second := lone ['\r'] ['\r', '\n', '\r'] (by decide) (by decide)
  exact ⟨⟨clean, feeds, returns⟩, by decide, parts, ended, together,
    lines.symm.trans (by decide), second⟩

end Buffer

end TextDecoration
