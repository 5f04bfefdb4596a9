import TextDecoration.Builtin.Markdown
import TextDecoration.Proofs.Pattern.Sweep
import TextDecoration.Proofs.Pattern.Ways
import TextDecoration.Proofs.Text.BlankLines

/-!
# What emphasis takes

The patterns of bold and italic text have one tree, `emphasis`, with different marks in it. Every
way through that tree takes an opening mark, a body of at least one character, and the same mark
again. Before the opening mark stands the start of the text or a character that is no backslash,
and the first group holds that much and no more.

The body goes on piece by piece. A piece is a line break that no other line break follows, or any
character but a line feed. So a line feed in the body is always the end of the first kind of piece,
and no line break follows it. A carriage return may also be a piece of the second kind, which does
not look at what follows. The body is not searched for a shorter one here: which way is preferred
does not matter for any of these facts.
-/

namespace TextDecoration.Builtin.Markdown

open Pattern Text

/-- A line break, with its carriage return if it has one. A carriage return alone is one as well. -/
def lineBreak : Node :=
  .alt (.seq (.optional true (.char (.single '\r'))) (.char (.single '\n')))
    (.char (.single '\r'))

/-- A piece of the body: a line break with no line break behind it, or a character of a line. The
second includes the carriage return. -/
def piece : Node :=
  .alt (.seq lineBreak (.look false true (.atomic lineBreak))) (.char .notNewline)

/-- Emphasised text between two equal marks, with what stands before it as its first group. -/
def emphasis (mark : Node) : Node :=
  .seq (.group 1 (.alt (.anchor .textStart) (.char (.compl (.union .none (.single '\\'))))))
    (.seq (.group 2 mark) (.seq (.plus false piece) (.backref false 2)))

/-- Two stars or two low lines, as around bold text. -/
def doubleMark : Node :=
  .alt (.seq (.char (.single '*')) (.char (.single '*')))
    (.seq (.char (.single '_')) (.char (.single '_')))

/-- A star or a low line, as around italic text. -/
def singleMark : Node := .char (.union (.union .none (.single '*')) (.single '_'))

/-- The tree of the pattern for bold text. It is evaluated here, once, and later proofs go by the
tree. -/
theorem node_bold : bold.meaning.node = emphasis doubleMark := by decide +kernel

/-- The tree of the pattern for italic text. It differs from that for bold text in its marks
only. -/
theorem node_italic : italic.meaning.node = emphasis singleMark := by decide +kernel

/-- Searching for bold text has to retry, and the pattern has two groups. -/
theorem retries_bold : bold.meaning.retries = true ∧ bold.meaning.groups = 2 := by decide +kernel

/-- Searching for italic text has to retry, and the pattern has two groups. -/
theorem retries_italic : italic.meaning.retries = true ∧ italic.meaning.groups = 2 := by
  decide +kernel

section Ways

variable {text : Array Char} {position : Nat} {slots : Slots} {way : Stretch}

/-- A line break takes a line feed, a carriage return, or a carriage return with a line feed. -/
theorem mem_ways_lineBreak (among : way ∈ lineBreak.ways text position slots) :
    way.slots = slots ∧
      ((text[position]? = some '\r' ∧ text[position + 1]? = some '\n' ∧ way.stop = position + 2) ∨
        (text[position]? = some '\n' ∧ way.stop = position + 1) ∨
        (text[position]? = some '\r' ∧ way.stop = position + 1)) := by
  simp only [lineBreak, Node.mem_ways_alt, Node.mem_ways_seq, Node.mem_ways_optional,
    Node.mem_ways_char, CharSet.contains_single, decide_eq_true_eq] at among
  rcases among with ⟨middle, ⟨c, first, rfl, rfl⟩ | rfl, d, second, rfl, rfl⟩ | ⟨c, only, rfl, rfl⟩
  · exact ⟨rfl, Or.inl ⟨first, second, rfl⟩⟩
  · exact ⟨rfl, Or.inr (Or.inl ⟨second, rfl⟩)⟩
  · exact ⟨rfl, Or.inr (Or.inr ⟨only, rfl⟩)⟩

/-- Where a line break is sought and not found, none begins. The look ahead in the pattern is of
this kind. -/
theorem not_isBreak_of_preferred_none (none : lineBreak.preferred text position slots = none)
    {c : Char} (present : text[position]? = some c) : ¬IsBreak c := by
  have leads : lineBreak.leads text position slots =
      [.take (.single '\r') (.char (.single '\n')) slots, .take (.single '\n') .empty slots,
        .take (.single '\r') .empty slots] := rfl
  intro kind
  have offered : Lead.take (.single c) .empty slots ∈ lineBreak.leads text position slots := by
    rw [leads]
    rcases kind with rfl | rfl <;> simp
  have found : (lineBreak.preferred text position slots).isSome = true :=
    Node.preferred_isSome offered present (by simp) rfl
  rw [none] at found
  cases found

/-- From `start` up to `stop`, no line break follows a line feed. -/
def Unbroken (text : Array Char) (start stop : Nat) : Prop :=
  ∀ i, start ≤ i → i < stop → text[i]? = some '\n' → ∀ c, text[i + 1]? = some c → ¬IsBreak c

/-- Two parts in a row in which no line break follows a line feed make up one, if the first goes on
into the second. -/
theorem Unbroken.append {start middle stop : Nat} (one : Unbroken text start middle)
    (other : Unbroken text middle stop) : Unbroken text start stop := by
  intro i behind before feed
  by_cases first : i < middle
  · exact one i behind first feed
  · exact other i (Nat.le_of_not_lt first) before feed

/-- No line break follows a line feed in a part without line feeds. -/
theorem Unbroken.of_no_feed {start stop : Nat}
    (none : ∀ i, start ≤ i → i < stop → text[i]? ≠ some '\n') : Unbroken text start stop :=
  fun i behind before feed => absurd feed (none i behind before)

/-- A line break behind which none begins has none behind its line feed. -/
theorem unbroken_of_lineBreak (among : way ∈ lineBreak.ways text position slots)
    (last : ∀ c, text[way.stop]? = some c → ¬IsBreak c) : Unbroken text position way.stop := by
  obtain ⟨_, ⟨first, _, stop⟩ | ⟨_, stop⟩ | ⟨only, stop⟩⟩ := mem_ways_lineBreak among
  · intro i behind before feed
    obtain rfl | rfl : i = position ∨ i = position + 1 := by omega
    · rw [first] at feed
      cases feed
    · rwa [stop] at last
  · intro i behind before _
    obtain rfl : i = position := by omega
    rwa [stop] at last
  · apply Unbroken.of_no_feed
    intro i behind before
    obtain rfl : i = position := by omega
    rw [only]
    decide

/-- A piece of the body takes some text, in which no line break follows a line feed. -/
theorem mem_ways_piece (among : way ∈ piece.ways text position slots) :
    way.slots = slots ∧ position < way.stop ∧ Unbroken text position way.stop := by
  rcases Node.mem_ways_alt.mp among with broken | ordinary
  · obtain ⟨middle, taken, looked⟩ := Node.mem_ways_seq.mp broken
    have advanced := (mem_ways_lineBreak taken).2
    rcases mem_lookedFrom.mp looked with ⟨impossible, _⟩ | ⟨_, nothing, rfl⟩
    · cases impossible
    · have none : lineBreak.preferred text middle.stop middle.slots = none := by
        have regular : lineBreak.regular [] = true := rfl
        rw [Node.ways, if_pos regular] at nothing
        exact Option.toList_eq_nil_iff.mp nothing
      have ahead : position < middle.stop := by omega
      refine ⟨(mem_ways_lineBreak taken).1, ahead, ?_⟩
      exact unbroken_of_lineBreak taken fun c present =>
        not_isBreak_of_preferred_none none present
  · obtain ⟨c, present, admitted, rfl⟩ := Node.mem_ways_char.mp ordinary
    refine ⟨rfl, Nat.lt_succ_self position, Unbroken.of_no_feed fun i behind before => ?_⟩
    obtain rfl : i = position := Nat.le_antisymm (Nat.le_of_lt_succ before) behind
    rw [present]
    simpa using admitted

/-- The places in a body, piece by piece: no slot changes, and no line break follows a line feed. -/
def Through (text : Array Char) (first second : Stretch) : Prop :=
  second.slots = first.slots ∧ first.stop ≤ second.stop ∧ Unbroken text first.stop second.stop

/-- A body takes some text, in which no line break follows a line feed. The induction is on its
pieces. -/
theorem mem_ways_body (among : way ∈ (Node.plus false piece).ways text position slots) :
    way.slots = slots ∧ position < way.stop ∧ Unbroken text position way.stop := by
  obtain ⟨first, taken, later⟩ := Node.mem_ways_plus.mp among
  obtain ⟨kept, ahead, unbroken⟩ := mem_ways_piece taken
  have refl : ∀ place, Through text place place := fun place =>
    ⟨rfl, Nat.le_refl _, fun i behind before => absurd before (Nat.not_lt.mpr behind)⟩
  have trans : ∀ first second third, Through text first second → Through text second third →
      Through text first third := by
    rintro first second third ⟨slots, ahead, one⟩ ⟨stored, further, other⟩
    exact ⟨stored.trans slots, Nat.le_trans ahead further, one.append other⟩
  obtain ⟨keptLater, further, unbrokenLater⟩ := iterations_related (Through text) refl trans
    (fun position slots way among =>
      have ⟨kept, ahead, unbroken⟩ := mem_ways_piece among
      ⟨kept, Nat.le_of_lt ahead, unbroken⟩) later
  exact ⟨keptLater.trans kept, Nat.lt_of_lt_of_le ahead further, unbroken.append unbrokenLater⟩

/-- A tree for marks takes the same star or low line `width` times and stores nothing. The group
around it stores where it stands. -/
def Marks (width : Nat) (mark : Node) : Prop :=
  ∀ (text : Array Char) (position : Nat) (slots : Slots),
    ∀ way ∈ mark.ways text position slots, way = ⟨position + width, slots⟩ ∧
      ∃ c, (c = '*' ∨ c = '_') ∧ ∀ i < width, text[position + i]? = some c

/-- The marks of bold text take two equal characters, in one of two ways. -/
theorem marks_doubleMark : Marks 2 doubleMark := by
  intro text position slots way among
  have twice : ∀ c, text[position]? = some c → text[position + 1]? = some c →
      ∀ i < 2, text[position + i]? = some c := by
    intro c first second i few
    obtain rfl | rfl : i = 0 ∨ i = 1 := by omega
    · exact first
    · exact second
  simp only [doubleMark, Node.mem_ways_alt, Node.mem_ways_seq, Node.mem_ways_char,
    CharSet.contains_single, decide_eq_true_eq] at among
  rcases among with ⟨_, ⟨_, first, rfl, rfl⟩, _, second, rfl, rfl⟩ |
    ⟨_, ⟨_, first, rfl, rfl⟩, _, second, rfl, rfl⟩
  · exact ⟨rfl, '*', Or.inl rfl, twice '*' first second⟩
  · exact ⟨rfl, '_', Or.inr rfl, twice '_' first second⟩

/-- The marks of italic text take one character. -/
theorem marks_singleMark : Marks 1 singleMark := by
  intro text position slots way among
  obtain ⟨c, present, admitted, rfl⟩ := Node.mem_ways_char.mp among
  refine ⟨rfl, c, ?_, fun i few => ?_⟩
  · simpa [CharSet.contains] using admitted
  · obtain rfl : i = 0 := by omega
    exact present

end Ways

/-- Emphasised text from `start` to `stop` whose closing mark begins at `close`. The pattern's fit
begins at `origin`. -/
structure Emphasised (text : Array Char) (width origin start close stop : Nat) (mark : Char) :
    Prop where
  /-- Before the emphasised text stands the start of the text or a character that is no
  backslash. -/
  before : (start = origin ∧ origin = 0) ∨
    (start = origin + 1 ∧ ∃ c, text[origin]? = some c ∧ c ≠ '\\')
  /-- The marks of the emphasised text are made of stars or of low lines. -/
  isMark : mark = '*' ∨ mark = '_'
  /-- The emphasised text begins with its mark. -/
  opening : ∀ i < width, text[start + i]? = some mark
  /-- The body of the emphasised text is not empty. -/
  filled : start + width < close
  /-- In the body, no line break follows a line feed. -/
  unbroken : Unbroken text (start + width) close
  /-- The emphasised text ends with its mark, the same as the opening one. -/
  closing : ∀ i < width, text[close + i]? = some mark
  /-- The emphasised text ends where its closing mark does. -/
  stop_eq : stop = close + width

/-- What stands before emphasised text stores nothing, and takes a character that is no backslash
unless the text begins there. -/
theorem mem_ways_context {text : Array Char} {position : Nat} {slots : Slots} {way : Stretch}
    (among : way ∈ (Node.alt (.anchor .textStart)
      (.char (.compl (.union .none (.single '\\'))))).ways text position slots) :
    way.slots = slots ∧ ((way.stop = position ∧ position = 0) ∨
      (way.stop = position + 1 ∧ ∃ c, text[position]? = some c ∧ c ≠ '\\')) := by
  rcases Node.mem_ways_alt.mp among with atStart | behind
  · obtain ⟨holds, rfl⟩ := Node.mem_ways_anchor.mp atStart
    exact ⟨rfl, Or.inl ⟨rfl, by simpa [Anchor.holds] using holds⟩⟩
  · obtain ⟨c, present, admitted, rfl⟩ := Node.mem_ways_char.mp behind
    exact ⟨rfl, Or.inr ⟨rfl, c, present, by simpa [CharSet.contains] using admitted⟩⟩

/-- A text in which one character stands `width` times is cut out as that many of it. This is what
the second group holds. -/
theorem extract_eq_replicate {text : Array Char} {start width : Nat} {c : Char}
    (same : ∀ i < width, text[start + i]? = some c) :
    (text.extract start (start + width)).toList = List.replicate width c := by
  apply List.ext_getElem?
  intro i
  rw [Array.toList_extract, List.extract_eq_take_drop, List.getElem?_take,
    Nat.add_sub_cancel_left, List.getElem?_drop, List.getElem?_replicate, Array.getElem?_toList]
  split
  · next within => exact same i within
  · rfl

/-- Every way of the tree for emphasis takes emphasised text, and its first group ends where that
text begins. -/
theorem mem_ways_emphasis {text : Array Char} {position width : Nat} {mark : Node} {way : Stretch}
    (marks : Marks width mark)
    (among : way ∈ (emphasis mark).ways text position (List.replicate 6 none)) :
    ∃ start close c, Emphasised text width position start close way.stop c ∧
      way.slots[3]? = some (some start) := by
  obtain ⟨first, context, rest⟩ := Node.mem_ways_seq.mp among
  obtain ⟨⟨start, stored⟩, beside, rfl⟩ := Node.mem_ways_group.mp context
  obtain ⟨kept, before⟩ := mem_ways_context beside
  dsimp only at kept before rest
  subst kept
  obtain ⟨second, opened, rest⟩ := Node.mem_ways_seq.mp rest
  obtain ⟨inner, opening, rfl⟩ := Node.mem_ways_group.mp opened
  obtain ⟨rfl, c, isMark, opens⟩ := marks _ _ _ _ opening
  obtain ⟨⟨close, stored⟩, body, closing⟩ := Node.mem_ways_seq.mp rest
  obtain ⟨kept, filled, unbroken⟩ := mem_ways_body body
  dsimp only at kept filled unbroken closing
  subst kept
  obtain ⟨cs, holds, stands, rfl⟩ := Node.mem_ways_backref.mp closing
  -- The second group holds the opening mark, so the same mark stands again behind the body.
  obtain rfl : List.replicate width c = cs :=
    (extract_eq_replicate opens).symm.trans (Option.some.inj holds)
  have closes : ∀ i < width, text[close + i]? = some c := fun i within =>
    getElem?_of_standsAt stands (List.getElem?_replicate_of_lt within)
  refine ⟨start, close, c, ?_, rfl⟩
  exact { before, isMark, opening := opens, filled, unbroken, closing := closes
          stop_eq := by rw [List.length_replicate] }

end TextDecoration.Builtin.Markdown
