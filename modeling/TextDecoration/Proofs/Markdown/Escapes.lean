import TextDecoration.Proofs.Grammar.Places
import TextDecoration.Proofs.Markdown.Delimiters
import TextDecoration.Proofs.Pattern.Endings

/-!
# Escaped marks

A mark behind a backslash does not open emphasised text. The pattern sees to that inside the text it
is given; but every fragment is a text of its own, and at its start nothing stands before a mark. So
the law needs that no token of any rule ends with a backslash before a mark. It does not, for one of
three reasons: what the rule takes never ends with a backslash, it goes on as far as the line does,
or, in the case of horizontal rules, no mark may follow.

The invariant of the passes is that every plain token that begins with a mark stands where no
backslash precedes, and every bold or italic one does as well. Inside other tokens a mark at the
start of the matched text counts as standing at the start, so the law is one of whole texts.
-/

namespace TextDecoration.Builtin.Markdown

open Pattern

/-- The characters that marks of emphasis are made of. No other construct of markdown is looked at
here. -/
def emphasisMarks : List Char := ['*', '_']

/-- White space up to where the line ends, as the rule for horizontal lines looks for it. -/
def restOfLine : Node := .seq (.star true (.char .blank)) (.anchor .lineEnd)

/-- Whether a pattern ends by looking ahead for the end of the line. Its own last character says
nothing about what follows then. -/
def looksForLineEnd (pattern : Pattern) : Bool :=
  pattern.meaning.retries && pattern.meaning.node.lookAhead? == some (.atomic restOfLine)

/-- A character of a mark is no white space, no line feed and no backslash. -/
theorem not_blank_of_mark {mark : Char} (isMark : mark ∈ emphasisMarks) :
    CharSet.blank.contains mark = false ∧ mark ≠ '\n' ∧ mark ≠ '\\' := by
  rcases List.mem_pair.mp isMark with rfl | rfl
  · exact ⟨rfl, by decide, by decide⟩
  · exact ⟨rfl, by decide, by decide⟩

/-- No mark stands where only white space is left of a line, since marks are no white space. -/
theorem getElem?_ne_of_restOfLine {text : Array Char} {position : Nat} {slots : Slots}
    {way : Stretch} (among : way ∈ restOfLine.ways text position slots) {mark : Char}
    (isMark : mark ∈ emphasisMarks) : text[position]? ≠ some mark := by
  intro present
  obtain ⟨notBlank, notFeed, _⟩ := not_blank_of_mark isMark
  obtain ⟨bound, _⟩ := Array.getElem?_eq_some_iff.mp present
  obtain ⟨middle, taken, later⟩ := Node.mem_ways_seq.mp among
  obtain ⟨holds, _⟩ := Node.mem_ways_anchor.mp later
  obtain ⟨ahead, counted⟩ : ∃ ahead, text.size - position = ahead + 1 :=
    ⟨text.size - position - 1, by omega⟩
  rw [Node.ways, counted, iterations, mem_inOrder, List.mem_singleton] at taken
  rcases taken with again | rfl
  · obtain ⟨first, blank, _⟩ := List.mem_flatMap.mp again
    obtain ⟨c, here, admitted, _⟩ := Node.mem_ways_char.mp blank
    cases present.symm.trans here
    rw [notBlank] at admitted
    cases admitted
  · simp only [Anchor.holds, present, Bool.or_eq_true, beq_iff_eq, Option.some.injEq] at holds
    rcases holds with atEnd | feed
    · exact absurd atEnd (Nat.ne_of_lt bound)
    · exact notFeed feed

/-- What a rule finds never stops right behind a backslash and before a mark. A mark behind a token
is therefore never escaped. -/
def EndsClear (rule : Rule) : Prop :=
  ∀ rest hit, rule.search Pattern.locate rest = some hit →
    ClearEnd rest.toArray '\\' emphasisMarks hit.start hit.stop

/-- Whether a pattern passes the check of its end, and both kinds of search agree on it. -/
def checkedEnd (pattern : Pattern) : Bool :=
  (pattern.meaning.retries || pattern.meaning.node.steady) &&
    pattern.meaning.node.endsClear '\\' emphasisMarks

/-- What a search finds stops where the fit does, and takes no more of it. -/
theorem endsClear_of_locate {found : Rule}
    (clear : ∀ text position fit, position ≤ text.size →
      found.pattern.locate text position = some fit →
        ClearEnd text '\\' emphasisMarks fit.start fit.stop) : EndsClear found := by
  intro rest hit searched
  obtain ⟨reached, fit, _, inside, located, rfl, filled⟩ := Engine.find_fit searched
  have behind : fit.start ≤ (fit.hit found.lookbehind).start := Engine.origin_le_start fit
  exact fun _ => clear rest.toArray reached fit inside located (Nat.lt_of_le_of_lt behind filled)

/-- A pattern that passes the check ends clear. The check is of the tree and needs no text. -/
theorem endsClear_of_checked {found : Rule} (checked : checkedEnd found.pattern = true) :
    EndsClear found := by
  obtain ⟨admitted, clear⟩ := Bool.and_eq_true_iff.mp checked
  exact endsClear_of_locate fun text position fit inside located =>
    locate_clearEnd (Bool.or_eq_true_iff.mp admitted) clear inside located

/-- A pattern behind which the line must end, as that of a horizontal rule, ends clear: no mark may
stand there. -/
theorem endsClear_of_looksForLineEnd {found : Rule}
    (looks : looksForLineEnd found.pattern = true) : EndsClear found := by
  obtain ⟨retries, ahead⟩ := Bool.and_eq_true_iff.mp looks
  have looking := eq_of_beq ahead
  refine endsClear_of_locate fun text position fit inside located => ?_
  obtain ⟨stored, preferred, _⟩ := locate_way retries located
  obtain ⟨slots, seen, among⟩ :=
    Node.exists_of_lookAhead? looking (List.mem_of_head? preferred)
  have within := (locate_bounds inside located).2.2
  obtain ⟨_, own, first, _⟩ := Node.head?_ways_atomic rfl within among
  exact fun _ _ mark isMark => getElem?_ne_of_restOfLine (List.mem_of_head? first) isMark

/-- Emphasised text ends clear, as it ends with its mark, which is no backslash. -/
theorem endsClear_of_emphasises {found : Rule} {width : Nat} (wide : 0 < width)
    (emphasises : Emphasises found.pattern width) (context : found.lookbehind = true) :
    EndsClear found := by
  intro rest hit searched _ last
  obtain ⟨close, mark, emphasised⟩ := emphasised_of_search emphasises context searched
  have closes := emphasised.closing (width - 1) (by omega)
  have place : close + (width - 1) = hit.stop - 1 := by
    rw [emphasised.stop_eq]
    omega
  rw [place, last] at closes
  rcases emphasised.isMark with rfl | rfl <;> cases closes

/-- Whether it is known of a listed rule how it ends, by any of the three ways to know it. -/
def knownEnd (category : String) (pattern : Pattern) : Bool :=
  category == "bold" || category == "italic" || checkedEnd pattern || looksForLineEnd pattern

/-- It is known of all rules of the grammar how they end. The check is one evaluation over all of
them. -/
theorem knownEnd_of_listed : (grammar.alternatives.all fun alternative =>
    knownEnd alternative.1 alternative.2.pattern) = true := by
  decide +kernel

/-- The categories of emphasised text, which are bold and italic. -/
def IsEmphasis (category : String) : Prop := category = "bold" ∨ category = "italic"

section Listed

variable {category : String} {found : Rule} (listed : (category, found) ∈ grammar.alternatives)

include listed

/-- The rules that are listed under the categories of emphasised text take emphasised text, and
leave out what stands before it. -/
theorem emphasises_of_listed (kind : IsEmphasis category) :
    ∃ width, 0 < width ∧ Emphasises found.pattern width ∧ found.lookbehind = true := by
  rcases kind with rfl | rfl
  · obtain ⟨same, context⟩ := keeps_bold grammar found .whole listed
    exact ⟨2, Nat.two_pos, same ▸ emphasises_bold, context⟩
  · obtain ⟨same, context⟩ := keeps_italic grammar found .whole listed
    exact ⟨1, Nat.one_pos, same ▸ emphasises_italic, context⟩

/-- A listed rule ends clear, whatever its category. -/
theorem endsClear_of_listed : EndsClear found := by
  by_cases kind : IsEmphasis category
  · obtain ⟨width, wide, emphasises, context⟩ := emphasises_of_listed listed kind
    exact endsClear_of_emphasises wide emphasises context
  · have known : knownEnd category found.pattern = true :=
      List.all_eq_true.mp knownEnd_of_listed (category, found) listed
    simp only [knownEnd, Bool.or_eq_true, beq_iff_eq] at known
    rcases known with (emphasis | checked) | looks
    · exact absurd emphasis kind
    · exact endsClear_of_checked checked
    · exact endsClear_of_looksForLineEnd looks

/-- Emphasised text that a listed rule finds begins with a mark, and no backslash stands before that
in the text it is found in. -/
theorem unescaped_of_search (kind : IsEmphasis category) {rest : List Char} {hit : Hit}
    (searched : found.search Pattern.locate rest = some hit) :
    (∃ mark ∈ emphasisMarks, rest[hit.start]? = some mark) ∧
      ∀ before, before + 1 = hit.start → rest[before]? ≠ some '\\' := by
  obtain ⟨width, wide, emphasises, context⟩ := emphasises_of_listed listed kind
  obtain ⟨close, mark, emphasised⟩ := emphasised_of_search emphasises context searched
  have isMark : mark ∈ emphasisMarks := by
    rcases emphasised.isMark with rfl | rfl <;> decide
  refine ⟨⟨mark, isMark, by simpa using emphasised.opening 0 wide⟩, fun before next => ?_⟩
  rcases emphasised.before with ⟨same, first⟩ | ⟨behind, c, present, other⟩
  · omega
  · obtain rfl : before = hit.origin := by omega
    rw [List.getElem?_toArray] at present
    rw [present]
    exact fun escaped => other (Option.some.inj escaped)

end Listed

/-- No backslash stands before an offset of a text. At the text's start nothing does. -/
def Unescaped (text : List Char) (offset : Nat) : Prop :=
  ∀ before, before + 1 = offset → text[before]? ≠ some '\\'

/-- The law of tokens in their places: plain text stands where it does, and if it begins with a
mark, no backslash precedes it; nor does one precede emphasised text. -/
def Guarded (text : List Char) (offset : Nat) : Token → Prop
  | .plain fragment => OccursAt text offset fragment.toList ∧
      ∀ mark ∈ emphasisMarks, fragment.toList[0]? = some mark → Unescaped text offset
  | .leaf category _ _ | .nested category _ _ => IsEmphasis category → Unescaped text offset

section Passes

variable {text rest : List Char} {offset : Nat}

/-- A character inside a part of the text that is no backslash leaves what follows it unescaped, as
it is also the text's. -/
theorem unescaped_of_occursAt (here : OccursAt text offset rest) {count : Nat} (taken : 0 < count)
    (inside : count ≤ rest.length) (other : rest[count - 1]? ≠ some '\\') :
    Unescaped text (offset + count) := by
  intro before next
  obtain rfl : before = offset + (count - 1) := by omega
  rw [here.getElem? (by omega)]
  exact other

/-- Text at the start of a guarded part is guarded as a plain token. The law is about where a token
begins. -/
theorem guarded_plainToken (here : OccursAt text offset rest)
    (guard : ∀ mark ∈ emphasisMarks, rest[0]? = some mark → Unescaped text offset) (count : Nat) :
    EveryAt (Guarded text) offset (plainToken (rest.take count)) := by
  cases first : rest.take count with
  | nil => trivial
  | cons c cs =>
    refine ⟨⟨?_, fun mark isMark opens => guard mark isMark ?_⟩, trivial⟩
    · rw [String.toList_ofList, ← first]
      exact here.take count
    · rw [String.toList_ofList, ← first, List.getElem?_take] at opens
      split at opens
      · exact opens
      · cases opens

/-- A rule's token is guarded where no backslash stands before it, if it is emphasised. Of other
tokens nothing is asked. -/
theorem guarded_token {category : String} (found : Rule) (matched : String)
    (unescaped : IsEmphasis category → Unescaped text offset) :
    Guarded text offset (found.token Pattern.locate category matched) := by
  cases deep : found.inside with
  | none =>
    rw [Rule.token_leaf Pattern.locate category deep]
    exact unescaped
  | some inner =>
    rw [Rule.token_nested Pattern.locate category deep]
    exact unescaped

/-- A scan of a guarded part leaves guarded tokens. What begins at a hit's start stands at the start
of the part or behind a character that the pattern has looked at; what begins at its stop stands
behind a character of the hit. -/
theorem guarded_scan {category : String} {found : Rule}
    (listed : (category, found) ∈ grammar.alternatives) {tokens : List Token}
    (here : OccursAt text offset rest)
    (guard : ∀ mark ∈ emphasisMarks, rest[0]? = some mark → Unescaped text offset)
    (scan : Scan (found.search Pattern.locate) (found.token Pattern.locate category) rest tokens) :
    EveryAt (Guarded text) offset tokens := by
  induction scan generalizing offset with
  | @missed rest nothing =>
    have whole := guarded_plainToken here guard rest.length
    rwa [List.take_length] at whole
  | @found rest hit tokens searched later inductionHypothesis =>
    obtain ⟨filled, inside⟩ := Rule.search_productive locate_sound found rest hit searched
    have before : (rest.take hit.start).length = hit.start := by
      rw [List.length_take]
      omega
    have taken : (slice rest hit.start hit.stop).length = hit.stop - hit.start :=
      length_slice inside
    have whole : ∀ matched, (found.token Pattern.locate category matched).literal = matched :=
      Rule.literal_token category fun inner _ text => lossless locate_sound inner text
    rw [everyAt_append]
    refine ⟨guarded_plainToken here guard hit.start, ?_, ?_⟩
    · rw [literals_plainToken, String.length_ofList, before]
      refine guarded_token found _ fun kind => ?_
      obtain ⟨⟨mark, isMark, opens⟩, unescaped⟩ := unescaped_of_search listed kind searched
      rcases Nat.eq_zero_or_pos hit.start with first | further
      · rw [first] at opens ⊢
        exact guard mark isMark opens
      · exact unescaped_of_occursAt here further (Nat.le_of_lt (Nat.lt_of_lt_of_le filled inside))
          (unescaped _ (Nat.sub_add_cancel further))
    · have reached : offset + hit.start + (hit.stop - hit.start) = offset + hit.stop := by omega
      rw [literals_plainToken, String.length_ofList, before, whole, String.length_ofList, taken,
        reached]
      refine inductionHypothesis (here.drop inside) fun mark isMark opens => ?_
      refine unescaped_of_occursAt here (Nat.zero_lt_of_lt filled) inside fun escape => ?_
      have clear := endsClear_of_listed listed rest hit searched filled
        (by rwa [List.getElem?_toArray]) mark isMark
      rw [List.getElem?_drop, Nat.add_zero] at opens
      exact clear (by rwa [List.getElem?_toArray])

/-- The tokens of a text are guarded. The text itself is, as nothing stands before it, and every
rule keeps the law. -/
theorem guarded_tokenize (text : String) :
    EveryAt (Guarded text.toList) 0 (grammar.tokenize text) := by
  refine Grammar.everyAt_tokenizeBy locate_sound ?_ fun category found listed offset fragment
    plain => ?_
  · refine ⟨⟨[], [], by simp, rfl⟩, fun _ _ _ before next => ?_⟩
    cases next
  · obtain ⟨here, guard⟩ := plain
    exact guarded_scan listed here guard
      (split_scan (Rule.search_productive locate_sound found) _ fragment)

end Passes

/-- What stands before emphasised text that stands at the top is nothing or ends with a character
that is no backslash. -/
theorem unescaped_of_tokenize {text : String} {earlier later : List Token} {token : Token}
    (parts : grammar.tokenize text = earlier ++ token :: later)
    (kind : token.category? = some "bold" ∨ token.category? = some "italic") :
    Token.literals earlier = "" ∨
      ∃ c, (Token.literals earlier).toList.getLast? = some c ∧ c ≠ '\\' := by
  have guarded := everyAt_iff.mp (guarded_tokenize text) earlier token later parts
  rw [Nat.zero_add] at guarded
  have unescaped : Unescaped text.toList (Token.literals earlier).length := by
    cases token with
    | plain fragment => simp [Token.category?] at kind
    | leaf category fallback matched | nested category fallback children =>
      exact guarded (by simpa [Token.category?, IsEmphasis] using kind)
  have whole : text.toList = (Token.literals earlier).toList ++
      (Token.literals (token :: later)).toList := by
    have kept : Token.literals (grammar.tokenize text) = text :=
      (lossless locate_sound grammar text).1
    rw [parts, Token.literals_append] at kept
    rw [← String.toList_append, kept]
  cases last : (Token.literals earlier).toList.getLast? with
  | none =>
    left
    rwa [List.getLast?_eq_none_iff, String.toList_eq_nil_iff] at last
  | some c =>
    right
    refine ⟨c, rfl, ?_⟩
    rintro rfl
    have filled : 0 < (Token.literals earlier).toList.length :=
      List.length_pos_of_mem (List.mem_of_getLast? last)
    refine unescaped ((Token.literals earlier).toList.length - 1) ?_ ?_
    · rw [Nat.sub_add_cancel filled, String.length_toList]
    · rw [whole, List.getElem?_append_left (Nat.sub_lt filled Nat.one_pos),
        ← List.getLast?_eq_getElem?, last]

/-- Every bold token, at any depth, lies between two equal double marks with something between
them, and every italic one between two equal single marks. And where such a token stands at the top,
at the start of the text or behind another token, the character before it is no backslash. -/
theorem emphasis_delimited (text : String) :
    (∀ layer token, Layer (grammar.tokenize text) layer → token ∈ layer →
      (token.category? = some "bold" → Delimited ["**", "__"] token.literal) ∧
      (token.category? = some "italic" → Delimited ["*", "_"] token.literal)) ∧
    ∀ earlier token later, grammar.tokenize text = earlier ++ token :: later →
      token.category? = some "bold" ∨ token.category? = some "italic" →
        text = Token.literals earlier ++ token.literal ++ Token.literals later ∧
          (Token.literals earlier = "" ∨
            ∃ c, (Token.literals earlier).toList.getLast? = some c ∧ c ≠ '\\') := by
  constructor
  · intro layer token layered member
    exact ⟨fun own => (isEmphasised_of_bold layered member own).delimited Nat.two_pos,
      fun own => (isEmphasised_of_italic layered member own).delimited Nat.one_pos⟩
  · intro earlier token later parts kind
    refine ⟨?_, unescaped_of_tokenize parts kind⟩
    have kept : Token.literals (grammar.tokenize text) = text :=
      (lossless locate_sound grammar text).1
    rw [parts, Token.literals_append, Token.literals_cons] at kept
    rw [String.append_assoc, kept]

/-- Behind a backslash in code, bold text is a token of its own: the character before it is the
mark of the code. -/
theorem emphasis_delimited_behind_code :
    ∃ code strong, grammar.tokenize "`\\`__a__" = [code, strong] ∧
      strong.category? = some "bold" ∧ Delimited ["**", "__"] strong.literal ∧
      "`\\`__a__" = Token.literals [code] ++ strong.literal ++ Token.literals [] ∧
      (Token.literals [code] = "" ∨
        ∃ c, (Token.literals [code]).toList.getLast? = some c ∧ c ≠ '\\') := by
  have computed : (grammar.tokenize "`\\`__a__").map Token.category? =
      [some "code", some "bold"] := by
    decide +kernel
  obtain ⟨code, others, parts, _, rest⟩ := List.map_eq_cons_iff.mp computed
  obtain ⟨strong, none, rfl, own, nothing⟩ := List.map_eq_cons_iff.mp rest
  obtain rfl := List.map_eq_nil_iff.mp nothing
  obtain ⟨shapes, places⟩ := emphasis_delimited "`\\`__a__"
  have member : strong ∈ grammar.tokenize "`\\`__a__" := by simp [parts]
  exact ⟨code, strong, parts, own, (shapes _ strong Layer.top member).1 own,
    places [code] strong [] parts (Or.inl own)⟩

end TextDecoration.Builtin.Markdown
