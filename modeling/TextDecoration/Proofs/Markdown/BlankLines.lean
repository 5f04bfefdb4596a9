import TextDecoration.Proofs.Markdown.EmphasisedTokens

/-!
# Blank lines in bold and italic text

A piece of the body that is a line break has no other line break behind it. But a piece may also be
any character except a line feed, and a carriage return is one. So blank lines whose first line
break holds a line feed are kept out, and two carriage returns in a row are not: they pass as two
pieces of the other kind. That is the only way in which a blank line gets into bold or italic text.

Single line breaks are taken in all three forms.
-/

namespace TextDecoration.Builtin.Markdown

open Pattern Text

/-- Marks hold no line feeds, so no line break follows one in them. -/
theorem unbroken_of_marks {text : Array Char} {place width : Nat} {mark : Char}
    (isMark : mark = '*' ∨ mark = '_') (marked : ∀ i < width, text[place + i]? = some mark) :
    Unbroken text place (place + width) := by
  apply Unbroken.of_no_feed
  intro i behind before
  have here : text[i]? = some mark := by
    have there := marked (i - place) (by omega)
    rwa [Nat.add_sub_cancel' behind] at there
  rw [here]
  rcases isMark with rfl | rfl <;> decide

/-- In emphasised text, marks included, no line break follows a line feed. The closing mark stands
where one could follow the last. -/
theorem Emphasised.unbroken_whole {text : Array Char} {width origin start close stop : Nat}
    {mark : Char} (emphasised : Emphasised text width origin start close stop mark) :
    Unbroken text start stop := by
  have first : Unbroken text start (start + width) :=
    unbroken_of_marks emphasised.isMark emphasised.opening
  have last : Unbroken text close (close + width) :=
    unbroken_of_marks emphasised.isMark emphasised.closing
  rw [emphasised.stop_eq]
  exact (first.append emphasised.unbroken).append last

/-- In the text of an emphasised token no line break follows a line feed. A blank line would have to
begin otherwise. -/
theorem IsEmphasised.not_isBreak {width : Nat} {literal : String}
    (emphasised : IsEmphasised width literal) {ahead behind : List Char} {c : Char}
    (parts : literal.toList = ahead ++ '\n' :: c :: behind) : ¬IsBreak c := by
  obtain ⟨text, origin, start, close, stop, mark, stands, cut⟩ := emphasised
  have feed : (slice text.toList start stop)[ahead.length]? = some '\n' := by
    rw [← cut, parts]
    simp
  have next : (slice text.toList start stop)[ahead.length + 1]? = some c := by
    rw [← cut, parts]
    simp
  obtain ⟨before, feedThere⟩ := getElem?_of_slice feed
  obtain ⟨_, nextThere⟩ := getElem?_of_slice next
  rw [Array.getElem?_toList] at feedThere nextThere
  exact stands.unbroken_whole (start + ahead.length) (Nat.le_add_right _ _) before feedThere c
    nextThere

/-- A blank line in emphasised text begins with two carriage returns, so there is one exactly if two
carriage returns stand in a row. -/
theorem IsEmphasised.hasBlankLine_iff {width : Nat} {literal : String}
    (emphasised : IsEmphasised width literal) :
    HasBlankLine literal.toList ↔ ['\r', '\r'] <:+: literal.toList := by
  constructor
  · rintro ⟨ahead, behind, parts, opens⟩
    rcases opens.cases with ⟨c, rest, rfl, kind⟩ | ⟨c, rest, rfl, kind⟩ | ⟨rest, rfl⟩
    · exact absurd kind (emphasised.not_isBreak parts)
    · have further : literal.toList = (ahead ++ ['\r']) ++ '\n' :: c :: rest := by
        rw [parts, List.append_assoc, List.singleton_append]
      exact absurd kind (emphasised.not_isBreak further)
    · exact ⟨ahead, rest, by rw [parts, List.append_assoc]; rfl⟩
  · rintro ⟨ahead, rest, parts⟩
    rw [← parts, List.append_assoc]
    exact ⟨ahead, '\r' :: '\r' :: rest, rfl, OpensBlankLine.of_returns rest⟩

/-- A text that the markdown grammar takes whole is one token, which holds the text. -/
theorem tokenize_whole {text category : String}
    (whole : grammar.wholeBy? Pattern.locate text = some category) :
    ∃ token, grammar.tokenize text = [token] ∧ token.category? = some category ∧
      token.literal = text := by
  obtain ⟨rule, _, cut⟩ := Grammar.tokenizeBy_whole Pattern.locate_sound whole
  refine ⟨_, cut, Rule.category?_token Pattern.locate category rule text, ?_⟩
  exact Rule.literal_token category
    (fun inner _ text => lossless Pattern.locate_sound inner text) text

/-- Bold and italic text between their marks, with a line break of each form in it, or with two
carriage returns. -/
theorem wholeBy?_broken :
    ∀ kind ∈ [("**", "bold"), ("*", "italic")], ∀ between ∈ ["\r\n", "\n", "\r", "\r\r"],
      grammar.wholeBy? Pattern.locate (kind.1 ++ "a" ++ between ++ "b" ++ kind.1) =
        some kind.2 := by
  decide +kernel

/-- Two carriage returns in a row do not end bold text. The second one is taken as a character of a
line, without a look at what follows. -/
theorem tokenize_carriage_returns : ∃ token, grammar.tokenize "**a\r\rb**" = [token] ∧
    token.category? = some "bold" ∧ token.literal = "**a\r\rb**" :=
  tokenize_whole (wholeBy?_broken ("**", "bold") (by simp) "\r\r" (by simp))

/-- A bold or italic token, at any depth, holds a blank line exactly if it holds two carriage
returns in a row. In particular there is none in a text whose line breaks all end with line feeds.
Single line breaks may stand in bold and in italic text, in each of their three forms. -/
theorem blank_line_in_emphasis (text : String) (layer : List Token) (token : Token)
    (layered : Layer (grammar.tokenize text) layer) (member : token ∈ layer)
    (kind : token.category? = some "bold" ∨ token.category? = some "italic") :
    (HasBlankLine token.literal.toList ↔ ['\r', '\r'] <:+: token.literal.toList) ∧
      ∀ marked ∈ [("**", "bold"), ("*", "italic")], ∀ lineBreak ∈ ["\r\n", "\n", "\r"],
        ∃ single, grammar.tokenize (marked.1 ++ "a" ++ lineBreak ++ "b" ++ marked.1) = [single] ∧
          single.category? = some marked.2 := by
  constructor
  · rcases kind with own | own
    · exact (isEmphasised_of_bold layered member own).hasBlankLine_iff
    · exact (isEmphasised_of_italic layered member own).hasBlankLine_iff
  · intro marked known lineBreak alone
    have listed : lineBreak ∈ ["\r\n", "\n", "\r", "\r\r"] :=
      List.mem_append_left ["\r\r"] alone
    obtain ⟨single, cut, own, _⟩ := tokenize_whole (wholeBy?_broken marked known lineBreak listed)
    exact ⟨single, cut, own⟩

/-- Bold text with two carriage returns in a row holds a blank line, as the one between the two
returns. -/
theorem blank_line_in_bold : ∃ token, grammar.tokenize "**a\r\rb**" = [token] ∧
    token.category? = some "bold" ∧ HasBlankLine token.literal.toList := by
  obtain ⟨token, cut, own, holds⟩ := tokenize_carriage_returns
  have member : token ∈ grammar.tokenize "**a\r\rb**" := by simp [cut]
  have returns : ['\r', '\r'] <:+: token.literal.toList := by
    rw [holds]
    exact ⟨"**a".toList, "b**".toList, by decide⟩
  exact ⟨token, cut, own,
    (blank_line_in_emphasis _ _ token Layer.top member (Or.inl own)).1.mpr returns⟩

/-- Not all bold and italic text is without blank lines. One bold token with one is enough. -/
theorem not_free_of_blank_lines : ¬∀ text layer token, Layer (grammar.tokenize text) layer →
    token ∈ layer → token.category? = some "bold" ∨ token.category? = some "italic" →
      ¬HasBlankLine token.literal.toList := by
  intro free
  obtain ⟨token, cut, own, holds⟩ := tokenize_carriage_returns
  have member : token ∈ grammar.tokenize "**a\r\rb**" := by simp [cut]
  refine free _ _ token Layer.top member (Or.inl own) ?_
  rw [holds]
  exact ⟨"**a".toList, "\r\rb**".toList, by decide, OpensBlankLine.of_returns "b**".toList⟩

end TextDecoration.Builtin.Markdown
