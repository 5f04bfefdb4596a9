import TextDecoration.Proofs.Grammar.Calls
import TextDecoration.Proofs.Grammar.LiteralRules

/-!
# Grammars of words

If all patterns of a grammar are words of ASCII letters and digits, cutting finds every word that is
there. A rule's own pass leaves no text plain in which its word occurs, and later passes only cut
plain text into parts of it; so the word occurs in no plain token at the end, however the words
overlap, contain or repeat each other. Every other token is a leaf that holds a word of its
category.

The rule that is tried first takes its word wherever that occurs, from left to right and without
overlaps. In the result these are all tokens with that text: later rules cannot find a word that
holds it. Which rule comes first is told by the calls that build the grammar: the table lists the
categories as they first appear.
-/

namespace TextDecoration

open Pattern

/-- A rule for a word: its pattern is a word of ASCII letters and digits that is all its token, and
the token is not cut once more. -/
structure Rule.IsWord (rule : Rule) : Prop where
  filled : rule.pattern.text ≠ ""
  plain : rule.pattern.text.toList.all Char.isAlphanum = true
  bare : rule.lookbehind = false
  simple : rule.inside = none

/-- The word of a rule, which is the pattern as it is written: none of its characters has a meaning
of its own. -/
def Rule.word (rule : Rule) : String := rule.pattern.text

section Scan

variable {word : List Char}

/-- A scan for a word leaves no text plain in which the word occurs. What is plain stands before the
first occurrence, or there is none. -/
theorem Scan.lacks {find : List Char → Option Hit} {classify : Classify} (filled : word ≠ [])
    (told : Told find (Text.occurrence? word))
    (kind : ∀ matched, (classify matched).isPlain = false) {rest : List Char}
    {tokens : List Token} (scan : Scan find classify rest tokens) {fragment : String}
    (member : .plain fragment ∈ tokens) : ¬word <:+: fragment.toList := by
  induction scan with
  | missed nothing =>
    rw [told, Option.map_eq_none_iff] at nothing
    rw [toList_of_mem_plainToken member]
    exact Text.of_occurrence?_none nothing
  | found searched later inductionHypothesis =>
    rw [told, Option.map_eq_some_iff] at searched
    obtain ⟨span, found, rfl⟩ := searched
    rcases List.mem_append.mp member with ahead | behind
    · rw [toList_of_mem_plainToken ahead]
      exact Text.not_infix_take filled found
    · rcases List.mem_cons.mp behind with same | further
      · have classified := congrArg Token.isPlain same
        rw [kind] at classified
        cases classified
      · exact inductionHypothesis further

/-- A pass of a rule for a word leaves no text plain in which the word occurs, whatever tokens it
goes over. -/
theorem Rule.pass_lacks {rule : Rule} (takes : rule.Takes (Text.occurrence? word))
    (filled : word ≠ []) {category : String} {tokens : List Token} {fragment : String}
    (member : .plain fragment ∈ rule.pass Pattern.locate category tokens) :
    ¬word <:+: fragment.toList := by
  rw [Rule.pass_eq, splitPlain] at member
  obtain ⟨old, _, piece⟩ := List.mem_flatMap.mp member
  cases old with
  | plain whole =>
    exact (split_scan (Rule.search_productive locate_sound rule) _ whole).lacks filled takes
      (Rule.token_classified Pattern.locate category rule) piece
  | leaf name fallback text => cases List.mem_singleton.mp piece
  | nested name fallback children => cases List.mem_singleton.mp piece

end Scan

section Words

variable {rule : Rule}

/-- The word of a rule has characters. A rule for no characters would find nothing at all. -/
theorem Rule.IsWord.toList_ne_nil (word : rule.IsWord) : rule.word.toList ≠ [] := by
  simpa [Rule.word] using word.filled

/-- A rule for a word finds the first occurrence of the word. Its pattern is read as that word,
character by character. -/
theorem Rule.IsWord.takes (word : rule.IsWord) :
    rule.Takes (Text.occurrence? rule.word.toList) := by
  have same : rule.pattern.meaning = ⟨.sequence (Node.literals rule.word.toList), 0, false⟩ :=
    rule.pattern.read _ (readMeaning_word (List.all_eq_true.mp word.plain))
  exact Rule.takes_occurrence word.bare (by rw [same]) word.toList_ne_nil (by rw [same])

/-- What a rule for a word finds is the word, with its case. -/
theorem Rule.IsWord.eq_of_finds (word : rule.IsWord) {matched : String}
    (finds : rule.Finds Pattern.locate matched) : matched = rule.word := by
  obtain ⟨rest, hit, searched, rfl⟩ := finds
  rw [word.takes, Option.map_eq_some_iff] at searched
  obtain ⟨span, found, rfl⟩ := searched
  rw [Text.slice_occurrence found, String.ofList_toList]

end Words

namespace Grammar

section Results

variable {calls : List (String × Rule)} (words : ∀ call ∈ calls, call.2.IsWord) {text : String}

include words

/-- None of the words occurs in what stays plain: the pass of each rule leaves none, and later
passes only cut what is plain further. -/
theorem lacks_of_words {fragment : String}
    (member : .plain fragment ∈ (ofCalls calls).tokenize text) {category : String} {rule : Rule}
    (called : (category, rule) ∈ calls) : ¬rule.word.toList <:+: fragment.toList := by
  have word : rule.IsWord := words _ called
  obtain ⟨ahead, behind, parts⟩ := List.append_of_mem (mem_alternatives_ofCalls.mpr called)
  rw [tokenize, tokenizeBy_eq] at member
  split at member
  · cases member
  · rw [parts, passes_append] at member
    have last : .plain fragment ∈ passes Pattern.locate behind
        (rule.pass Pattern.locate category (passes Pattern.locate ahead [.plain text])) := member
    obtain ⟨whole, left, part⟩ := plain_of_passes locate_sound last
    have absent := Rule.pass_lacks word.takes word.toList_ne_nil left
    exact fun occurs => absent (occurs.trans part)

/-- Every other token is a leaf for a word of its category, with the alias of the rule that found
it. -/
theorem leaf_of_words {token : Token} (member : token ∈ (ofCalls calls).tokenize text)
    (classified : token.isPlain = false) :
    ∃ call ∈ calls, token = .leaf call.1 call.2.fallback call.2.word := by
  cases tokenizeBy_made locate_sound _ _ token member with
  | plain inside => cases classified
  | @found category rule matched listed found =>
    have called : (category, rule) ∈ calls := mem_alternatives_ofCalls.mp listed
    have word : rule.IsWord := words _ called
    refine ⟨(category, rule), called, ?_⟩
    rw [Rule.token_leaf _ _ word.simple, word.eq_of_finds found.finds]

/-- The rule that is tried first makes a leaf of every occurrence of its word, from left to right
and without overlaps, and these are all tokens of the result with that text. -/
theorem placed_of_words {category : String} {rule : Rule} {others : List (String × Rule)}
    (tried : (ofCalls calls).alternatives = (category, rule) :: others) :
    ∃ spans, Text.Spans (Text.occurrence? rule.word.toList) 0 text.toList spans ∧
      placed 0 (rule.pass Pattern.locate category [.plain text]) =
        (spans.map fun span => (span.1, .leaf category rule.fallback rule.word)) ∧
      (placed 0 ((ofCalls calls).tokenize text)).filter
          (fun place => place.2.literal == rule.word) =
        spans.map fun span => (span.1, .leaf category rule.fallback rule.word) := by
  have word : rule.IsWord :=
    words (category, rule) (mem_alternatives_ofCalls.mp (tried ▸ List.mem_cons_self))
  obtain ⟨spans, spaced, places⟩ := placed_pass_first word.takes category text
  have leaves : placed 0 (rule.pass Pattern.locate category [.plain text]) =
      spans.map fun span => (span.1, .leaf category rule.fallback rule.word) := by
    rw [places]
    refine List.map_congr_left fun span among => ?_
    rw [Rule.token_leaf _ _ word.simple, spaced.slice_eq List.drop_zero span among,
      String.ofList_toList]
  refine ⟨spans, spaced, leaves, ?_⟩
  rw [← leaves]
  refine placed_tokenize_first locate_sound tried (fun token => token.literal == rule.word)
    (fun place among => ?_) fun fragment left token among => ?_
  · rw [leaves] at among
    obtain ⟨span, _, rfl⟩ := List.mem_map.mp among
    rw [Token.literal_leaf, beq_self_eq_true]
  · rw [beq_eq_false_iff_ne]
    intro same
    have absent := Rule.pass_lacks word.takes word.toList_ne_nil left
    exact absent (same ▸ literal_infix_of_passes locate_sound among)

end Results

/-- Cutting by a grammar that calls build of words leaves none of the words in plain text, and makes
of all other text leaves that hold a word registered under their category. The rule that is tried
first is that of the first call. It makes leaves of the leftmost occurrences of its word that do not
overlap, and these leaves are the tokens of the result with that text. -/
theorem tokenize_words (calls : List (String × Rule)) (words : ∀ call ∈ calls, call.2.IsWord)
    (text : String) :
    (∀ fragment, .plain fragment ∈ (ofCalls calls).tokenize text →
      ∀ call ∈ calls, ¬call.2.word.toList <:+: fragment.toList) ∧
    (∀ token ∈ (ofCalls calls).tokenize text, token.isPlain = false →
      ∃ call ∈ calls, token = .leaf call.1 call.2.fallback call.2.word) ∧
    ∀ category rule later, calls = (category, rule) :: later →
      (∃ others, (ofCalls calls).alternatives = (category, rule) :: others) ∧
      ∃ spans, Text.Spans (Text.occurrence? rule.word.toList) 0 text.toList spans ∧
        placed 0 (rule.pass Pattern.locate category [.plain text]) =
          (spans.map fun span => (span.1, .leaf category rule.fallback rule.word)) ∧
        (placed 0 ((ofCalls calls).tokenize text)).filter
            (fun place => place.2.literal == rule.word) =
          spans.map fun span => (span.1, .leaf category rule.fallback rule.word) := by
  refine ⟨fun fragment member call called => lacks_of_words words member called,
    fun token member classified => leaf_of_words words member classified, ?_⟩
  rintro category rule later rfl
  obtain ⟨others, tried⟩ := alternatives_ofCalls_first category rule later
  exact ⟨⟨others, tried⟩, placed_of_words words tried⟩

/-- Calls with words that overlap and contain each other, and with one category twice. The word
called for first begins another one. -/
def overlappingWords : List (String × Rule) :=
  [("name", .ofPattern (.known "ab" (by decide +kernel))),
    ("unit", .ofPattern (.known "bc" (by decide +kernel))),
    ("name", .ofPattern (.known "abc" (by decide +kernel)))]

/-- In a text in which all three words occur, the first one is found at its one place, and none of
them is left in plain text. -/
theorem tokenize_words_overlapping :
    (∀ call ∈ overlappingWords, call.2.IsWord) ∧
      (∀ fragment, .plain fragment ∈ (ofCalls overlappingWords).tokenize "xabcbc" →
        ∀ call ∈ overlappingWords, ¬call.2.word.toList <:+: fragment.toList) ∧
      (placed 0 ((ofCalls overlappingWords).tokenize "xabcbc")).filter
        (fun place => place.2.literal == "ab") = [(1, .leaf "name" none "ab")] := by
  have words : ∀ call ∈ overlappingWords, call.2.IsWord := by
    intro call among
    simp only [overlappingWords, List.mem_cons, List.not_mem_nil, or_false] at among
    rcases among with rfl | rfl | rfl <;> exact ⟨by decide, by decide, rfl, rfl⟩
  obtain ⟨lacking, _, first⟩ := tokenize_words overlappingWords words "xabcbc"
  obtain ⟨_, spans, spaced, _, places⟩ := first _ _ _ rfl
  have here : Text.occurrence? "ab".toList "xabcbc".toList = some (1, 3) := by decide
  have nothing : Text.occurrence? "ab".toList ("xabcbc".toList.drop 3) = none := by decide
  have once : Text.Spans (Text.occurrence? "ab".toList) 0 "xabcbc".toList [(1, 3)] :=
    Text.Spans.found here (Text.Spans.missed nothing)
  have same : spans = [(1, 3)] := spaced.unique once
  rw [same] at places
  exact ⟨words, lacking, places⟩

end Grammar

end TextDecoration
