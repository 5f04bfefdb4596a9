import TextDecoration.Builtin.Markdown
import TextDecoration.Proofs.Grammar.Passes

/-!
# Nothing is lost in cutting

The tokens of a text, read one after the other, are the text. Every classified token stands exactly
where a rule of its category matched, and holds exactly what the rule matched there; a nested one
is made of children that stand in the matched text in the same way, under the rule's own grammar.
So text is neither dropped nor doubled at any depth.

Of the engine nothing is used but its soundness: fits may be empty, the first group may end before
the fit or behind it, and a search may report nothing although the pattern would fit.

Passes keep an invariant on the sequence of tokens: each stands where the texts before it end. One
step is a scan of a plain token, which lays its tokens out over the place the plain one had. Nested
grammars are covered by induction on the nesting.
-/

namespace TextDecoration

/-- A piece stands in a text at an offset: so many characters come before it. Offsets tell pieces
apart that have the same characters. -/
def OccursAt (text : List Char) (offset : Nat) (piece : List Char) : Prop :=
  ∃ ahead behind, text = ahead ++ piece ++ behind ∧ ahead.length = offset

/-- A rule matched a stretch that stands in a text at an offset: what a search for the rule found
in some part of the text is that stretch in that place. -/
def Rule.MatchedAt (engine : Engine) (rule : Rule) (text : List Char) (offset : Nat)
    (matched : List Char) : Prop :=
  ∃ start rest hit, OccursAt text start rest ∧ rule.search engine rest = some hit ∧
    offset = start + hit.start ∧ matched = slice rest hit.start hit.stop

/-- A token stands in a text at an offset as cutting by a grammar leaves it there. A plain one is
that part of the text. A classified one holds what a rule of its category matched there; and if
that rule has a grammar of its own, the children make up the matched text, and each of them stands
in it, behind the children before it, as cutting by that grammar leaves it there. -/
inductive Token.Stands (engine : Engine) : Grammar → List Char → Nat → Token → Prop where
  | plain {grammar : Grammar} {text : List Char} {offset : Nat} {fragment : String}
      (here : OccursAt text offset fragment.toList) :
      Stands engine grammar text offset (.plain fragment)
  | leaf {grammar : Grammar} {text : List Char} {offset : Nat} {category : String} {rule : Rule}
      {matched : String} (listed : (category, rule) ∈ grammar.alternatives)
      (simple : rule.inside = none) (found : rule.MatchedAt engine text offset matched.toList) :
      Stands engine grammar text offset (.leaf category rule.fallback matched)
  | nested {grammar inner : Grammar} {text : List Char} {offset : Nat} {category : String}
      {rule : Rule} {matched : String} {children : List Token}
      (listed : (category, rule) ∈ grammar.alternatives) (deep : rule.inside = some inner)
      (found : rule.MatchedAt engine text offset matched.toList)
      (whole : Token.literals children = matched)
      (within : ∀ earlier child later, children = earlier ++ child :: later →
        Stands engine inner matched.toList (Token.literals earlier).length child) :
      Stands engine grammar text offset (.nested category rule.fallback children)

/-- Every token of a sequence has a property at the offset where the texts before it end. The
property may speak of that offset. -/
def EveryAt (property : Nat → Token → Prop) (offset : Nat) : List Token → Prop
  | [] => True
  | token :: later =>
    property offset token ∧ EveryAt property (offset + token.literal.length) later

/-- Two sequences in a row have a property throughout when each has it, the second one behind the
text of the first. -/
theorem everyAt_append {property : Nat → Token → Prop} {offset : Nat} {first second : List Token} :
    EveryAt property offset (first ++ second) ↔ EveryAt property offset first ∧
      EveryAt property (offset + (Token.literals first).length) second := by
  induction first generalizing offset with
  | nil => simp [EveryAt]
  | cons token first inductionHypothesis =>
    simp only [List.cons_append, EveryAt, inductionHypothesis, Token.literals_cons,
      String.length_append, and_assoc, Nat.add_assoc]

/-- A property holds throughout a sequence when it holds token by token: what stands before a token
decides its offset. -/
theorem everyAt_iff {property : Nat → Token → Prop} {offset : Nat} {tokens : List Token} :
    EveryAt property offset tokens ↔ ∀ earlier token later, tokens = earlier ++ token :: later →
      property (offset + (Token.literals earlier).length) token := by
  constructor
  · intro every earlier token later parts
    rw [parts, everyAt_append] at every
    exact every.2.1
  · intro each
    induction tokens generalizing offset with
    | nil => trivial
    | cons token tokens inductionHypothesis =>
      refine ⟨by simpa using each [] token tokens rfl, inductionHypothesis ?_⟩
      intro earlier next later parts
      have placed := each (token :: earlier) next later (by rw [parts, List.cons_append])
      simpa [Nat.add_assoc] using placed

/-- A part of a piece stands in the text behind what stands before the piece and before the part.
Offsets add up. -/
theorem OccursAt.part {text ahead middle behind : List Char} {offset : Nat}
    (here : OccursAt text offset (ahead ++ middle ++ behind)) :
    OccursAt text (offset + ahead.length) middle := by
  obtain ⟨before, after, parts, counted⟩ := here
  exact ⟨before ++ ahead, behind ++ after, by simp [parts], by simp [counted]⟩

/-- Cutting by a grammar loses nothing: the tokens make up the text, and each of them stands in it
where the texts before it end. -/
def Lossless (engine : Engine) (grammar : Grammar) (text : String) : Prop :=
  Token.literals (Grammar.tokenizeBy engine grammar text) = text ∧
    EveryAt (Token.Stands engine grammar text.toList) 0 (Grammar.tokenizeBy engine grammar text)

/-- What a sound engine's rule makes of a matched text that stands in the text is a token that
stands there and holds the matched text, if the grammar inside the rule loses nothing. -/
theorem Rule.token_stands {engine : Engine} {grammar : Grammar} {category : String} {rule : Rule}
    {text : List Char} {offset : Nat} {matched : String}
    (listed : (category, rule) ∈ grammar.alternatives)
    (within : ∀ inner, rule.inside = some inner → ∀ text, Lossless engine inner text)
    (found : rule.MatchedAt engine text offset matched.toList) :
    Token.Stands engine grammar text offset (rule.token engine category matched) := by
  cases deep : rule.inside with
  | none =>
    rw [Rule.token_leaf engine category deep]
    exact Token.Stands.leaf listed deep found
  | some inner =>
    obtain ⟨whole, placed⟩ := within inner deep matched
    rw [Rule.token_nested engine category deep]
    refine Token.Stands.nested listed deep found whole ?_
    intro earlier child later parts
    simpa using everyAt_iff.mp placed earlier child later parts

/-- A rule's token holds the matched text, if the grammar inside the rule loses nothing. A leaf
holds it as it is. -/
theorem Rule.literal_token {engine : Engine} {rule : Rule} (category : String)
    (within : ∀ inner, rule.inside = some inner → ∀ text, Lossless engine inner text)
    (matched : String) : (rule.token engine category matched).literal = matched := by
  cases deep : rule.inside with
  | none => rw [Rule.token_leaf engine category deep, Token.literal_leaf]
  | some inner =>
    rw [Rule.token_nested engine category deep, Token.literal_nested]
    exact (within inner deep matched).1

/-- Splitting a plain token keeps its text, if the grammar inside the rule loses nothing. Hits and
plain pieces make up what was there. -/
theorem Rule.literals_split {engine : Engine} {rule : Rule} (category : String)
    (productive : Productive (rule.search engine))
    (within : ∀ inner, rule.inside = some inner → ∀ text, Lossless engine inner text)
    (fragment : String) : Token.literals
      (split (rule.search engine) (rule.token engine category) fragment) = fragment := by
  have scan := split_scan productive (rule.token engine category) fragment
  rw [scan.literals productive (Rule.literal_token category within), String.ofList_toList]

section Passes

variable {engine : Engine} {grammar : Grammar} {category : String} {rule : Rule} {text : List Char}

/-- A plain token for a part of the text stands where the part does. For an empty part there is no
token to stand anywhere. -/
theorem plainToken_stands {offset : Nat} {cs : List Char} (here : OccursAt text offset cs) :
    EveryAt (Token.Stands engine grammar text) offset (plainToken cs) := by
  cases cs with
  | nil => trivial
  | cons c cs => exact ⟨Token.Stands.plain (by simpa using here), trivial⟩

/-- A scan lays its tokens out where the scanned part of the text stands. Behind a hit the rest of
that part stands where the hit ends, so the induction goes on from there. -/
theorem Scan.stands (productive : Productive (rule.search engine))
    (listed : (category, rule) ∈ grammar.alternatives)
    (within : ∀ inner, rule.inside = some inner → ∀ text, Lossless engine inner text)
    {offset : Nat} {rest : List Char} {tokens : List Token} (here : OccursAt text offset rest)
    (scan : Scan (rule.search engine) (rule.token engine category) rest tokens) :
    EveryAt (Token.Stands engine grammar text) offset tokens := by
  induction scan generalizing offset with
  | missed nothing => exact plainToken_stands here
  | @found rest hit tokens searched later inductionHypothesis =>
    obtain ⟨filled, inside⟩ := productive rest hit searched
    have parts : rest.take hit.start ++ slice rest hit.start hit.stop ++ rest.drop hit.stop =
        rest := take_slice_drop rest (Nat.le_of_lt filled)
    have before : (rest.take hit.start).length = hit.start := by
      rw [List.length_take]
      omega
    have taken : (slice rest hit.start hit.stop).length = hit.stop - hit.start :=
      length_slice inside
    have ahead : OccursAt text offset (rest.take hit.start) := by
      have first : OccursAt text offset ([] ++ rest.take hit.start ++
          (slice rest hit.start hit.stop ++ rest.drop hit.stop)) := by
        rwa [List.nil_append, ← List.append_assoc, parts]
      simpa using first.part
    have found : rule.MatchedAt engine text (offset + hit.start)
        (String.ofList (slice rest hit.start hit.stop)).toList :=
      ⟨offset, rest, hit, here, searched, rfl, String.toList_ofList⟩
    have behind : OccursAt text (offset + hit.stop) (rest.drop hit.stop) := by
      have last : OccursAt text offset
          (rest.take hit.start ++ slice rest hit.start hit.stop ++ rest.drop hit.stop ++ []) := by
        rwa [List.append_nil, parts]
      have counted : (rest.take hit.start ++ slice rest hit.start hit.stop).length = hit.stop := by
        rw [List.length_append, before, taken]
        omega
      have reached := last.part
      rwa [counted] at reached
    rw [everyAt_append]
    refine ⟨plainToken_stands ahead, ?_, ?_⟩
    · rw [literals_plainToken, String.length_ofList, before]
      exact Rule.token_stands listed within found
    · rw [literals_plainToken, String.length_ofList, before, Rule.literal_token category within,
        String.length_ofList, taken]
      have reached : offset + hit.start + (hit.stop - hit.start) = offset + hit.stop := by omega
      rw [reached]
      exact inductionHypothesis behind

/-- One rule's pass keeps the text and lays its tokens out where the old ones stood. Classified
tokens have not moved, as the text before them is kept. -/
theorem Rule.pass_stands (productive : Productive (rule.search engine))
    (listed : (category, rule) ∈ grammar.alternatives)
    (within : ∀ inner, rule.inside = some inner → ∀ text, Lossless engine inner text)
    {offset : Nat} {tokens : List Token}
    (placed : EveryAt (Token.Stands engine grammar text) offset tokens) :
    Token.literals (rule.pass engine category tokens) = Token.literals tokens ∧
      EveryAt (Token.Stands engine grammar text) offset (rule.pass engine category tokens) := by
  rw [Rule.pass_eq]
  induction tokens generalizing offset with
  | nil => exact ⟨rfl, trivial⟩
  | cons token tokens inductionHypothesis =>
    obtain ⟨first, others⟩ := placed
    obtain ⟨kept, laid⟩ := inductionHypothesis others
    rw [splitPlain, List.flatMap_cons, ← splitPlain]
    cases token with
    | plain fragment =>
      have scan := split_scan productive (rule.token engine category) fragment
      have same := Rule.literals_split category productive within fragment
      refine ⟨by rw [Token.literals_append, same, kept]; rfl, everyAt_append.mpr ⟨?_, ?_⟩⟩
      · cases first with
        | plain here => exact scan.stands productive listed within here
      · rw [same]
        exact laid
    | leaf name fallback matched =>
      exact ⟨by rw [List.singleton_append, Token.literals_cons, kept, ← Token.literals_cons],
        first, laid⟩
    | nested name fallback children =>
      exact ⟨by rw [List.singleton_append, Token.literals_cons, kept, ← Token.literals_cons],
        first, laid⟩

/-- All passes together keep the text and lay their tokens out where the old ones stood. The
induction is on the alternatives, with the tokens left open. -/
theorem passes_stands (sound : engine.Sound)
    (within : ∀ category rule inner, (category, rule) ∈ grammar.alternatives →
      rule.inside = some inner → ∀ text, Lossless engine inner text)
    {alternatives : List (String × Rule)}
    (listed : ∀ alternative ∈ alternatives, alternative ∈ grammar.alternatives)
    {offset : Nat} {tokens : List Token}
    (placed : EveryAt (Token.Stands engine grammar text) offset tokens) :
    Token.literals (passes engine alternatives tokens) = Token.literals tokens ∧
      EveryAt (Token.Stands engine grammar text) offset (passes engine alternatives tokens) := by
  induction alternatives generalizing tokens with
  | nil => exact ⟨rfl, placed⟩
  | cons alternative alternatives inductionHypothesis =>
    obtain ⟨category, rule⟩ := alternative
    have member : (category, rule) ∈ grammar.alternatives := listed _ List.mem_cons_self
    obtain ⟨kept, laid⟩ := Rule.pass_stands (Rule.search_productive sound rule) member
      (fun inner deep => within category rule inner member deep) placed
    obtain ⟨keptAfter, laidAfter⟩ := inductionHypothesis
      (fun alternative among => listed alternative (List.mem_cons_of_mem _ among)) laid
    exact ⟨keptAfter.trans kept, laidAfter⟩

end Passes

/-- Cutting by any grammar loses nothing. A text that is not empty begins as one plain token, which
is the text and stands at its start; the passes keep both. The grammars inside the rules are
covered by the induction. -/
theorem lossless {engine : Engine} (sound : engine.Sound) (grammar : Grammar) :
    ∀ text, Lossless engine grammar text := by
  induction grammar using Grammar.nestedInduction with
  | step grammar inductionHypothesis =>
    intro text
    rw [Lossless, Grammar.tokenizeBy_eq]
    split
    · next empty => exact ⟨(String.isEmpty_iff.mp empty).symm, trivial⟩
    · have start : EveryAt (Token.Stands engine grammar text.toList) 0 [.plain text] :=
        ⟨Token.Stands.plain ⟨[], [], by simp, rfl⟩, trivial⟩
      obtain ⟨kept, laid⟩ := passes_stands sound inductionHypothesis
        (fun alternative member => member) start
      exact ⟨by simpa using kept, laid⟩

/-- The tokens of a text make up the text, and every token at any depth holds the text that its
rule matched in that place. This holds for every engine that is sound, whatever its patterns do. -/
theorem tokenizeBy_lossless (engine : Engine) (sound : engine.Sound) (grammar : Grammar)
    (text : String) :
    Token.literals (Grammar.tokenizeBy engine grammar text) = text ∧
      ∀ earlier token later, Grammar.tokenizeBy engine grammar text = earlier ++ token :: later →
        Token.Stands engine grammar text.toList (Token.literals earlier).length token := by
  obtain ⟨whole, placed⟩ := lossless sound grammar text
  refine ⟨whole, ?_⟩
  intro earlier token later parts
  simpa using everyAt_iff.mp placed earlier token later parts

/-- The engine of this library is such an engine, so nothing is lost in a text in which bold and
italic text nest behind a tag. -/
theorem tokenizeBy_lossless_markdown :
    Engine.Sound Pattern.locate ∧
      Token.literals (Grammar.tokenizeBy Pattern.locate Builtin.Markdown.grammar
        "<b> ***a* _c_**") = "<b> ***a* _c_**" ∧
      ∀ earlier token later, Grammar.tokenizeBy Pattern.locate Builtin.Markdown.grammar
        "<b> ***a* _c_**" = earlier ++ token :: later →
          Token.Stands Pattern.locate Builtin.Markdown.grammar "<b> ***a* _c_**".toList
            (Token.literals earlier).length token :=
  ⟨Pattern.locate_sound, tokenizeBy_lossless Pattern.locate Pattern.locate_sound
    Builtin.Markdown.grammar "<b> ***a* _c_**"⟩

end TextDecoration
