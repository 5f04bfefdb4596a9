import TextDecoration.Proofs.Grammar.Reachable
import TextDecoration.Proofs.Range.Projection

/-!
# Priority as composition

Appending a grammar to another one lets the appended categories see only what the others leave
plain: the tokens are those of the first grammar, with every plain one cut by the appended grammar.
So what earlier categories match is never disturbed by later ones. Classified tokens stay where
they are, and so do their ranges under either policy.

The categories of the two grammars are disjoint; otherwise the appended one would replace rules of
the first. The appended grammar must be one that can be built, so that it names no category twice.
-/

namespace TextDecoration

/-- A token cut anew if it is plain; a classified one stays as it is. -/
def Token.recut (cut : String → List Token) : Token → List Token
  | .plain fragment => cut fragment
  | token => [token]

/-- A classified token stays as it is when it is cut anew, whatever the cutting. -/
theorem Token.recut_classified {cut : String → List Token} {token : Token}
    (kind : token.isPlain = false) : token.recut cut = [token] := by
  cases token with
  | plain text => cases kind
  | leaf category fallback text => rfl
  | nested category fallback children => rfl

/-- The alternatives of disjoint grammars are those of the one and then those of the other. With a
category in common the upper grammar would replace rules of the lower one in their place. -/
theorem Grammar.alternatives_extend {grammar appended : Grammar} (distinct : appended.Distinct)
    (apart : ∀ category ∈ appended.names, category ∉ grammar.names) :
    Grammar.alternatives (grammar.extend appended) =
      grammar.alternatives ++ appended.alternatives := by
  rw [alternatives, Table.extend_entries distinct apart, List.flatMap_append]
  rfl

/-- The passes of a grammar over a token that holds text cut it anew. A token without text would be
left by the passes and lost by cutting. -/
theorem passes_recut (engine : Engine) (grammar : Grammar) {token : Token}
    (filled : token.literal ≠ "") :
    passes engine grammar.alternatives [token] =
      token.recut (Grammar.tokenizeBy engine grammar) := by
  cases token with
  | plain fragment =>
    have present : fragment.isEmpty = false := by
      rw [← Bool.not_eq_true, String.isEmpty_iff]
      exact filled
    rw [Token.recut, Grammar.tokenizeBy_eq, present]
    rfl
  | leaf category fallback text => exact passes_classified engine _ rfl
  | nested category fallback children => exact passes_classified engine _ rfl

/-- Cutting by a grammar with another one appended is cutting by the first and cutting what it
leaves plain by the other. The passes of the appended grammar go over every token on its own, and
no plain one is empty. -/
theorem tokenizeBy_extend {engine : Engine} (sound : engine.Sound) {grammar appended : Grammar}
    (distinct : appended.Distinct)
    (apart : ∀ category ∈ appended.names, category ∉ grammar.names) (text : String) :
    Grammar.tokenizeBy engine (grammar.extend appended) text =
      (Grammar.tokenizeBy engine grammar text).flatMap
        (Token.recut (Grammar.tokenizeBy engine appended)) := by
  by_cases empty : text.isEmpty = true
  · rw [Grammar.tokenizeBy_eq, Grammar.tokenizeBy_eq engine grammar, if_pos empty, if_pos empty,
      List.flatMap_nil]
  · have first : Grammar.tokenizeBy engine grammar text =
        passes engine grammar.alternatives [.plain text] := by
      rw [Grammar.tokenizeBy_eq, if_neg empty]
    have filled : Filled (passes engine grammar.alternatives [.plain text]) :=
      first ▸ tokenizeBy_filled sound grammar text
    rw [first, Grammar.tokenizeBy_eq, if_neg empty, Grammar.alternatives_extend distinct apart,
      passes_append, passes_flatMap]
    rw [List.flatMap_def, List.flatMap_def]
    apply congrArg List.flatten
    exact List.map_congr_left fun token member => passes_recut engine appended (filled token member)

/-- Cutting tokens anew keeps the text that they make up, if the cutting of each plain one does,
since all others are left as they are. -/
theorem literals_recut {cut : String → List Token}
    (kept : ∀ fragment, Token.literals (cut fragment) = fragment) (tokens : List Token) :
    Token.literals (tokens.flatMap (Token.recut cut)) = Token.literals tokens := by
  induction tokens with
  | nil => rfl
  | cons token tokens inductionHypothesis =>
    rw [List.flatMap_cons, Token.literals_append, inductionHypothesis, Token.literals_cons]
    cases token with
    | plain fragment => rw [Token.recut, kept, Token.literal_plain]
    | leaf category fallback text => simp [Token.recut]
    | nested category fallback children => simp [Token.recut]

/-- A classified token stays where it is when tokens are cut anew: what comes before it makes up the
same text as before. -/
theorem recut_stays {cut : String → List Token}
    (kept : ∀ fragment, Token.literals (cut fragment) = fragment) {earlier later : List Token}
    {token : Token} (kind : token.isPlain = false) :
    ∃ earlier' later', (earlier ++ token :: later).flatMap (Token.recut cut) =
        earlier' ++ token :: later' ∧ Token.literals earlier' = Token.literals earlier := by
  refine ⟨earlier.flatMap (Token.recut cut), later.flatMap (Token.recut cut), ?_,
    literals_recut kept earlier⟩
  rw [List.flatMap_append, List.flatMap_cons, Token.recut_classified kind]
  rfl

/-- Ranges belong to classified tokens: each is the range of one of them, at the offset where the
texts before it end. -/
theorem mem_project {path : NodePath} {policy : TagPolicy} {tokens : List Token} {range : Range} :
    range ∈ project tokens path policy ↔ ∃ earlier token later, tokens = earlier ++ token :: later ∧
      token.isPlain = false ∧
        range = token.rangeAt policy path (Token.literals earlier).length := by
  rw [project, projectFrom_eq, List.mem_map]
  constructor
  · rintro ⟨⟨position, token⟩, place, rfl⟩
    obtain ⟨kind, earlier, later, parts, begins⟩ := mem_placed.mp place
    rw [Nat.zero_add] at begins
    exact ⟨earlier, token, later, parts, kind, by rw [begins]⟩
  · rintro ⟨earlier, token, later, parts, kind, rfl⟩
    exact ⟨(_, token), mem_placed.mpr ⟨kind, earlier, later, parts, (Nat.zero_add _).symm⟩, rfl⟩

/-- Cutting by a grammar with lower-priority categories appended is cutting what the grammar leaves
plain by those categories. Classified tokens reappear behind the same text, so at the same offset,
and every range stays among the ranges, whatever is tagged. This holds for every engine that is
sound. -/
theorem tokenizeBy_extend_stable (engine : Engine) (sound : engine.Sound)
    (grammar appended : Grammar) (built : appended.Reachable)
    (apart : ∀ category ∈ appended.names, category ∉ grammar.names) (text : String) :
    Grammar.tokenizeBy engine (grammar.extend appended) text =
        (Grammar.tokenizeBy engine grammar text).flatMap
          (Token.recut (Grammar.tokenizeBy engine appended)) ∧
      (∀ earlier token later, Grammar.tokenizeBy engine grammar text = earlier ++ token :: later →
        token.isPlain = false → ∃ earlier' later',
          Grammar.tokenizeBy engine (grammar.extend appended) text = earlier' ++ token :: later' ∧
            Token.literals earlier' = Token.literals earlier) ∧
      ∀ path policy, ∀ range ∈ project (Grammar.tokenizeBy engine grammar text) path policy,
        range ∈ project (Grammar.tokenizeBy engine (grammar.extend appended) text) path policy := by
  have composed := tokenizeBy_extend sound built.distinct apart text
  have kept : ∀ fragment, Token.literals (Grammar.tokenizeBy engine appended fragment) = fragment :=
    fun fragment => (lossless sound appended fragment).1
  have stays : ∀ earlier token later,
      Grammar.tokenizeBy engine grammar text = earlier ++ token :: later →
        token.isPlain = false → ∃ earlier' later',
          Grammar.tokenizeBy engine (grammar.extend appended) text = earlier' ++ token :: later' ∧
            Token.literals earlier' = Token.literals earlier := by
    intro earlier token later parts kind
    rw [composed, parts]
    exact recut_stays kept kind
  refine ⟨composed, stays, ?_⟩
  intro path policy range among
  obtain ⟨earlier, token, later, parts, kind, rfl⟩ := mem_project.mp among
  obtain ⟨earlier', later', partsAfter, same⟩ := stays earlier token later parts kind
  exact mem_project.mpr ⟨earlier', token, later', partsAfter, kind, by rw [same]⟩

/-- Marks of emphasis appended to the markup grammar are sought only in what markup leaves plain:
those inside the comment are not found. -/
theorem tokenize_extend_markup :
    Engine.Sound Pattern.locate ∧
      (Builtin.Markdown.punctuation Builtin.Markdown.italicMarks).Reachable ∧
      (∀ category ∈ (Builtin.Markdown.punctuation Builtin.Markdown.italicMarks).names,
        category ∉ Builtin.Markup.grammar.names) ∧
      Grammar.tokenize (Builtin.Markup.grammar.extend
          (Builtin.Markdown.punctuation Builtin.Markdown.italicMarks)) "*a<!--*-->b*" =
        (Builtin.Markup.grammar.tokenize "*a<!--*-->b*").flatMap
          (Token.recut (Builtin.Markdown.punctuation Builtin.Markdown.italicMarks).tokenize) := by
  have built : (Builtin.Markdown.punctuation Builtin.Markdown.italicMarks).Reachable :=
    Grammar.Reachable.rule "punctuation" Grammar.Reachable.empty (by simp [Rule.ofPattern])
  have apart : ∀ category ∈ (Builtin.Markdown.punctuation Builtin.Markdown.italicMarks).names,
      category ∉ Builtin.Markup.grammar.names := by decide
  exact ⟨Pattern.locate_sound, built, apart,
    (tokenizeBy_extend_stable Pattern.locate Pattern.locate_sound Builtin.Markup.grammar _ built
      apart "*a<!--*-->b*").1⟩

end TextDecoration
