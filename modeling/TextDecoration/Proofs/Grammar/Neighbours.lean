import Mathlib.Data.List.Chain
import TextDecoration.Proofs.Grammar.Conformance

/-!
# Canonical token trees

Cutting leaves no two plain tokens side by side. A scan puts a classified token between any two
pieces of plain text, and a pass splits a plain token only where its neighbours are classified, so
the pieces never meet plain text on either side. Together with the fact that no token is empty this
makes the layers of every token tree canonical: what is plain is kept in pieces as long as possible,
and nothing stands for no text.

Every layer is itself the result of cutting some text, so the invariant of the passes is all that
has to be proved.
-/

namespace TextDecoration

/-- No two neighbours in a sequence are plain. Otherwise one text would have several sequences that
say the same of it. -/
def Apart (tokens : List Token) : Prop :=
  tokens.IsChain fun token next => ¬(token.isPlain = true ∧ next.isPlain = true)

/-- A sequence does not begin with a plain token. It may be empty. -/
def OpensClassified (tokens : List Token) : Prop :=
  ∀ token ∈ tokens.head?, token.isPlain = false

/-- A classified token may stand before any sequence without spoiling it. -/
theorem Apart.cons {token : Token} {later : List Token} (kind : token.isPlain = false)
    (apart : Apart later) : Apart (token :: later) := by
  refine List.isChain_cons.mpr ⟨?_, apart⟩
  intro next _ both
  rw [kind] at both
  cases both.1

/-- A sequence that begins with a classified token may stand behind any other one. At the seam there
are then no two plain neighbours. -/
theorem Apart.append {first second : List Token} (one : Apart first) (other : Apart second)
    (opens : OpensClassified second) : Apart (first ++ second) := by
  refine List.isChain_append.mpr ⟨one, other, ?_⟩
  intro last _ next ahead both
  rw [opens next ahead] at both
  cases both.2

/-- At most one plain token is made of a text, so there are no neighbours among what is made. -/
theorem plainToken_apart (cs : List Char) : Apart (plainToken cs) := by
  cases cs with
  | nil => exact List.isChain_nil
  | cons c cs => exact List.isChain_singleton _

/-- A scan keeps the plain pieces of a fragment apart, provided that no hit becomes plain. -/
theorem Scan.apart {find : List Char → Option Hit} {classify : Classify} {rest : List Char}
    {tokens : List Token} (kind : ∀ matched, (classify matched).isPlain = false)
    (scan : Scan find classify rest tokens) : Apart tokens := by
  induction scan with
  | missed nothing => exact plainToken_apart _
  | found searched later inductionHypothesis =>
    refine (plainToken_apart _).append (inductionHypothesis.cons (kind _)) ?_
    intro token first
    cases first
    exact kind _

/-- A pass leaves a classified token at the beginning where it is. What the pass makes of later
tokens stays behind it. -/
theorem Rule.pass_opens (engine : Engine) (category : String) (rule : Rule) {tokens : List Token}
    (opens : OpensClassified tokens) : OpensClassified (rule.pass engine category tokens) := by
  rw [Rule.pass_eq]
  cases tokens with
  | nil => exact opens
  | cons token later =>
    have kind : token.isPlain = false := opens token rfl
    cases token with
    | plain fragment => cases kind
    | leaf name fallback text => exact opens
    | nested name fallback children => exact opens

/-- A pass of a sound engine's rule keeps plain tokens apart. The pieces of a plain token meet the
classified token that stands behind it, which no pass changes. -/
theorem Rule.pass_apart {engine : Engine} (sound : engine.Sound) (category : String) (rule : Rule)
    {tokens : List Token} (apart : Apart tokens) : Apart (rule.pass engine category tokens) := by
  induction tokens with
  | nil =>
    rw [Rule.pass_eq]
    exact List.isChain_nil
  | cons token later inductionHypothesis =>
    obtain ⟨differs, apartLater⟩ := List.isChain_cons.mp apart
    have passed : Apart (rule.pass engine category later) := inductionHypothesis apartLater
    have parts : rule.pass engine category (token :: later) =
        rule.pass engine category [token] ++ rule.pass engine category later :=
      Rule.pass_append engine category rule [token] later
    rw [parts]
    cases token with
    | plain fragment =>
      have opens : OpensClassified later := by
        intro next ahead
        exact Bool.eq_false_iff.mpr fun plain => differs next ahead ⟨rfl, plain⟩
      have scanned : Apart (rule.pass engine category [.plain fragment]) := by
        rw [Rule.pass_plain]
        exact (split_scan (Rule.search_productive sound rule) _ fragment).apart
          (Rule.token_classified engine category rule)
      exact scanned.append passed (Rule.pass_opens engine category rule opens)
    | leaf name fallback text =>
      rw [Rule.pass_eq engine category rule [_]]
      exact passed.cons rfl
    | nested name fallback children =>
      rw [Rule.pass_eq engine category rule [_]]
      exact passed.cons rfl

/-- Passes of a sound engine keep plain tokens apart. They begin with a single token, which has no
neighbour. -/
theorem passes_apart {engine : Engine} (sound : engine.Sound) (alternatives : List (String × Rule))
    {tokens : List Token} (apart : Apart tokens) : Apart (passes engine alternatives tokens) := by
  induction alternatives generalizing tokens with
  | nil => exact apart
  | cons alternative alternatives inductionHypothesis =>
    exact inductionHypothesis (Rule.pass_apart sound alternative.1 alternative.2 apart)

/-- No two neighbouring tokens of a text are plain, whatever the grammar and however often its rules
find something. -/
theorem tokenizeBy_apart {engine : Engine} (sound : engine.Sound) (grammar : Grammar)
    (text : String) : Apart (Grammar.tokenizeBy engine grammar text) := by
  rw [Grammar.tokenizeBy_eq]
  split
  · exact List.isChain_nil
  · exact passes_apart sound grammar.alternatives (List.isChain_singleton _)

/-- In the tokens of a text and in the children of every nested token at any depth, no token has the
empty text, no nested token is without children, and no two neighbours are plain. This holds for
every engine that is sound. -/
theorem tokenizeBy_canonical (engine : Engine) (sound : engine.Sound) (grammar : Grammar)
    (text : String) (layer : List Token)
    (layered : Layer (Grammar.tokenizeBy engine grammar text) layer) :
    (∀ token ∈ layer, token.literal ≠ "") ∧
      (∀ category fallback children, .nested category fallback children ∈ layer →
        children ≠ []) ∧
      layer.IsChain fun token next => ¬(token.isPlain = true ∧ next.isPlain = true) := by
  obtain ⟨part, inside, _, rfl⟩ := layered.cut sound
  have filled : Filled (Grammar.tokenizeBy engine part inside) :=
    tokenizeBy_filled sound part inside
  refine ⟨filled, ?_, tokenizeBy_apart sound part inside⟩
  intro category fallback children among none
  have present : (Token.nested category fallback children).literal ≠ "" := filled _ among
  rw [none, Token.literal_nested, Token.literals_nil] at present
  exact present rfl

/-- The tokens of a text in which bold and italic text nest behind a tag are canonical. -/
theorem tokenizeBy_canonical_markdown :
    Engine.Sound Pattern.locate ∧
      Layer (Builtin.Markdown.grammar.tokenize "<b> ***a* _c_**")
        (Builtin.Markdown.grammar.tokenize "<b> ***a* _c_**") ∧
      (Builtin.Markdown.grammar.tokenize "<b> ***a* _c_**").IsChain fun token next =>
        ¬(token.isPlain = true ∧ next.isPlain = true) :=
  ⟨Pattern.locate_sound, Layer.top,
    (tokenizeBy_canonical Pattern.locate Pattern.locate_sound Builtin.Markdown.grammar _ _
      Layer.top).2.2⟩

end TextDecoration
