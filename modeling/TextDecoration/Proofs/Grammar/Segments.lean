import TextDecoration.Proofs.Range.Projection

/-!
# Nested grammars do not move segments

What a rule finds depends on its pattern and on its lookbehind setting alone. A grammar inside the
rule only cuts once more what was found, and that loses nothing. So the segments at the top are
those of the bare grammar, in which no rule has a grammar of its own: cutting by the bare grammar
is cutting by the grammar and flattening every tree to a leaf.

Two grammars with the same bare grammar therefore agree, segment by segment, on category, alias and
text. Their ranges agree in everything but the tags, and in the tags as well where a range is
tagged with its outermost category alone. Nothing is said about what stands inside the segments.
-/

namespace TextDecoration

/-- The rule without a grammar of its own. What it looks for and how it shows it is the same. -/
def Rule.bare (rule : Rule) : Rule := { rule with inside := none }

/-- The grammar with the same categories and rules, none of which has a grammar of its own. Two
grammars have the same bare grammar when they have the same categories in the same order and their
rules agree, one by one, on pattern, lookbehind and alias. -/
def Grammar.bare (grammar : Grammar) : Grammar :=
  ⟨grammar.entries.map fun entry => (entry.1, entry.2.map Rule.bare)⟩

namespace Token

/-- The token with its text in place of its children. The other tokens have no children. -/
def flat : Token → Token
  | .nested category fallback children => .leaf category fallback (literals children)
  | token => token

/-- What a token shows from outside: its category, its alias and its text. How the text is cut
further is not shown. -/
def outline (token : Token) : Option String × Option String × String :=
  (token.category?, token.fallback?, token.literal)

/-- Flattening keeps the category, so a token is as plain as before. -/
@[simp] theorem category?_flat (token : Token) : token.flat.category? = token.category? := by
  cases token <;> rfl

/-- Flattening keeps the alias, if there is one. -/
@[simp] theorem fallback?_flat (token : Token) : token.flat.fallback? = token.fallback? := by
  cases token <;> rfl

/-- Flattening keeps the text, which the children make up. -/
@[simp] theorem literal_flat (token : Token) : token.flat.literal = token.literal := by
  cases token <;> simp [flat]

/-- Flattening keeps the counted length, by which offsets are computed. -/
@[simp] theorem textLength_flat (token : Token) : token.flat.textLength = token.textLength := by
  rw [textLength_eq, textLength_eq, literal_flat]

/-- Flattening keeps all that a token shows from outside; so flat tokens are as good as others where
nothing else is looked at. -/
@[simp] theorem outline_flat (token : Token) : token.flat.outline = token.outline := by
  simp [outline]

end Token

/-- Plain tokens are flat, and so is the empty list that is made of the empty text. -/
theorem plainToken_flat (cs : List Char) : (plainToken cs).map Token.flat = plainToken cs := by
  cases cs <;> rfl

/-- Splitting a fragment and flattening is splitting it into flat tokens. Where hits lie does not
depend on what is made of them. -/
theorem splitWithin_flat (find : List Char → Option Hit) (classify : Classify) (count : Nat)
    (rest : List Char) : (splitWithin find classify count rest).map Token.flat =
      splitWithin find (fun matched => (classify matched).flat) count rest := by
  induction count generalizing rest with
  | zero => exact plainToken_flat rest
  | succ count inductionHypothesis =>
    rw [splitWithin, splitWithin]
    cases find rest with
    | none => exact plainToken_flat rest
    | some hit => simp only [List.map_append, List.map_cons, plainToken_flat, inductionHypothesis]

/-- A rule's token, flattened, is the token of the bare rule: the children make up the text that
was matched. -/
theorem Rule.flat_token {engine : Engine} (sound : engine.Sound) (category : String) (rule : Rule)
    (matched : String) :
    (rule.token engine category matched).flat = rule.bare.token engine category matched := by
  have simple : rule.bare.inside = none := rfl
  rw [Rule.token_leaf engine category simple]
  cases deep : rule.inside with
  | none =>
    rw [Rule.token_leaf engine category deep]
    rfl
  | some inner =>
    rw [Rule.token_nested engine category deep, Token.flat, (lossless sound inner matched).1]
    rfl

/-- A rule's pass, flattened, is the pass of the bare rule over flat tokens. Only plain tokens are
split, and these are flat. -/
theorem Rule.pass_flat {engine : Engine} (sound : engine.Sound) (category : String) (rule : Rule)
    (tokens : List Token) : (rule.pass engine category tokens).map Token.flat =
      rule.bare.pass engine category (tokens.map Token.flat) := by
  have same : (fun matched => (rule.token engine category matched).flat) =
      rule.bare.token engine category := funext (Rule.flat_token sound category rule)
  rw [Rule.pass_eq, Rule.pass_eq]
  induction tokens with
  | nil => rfl
  | cons token tokens inductionHypothesis =>
    simp only [splitPlain, List.flatMap_cons, List.map_append, List.map_cons]
      at inductionHypothesis ⊢
    rw [inductionHypothesis]
    congr 1
    cases token with
    | plain fragment =>
      have pieces : (split (rule.search engine) (rule.token engine category) fragment).map
          Token.flat = split (rule.search engine) (rule.bare.token engine category) fragment := by
        rw [split, split, splitWithin_flat, same]
      exact pieces
    | leaf name fallback text => rfl
    | nested name fallback children => rfl

/-- Passes, flattened, are the passes of the bare rules over flat tokens. The induction is on the
alternatives, rule by rule. -/
theorem passes_flat {engine : Engine} (sound : engine.Sound) (alternatives : List (String × Rule))
    (tokens : List Token) : (passes engine alternatives tokens).map Token.flat =
      passes engine (alternatives.map fun alternative => (alternative.1, alternative.2.bare))
        (tokens.map Token.flat) := by
  induction alternatives generalizing tokens with
  | nil => rfl
  | cons alternative alternatives inductionHypothesis =>
    simp only [passes, List.map_cons, List.foldl_cons] at inductionHypothesis ⊢
    rw [inductionHypothesis, Rule.pass_flat sound]

/-- The alternatives of the bare grammar are the bare alternatives, in the same order. -/
theorem Grammar.alternatives_bare (grammar : Grammar) : grammar.bare.alternatives =
    grammar.alternatives.map fun alternative => (alternative.1, alternative.2.bare) := by
  simp [Grammar.alternatives, Grammar.bare, List.flatMap_map, List.map_flatMap,
    Function.comp_def]

/-- Cutting by a grammar and flattening is cutting by the bare grammar. What is inside the rules has
thus no say in where a text is cut. -/
theorem tokenizeBy_bare {engine : Engine} (sound : engine.Sound) (grammar : Grammar)
    (text : String) : (Grammar.tokenizeBy engine grammar text).map Token.flat =
      Grammar.tokenizeBy engine grammar.bare text := by
  rw [Grammar.tokenizeBy_eq, Grammar.tokenizeBy_eq, Grammar.alternatives_bare]
  split
  · rfl
  · exact passes_flat sound grammar.alternatives [.plain text]

/-- Putting a grammar inside rules leaves the bare grammar as it is, as nothing else of a rule is
touched. -/
theorem Grammar.bare_embed (grammar : Grammar) (parent category : String) (rules : List Rule) :
    (grammar.embed parent category rules).bare = grammar.bare := by
  rw [Grammar.bare, Grammar.bare, Grammar.embed, Table.modify, List.map_map]
  congr 1
  apply List.map_congr_left
  intro entry _
  rw [Function.comp_apply]
  split
  · rw [List.map_map]
    rfl
  · rfl

/-- The range without its tags. Its offsets, its path and its alias are left. -/
def Range.untagged (range : Range) : Range := { range with tags := Names.empty }

/-- Flattening tokens changes no range that is tagged with its outermost category, since that is not
looked for inside. -/
theorem projectFrom_flat (path : NodePath) (offset : Nat) (tokens : List Token) :
    projectFrom path .outermost offset (tokens.map Token.flat) =
      projectFrom path .outermost offset tokens := by
  induction tokens generalizing offset with
  | nil => rfl
  | cons token tokens inductionHypothesis =>
    simp only [List.map_cons, projectFrom, Token.tags, Token.category?_flat,
      Token.fallback?_flat, Token.textLength_flat, inductionHypothesis]

/-- Flattening tokens changes nothing but the tags of their ranges. The categories inside are all
that is lost. -/
theorem untagged_projectFrom_flat (path : NodePath) (policy : TagPolicy) (offset : Nat)
    (tokens : List Token) :
    (projectFrom path policy offset (tokens.map Token.flat)).map Range.untagged =
      (projectFrom path policy offset tokens).map Range.untagged := by
  induction tokens generalizing offset with
  | nil => rfl
  | cons token tokens inductionHypothesis =>
    simp only [List.map_cons, projectFrom, Token.category?_flat, Token.fallback?_flat,
      Token.textLength_flat]
    cases token.category? with
    | none => exact inductionHypothesis _
    | some category => simp only [List.map_cons, inductionHypothesis, Range.untagged]

/-- Grammars that differ only in what their rules nest cut every text into segments that agree on
category, alias and text. So the ranges are the same where they are tagged with the outermost
category, and otherwise differ in their tags at most. To put rules inside other rules is a
difference of that kind. This holds for every engine that is sound. -/
theorem tokenizeBy_segments (engine : Engine) (sound : engine.Sound) :
    (∀ grammar other : Grammar, grammar.bare = other.bare → ∀ text : String,
      (Grammar.tokenizeBy engine grammar text).map Token.outline =
          (Grammar.tokenizeBy engine other text).map Token.outline ∧
        ∀ path : NodePath,
          project (Grammar.tokenizeBy engine grammar text) path .outermost =
              project (Grammar.tokenizeBy engine other text) path .outermost ∧
            (project (Grammar.tokenizeBy engine grammar text) path .nested).map Range.untagged =
              (project (Grammar.tokenizeBy engine other text) path .nested).map Range.untagged) ∧
      ∀ (grammar : Grammar) (parent category : String) (rules : List Rule) (text : String)
        (path : NodePath),
        project (Grammar.tokenizeBy engine (grammar.embed parent category rules) text) path
            .outermost =
          project (Grammar.tokenizeBy engine grammar text) path .outermost := by
  have flattened : ∀ grammar other : Grammar, grammar.bare = other.bare → ∀ text : String,
      (Grammar.tokenizeBy engine grammar text).map Token.flat =
        (Grammar.tokenizeBy engine other text).map Token.flat := by
    intro grammar other same text
    rw [tokenizeBy_bare sound, tokenizeBy_bare sound, same]
  have outermost : ∀ grammar other : Grammar, grammar.bare = other.bare →
      ∀ (text : String) (path : NodePath),
        project (Grammar.tokenizeBy engine grammar text) path .outermost =
          project (Grammar.tokenizeBy engine other text) path .outermost := by
    intro grammar other same text path
    rw [project, project, ← projectFrom_flat, flattened grammar other same, projectFrom_flat]
  constructor
  · intro grammar other same text
    have flat := flattened grammar other same text
    refine ⟨?_, fun path => ⟨outermost grammar other same text path, ?_⟩⟩
    · have outlines := congrArg (List.map Token.outline) flat
      simpa only [List.map_map, Function.comp_def, Token.outline_flat] using outlines
    · rw [project, project, ← untagged_projectFrom_flat, flat, untagged_projectFrom_flat]
  · intro grammar parent category rules text path
    exact outermost _ _ (Grammar.bare_embed grammar parent category rules) text path

/-- Looking for no links inside bold text leaves the segments of a text as they are, although the
link in it is no longer cut. -/
theorem tokenizeBy_segments_without_links :
    Engine.Sound Pattern.locate ∧
      Grammar.bare (Builtin.Markdown.grammar.embed "bold" "url" []) =
        Builtin.Markdown.grammar.bare ∧
      (Grammar.tokenize (Builtin.Markdown.grammar.embed "bold" "url" [])
          "**see [x](y)**").map Token.outline =
        (Builtin.Markdown.grammar.tokenize "**see [x](y)**").map Token.outline := by
  have same := Grammar.bare_embed Builtin.Markdown.grammar "bold" "url" []
  exact ⟨Pattern.locate_sound, same,
    ((tokenizeBy_segments Pattern.locate Pattern.locate_sound).1 _ _ same _).1⟩

end TextDecoration
