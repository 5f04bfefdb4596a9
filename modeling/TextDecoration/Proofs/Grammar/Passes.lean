import TextDecoration.Proofs.Grammar.Scan
import TextDecoration.Proofs.Grammar.Search

/-!
# Tokenizing as a sequence of passes

A grammar's alternatives, in order of priority, are passed over the text one after the other. A
pass works on each token alone: it splits a plain one and leaves a classified one as it is. So a
sequence of passes acts on every token independently of its neighbours, and a classified token
stays what it is through all later passes.

What a rule finds and how it classifies depend on the rule and the engine alone. Grammars nest
finitely deep, so a law that holds of a grammar whenever it holds of the grammars inside its rules
holds of all grammars.
-/

namespace TextDecoration

/-- What a rule finds first in the text that is left, with positions counted from where that
begins. -/
def Rule.search (engine : Engine) (rule : Rule) (rest : List Char) : Option Hit :=
  engine.find rule.pattern rule.lookbehind rest.toArray 0

/-- The token that a rule of a category makes of a text that it matched. The text is cut further if
the rule has a grammar of its own. -/
def Rule.token (engine : Engine) (category : String) (rule : Rule) : Classify :=
  classify category rule.fallback (rule.inside.map fun inner => Grammar.tokenizeBy engine inner)

/-- A rule's pass splits every plain token by what the rule finds. Rule, category and engine come in
only by these two functions. -/
theorem Rule.pass_eq (engine : Engine) (category : String) (rule : Rule) (tokens : List Token) :
    rule.pass engine category tokens =
      splitPlain (rule.search engine) (rule.token engine category) tokens := by
  obtain ⟨pattern, lookbehind, fallback, inside⟩ := rule
  rw [Rule.pass]
  cases inside with
  | none => rw [Rule.cutInside]; rfl
  | some inner => rw [Rule.cutInside]; rfl

/-- A rule without a grammar of its own makes leaves, with the rule's alias and the text as it was
matched. -/
theorem Rule.token_leaf (engine : Engine) (category : String) {rule : Rule}
    (simple : rule.inside = none) (matched : String) :
    rule.token engine category matched = .leaf category rule.fallback matched := by
  rw [Rule.token, simple]
  rfl

/-- A rule with a grammar of its own makes nested tokens, whose children that grammar cuts. -/
theorem Rule.token_nested (engine : Engine) (category : String) {rule : Rule} {inner : Grammar}
    (deep : rule.inside = some inner) (matched : String) :
    rule.token engine category matched =
      .nested category rule.fallback (Grammar.tokenizeBy engine inner matched) := by
  rw [Rule.token, deep]
  rfl

/-- A rule's token has the category that the rule is listed under, whether it is a leaf or
nested. -/
theorem Rule.category?_token (engine : Engine) (category : String) (rule : Rule)
    (matched : String) : (rule.token engine category matched).category? = some category := by
  cases deep : rule.inside with
  | none => rw [Rule.token_leaf engine category deep]; rfl
  | some inner => rw [Rule.token_nested engine category deep]; rfl

/-- A token is classified if it has a category. Only plain tokens have none. -/
theorem Token.classified_iff {token : Token} :
    token.isPlain = false ↔ ∃ category, token.category? = some category := by
  cases token <;> simp [isPlain, category?]

/-- A rule's token is classified, so no later pass splits it. -/
theorem Rule.token_classified (engine : Engine) (category : String) (rule : Rule)
    (matched : String) : (rule.token engine category matched).isPlain = false :=
  Token.classified_iff.mpr ⟨category, Rule.category?_token engine category rule matched⟩

/-- A rule's pass over a plain token splits it. This is the only thing that a pass does to
tokens. -/
theorem Rule.pass_plain (engine : Engine) (category : String) (rule : Rule) (fragment : String) :
    rule.pass engine category [.plain fragment] =
      split (rule.search engine) (rule.token engine category) fragment := by
  rw [Rule.pass_eq, splitPlain, List.flatMap_singleton]

/-- What a rule finds with a sound engine is not empty and lies in the text that is left. With this,
a scan comes to an end. -/
theorem Rule.search_productive {engine : Engine} (sound : engine.Sound) (rule : Rule) :
    Productive (rule.search engine) := by
  intro rest hit found
  obtain ⟨_, _, filled, within⟩ := Engine.find_bounds sound found
  exact ⟨filled, by simpa using within⟩

namespace Grammar

/-- The rules of a grammar with their categories, in order of priority: category by category, and in
each from the first rule on. -/
def alternatives (grammar : Grammar) : List (String × Rule) :=
  grammar.entries.flatMap fun entry => entry.2.map fun rule => (entry.1, rule)

/-- An alternative is a rule listed under its category. If a category were listed twice, the rules
of both entries would be alternatives. -/
theorem mem_alternatives {grammar : Grammar} {category : String} {rule : Rule} :
    (category, rule) ∈ grammar.alternatives ↔
      ∃ rules, (category, rules) ∈ grammar.entries ∧ rule ∈ rules := by
  simp only [alternatives, List.mem_flatMap, List.mem_map, Prod.mk.injEq]
  constructor
  · rintro ⟨⟨name, rules⟩, listed, found, member, rfl, rfl⟩
    exact ⟨rules, listed, member⟩
  · rintro ⟨rules, listed, member⟩
    exact ⟨(category, rules), listed, rule, member, rfl, rfl⟩

/-- The alternatives of a grammar are the rules of its first category and those of the others. -/
theorem alternatives_cons (category : String) (rules : List Rule)
    (later : List (String × List Rule)) : alternatives ⟨(category, rules) :: later⟩ =
      (rules.map fun rule => (category, rule)) ++ alternatives ⟨later⟩ := by
  rw [alternatives, List.flatMap_cons]
  rfl

end Grammar

/-- The passes of alternatives, one after the other. The first alternative sees the text as it is,
the later ones what is left plain. -/
def passes (engine : Engine) (alternatives : List (String × Rule)) (tokens : List Token) :
    List Token :=
  alternatives.foldl (fun tokens alternative => alternative.2.pass engine alternative.1 tokens)
    tokens

/-- The passes of a category are the passes of its alternatives, in the order of its rules. -/
theorem Rule.passRules_eq (engine : Engine) (category : String) (rules : List Rule)
    (tokens : List Token) : Rule.passRules engine category rules tokens =
      passes engine (rules.map fun rule => (category, rule)) tokens := by
  induction rules generalizing tokens with
  | nil => rw [Rule.passRules]; rfl
  | cons rule rules inductionHypothesis =>
    rw [Rule.passRules, inductionHypothesis]
    rfl

/-- The passes of all categories are the passes of all alternatives. With that, categories no longer
matter to how a text is cut. -/
theorem Rule.passEntries_eq (engine : Engine) (grammar : Grammar) (tokens : List Token) :
    Rule.passEntries engine grammar.entries tokens =
      passes engine grammar.alternatives tokens := by
  obtain ⟨entries⟩ := grammar
  rw [Grammar.alternatives]
  induction entries generalizing tokens with
  | nil => rw [Rule.passEntries]; rfl
  | cons entry entries inductionHypothesis =>
    obtain ⟨category, rules⟩ := entry
    rw [Rule.passEntries, Rule.passEntry, Rule.passRules_eq, inductionHypothesis,
      List.flatMap_cons, passes, passes, passes, List.foldl_append]

/-- The empty text has no tokens; any other one is a plain token that all passes go over. -/
theorem Grammar.tokenizeBy_eq (engine : Engine) (grammar : Grammar) (text : String) :
    Grammar.tokenizeBy engine grammar text =
      if text.isEmpty then [] else passes engine grammar.alternatives [.plain text] := by
  rw [← Rule.passEntries_eq]
  obtain ⟨entries⟩ := grammar
  rw [Grammar.tokenizeBy]

/-- Alternatives that follow each other make passes that follow each other, the later ones over what
the earlier ones leave. -/
theorem passes_append (engine : Engine) (first second : List (String × Rule))
    (tokens : List Token) :
    passes engine (first ++ second) tokens = passes engine second (passes engine first tokens) :=
  List.foldl_append

/-- A pass over two sequences in a row is the pass over each, since it looks at one token at a
time. -/
theorem Rule.pass_append (engine : Engine) (category : String) (rule : Rule)
    (first second : List Token) : rule.pass engine category (first ++ second) =
      rule.pass engine category first ++ rule.pass engine category second := by
  simp only [Rule.pass_eq, splitPlain, List.flatMap_append]

/-- Passes over two sequences in a row are the passes over each. Tokens have no influence on their
neighbours. -/
theorem passes_tokens_append (engine : Engine) (alternatives : List (String × Rule))
    (first second : List Token) : passes engine alternatives (first ++ second) =
      passes engine alternatives first ++ passes engine alternatives second := by
  induction alternatives generalizing first second with
  | nil => rfl
  | cons alternative alternatives inductionHypothesis =>
    simp only [passes, List.foldl_cons, Rule.pass_append] at inductionHypothesis ⊢
    exact inductionHypothesis _ _

/-- Passes make nothing out of nothing, whatever the alternatives are. -/
@[simp] theorem passes_nil (engine : Engine) (alternatives : List (String × Rule)) :
    passes engine alternatives [] = [] := by
  induction alternatives with
  | nil => rfl
  | cons alternative alternatives inductionHypothesis =>
    have unchanged : alternative.2.pass engine alternative.1 [] = [] := by
      rw [Rule.pass_eq, splitPlain, List.flatMap_nil]
    rw [passes, List.foldl_cons, unchanged]
    exact inductionHypothesis

/-- Passes go over every token on its own, so what becomes of a token can be told without the
others. -/
theorem passes_flatMap (engine : Engine) (alternatives : List (String × Rule))
    (tokens : List Token) : passes engine alternatives tokens =
      tokens.flatMap fun token => passes engine alternatives [token] := by
  induction tokens with
  | nil => exact passes_nil engine alternatives
  | cons token tokens inductionHypothesis =>
    rw [List.flatMap_cons, ← inductionHypothesis, ← passes_tokens_append]
    rfl

/-- A classified token stays what it is through all passes. The earlier of two rules therefore
wins. -/
theorem passes_classified (engine : Engine) (alternatives : List (String × Rule)) {token : Token}
    (classified : token.isPlain = false) : passes engine alternatives [token] = [token] := by
  induction alternatives with
  | nil => rfl
  | cons alternative alternatives inductionHypothesis =>
    have unchanged : alternative.2.pass engine alternative.1 [token] = [token] := by
      cases token with
      | plain text => cases classified
      | leaf category fallback text => rw [Rule.pass_eq]; rfl
      | nested category fallback children => rw [Rule.pass_eq]; rfl
    rw [passes, List.foldl_cons, unchanged]
    exact inductionHypothesis

/-- A text in which no rule finds anything stays plain. -/
theorem passes_missed {engine : Engine} {text : String} (filled : text.isEmpty = false)
    {alternatives : List (String × Rule)}
    (nothing : ∀ alternative ∈ alternatives, alternative.2.search engine text.toList = none) :
    passes engine alternatives [.plain text] = [.plain text] := by
  induction alternatives with
  | nil => rfl
  | cons alternative alternatives inductionHypothesis =>
    have present : text.toList.isEmpty = false := by
      rw [List.isEmpty_eq_false_iff]
      simpa using filled
    have unchanged : alternative.2.pass engine alternative.1 [.plain text] = [.plain text] := by
      rw [Rule.pass_plain, split_missed (nothing alternative List.mem_cons_self), plainToken,
        present, String.ofList_toList]
      rfl
    rw [passes, List.foldl_cons, unchanged]
    exact inductionHypothesis fun other among =>
      nothing other (List.mem_cons_of_mem alternative among)

/-- The category of the first rule that finds anything in a text, if it finds the text as a
whole. -/
def Grammar.wholeBy? (engine : Engine) (grammar : Grammar) (text : String) : Option String :=
  match grammar.alternatives.find? fun alternative =>
      (alternative.2.search engine text.toList).isSome with
  | none => none
  | some (category, rule) =>
    if rule.search engine text.toList = some ⟨0, 0, text.length⟩ then some category else none

/-- Such a text is one token, made by a rule of that category. The rules ahead leave the text plain,
and the rules behind leave the token as it is. -/
theorem Grammar.tokenizeBy_whole {engine : Engine} (sound : engine.Sound) {grammar : Grammar}
    {text category : String} (whole : grammar.wholeBy? engine text = some category) :
    ∃ rule, (category, rule) ∈ grammar.alternatives ∧
      Grammar.tokenizeBy engine grammar text = [rule.token engine category text] := by
  rw [wholeBy?] at whole
  split at whole
  · cases whole
  · next name rule first =>
    split at whole
    · next found =>
      cases whole
      obtain ⟨_, ahead, behind, parts, nothing⟩ := List.find?_eq_some_iff_append.mp first
      have productive : Productive (rule.search engine) := Rule.search_productive sound rule
      have filled : text.isEmpty = false := by
        have bounds := (productive text.toList _ found).1
        rw [← Bool.not_eq_true, String.isEmpty_iff]
        rintro rfl
        exact Nat.lt_irrefl 0 bounds
      have missed : ∀ alternative ∈ ahead, alternative.2.search engine text.toList = none := by
        intro alternative among
        simpa using nothing alternative among
      have taken : rule.pass engine category [.plain text] = [rule.token engine category text] := by
        rw [Rule.pass_plain, split_whole productive found rfl rfl]
      refine ⟨rule, by rw [parts]; simp, ?_⟩
      rw [Grammar.tokenizeBy_eq, filled, if_neg Bool.false_ne_true, parts, passes_append,
        passes_missed filled missed, passes, List.foldl_cons, taken]
      exact passes_classified engine behind (Rule.token_classified engine category rule text)
    · cases whole

/-- A law that holds of a grammar whenever it holds of the grammars inside its rules holds of every
grammar. A grammar inside a rule is a smaller part of the table that lists the rule. -/
theorem Grammar.nestedInduction {motive : Grammar → Prop}
    (step : ∀ grammar : Grammar, (∀ category rule inner, (category, rule) ∈ grammar.alternatives →
      rule.inside = some inner → motive inner) → motive grammar) (grammar : Grammar) :
    motive grammar := by
  apply step
  intro category rule inner listed deep
  have smaller : sizeOf inner < sizeOf grammar := by
    obtain ⟨rules, entry, member⟩ := mem_alternatives.mp listed
    have below : sizeOf (category, rules) < sizeOf grammar.entries := List.sizeOf_lt_of_mem entry
    have inRules : sizeOf rule < sizeOf rules := List.sizeOf_lt_of_mem member
    obtain ⟨entries⟩ := grammar
    obtain ⟨pattern, lookbehind, fallback, inside⟩ := rule
    cases deep
    simp only [Table.mk.sizeOf_spec, Prod.mk.sizeOf_spec, Rule.mk.sizeOf_spec,
      Option.some.sizeOf_spec] at below inRules ⊢
    omega
  exact Grammar.nestedInduction step inner
termination_by sizeOf grammar

end TextDecoration
