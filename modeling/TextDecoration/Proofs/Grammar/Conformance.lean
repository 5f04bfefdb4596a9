import TextDecoration.Proofs.Grammar.Priority

/-!
# Token trees conform to their grammar

Every classified token comes from a rule that the grammar lists under the token's category and that
finds the token's text when it searches a stretch of the text around it. The token has that rule's
alias, it is nested exactly if the rule has a grammar of its own, and then its children are what
that grammar makes of the token's text alone, wherever the token stands. The same holds of the
children with the grammar inside the rule and the token's text around them, and so on at every
depth.

A pass makes tokens only where it splits plain ones, and no pass touches a classified token again.
So a token keeps what the pass that made it gave to it, `tokenizeBy_made`; the rest follows by
induction on the nesting of grammars.
-/

namespace TextDecoration

/-- A grammar that stands in another one at some depth: the whole itself, or the grammar inside a
rule of a part. -/
inductive Grammar.Part (whole : Grammar) : Grammar → Prop where
  | whole : Part whole whole
  | inside {outer inner : Grammar} {category : String} {rule : Rule} (part : Part whole outer)
      (listed : (category, rule) ∈ outer.alternatives) (deep : rule.inside = some inner) :
      Part whole inner

/-- A part of the grammar inside a rule is a part of the grammar that lists the rule. Parts are
reached from the outside in as well as from the inside out. -/
theorem Grammar.Part.within {grammar inner part : Grammar} {category : String} {rule : Rule}
    (listed : (category, rule) ∈ grammar.alternatives) (deep : rule.inside = some inner)
    (below : inner.Part part) : grammar.Part part := by
  induction below with
  | whole => exact Part.inside Part.whole listed deep
  | inside _ listedBelow deepBelow inductionHypothesis =>
    exact Part.inside inductionHypothesis listedBelow deepBelow

/-- A grammar that stands, at some depth, inside a rule for a category. The grammar with the
category itself is not among these unless it also stands inside. -/
def Grammar.Under (grammar : Grammar) (category : String) (part : Grammar) : Prop :=
  ∃ (rule : Rule) (inner : Grammar), (category, rule) ∈ grammar.alternatives ∧
    rule.inside = some inner ∧ inner.Part part

/-- A text that a search for a rule finds in some text. -/
def Rule.Finds (engine : Engine) (rule : Rule) (matched : String) : Prop :=
  ∃ rest hit, rule.search engine rest = some hit ∧
    matched = String.ofList (slice rest hit.start hit.stop)

/-- A text that a search for a rule finds in a stretch of a given text. The rule sees the stretch as
a text of its own: what stands around it in the given text is out of its sight. -/
def Rule.FindsIn (engine : Engine) (rule : Rule) (text matched : String) : Prop :=
  ∃ rest hit, rest <:+: text.toList ∧ rule.search engine rest = some hit ∧
    matched = String.ofList (slice rest hit.start hit.stop)

/-- What is found in a stretch of some text is found in some text, namely in that stretch. -/
theorem Rule.FindsIn.finds {engine : Engine} {rule : Rule} {text matched : String}
    (found : rule.FindsIn engine text matched) : rule.Finds engine matched := by
  obtain ⟨rest, hit, _, searched, held⟩ := found
  exact ⟨rest, hit, searched, held⟩

/-- A token that the passes of a grammar over a text may leave: a plain stretch of the text, or what
a rule makes of a text that it finds in one. -/
inductive Token.Made (engine : Engine) (grammar : Grammar) (text : String) : Token → Prop where
  | plain {fragment : String} (inside : fragment.toList <:+: text.toList) :
      Made engine grammar text (.plain fragment)
  | found {category : String} {rule : Rule} {matched : String}
      (listed : (category, rule) ∈ grammar.alternatives)
      (found : rule.FindsIn engine text matched) :
      Made engine grammar text (rule.token engine category matched)

/-- A plain token among those that passes may leave holds a stretch of the text. No rule had a part
in it. -/
theorem Token.Made.infix_of_plain {engine : Engine} {grammar : Grammar} {text fragment : String}
    (made : (Token.plain fragment).Made engine grammar text) :
    fragment.toList <:+: text.toList := by
  generalize whole : Token.plain fragment = token at made
  cases made with
  | plain inside =>
    cases whole
    exact inside
  | found listed found =>
    have kind := congrArg Token.category? whole
    rw [Rule.category?_token] at kind
    cases kind

section Passes

variable {engine : Engine} {grammar : Grammar} {text : String} {category : String} {rule : Rule}

/-- What stands between the hits of a scan is a plain stretch of what the scan goes through, or
nothing at all. -/
theorem plainToken_made {cs : List Char} (inside : cs <:+: text.toList) :
    ∀ token ∈ plainToken cs, token.Made engine grammar text := by
  intro token member
  cases cs with
  | nil => cases member
  | cons c cs =>
    cases List.mem_singleton.mp member
    exact Token.Made.plain (by rwa [String.toList_ofList])

/-- A scan for a listed rule leaves tokens that the grammar's passes may leave. What is left to be
scanned behind a hit is still a stretch of the text. -/
theorem Scan.made (listed : (category, rule) ∈ grammar.alternatives) {rest : List Char}
    {tokens : List Token} (inside : rest <:+: text.toList)
    (scan : Scan (rule.search engine) (rule.token engine category) rest tokens) :
    ∀ token ∈ tokens, token.Made engine grammar text := by
  induction scan with
  | missed nothing => exact plainToken_made inside
  | @found rest hit tokens searched later inductionHypothesis =>
    intro token member
    rcases List.mem_append.mp member with ahead | behind
    · exact plainToken_made ((List.take_prefix hit.start rest).isInfix.trans inside) token ahead
    · rcases List.mem_cons.mp behind with rfl | further
      · exact Token.Made.found listed ⟨rest, hit, inside, searched, rfl⟩
      · exact inductionHypothesis ((List.drop_suffix hit.stop rest).isInfix.trans inside) token
          further

/-- A listed rule's pass leaves classified tokens alone and splits plain ones into tokens of the two
kinds, as every plain one is a stretch of the text. -/
theorem Rule.pass_made (sound : engine.Sound) (listed : (category, rule) ∈ grammar.alternatives)
    {tokens : List Token} (made : ∀ token ∈ tokens, token.Made engine grammar text) :
    ∀ token ∈ rule.pass engine category tokens, token.Made engine grammar text := by
  rw [Rule.pass_eq, splitPlain]
  intro token member
  obtain ⟨old, among, piece⟩ := List.mem_flatMap.mp member
  have before : old.Made engine grammar text := made old among
  cases old with
  | plain fragment =>
    have scan := split_scan (Rule.search_productive sound rule)
      (rule.token engine category) fragment
    have inside : fragment.toList <:+: text.toList := before.infix_of_plain
    exact scan.made listed inside token piece
  | leaf name fallback text =>
    cases List.mem_singleton.mp piece
    exact before
  | nested name fallback children =>
    cases List.mem_singleton.mp piece
    exact before

/-- Passes of listed rules leave plain stretches and what listed rules make of texts found in them,
if they begin with such tokens. -/
theorem passes_made (sound : engine.Sound) {alternatives : List (String × Rule)}
    (listed : ∀ alternative ∈ alternatives, alternative ∈ grammar.alternatives)
    {tokens : List Token} (made : ∀ token ∈ tokens, token.Made engine grammar text) :
    ∀ token ∈ passes engine alternatives tokens, token.Made engine grammar text := by
  induction alternatives generalizing tokens with
  | nil => exact made
  | cons alternative alternatives inductionHypothesis =>
    have first : (alternative.1, alternative.2) ∈ grammar.alternatives :=
      listed alternative List.mem_cons_self
    exact inductionHypothesis
      (fun other among => listed other (List.mem_cons_of_mem alternative among))
      (Rule.pass_made sound first made)

/-- A text is a stretch of itself, and so it is what passes may begin with. -/
theorem plain_made (grammar : Grammar) (text : String) :
    ∀ token ∈ [Token.plain text], token.Made engine grammar text := by
  intro token member
  cases List.mem_singleton.mp member
  exact Token.Made.plain List.infix_rfl

end Passes

/-- Cutting a text leaves plain stretches of it and what listed rules make of texts that they find
in such stretches. -/
theorem tokenizeBy_made {engine : Engine} (sound : engine.Sound) (grammar : Grammar)
    (text : String) :
    ∀ token ∈ Grammar.tokenizeBy engine grammar text, token.Made engine grammar text := by
  rw [Grammar.tokenizeBy_eq]
  split
  · intro token member
    cases member
  · exact passes_made sound (fun alternative among => among) (plain_made grammar text)

/-- A token conforms to a grammar in a text: it is a plain stretch of the text, or a rule that the
grammar lists under the token's category finds the token's text in a stretch of the text around it,
has the token's alias and decides the rest. Without a grammar inside the rule the token is a leaf.
With one, its children are what that grammar makes of the token's text, and conform to that grammar
in that text. -/
inductive Token.Conforms (engine : Engine) : Grammar → String → Token → Prop where
  | plain {grammar : Grammar} {text fragment : String}
      (inside : fragment.toList <:+: text.toList) :
      Conforms engine grammar text (.plain fragment)
  | leaf {grammar : Grammar} {text : String} {category : String} {rule : Rule} {matched : String}
      (listed : (category, rule) ∈ grammar.alternatives) (found : rule.FindsIn engine text matched)
      (simple : rule.inside = none) :
      Conforms engine grammar text (.leaf category rule.fallback matched)
  | nested {grammar inner : Grammar} {text : String} {category : String} {rule : Rule}
      {children : List Token} (listed : (category, rule) ∈ grammar.alternatives)
      (found : rule.FindsIn engine text (Token.literals children)) (deep : rule.inside = some inner)
      (cut : children = Grammar.tokenizeBy engine inner (Token.literals children))
      (within : ∀ child ∈ children, Conforms engine inner (Token.literals children) child) :
      Conforms engine grammar text (.nested category rule.fallback children)

/-- Cutting a text by any grammar makes tokens that conform to the grammar in the text. A rule's
token is nested if the rule has a grammar of its own, and what that grammar made of the matched text
makes up that text; the children conform by induction. -/
theorem conforms {engine : Engine} (sound : engine.Sound) (grammar : Grammar) :
    ∀ text, ∀ token ∈ Grammar.tokenizeBy engine grammar text,
      token.Conforms engine grammar text := by
  induction grammar using Grammar.nestedInduction with
  | step grammar inductionHypothesis =>
    intro text token member
    cases tokenizeBy_made sound grammar text token member with
    | plain inside => exact Token.Conforms.plain inside
    | @found category rule matched listed found =>
      cases deep : rule.inside with
      | none =>
        rw [Rule.token_leaf engine category deep]
        exact Token.Conforms.leaf listed found deep
      | some inner =>
        have whole : Token.literals (Grammar.tokenizeBy engine inner matched) = matched :=
          (lossless sound inner matched).1
        rw [Rule.token_nested engine category deep]
        refine Token.Conforms.nested listed (by rwa [whole]) deep (by rw [whole]) ?_
        rw [whole]
        exact inductionHypothesis category rule inner listed deep matched

/-- An alternative's category is one of the grammar's, since the alternative is listed under it. -/
theorem Grammar.mem_names_of_listed {grammar : Grammar} {category : String} {rule : Rule}
    (listed : (category, rule) ∈ grammar.alternatives) : category ∈ grammar.names := by
  obtain ⟨rules, entry, _⟩ := mem_alternatives.mp listed
  exact List.mem_map.mpr ⟨(category, rules), entry, rfl⟩

/-- A category collected from a sequence is collected from one of its tokens. Collecting drops
repetitions and loses nothing else. -/
theorem Token.mem_allCategoriesOf {tokens : List Token} {tag : String} :
    tag ∈ allCategoriesOf tokens ↔ ∃ token ∈ tokens, tag ∈ token.allCategories := by
  induction tokens with
  | nil => simp [allCategoriesOf]
  | cons token tokens inductionHypothesis => simp [allCategoriesOf, inductionHypothesis]

/-- The categories in a conforming tree are those of its grammar's parts. The induction goes down
the tree, and the grammar inside a rule is a part. -/
theorem Token.Conforms.part_of_mem {engine : Engine} {grammar : Grammar} {text : String}
    {token : Token} (conforming : token.Conforms engine grammar text) {tag : String}
    (among : tag ∈ token.allCategories) : ∃ part, grammar.Part part ∧ tag ∈ part.names := by
  induction conforming with
  | plain inside =>
    rw [allCategories] at among
    cases among
  | leaf listed found simple =>
    rw [allCategories, List.mem_singleton] at among
    exact ⟨_, Grammar.Part.whole, among ▸ Grammar.mem_names_of_listed listed⟩
  | nested listed found deep cut within inductionHypothesis =>
    rw [allCategories, List.mem_cons] at among
    rcases among with rfl | among
    · exact ⟨_, Grammar.Part.whole, Grammar.mem_names_of_listed listed⟩
    · obtain ⟨child, member, inChild⟩ := mem_allCategoriesOf.mp among
      obtain ⟨part, below, named⟩ := inductionHypothesis child member inChild
      exact ⟨part, below.within listed deep, named⟩

/-- The categories in a conforming tree are its own one and those of grammars under it. -/
theorem Token.Conforms.under_of_mem {engine : Engine} {grammar : Grammar} {text : String}
    {token : Token} (conforming : token.Conforms engine grammar text) {category tag : String}
    (own : token.category? = some category) (among : tag ∈ token.allCategories) :
    tag = category ∨ ∃ part, grammar.Under category part ∧ tag ∈ part.names := by
  cases conforming with
  | plain inside => cases own
  | leaf listed found simple =>
    cases own
    rw [allCategories, List.mem_singleton] at among
    exact Or.inl among
  | nested listed found deep cut within =>
    cases own
    rw [allCategories, List.mem_cons] at among
    rcases among with same | among
    · exact Or.inl same
    · obtain ⟨child, member, inChild⟩ := mem_allCategoriesOf.mp among
      obtain ⟨part, below, named⟩ := (within child member).part_of_mem inChild
      exact Or.inr ⟨part, ⟨_, _, listed, deep, below⟩, named⟩

/-- A classified token's own category is among the categories in its tree, ahead of those of its
children. -/
theorem Token.mem_allCategories_self {token : Token} {category : String}
    (own : token.category? = some category) : category ∈ token.allCategories := by
  cases token with
  | plain text => cases own
  | leaf name fallback text =>
    cases own
    simp [allCategories]
  | nested name fallback children =>
    cases own
    simp [allCategories]

/-- Token trees conform to their grammar in their text. So where ranges are tagged with all
categories of their trees, a range is that of a token whose category it carries, and its other tags
are categories of grammars that stand, at some depth, inside a rule for that category. This holds
for every engine that is sound. -/
theorem tokenizeBy_conforms (engine : Engine) (sound : engine.Sound) (grammar : Grammar)
    (text : String) :
    (∀ token ∈ Grammar.tokenizeBy engine grammar text, token.Conforms engine grammar text) ∧
      ∀ path, ∀ range ∈ project (Grammar.tokenizeBy engine grammar text) path .nested,
        ∃ earlier token later category,
          Grammar.tokenizeBy engine grammar text = earlier ++ token :: later ∧
          range = token.rangeAt .nested path (Token.literals earlier).length ∧
          token.category? = some category ∧ range.hasTag category = true ∧
          ∀ tag, range.hasTag tag = true →
            tag = category ∨ ∃ part, grammar.Under category part ∧ tag ∈ part.names := by
  refine ⟨conforms sound grammar text, ?_⟩
  intro path range among
  obtain ⟨earlier, token, later, parts, kind, rfl⟩ := mem_project.mp among
  have conforming : token.Conforms engine grammar text :=
    conforms sound grammar text token (by simp [parts])
  have tagged : ∀ tag,
      (token.rangeAt .nested path (Token.literals earlier).length).hasTag tag = true ↔
        tag ∈ token.allCategories := by
    intro tag
    rw [Range.hasTag, Names.contains, List.contains_iff_mem, Token.rangeAt, Token.tags,
      Names.mem_toList_ofList]
  obtain ⟨category, own⟩ := Token.classified_iff.mp kind
  exact ⟨earlier, token, later, category, parts, rfl, own,
    (tagged category).mpr (Token.mem_allCategories_self own),
    fun tag has => conforming.under_of_mem own ((tagged tag).mp has)⟩

/-- The engine of this library is sound, so the trees of a text with a link in bold text conform to
the markdown grammar. -/
theorem tokenizeBy_conforms_markdown :
    Engine.Sound Pattern.locate ∧
      ∀ token ∈ Builtin.Markdown.grammar.tokenize "**see _a_ [x](y)**",
        token.Conforms Pattern.locate Builtin.Markdown.grammar "**see _a_ [x](y)**" :=
  ⟨Pattern.locate_sound, (tokenizeBy_conforms Pattern.locate Pattern.locate_sound
    Builtin.Markdown.grammar "**see _a_ [x](y)**").1⟩

/-- The sequences that a sequence of token trees is made of: the sequence itself, and the children
of every nested token in one of them. A statement about each of them is one about every depth. -/
inductive Layer (tokens : List Token) : List Token → Prop where
  | top : Layer tokens tokens
  | children {layer children : List Token} {category : String} {fallback : Option String}
      (above : Layer tokens layer) (among : .nested category fallback children ∈ layer) :
      Layer tokens children

/-- Every layer of a cut text is itself what some part of the grammar makes of some text. What holds
of all cut texts therefore holds of all layers. -/
theorem Layer.cut {engine : Engine} (sound : engine.Sound) {grammar : Grammar} {text : String}
    {layer : List Token} (layered : Layer (Grammar.tokenizeBy engine grammar text) layer) :
    ∃ part inside, grammar.Part part ∧ layer = Grammar.tokenizeBy engine part inside := by
  induction layered with
  | top => exact ⟨grammar, text, Grammar.Part.whole, rfl⟩
  | children above among inductionHypothesis =>
    obtain ⟨outer, inside, part, rfl⟩ := inductionHypothesis
    cases conforms sound outer inside _ among with
    | nested listed found deep cut within =>
      exact ⟨_, _, Grammar.Part.inside part listed deep, cut⟩

/-- A classified token at any depth is what a rule makes of a text that it found, and some part of
the grammar lists that rule under the token's category. -/
theorem Layer.made {engine : Engine} (sound : engine.Sound) {grammar : Grammar} {text : String}
    {layer : List Token} (layered : Layer (Grammar.tokenizeBy engine grammar text) layer)
    {token : Token} (member : token ∈ layer) {category : String}
    (own : token.category? = some category) :
    ∃ part rule matched, grammar.Part part ∧ (category, rule) ∈ part.alternatives ∧
      rule.Finds engine matched ∧ token = rule.token engine category matched := by
  obtain ⟨part, inside, below, rfl⟩ := layered.cut sound
  cases tokenizeBy_made sound part inside token member with
  | plain inside => cases own
  | @found name rule matched listed found =>
    rw [Rule.category?_token] at own
    cases own
    exact ⟨part, rule, matched, below, listed, found.finds, rfl⟩

/-- The text of a classified token at any depth is one that such a rule found, in some text that it
was given to search. -/
theorem Layer.finds {engine : Engine} (sound : engine.Sound) {grammar : Grammar} {text : String}
    {layer : List Token} (layered : Layer (Grammar.tokenizeBy engine grammar text) layer)
    {token : Token} (member : token ∈ layer) {category : String}
    (own : token.category? = some category) :
    ∃ part rule, grammar.Part part ∧ (category, rule) ∈ part.alternatives ∧
      rule.Finds engine token.literal := by
  obtain ⟨part, rule, matched, below, listed, found, rfl⟩ := layered.made sound member own
  rw [Rule.literal_token _ fun inner _ text => lossless sound inner text]
  exact ⟨part, rule, below, listed, found⟩

end TextDecoration
