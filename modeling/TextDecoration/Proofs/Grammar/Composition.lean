import TextDecoration.Proofs.Builtin.Reachable
import TextDecoration.Proofs.Table.Placement

/-!
# Composing grammars

Grammars are composed in two ways: one is laid over another, or placed before one of its categories.
Both keep the rules of every category together, and both let the added grammar decide over a
category that the two have in common; they differ in where that category then stands. Laid over, it
keeps its place. Placed, it moves with the added grammar to the anchor.

Grammars that were built have distinct categories, so the laws of tables with distinct names hold of
them. Which rule wins over a text is not said here; it follows from the order of the categories.
-/

namespace TextDecoration

/-- Laying grammars over one another is associative, with the empty grammar as its unit on both
sides, and a grammar laid over itself stays as it is. The upper grammar decides over the categories
that it has and the lower one over all others; the categories of the lower one come first, in their
order, and those that only the upper one has follow in theirs. The grammars may have any categories
in common. -/
theorem Grammar.Reachable.extend_monoid (grammar first second : Grammar)
    (built : grammar.Reachable) (builtFirst : first.Reachable) (builtSecond : second.Reachable) :
    (grammar.extend first).extend second = grammar.extend (first.extend second) ∧
      grammar.extend Grammar.empty = grammar ∧
      Table.extend Grammar.empty grammar = grammar ∧
      grammar.extend grammar = grammar ∧
      (∀ category, (grammar.extend first).get? category =
        if first.contains category then first.get? category else grammar.get? category) ∧
      Grammar.categories (grammar.extend first) = grammar.categories ++
        first.categories.filter fun category => category ∉ grammar.categories := by
  have decided : ∀ category, (grammar.extend first).get? category =
      if first.contains category then first.get? category else grammar.get? category := by
    intro category
    rw [Table.get?_extend grammar builtFirst.distinct, Table.or_get?]
  exact ⟨Table.extend_assoc built.distinct builtFirst.distinct builtSecond.distinct,
    Table.extend_empty grammar, Table.empty_extend built.distinct, Table.extend_self built.distinct,
    decided, Table.names_extend grammar builtFirst.distinct⟩

/-- The parts of a tag, laid over the markup grammar, take over its tags where these stand, and the
marks that are laid over both take over the punctuation of the parts only. -/
theorem Grammar.Reachable.extend_monoid_markup :
    Builtin.Markup.grammar.Reachable ∧ Builtin.Markup.tagInside.Reachable ∧
      (Builtin.Markdown.punctuation Builtin.Markdown.boldMarks).Reachable ∧
      (Builtin.Markup.grammar.extend Builtin.Markup.tagInside).extend
          (Builtin.Markdown.punctuation Builtin.Markdown.boldMarks) =
        Builtin.Markup.grammar.extend (Table.extend Builtin.Markup.tagInside
          (Builtin.Markdown.punctuation Builtin.Markdown.boldMarks)) ∧
      (Builtin.Markup.grammar.extend Builtin.Markup.tagInside).get? "tag" =
        Builtin.Markup.tagInside.get? "tag" ∧
      Grammar.categories (Builtin.Markup.grammar.extend Builtin.Markup.tagInside) =
        ["comment", "prolog", "doctype", "cdata", "tag", "entity", "attr-value", "punctuation",
          "attr-name"] := by
  have marks := Builtin.Markdown.punctuation_reachable Builtin.Markdown.boldMarks
  obtain ⟨associative, _, _, _, decided, categories⟩ := Grammar.Reachable.extend_monoid
    Builtin.Markup.grammar Builtin.Markup.tagInside
    (Builtin.Markdown.punctuation Builtin.Markdown.boldMarks) Builtin.Markup.reachable
    Builtin.Markup.tagInside_reachable marks
  refine ⟨Builtin.Markup.reachable, Builtin.Markup.tagInside_reachable, marks, associative, ?_, ?_⟩
  · rw [decided]
    rfl
  · rw [categories]
    rfl

/-- A grammar that is placed before a category of another one stands there in one piece, in its own
order. Of the other grammar all entries ahead of the anchor and behind it stay in their order, and
the anchor itself, except those whose category the placed grammar has. Without the anchor, the
placed grammar stands behind the entries that stay. No list of rules changes: under every category
are the rules of the placed grammar, if it has the category, and those of the other one otherwise.
Splicing the entries in at the anchor's position and then erasing the one behind them, if they
replace the anchor, makes the same grammar. -/
theorem Grammar.Reachable.insertBefore_placed (grammar added : Grammar) (built : grammar.Reachable)
    (anchor : String) :
    (anchor ∈ grammar.categories → ∃ ahead rules behind,
        grammar.entries = ahead ++ (anchor, rules) :: behind) ∧
      (∀ ahead rules behind, grammar.entries = ahead ++ (anchor, rules) :: behind →
        (grammar.insertBefore anchor added).entries =
          Table.without added ahead ++ added.entries ++
            ((if added.contains anchor then [] else [(anchor, rules)]) ++
              Table.without added behind)) ∧
      (anchor ∉ grammar.categories → (grammar.insertBefore anchor added).entries =
        Table.without added grammar.entries ++ added.entries) ∧
      (∀ category, (grammar.insertBefore anchor added).get? category =
        if added.contains category then added.get? category else grammar.get? category) ∧
      grammar.spliceBefore anchor added = grammar.insertBefore anchor added := by
  refine ⟨Table.exists_parts, ?_, Table.insertBefore_absent added, ?_,
    Table.spliceBefore_eq_insertBefore grammar anchor added⟩
  · intro ahead rules behind parts
    obtain ⟨before, after⟩ := built.distinct.alone parts
    exact Table.insertBefore_present added parts before after
  · intro category
    rw [Table.get?_insertBefore built.distinct, Table.or_get?]

/-- The parts of a tag, with comments and entities, placed before the tags of the markup grammar
replace these, and they take comments from ahead of them and entities from behind them along. -/
theorem Grammar.Reachable.insertBefore_placed_markup :
    Builtin.Markup.grammar.Reachable ∧
      Grammar.categories (Builtin.Markup.grammar.insertBefore "tag"
          ((Builtin.Markup.tagInside.rule "comment" (.ofPattern Builtin.Markup.comment)).rule
            "entity" (.ofPattern Builtin.Markup.numericEntity))) =
        ["prolog", "doctype", "cdata", "tag", "attr-value", "punctuation", "attr-name", "comment",
          "entity"] ∧
      (Builtin.Markup.grammar.insertBefore "tag"
          ((Builtin.Markup.tagInside.rule "comment" (.ofPattern Builtin.Markup.comment)).rule
            "entity" (.ofPattern Builtin.Markup.numericEntity))).get? "entity" =
        some [.ofPattern Builtin.Markup.numericEntity] := by
  obtain ⟨_, placed, _, decided, _⟩ := Grammar.Reachable.insertBefore_placed Builtin.Markup.grammar
    ((Builtin.Markup.tagInside.rule "comment" (.ofPattern Builtin.Markup.comment)).rule
      "entity" (.ofPattern Builtin.Markup.numericEntity)) Builtin.Markup.reachable "tag"
  have parts : Builtin.Markup.grammar.entries = Builtin.Markup.grammar.entries.take 4 ++
      ("tag", [(Rule.ofPattern Builtin.Markup.tag).withInside Builtin.Markup.tagInside]) ::
        Builtin.Markup.grammar.entries.drop 5 := rfl
  refine ⟨Builtin.Markup.reachable, ?_, ?_⟩
  · rw [Grammar.categories, Table.names, placed _ _ _ parts]
    rfl
  · rw [decided]
    rfl

end TextDecoration
