import TextDecoration.Proofs.Builtin.Reachable
import TextDecoration.Proofs.Grammar.LiteralRules

/-!
# Comments in markup and markdown

Both grammars try the rule for comments before all others, and no other rule makes comments. So the
comments of a text are told without any grammar: from the first `<!--` up to the nearest `-->`
behind it, then the same again in what is left, until no `<!--` is followed by a `-->`. Whatever
else stands in the text, nothing splits a comment, shortens or hides it, and both grammars agree on
all comments.

The marks of a comment do not overlap: `<!-->` alone is none.
-/

namespace TextDecoration.Builtin

open Pattern

/-- The comments among some tokens, each with the offset at which it begins. Only the outermost
tokens are looked at. -/
def comments (tokens : List Token) : List (Nat × Token) :=
  (placed 0 tokens).filter fun place => place.2.category? == some "comment"

/-- The stretches of a text that are comments, as they are written: from an opening mark up to the
nearest closing one, one behind the other. -/
def CommentSpans (text : List Char) : List (Nat × Nat) → Prop :=
  Text.Spans (Text.delimited? "<!--".toList "-->".toList) 0 text

/-- The pattern for comments takes what stands between the marks, and needs no retries. Its tree is
evaluated here, once; everything later speaks of the marks. -/
theorem comment_tree :
    Markup.comment.meaning.node = .between "<!--".toList "-->".toList ∧
      Markup.comment.meaning.retries = false := by
  decide +kernel

/-- The rule for comments finds the first stretch between the marks, as the reader of delimited
stretches does that is written without patterns. -/
theorem takes_comment :
    (Rule.ofPattern Markup.comment).Takes (Text.delimited? "<!--".toList "-->".toList) :=
  Rule.takes_delimited rfl comment_tree.2 (by decide) comment_tree.1

/-- Markup tries the rule for comments first, so no other rule can take a part of a comment. -/
theorem Markup.comment_first : ∃ later,
    Markup.grammar.entries = ("comment", [Rule.ofPattern Markup.comment]) :: later :=
  ⟨_, rfl⟩

/-- Markdown tries the rule for comments first as well: its own rules stand behind those that markup
has ahead of its processing instructions. -/
theorem Markdown.comment_first : ∃ later,
    Markdown.grammar.entries = ("comment", [Rule.ofPattern Markup.comment]) :: later :=
  ⟨_, rfl⟩

/-- A grammar that tries the rule for comments first, and has no other one for them, finds the
comments that the rule finds in the whole text. Later rules only cut what is plain after that. -/
theorem comments_of_first {grammar : Grammar} (built : grammar.Reachable)
    (first : ∃ later, grammar.entries = ("comment", [Rule.ofPattern Markup.comment]) :: later)
    (text : String) : comments (grammar.tokenize text) =
      placed 0 ((Rule.ofPattern Markup.comment).pass Pattern.locate "comment" [.plain text]) := by
  obtain ⟨later, listed⟩ := first
  exact Grammar.placed_tokenize_category locate_sound built.distinct listed text

/-- The comments of a text under markup, and those under markdown, are exactly the stretches from an
opening mark up to the nearest closing one behind it, one behind the other, at their offsets. Each
is one token with the text of the whole stretch. -/
theorem comments_as_written (text : String) : ∃ spans, CommentSpans text.toList spans ∧
    (∀ others, CommentSpans text.toList others → others = spans) ∧
    comments (Markup.grammar.tokenize text) = (spans.map fun span =>
      (span.1, .leaf "comment" none (String.ofList (slice text.toList span.1 span.2)))) ∧
    comments (Markdown.grammar.tokenize text) = spans.map fun span =>
      (span.1, .leaf "comment" none (String.ofList (slice text.toList span.1 span.2))) := by
  obtain ⟨spans, written, places⟩ := Grammar.placed_pass_first takes_comment "comment" text
  have markup := comments_of_first Markup.reachable Markup.comment_first text
  have markdown := comments_of_first Markdown.reachable Markdown.comment_first text
  exact ⟨spans, written, fun others again => again.unique written, markup.trans places,
    markdown.trans places⟩

end TextDecoration.Builtin
