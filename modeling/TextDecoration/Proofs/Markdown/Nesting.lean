import TextDecoration.Builtin.Markdown
import TextDecoration.Proofs.Grammar.Nesting

/-!
# Markdown nests five deep

Bold and italic text, and links in both, are cut by copies of the grammar's own rules, and a copy
was taken before the next one was put in. So the copies end: the copy of the rule for italic text
inside the rule for bold text holds no further bold text, and that of the rule for bold text inside
the rule for italic text holds italic text once more. How often a category can be met on the way
down is computed from the grammar as it was put together; with another order of the copies the
computation would give other numbers.
-/

namespace TextDecoration.Builtin.Markdown

/-- On the way down the grammar, bold text is met once, italic text twice, a link once, and there
are five categories at most. -/
theorem nesting_grammar :
    Grammar.nesting (· == "bold") grammar = 1 ∧ Grammar.nesting (· == "italic") grammar = 2 ∧
      Grammar.nesting (· == "url") grammar = 1 ∧ Grammar.nesting (fun _ => true) grammar = 5 := by
  decide +kernel

/-- Tokens of one category are counted where just this category counts. -/
theorem countP_category (category : String) (path : List Token) :
    path.countP (fun token => token.category? = some category) =
      path.countP (Token.counted (· == category)) := by
  refine List.countP_congr fun token _ => ?_
  cases own : token.category? <;> simp [Token.counted, own]

/-- All classified tokens are counted where every category counts. A plain token has no category to
count. -/
theorem countP_classified (path : List Token) :
    path.countP (fun token => !token.isPlain) = path.countP (Token.counted fun _ => true) := by
  refine List.countP_congr fun token _ => ?_
  cases token <;> simp [Token.counted, Token.category?, Token.isPlain]

/-- On every path from a token of a text under the markdown grammar down to a leaf of its tree there
is at most one bold token, there are at most two italic ones, there is at most one link, and there
are at most five classified tokens in all. This holds for every engine that is sound. -/
theorem nesting_bounded (engine : Engine) (sound : engine.Sound) (text : String) (token : Token)
    (member : token ∈ Grammar.tokenizeBy engine grammar text) (path : List Token)
    (leads : token.Path path) :
    path.countP (fun token => token.category? = some "bold") ≤ 1 ∧
      path.countP (fun token => token.category? = some "italic") ≤ 2 ∧
      path.countP (fun token => token.category? = some "url") ≤ 1 ∧
      path.countP (fun token => !token.isPlain) ≤ 5 := by
  have bound (counts : String → Bool) :
      path.countP (Token.counted counts) ≤ Grammar.nesting counts grammar :=
    (conforms sound grammar text token member).countP_path_le counts leads
  obtain ⟨bold, italic, link, all⟩ := nesting_grammar
  rw [countP_category, countP_category, countP_category, countP_classified]
  exact ⟨bold ▸ bound _, italic ▸ bound _, link ▸ bound _, all ▸ bound _⟩

/-- In bold text with italic text inside, the path to the innermost text meets one token of each. -/
theorem nesting_bounded_bold_italic :
    Engine.Sound Pattern.locate ∧ ∃ token ∈ grammar.tokenize "**_a_**", ∃ path,
      token.Path path ∧ path.map Token.category? = [some "bold", some "italic", none] ∧
        path.countP (fun token => token.category? = some "italic") ≤ 2 := by
  have computed : ((grammar.tokenize "**_a_**").any fun token =>
      token.category? == some "bold" && token.children.any fun child =>
        child.category? == some "italic" && child.children.any fun text =>
          text.isPlain && text.children.isEmpty) = true := by
    decide +kernel
  simp only [List.any_eq_true, Bool.and_eq_true, beq_iff_eq] at computed
  obtain ⟨token, member, bold, child, inside, italic, text, within, plain, childless⟩ := computed
  have leads : token.Path [token, child, text] :=
    .descends inside (.descends within (.ends (List.isEmpty_iff.mp childless)))
  have unclassified : text.category? = none := by
    cases text with
    | plain => rfl
    | leaf => cases plain
    | nested => cases plain
  refine ⟨Pattern.locate_sound, token, member, _, leads, by simp [bold, italic, unclassified], ?_⟩
  exact (nesting_bounded Pattern.locate Pattern.locate_sound "**_a_**" token member _ leads).2.1

end TextDecoration.Builtin.Markdown
