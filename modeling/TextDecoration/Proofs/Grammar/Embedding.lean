import Mathlib.Data.List.Forall2
import TextDecoration.Proofs.Builtin.Reachable

/-!
# Embedding rules

Rules are embedded under a category into the grammar inside every rule of a parent. Nothing else
changes: not the other categories, not what the parent's rules look for, and inside these not what
they had under other categories. So embedding into two parents gives the same in either order, and
of two embeddings under the same parent and category the later one stays.

The embedded rules are copies. What is embedded into them later, under their own category, does not
reach the copies, as only the rules of the parent itself are looked at.
-/

namespace TextDecoration

/-- The rule with `rules` under `category` in its own grammar. A rule without such a grammar gets
one that has nothing else. -/
def Rule.hold (category : String) (rules : List Rule) (rule : Rule) : Rule :=
  rule.withInside ((rule.inside.getD Grammar.empty).put category rules)

/-- Embedding has every rule of the parent hold the rules. -/
theorem Grammar.embed_eq (grammar : Grammar) (parent category : String) (rules : List Rule) :
    grammar.embed parent category rules =
      grammar.modify parent (List.map (Rule.hold category rules)) := rfl

/-- What a rule turns into by holding `rules` under `category`: one that looks for the same in the
same way, with a grammar inside that has exactly `rules` under the category. All else that was
inside is there as before; a new category comes last. -/
structure Rule.Holds (category : String) (rules : List Rule) (before after : Rule) : Prop where
  pattern : after.pattern = before.pattern
  lookbehind : after.lookbehind = before.lookbehind
  fallback : after.fallback = before.fallback
  inside : ∃ inner : Grammar, after.inside = some inner ∧ inner.get? category = some rules ∧
    (∀ other, other ≠ category →
      inner.get? other = (before.inside.getD Grammar.empty).get? other) ∧
    inner.categories =
      if category ∈ (before.inside.getD Grammar.empty).names then
        (before.inside.getD Grammar.empty).names
      else (before.inside.getD Grammar.empty).names ++ [category]

/-- Holding rules does to a rule what is said of it, and nothing beyond it. -/
theorem Rule.holds_hold (category : String) (rules : List Rule) (rule : Rule) :
    Rule.Holds category rules rule (rule.hold category rules) where
  pattern := rfl
  lookbehind := rfl
  fallback := rfl
  inside := by
    refine ⟨(rule.inside.getD Grammar.empty).put category rules, rfl, ?_, ?_, ?_⟩
    · rw [Table.get?_put, if_pos rfl]
    · intro other different
      rw [Table.get?_put, if_neg different]
    · exact Table.names_alter _ category _

/-- Of two lists of rules that are held under one category the later one stays. Nothing is left of
the earlier one, and the place is the same. -/
theorem Rule.hold_hold (category : String) (first second : List Rule) (rule : Rule) :
    (rule.hold category first).hold category second = rule.hold category second := by
  have inside := Table.put_put (rule.inside.getD Grammar.empty) category first second
  exact congrArg rule.withInside inside

/-- Embedding rules into a parent leaves the categories and their order as they are, and the rules
of every category but the parent. The parent keeps as many rules, and each of them holds the
embedded ones under the category, inside a grammar that is otherwise as it was. Without the parent
nothing changes. Embedding into different parents gives the same grammar in either order, and
embedding again into the same parent under the same category gives what the later embedding alone
gives. -/
theorem Grammar.embed_confined (grammar : Grammar) (parent category : String) (rules : List Rule) :
    Grammar.categories (grammar.embed parent category rules) = grammar.categories ∧
      (∀ other, other ≠ parent →
        (grammar.embed parent category rules).get? other = grammar.get? other) ∧
      (∀ alternatives, grammar.get? parent = some alternatives →
        ∃ embedded, (grammar.embed parent category rules).get? parent = some embedded ∧
          List.Forall₂ (Rule.Holds category rules) alternatives embedded) ∧
      (parent ∉ grammar.categories → grammar.embed parent category rules = grammar) ∧
      (∀ parent' category' rules', parent' ≠ parent →
        Grammar.embed (grammar.embed parent category rules) parent' category' rules' =
          Grammar.embed (grammar.embed parent' category' rules') parent category rules) ∧
      ∀ rules', Grammar.embed (grammar.embed parent category rules) parent category rules' =
        grammar.embed parent category rules' := by
  simp only [embed_eq]
  refine ⟨Table.names_modify grammar parent _, ?_, ?_, ?_, ?_, ?_⟩
  · intro other different
    rw [Table.get?_modify, if_neg different]
  · intro alternatives found
    refine ⟨alternatives.map (Rule.hold category rules), ?_, ?_⟩
    · rw [Table.get?_modify, if_pos rfl, found, Option.map_some]
    · apply List.forall₂_map_right_iff.mpr
      apply List.forall₂_same.mpr
      intro rule _
      exact Rule.holds_hold category rules rule
  · intro absent
    exact Table.modify_absent absent _
  · intro parent' category' rules' different
    exact Table.modify_comm different.symm grammar _ _
  · intro rules'
    have later : List.map (Rule.hold category rules') ∘ List.map (Rule.hold category rules) =
        List.map (Rule.hold category rules') := by
      funext alternatives
      simp only [Function.comp_apply, List.map_map]
      apply List.map_congr_left
      intro rule _
      exact Rule.hold_hold category rules rules' rule
    rw [Table.modify_modify, later]

/-- Links embedded into both rules for code, which had no grammar inside, and into the rule for bold
text, which had one: either order gives the same. Titles are left alone, and the rules for code go
on looking for what they looked for. -/
theorem Grammar.embed_confined_code :
    ("bold" ≠ "code" ∧ "title" ≠ "code") ∧
      Grammar.embed (Builtin.Markdown.additions.embed "code" "url"
          [.ofPattern Builtin.Markdown.link]) "bold" "url" [.ofPattern Builtin.Markdown.link] =
        Grammar.embed (Builtin.Markdown.additions.embed "bold" "url"
          [.ofPattern Builtin.Markdown.link]) "code" "url" [.ofPattern Builtin.Markdown.link] ∧
      (Builtin.Markdown.additions.embed "code" "url" [.ofPattern Builtin.Markdown.link]).get?
          "title" = Builtin.Markdown.additions.get? "title" ∧
      ∃ first second, (Builtin.Markdown.additions.embed "code" "url"
          [.ofPattern Builtin.Markdown.link]).get? "code" = some [first, second] ∧
        first.pattern = Builtin.Markdown.indentedCode ∧
        second.pattern = Builtin.Markdown.inlineCode ∧
        ∃ inner : Grammar, second.inside = some inner ∧ inner.categories = ["url"] := by
  obtain ⟨_, others, parents, _, commute, _⟩ := Grammar.embed_confined Builtin.Markdown.additions
    "code" "url" [.ofPattern Builtin.Markdown.link]
  have different : "bold" ≠ "code" ∧ "title" ≠ "code" := by decide
  obtain ⟨embedded, found, held⟩ := parents
    [(Rule.ofPattern Builtin.Markdown.indentedCode).withFallback "keyword",
      (Rule.ofPattern Builtin.Markdown.inlineCode).withFallback "keyword"] rfl
  refine ⟨different, commute _ _ _ different.1, others _ different.2, ?_⟩
  cases held with
  | cons firstHolds rest =>
    cases rest with
    | cons secondHolds nothing =>
      cases nothing
      obtain ⟨inner, inside, _, _, categories⟩ := secondHolds.inside
      exact ⟨_, _, found, firstHolds.pattern, secondHolds.pattern, inner, inside, categories⟩

end TextDecoration
