import TextDecoration.Proofs.Builtin.Reachable
import TextDecoration.Proofs.Grammar.Conformance

/-!
# Categories are unique at every depth

The grammars inside the rules of a grammar that was built were built themselves, so all its parts
were, and no category occurs twice in any of them. Looking a category up in a part therefore gives
all its rules, in their order.
-/

namespace TextDecoration

/-- Every part of a grammar that was built was built. So what is true of all grammars that can be
built is true of their parts. -/
theorem Grammar.Reachable.part {grammar part : Grammar} (built : grammar.Reachable)
    (below : grammar.Part part) : part.Reachable := by
  induction below with
  | whole => exact built
  | inside _ listed deep inductionHypothesis =>
    obtain ⟨rules, entry, member⟩ := mem_alternatives.mp listed
    exact inductionHypothesis.every_builtInside _ entry _ member _ deep

/-- The alternatives with a category that no entry has are none: an alternative is listed under its
category. -/
theorem Grammar.filter_alternatives_absent {grammar : Grammar} {category : String}
    (absent : category ∉ grammar.names) :
    (grammar.alternatives.filter fun alternative => alternative.1 = category) = [] := by
  refine List.filter_eq_nil_iff.mpr fun alternative listed => ?_
  intro same
  rw [decide_eq_true_iff] at same
  exact absent (same ▸ mem_names_of_listed listed)

/-- Where categories are distinct, the rules under a category are those of all alternatives with it,
in their order. With two entries of one category only the first would be looked up. -/
theorem Grammar.getD_get? {grammar : Grammar} (distinct : grammar.Distinct) (category : String) :
    (grammar.get? category).getD [] =
      (grammar.alternatives.filter fun alternative => alternative.1 = category).map Prod.snd := by
  obtain ⟨entries⟩ := grammar
  induction entries with
  | nil => rfl
  | cons first later inductionHypothesis =>
    obtain ⟨other, rules⟩ := first
    obtain ⟨fresh, distinctLater⟩ := List.nodup_cons.mp distinct
    rw [alternatives_cons, List.filter_append, List.map_append]
    by_cases same : other = category
    · subst same
      have own : ((rules.map fun rule => (other, rule)).filter fun alternative =>
          alternative.1 = other) = rules.map fun rule => (other, rule) :=
        List.filter_eq_self.mpr (by simp)
      rw [own, filter_alternatives_absent fresh]
      simp [Table.get?, Function.comp_def]
    · have foreign : ((rules.map fun rule => (other, rule)).filter fun alternative =>
          alternative.1 = category) = [] :=
        List.filter_eq_nil_iff.mpr (by simp [same])
      have sought : (⟨(other, rules) :: later⟩ : Grammar).get? category =
          (⟨later⟩ : Grammar).get? category := by
        simp [Table.get?, same]
      rw [foreign, sought, inductionHypothesis distinctLater]
      rfl

/-- In a grammar that was built, and in every grammar inside it at any depth, no category occurs
twice. So looking a category up there finds the entry with it, if there is one, and that entry has
all the rules that are tried for the category, in the order in which they are tried. -/
theorem Grammar.Reachable.categories_unique (grammar : Grammar) (built : grammar.Reachable)
    (part : Grammar) (below : grammar.Part part) :
    part.categories.Nodup ∧ ∀ category,
      part.contains category = (part.get? category).isSome ∧
      (∀ rules, part.get? category = some rules ↔ (category, rules) ∈ part.entries) ∧
      (part.get? category).getD [] =
        (part.alternatives.filter fun alternative => alternative.1 = category).map Prod.snd := by
  have distinct : part.Distinct := (built.part below).distinct
  exact ⟨distinct, fun category => ⟨Table.contains_eq_isSome part category,
    fun rules => Table.get?_eq_some_iff distinct, Grammar.getD_get? distinct category⟩⟩

/-- The markdown grammar was built, so the grammar inside its rule for bold text, into which two
rules were put after it was built, names no category twice. -/
theorem Grammar.Reachable.categories_unique_markdown :
    Builtin.Markdown.grammar.Reachable ∧ ∃ inner : Grammar, Builtin.Markdown.grammar.Part inner ∧
      inner.categories = ["punctuation", "url", "italic"] ∧ inner.categories.Nodup := by
  have built := Builtin.Markdown.reachable
  have computed : (((Builtin.Markdown.grammar.get? "bold").bind List.head?).bind Rule.inside).map
      Grammar.categories = some ["punctuation", "url", "italic"] := rfl
  obtain ⟨inner, found, names⟩ := Option.map_eq_some_iff.mp computed
  obtain ⟨rule, first, deep⟩ := Option.bind_eq_some_iff.mp found
  obtain ⟨rules, entry, head⟩ := Option.bind_eq_some_iff.mp first
  have listed : ("bold", rule) ∈ Builtin.Markdown.grammar.alternatives :=
    Grammar.mem_alternatives.mpr ⟨rules, (Table.get?_eq_some_iff built.distinct).mp entry,
      List.mem_of_head? head⟩
  have below : Builtin.Markdown.grammar.Part inner := Grammar.Part.inside .whole listed deep
  exact ⟨built, inner, below, names,
    (Grammar.Reachable.categories_unique Builtin.Markdown.grammar built inner below).1⟩

end TextDecoration
