import TextDecoration.Grammar.Basic
import TextDecoration.Proofs.Table.Values

/-!
# Grammars that can be built

A grammar is only ever built from the empty one, by adding and replacing rules and by composing
grammars that were built before; the grammars inside the rules are built in the same way. No
category occurs twice in a grammar that was built, whatever the order of the steps.

A grammar that was built contains only grammars that were built: a rule is added with such a grammar
inside, and what is put inside rules later is put into such a grammar.
-/

namespace TextDecoration

/-- A grammar that can be built. Each constructor is one operation on grammars. -/
inductive Grammar.Reachable : Grammar → Prop where
  | empty : Reachable Grammar.empty
  | rule {grammar : Grammar} (category : String) {rule : Rule} (built : Reachable grammar)
      (within : ∀ inner, rule.inside = some inner → Reachable inner) :
      Reachable (Grammar.rule grammar category rule)
  | rules {grammar : Grammar} (category : String) {rules : List Rule} (built : Reachable grammar)
      (within : ∀ rule ∈ rules, ∀ inner, rule.inside = some inner → Reachable inner) :
      Reachable (Grammar.rules grammar category rules)
  | extend {grammar overrides : Grammar} (built : Reachable grammar)
      (builtOverrides : Reachable overrides) : Reachable (Table.extend grammar overrides)
  | insertBefore {grammar added : Grammar} (anchor : String) (built : Reachable grammar)
      (builtAdded : Reachable added) : Reachable (Table.insertBefore grammar anchor added)
  | embed {grammar : Grammar} (parent category : String) {rules : List Rule}
      (built : Reachable grammar)
      (within : ∀ rule ∈ rules, ∀ inner, rule.inside = some inner → Reachable inner) :
      Reachable (Grammar.embed grammar parent category rules)

/-- No category occurs twice in a grammar that was built. Every operation keeps the categories
distinct. -/
theorem Grammar.Reachable.distinct {grammar : Grammar} (built : grammar.Reachable) :
    grammar.Distinct := by
  induction built with
  | empty => exact Table.distinct_empty
  | rule category _ _ inductionHypothesis => exact inductionHypothesis.alter category _
  | rules category _ _ inductionHypothesis => exact inductionHypothesis.put category _
  | extend _ _ inductionHypothesis => exact inductionHypothesis.extend _
  | insertBefore anchor _ _ inductionHypothesis addedHypothesis =>
    exact inductionHypothesis.insertBefore addedHypothesis anchor
  | embed parent category _ _ inductionHypothesis => exact inductionHypothesis.modify parent _

/-- The grammars inside some rules can all be built. Rules without such a grammar have nothing to be
built. -/
def Rule.BuiltInside (rules : List Rule) : Prop :=
  ∀ rule ∈ rules, ∀ inner : Grammar, rule.inside = some inner → inner.Reachable

/-- Rules put inside a rule whose grammar can be built make a grammar that can be built. A rule that
had no grammar of its own gets the empty one first. -/
theorem Rule.reachable_put {rule : Rule} (category : String) {rules : List Rule}
    (within : Rule.BuiltInside rules)
    (built : ∀ inner : Grammar, rule.inside = some inner → inner.Reachable) :
    Grammar.Reachable ((rule.inside.getD Grammar.empty).put category rules) := by
  refine Grammar.Reachable.rules category ?_ within
  cases deep : rule.inside with
  | none => exact Grammar.Reachable.empty
  | some inner => exact built inner deep

/-- The grammars inside the rules of a grammar that was built were built. Each operation puts only
such rules into the table as come with grammars that were built. -/
theorem Grammar.Reachable.every_builtInside {grammar : Grammar} (built : grammar.Reachable) :
    grammar.Every Rule.BuiltInside := by
  induction built with
  | empty => exact Table.every_empty
  | rule category _ within inductionHypothesis =>
    refine inductionHypothesis.alter category fun old known rule member => ?_
    rcases List.mem_append.mp member with among | new
    · cases old with
      | none => cases among
      | some rules => exact known rules rfl rule among
    · cases List.mem_singleton.mp new
      exact within
  | rules category _ within inductionHypothesis => exact inductionHypothesis.put category within
  | extend _ _ inductionHypothesis overridesHypothesis =>
    exact inductionHypothesis.extend overridesHypothesis
  | insertBefore anchor _ _ inductionHypothesis addedHypothesis =>
    exact inductionHypothesis.insertBefore addedHypothesis anchor
  | embed parent category _ within inductionHypothesis =>
    refine inductionHypothesis.modify parent fun rules known rule member inner deep => ?_
    obtain ⟨plain, among, rfl⟩ := List.mem_map.mp member
    cases deep
    exact Rule.reachable_put category within (known plain among)

/-- The rules found under a category of a grammar that was built come with grammars that were built.
They may be put into other rules, as markdown does with its own. -/
theorem Grammar.Reachable.builtInside_get? {grammar : Grammar} (built : grammar.Reachable)
    (category : String) : Rule.BuiltInside ((grammar.get? category).getD []) := by
  rw [Table.get?]
  cases found : grammar.entries.find? fun entry => entry.1 == category with
  | none =>
    intro rule member
    cases member
  | some entry => exact built.every_builtInside entry (List.mem_of_find?_eq_some found)

/-- A rule without a grammar of its own may be added to any grammar that was built, under any
category. -/
theorem Grammar.Reachable.leaf {grammar : Grammar} (category : String) {rule : Rule}
    (built : grammar.Reachable) (simple : rule.inside = none) :
    (Grammar.rule grammar category rule).Reachable :=
  built.rule category fun inner deep => absurd (simple.symm.trans deep) (by simp)

/-- A rule with a grammar that was built may be added to any grammar that was built, whatever was
inside the rule before. -/
theorem Grammar.Reachable.nested {grammar inner : Grammar} (category : String) {rule : Rule}
    (built : grammar.Reachable) (builtInner : inner.Reachable) :
    (Grammar.rule grammar category (rule.withInside inner)).Reachable :=
  built.rule category fun _ deep => Option.some.inj deep ▸ builtInner

end TextDecoration
