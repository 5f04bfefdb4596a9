import TextDecoration.Proofs.Grammar.Conformance

/-!
# The parts of a grammar, listed

A grammar nests finitely deep, so its parts can be listed: the grammar itself and, rule by rule, the
parts of the grammars inside. What holds of the rules of all listed parts holds of the rules at
every depth. For a given grammar that is decided by computation.
-/

namespace TextDecoration

mutual
/-- The parts of the grammar inside a rule, as a list that can be checked. A rule without such a
grammar has none. -/
def Rule.parts : Rule → List Grammar
  | ⟨_, _, _, inside⟩ => Rule.partsInside inside

/-- The parts of a grammar that may be there. -/
def Rule.partsInside : Option (Table (List Rule)) → List Grammar
  | none => []
  | some grammar => Grammar.parts grammar

/-- The parts of a grammar, itself first, and then those inside its rules in the order of the rules.
A grammar that stands in several places is listed for each. -/
def Grammar.parts : Table (List Rule) → List Grammar
  | ⟨entries⟩ => ⟨entries⟩ :: Rule.partsEntries entries

/-- The parts of the grammars inside the rules of all categories. -/
def Rule.partsEntries : List (String × List Rule) → List Grammar
  | [] => []
  | entry :: later => Rule.partsEntry entry ++ Rule.partsEntries later

/-- The parts of the grammars inside the rules of one category. -/
def Rule.partsEntry : String × List Rule → List Grammar
  | (_, rules) => Rule.partsList rules

/-- The parts of the grammars inside some rules. -/
def Rule.partsList : List Rule → List Grammar
  | [] => []
  | rule :: later => Rule.parts rule ++ Rule.partsList later
end

/-- The parts inside some rules are those inside each of them, rule by rule. -/
theorem Rule.partsList_eq (rules : List Rule) :
    Rule.partsList rules = rules.flatMap Rule.parts := by
  induction rules with
  | nil => rw [Rule.partsList, List.flatMap_nil]
  | cons rule later inductionHypothesis =>
    rw [Rule.partsList, inductionHypothesis, List.flatMap_cons]

/-- The parts of a grammar are the grammar and those inside each of its alternatives. In this form
the list is like the law for parts. -/
theorem Grammar.parts_eq (grammar : Grammar) : Grammar.parts grammar =
    grammar :: grammar.alternatives.flatMap fun alternative => alternative.2.parts := by
  obtain ⟨entries⟩ := grammar
  rw [Grammar.parts, Grammar.alternatives]
  congr 1
  induction entries with
  | nil => rw [Rule.partsEntries, List.flatMap_nil, List.flatMap_nil]
  | cons entry later inductionHypothesis =>
    obtain ⟨category, rules⟩ := entry
    rw [Rule.partsEntries, Rule.partsEntry, Rule.partsList_eq, inductionHypothesis,
      List.flatMap_cons, List.flatMap_append, List.flatMap_map]

/-- A part is the whole grammar or a part of a grammar inside one of its rules. -/
theorem Grammar.Part.cases_top {grammar part : Grammar} (below : grammar.Part part) :
    part = grammar ∨ ∃ (category : String) (rule : Rule) (inner : Grammar),
      (category, rule) ∈ grammar.alternatives ∧ rule.inside = some inner ∧ inner.Part part := by
  induction below with
  | whole => exact Or.inl rfl
  | inside above listed deep inductionHypothesis =>
    rcases inductionHypothesis with rfl | ⟨category, rule, inner, first, within, beneath⟩
    · exact Or.inr ⟨_, _, _, listed, deep, Part.whole⟩
    · exact Or.inr ⟨category, rule, inner, first, within, Part.inside beneath listed deep⟩

/-- Every part is listed, at whatever depth. A check of the list is thus a check of all parts. -/
theorem Grammar.Part.mem_parts {grammar part : Grammar} (below : grammar.Part part) :
    part ∈ Grammar.parts grammar := by
  induction grammar using Grammar.nestedInduction with
  | step grammar inductionHypothesis =>
    rw [Grammar.parts_eq, List.mem_cons, List.mem_flatMap]
    rcases below.cases_top with same | ⟨category, rule, inner, listed, deep, beneath⟩
    · exact Or.inl same
    · have inside : rule.parts = Grammar.parts inner := by
        obtain ⟨pattern, lookbehind, fallback, within⟩ := rule
        cases deep
        rw [Rule.parts, Rule.partsInside]
      refine Or.inr ⟨(category, rule), listed, ?_⟩
      rw [inside]
      exact inductionHypothesis category rule inner listed deep beneath

/-- What a check of all listed parts finds true of their rules is true of the rules at every
depth. -/
theorem Grammar.Part.checked {grammar part : Grammar} {check : String → Rule → Bool}
    (passed : ((Grammar.parts grammar).all fun part => part.alternatives.all fun alternative =>
      check alternative.1 alternative.2) = true)
    (below : grammar.Part part) {category : String} {rule : Rule}
    (listed : (category, rule) ∈ part.alternatives) : check category rule = true :=
  List.all_eq_true.mp (List.all_eq_true.mp passed part below.mem_parts) (category, rule) listed

end TextDecoration
