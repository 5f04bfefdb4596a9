import TextDecoration.Proofs.Grammar.Conformance

/-!
# How deeply token trees nest

A path through a token tree leads from a token down to one that has no children. A conforming tree
has a rule for every classified token on the path, and each of these rules stands in the grammar
inside the one above it. So the grammar alone bounds how many tokens of some categories a path can
meet: `Grammar.nesting` computes the bound from the nesting of its rules, and no text is asked.

Only the way down is bounded, not how many tokens stand side by side. That a text reaches the bound
is not claimed: an earlier rule may leave nothing for the rules that would nest further.
-/

namespace TextDecoration

/-- The tokens that a token's text was cut into. A plain token and a leaf have none. -/
def Token.children : Token → List Token
  | .plain _ | .leaf _ _ _ => []
  | .nested _ _ children => children

/-- A path from a token down to one without children: the token, then a path from one of its
children. -/
inductive Token.Path : Token → List Token → Prop where
  | ends {token : Token} (childless : token.children = []) : Path token [token]
  | descends {token child : Token} {below : List Token} (among : child ∈ token.children)
      (further : Path child below) : Path token (token :: below)

/-- A path begins with its token, and is that token alone if there are no children. -/
theorem Token.Path.cases_head {token : Token} {path : List Token} (leads : token.Path path) :
    path = [token] ∨ ∃ child ∈ token.children, ∃ below, path = token :: below ∧
      child.Path below := by
  cases leads with
  | ends childless => exact Or.inl rfl
  | descends among further => exact Or.inr ⟨_, among, _, rfl, further⟩

mutual
/-- The greatest number of categories that count on the way from a rule for some category into the
grammars inside it. -/
def Rule.nesting (counts : String → Bool) (category : String) : Rule → Nat
  | ⟨_, _, _, inside⟩ => (counts category).toNat + Rule.nestingInside counts inside

/-- The greatest number for a grammar that may be there; without one nothing nests. -/
def Rule.nestingInside (counts : String → Bool) : Option (Table (List Rule)) → Nat
  | none => 0
  | some grammar => Grammar.nesting counts grammar

/-- The greatest number for the rules of a grammar, over all its categories. -/
def Grammar.nesting (counts : String → Bool) : Table (List Rule) → Nat
  | ⟨entries⟩ => Rule.nestingEntries counts entries

/-- The greatest number for the rules of some categories; for none it is zero. -/
def Rule.nestingEntries (counts : String → Bool) : List (String × List Rule) → Nat
  | [] => 0
  | entry :: later => max (Rule.nestingEntry counts entry) (Rule.nestingEntries counts later)

/-- The greatest number for the rules of one category. -/
def Rule.nestingEntry (counts : String → Bool) : String × List Rule → Nat
  | (category, rules) => Rule.nestingList counts category rules

/-- The greatest number for some rules of one category; for none it is zero. -/
def Rule.nestingList (counts : String → Bool) (category : String) : List Rule → Nat
  | [] => 0
  | rule :: later =>
    max (Rule.nesting counts category rule) (Rule.nestingList counts category later)
end

section Nesting

variable {counts : String → Bool} {category : String} {rule : Rule}

/-- A rule with a grammar inside nests one further than that grammar, if its category counts. -/
theorem Rule.nesting_eq (counts : String → Bool) (category : String) {inner : Grammar}
    (deep : rule.inside = some inner) :
    rule.nesting counts category = (counts category).toNat + Grammar.nesting counts inner := by
  obtain ⟨pattern, lookbehind, fallback, inside⟩ := rule
  cases deep
  rw [Rule.nesting, Rule.nestingInside]

/-- A rule's own category is on its way, if it counts. Without a grammar inside there is nothing
else on it. -/
theorem Rule.toNat_le_nesting (counts : String → Bool) (category : String) (rule : Rule) :
    (counts category).toNat ≤ rule.nesting counts category := by
  obtain ⟨pattern, lookbehind, fallback, inside⟩ := rule
  rw [Rule.nesting]
  exact Nat.le_add_right _ _

/-- No rule of a category nests further than all of them together, since that is the greatest of
their numbers. -/
theorem Rule.nesting_le_nestingList {rules : List Rule} (member : rule ∈ rules) :
    rule.nesting counts category ≤ Rule.nestingList counts category rules := by
  induction rules with
  | nil => cases member
  | cons first later inductionHypothesis =>
    rw [Rule.nestingList]
    rcases List.mem_cons.mp member with rfl | behind
    · exact Nat.le_max_left _ _
    · exact Nat.le_trans (inductionHypothesis behind) (Nat.le_max_right _ _)

/-- No listed rule nests further than the grammar that lists it. This is what bounds a token by its
grammar. -/
theorem Grammar.nesting_listed {grammar : Grammar}
    (listed : (category, rule) ∈ grammar.alternatives) :
    rule.nesting counts category ≤ Grammar.nesting counts grammar := by
  obtain ⟨rules, entry, member⟩ := mem_alternatives.mp listed
  obtain ⟨entries⟩ := grammar
  rw [Grammar.nesting]
  induction entries with
  | nil => cases entry
  | cons first later inductionHypothesis =>
    rw [Rule.nestingEntries]
    rcases List.mem_cons.mp entry with rfl | behind
    · rw [Rule.nestingEntry]
      exact Nat.le_trans (Rule.nesting_le_nestingList member) (Nat.le_max_left _ _)
    · have listedBehind : (category, rule) ∈ Grammar.alternatives ⟨later⟩ :=
        mem_alternatives.mpr ⟨rules, behind, member⟩
      exact Nat.le_trans (inductionHypothesis listedBehind behind) (Nat.le_max_right _ _)

end Nesting

/-- Whether a token is classified, with a category that counts. Which categories count is left to
the statement that is made. -/
def Token.counted (counts : String → Bool) (token : Token) : Bool := token.category?.any counts

/-- A classified token adds one to the counted tokens of a path, if its category counts. -/
theorem Token.countP_cons {counts : String → Bool} {category : String} {token : Token}
    (own : token.category? = some category) (path : List Token) :
    (token :: path).countP (counted counts) =
      (counts category).toNat + path.countP (counted counts) := by
  have kind : counted counts token = counts category := by simp [counted, own]
  rw [List.countP_cons, kind, Nat.add_comm]
  cases counts category <;> rfl

/-- A path down a conforming tree meets no more counted tokens than the grammar nests. The induction
is on the tree: a token's rule nests as far as its own category counts, and further by what bounds
the paths from the children. -/
theorem Token.Conforms.countP_path_le {engine : Engine} (counts : String → Bool)
    {grammar : Grammar} {text : String} {token : Token}
    (conforming : token.Conforms engine grammar text)
    {path : List Token} (leads : token.Path path) :
    path.countP (counted counts) ≤ Grammar.nesting counts grammar := by
  induction conforming generalizing path with
  | plain inside =>
    rcases leads.cases_head with rfl | ⟨child, among, _⟩
    · simp [counted, category?]
    · cases among
  | @leaf grammar text category rule matched listed found simple =>
    rcases leads.cases_head with rfl | ⟨child, among, _⟩
    · rw [countP_cons rfl, List.countP_nil, Nat.add_zero]
      exact Nat.le_trans (Rule.toNat_le_nesting counts category rule)
        (Grammar.nesting_listed listed)
    · cases among
  | @nested grammar inner text category rule children listed found deep cut within
      inductionHypothesis =>
    have bound : (counts category).toNat + Grammar.nesting counts inner ≤
        Grammar.nesting counts grammar := by
      rw [← Rule.nesting_eq counts category deep]
      exact Grammar.nesting_listed listed
    rcases leads.cases_head with rfl | ⟨child, among, below, rfl, further⟩
    · rw [countP_cons rfl, List.countP_nil]
      omega
    · have rest := inductionHypothesis child among further
      rw [countP_cons rfl]
      omega

end TextDecoration
