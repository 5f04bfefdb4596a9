import TextDecoration.Proofs.Grammar.Nesting
import TextDecoration.Proofs.Range.Projection

/-!
# Tags under the two policies

A policy decides the tags of a range and nothing else. Under the one a range has its token's own
category, under the other every category that occurs in the token at any depth. Either way the tags
are those of the token alone: what stands beside it at the top, and where the text is, do not
matter. All of this holds for any trees, also for such as no grammar produced.

The categories of a token may also be gathered by one walk through its tree that puts all of them
into the same set. The set is then the same, and what was in it before stays in it: so a walk
through a second token would mix the two, and every range needs a set of its own.
-/

namespace TextDecoration

/-- A category occurs in a token: it is the token's own, or it occurs in one of the children. -/
inductive Token.Occurs (category : String) : Token → Prop where
  | own {token : Token} (classified : token.category? = some category) : Occurs category token
  | within {token child : Token} (among : child ∈ token.children)
      (below : Occurs category child) : Occurs category token

namespace Token

mutual
/-- A set with the categories of a token put into it, the token's own one first. Plain tokens put
none into it. -/
def gather (gathered : Names) : Token → Names
  | .plain _ => gathered
  | .leaf category _ _ => gathered.insert category
  | .nested category _ children => gatherAll (gathered.insert category) children

/-- A set with the categories of a sequence of tokens put into it, all of which use the one set. -/
def gatherAll (gathered : Names) : List Token → Names
  | [] => gathered
  | token :: tokens => gatherAll (gather gathered token) tokens
end

mutual
/-- Gathering puts the categories of a tree into the set one after the other, in the order in which
the tree lists them. -/
theorem gather_eq (gathered : Names) : ∀ token : Token,
    gather gathered token = token.allCategories.foldl Names.insert gathered
  | .plain _ => by rw [gather, allCategories, List.foldl_nil]
  | .leaf category _ _ => by rw [gather, allCategories, List.foldl_cons, List.foldl_nil]
  | .nested category _ children => by
    rw [gather, allCategories, List.foldl_cons, gatherAll_eq _ children]

/-- Gathering from a sequence puts the categories of its trees into the set one after the other. -/
theorem gatherAll_eq (gathered : Names) : ∀ tokens : List Token,
    gatherAll gathered tokens = (allCategoriesOf tokens).foldl Names.insert gathered
  | [] => by rw [gatherAll, allCategoriesOf, List.foldl_nil]
  | token :: tokens => by
    rw [gatherAll, allCategoriesOf, List.foldl_append, ← gather_eq gathered token,
      gatherAll_eq _ tokens]
end

section Occurs

variable {category : String}

mutual
/-- A category that a tree lists occurs in it, at the depth at which it was listed. -/
theorem occurs_of_mem : ∀ {token : Token}, category ∈ token.allCategories → token.Occurs category
  | .plain _, listed => by
    rw [allCategories] at listed
    cases listed
  | .leaf own fallback text, listed => by
    rw [allCategories, List.mem_singleton] at listed
    exact Occurs.own (congrArg some listed.symm)
  | .nested own fallback children, listed => by
    rw [allCategories, List.mem_cons] at listed
    rcases listed with rfl | further
    · exact Occurs.own rfl
    · obtain ⟨child, among, below⟩ := exists_occurs_of_mem further
      exact Occurs.within among below

/-- A category that a sequence of trees lists occurs in one of them. -/
theorem exists_occurs_of_mem : ∀ {tokens : List Token}, category ∈ allCategoriesOf tokens →
    ∃ token ∈ tokens, token.Occurs category
  | [], listed => by
    rw [allCategoriesOf] at listed
    cases listed
  | token :: tokens, listed => by
    rw [allCategoriesOf, List.mem_append] at listed
    rcases listed with here | later
    · exact ⟨token, List.mem_cons_self, occurs_of_mem here⟩
    · obtain ⟨other, among, occurs⟩ := exists_occurs_of_mem later
      exact ⟨other, List.mem_cons_of_mem token among, occurs⟩
end

/-- The categories that a tree lists are those that occur in it. A category that occurs twice is
listed twice. -/
theorem mem_allCategories_iff {token : Token} :
    category ∈ token.allCategories ↔ token.Occurs category := by
  constructor
  · exact occurs_of_mem
  · intro occurs
    induction occurs with
    | own classified => exact mem_allCategories_self classified
    | @within token child among below inductionHypothesis =>
      cases token with
      | plain text => cases among
      | leaf own fallback text => cases among
      | nested own fallback children =>
        rw [allCategories]
        exact List.mem_cons_of_mem own
          (mem_allCategoriesOf.mpr ⟨child, among, inductionHypothesis⟩)

/-- Gathering a token's categories adds those that occur in it to what was in the set before, and
takes none away. -/
theorem mem_gather {gathered : Names} {token : Token} :
    category ∈ (gather gathered token).toList ↔
      category ∈ gathered.toList ∨ token.Occurs category := by
  rw [gather_eq, Names.mem_toList_foldl_insert, mem_allCategories_iff]

end Occurs

/-- Gathered into a set of their own, a token's categories are its tags under the nested policy. -/
theorem tags_nested (token : Token) : token.tags .nested = gather Names.empty token := by
  rw [gather_eq]
  rfl

/-- Under the nested policy a token has the categories that occur in it, its own among them. -/
theorem mem_tags_nested {token : Token} {name : String} :
    name ∈ (token.tags .nested).toList ↔ token.Occurs name := by
  rw [tags_nested, mem_gather]
  exact or_iff_right List.not_mem_nil

/-- Under the outermost policy a token with a category has that one alone, whatever is inside it. -/
theorem tags_outermost {token : Token} {category : String}
    (classified : token.category? = some category) :
    token.tags .outermost = Names.single category := by
  rw [tags, classified]
  rfl

end Token

section Project

variable {path : NodePath} {policy : TagPolicy} {tokens : List Token}

/-- There are as many ranges as classified tokens, whatever the policy. Plain tokens have none. -/
theorem length_project : (project tokens path policy).length = (classified tokens).length := by
  rw [project, projectFrom_eq, ← placed_tokens 0, List.length_map, List.length_map]

/-- The range at an index is that of the classified token at the same index, placed where both
policies place it. -/
theorem project_getElem_placed (path : NodePath) {k : Nat} {token : Token}
    (there : (classified tokens)[k]? = some token) :
    ∃ offset, ∀ policy, (project tokens path policy)[k]? =
      some (token.rangeAt policy path offset) := by
  rw [← placed_tokens 0, List.getElem?_map] at there
  obtain ⟨⟨offset, other⟩, place, rfl⟩ := Option.map_eq_some_iff.mp there
  refine ⟨offset, fun policy => ?_⟩
  rw [project, projectFrom_eq, List.getElem?_map, place, Option.map_some]

/-- The tags of ranges are those of the classified tokens, one by one and in order. -/
theorem tags_project :
    (project tokens path policy).map Range.tags = (classified tokens).map (Token.tags policy) := by
  rw [project, projectFrom_eq, ← placed_tokens 0, List.map_map, List.map_map]
  rfl

/-- The classified tokens of a sequence are those of each of its tokens. Neighbours have no say in
it. -/
theorem classified_eq_flatMap (tokens : List Token) :
    classified tokens = tokens.flatMap fun token => classified [token] := by
  induction tokens with
  | nil => rfl
  | cons token later inductionHypothesis =>
    rw [List.flatMap_cons, ← inductionHypothesis, classified, classified, classified,
      ← List.filter_append, List.singleton_append]

end Project

/-- Whatever the tokens are, projecting them under the two policies gives as many ranges as there
are classified tokens, and ranges of the same token agree in their offsets, alias and path. The tags
under the outermost policy are the token's own category alone; under the nested policy they are the
categories that occur in the token at any depth, as one walk through the token gathers them; so the
first are among the second. Under either policy, a token has the same tags as if it were alone. -/
theorem project_policies (tokens : List Token) (path : NodePath) :
    (∀ policy, (project tokens path policy).length = (classified tokens).length) ∧
    (∀ (k : Nat) (outer inner : Range) (token : Token),
      (project tokens path .outermost)[k]? = some outer →
      (project tokens path .nested)[k]? = some inner → (classified tokens)[k]? = some token →
        outer.start = inner.start ∧ outer.stop = inner.stop ∧
        outer.fallback = inner.fallback ∧ outer.path = inner.path ∧
        (∃ category, token.category? = some category ∧ outer.tags = Names.single category) ∧
        inner.tags = token.gather Names.empty ∧
        (∀ name, name ∈ inner.tags.toList ↔ token.Occurs name) ∧
        ∀ name ∈ outer.tags.toList, name ∈ inner.tags.toList) ∧
    ∀ policy, (project tokens path policy).map Range.tags =
      tokens.flatMap fun token => (project [token] path policy).map Range.tags := by
  refine ⟨fun policy => length_project, ?_, fun policy => ?_⟩
  · intro k outer inner token here there known
    obtain ⟨offset, placed⟩ := project_getElem_placed path known
    obtain rfl := Option.some.inj (here.symm.trans (placed .outermost))
    obtain rfl := Option.some.inj (there.symm.trans (placed .nested))
    have member : token ∈ classified tokens := List.mem_of_getElem? known
    have kind : token.isPlain = false := by simpa using (List.mem_filter.mp member).2
    obtain ⟨category, own⟩ := Token.classified_iff.mp kind
    have alone : token.tags .outermost = Names.single category := Token.tags_outermost own
    refine ⟨rfl, rfl, rfl, rfl, ⟨category, own, alone⟩, Token.tags_nested token,
      fun name => Token.mem_tags_nested, ?_⟩
    intro name tagged
    have tagged : name ∈ (Names.single category).toList := alone ▸ tagged
    obtain rfl : name = category := List.mem_singleton.mp tagged
    exact Token.mem_tags_nested.mpr (Token.Occurs.own own)
  · rw [tags_project, classified_eq_flatMap, List.map_flatMap]
    simp only [tags_project]

/-- Bold text with emphasis inside, between its two marks. -/
def boldAroundItalic : Token :=
  .nested "bold" (some "important") [.leaf "punctuation" none "**",
    .nested "italic" none [.plain "é"], .leaf "punctuation" none "**"]

/-- Between plain text and a link, bold text has the same range under both policies, with one tag
under the one and three under the other. The link's category is not among them. -/
theorem project_policies_bold :
    ∃ outer inner : Range,
      (project [.plain "ü ", boldAroundItalic, .leaf "url" none "[b](c)"] [3, 0] .outermost)[0]? =
        some outer ∧
      (project [.plain "ü ", boldAroundItalic, .leaf "url" none "[b](c)"] [3, 0] .nested)[0]? =
        some inner ∧
      (classified [.plain "ü ", boldAroundItalic, .leaf "url" none "[b](c)"])[0]? =
        some boldAroundItalic ∧
      outer.tags.toList = ["bold"] ∧ inner.tags.toList = ["bold", "italic", "punctuation"] ∧
      (outer.start, outer.stop) = (2, 7) ∧ (inner.start, inner.stop) = (2, 7) ∧
      ∀ name, name ∈ inner.tags.toList ↔ boldAroundItalic.Occurs name := by
  let outer := boldAroundItalic.rangeAt .outermost [3, 0] 2
  let inner := boldAroundItalic.rangeAt .nested [3, 0] 2
  obtain ⟨starts, stops, _, _, _, _, occurs, _⟩ :=
    (project_policies [.plain "ü ", boldAroundItalic, .leaf "url" none "[b](c)"] [3, 0]).2.1
      0 outer inner boldAroundItalic rfl rfl rfl
  have placed : (outer.start, outer.stop) = (2, 7) := by decide +kernel
  have same : (inner.start, inner.stop) = (2, 7) := by rw [← starts, ← stops, placed]
  exact ⟨outer, inner, rfl, rfl, rfl, by decide +kernel, by decide +kernel, placed, same, occurs⟩

end TextDecoration
