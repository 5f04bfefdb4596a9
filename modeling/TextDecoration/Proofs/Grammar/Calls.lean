import Mathlib.Data.List.Induction
import Mathlib.Logic.Relation
import TextDecoration.Proofs.Grammar.Passes
import TextDecoration.Proofs.Table.Overlay

/-!
# Grammars built by calls

A grammar that is built one rule at a time lists the categories as they are first used, and under
each category the rules that were added for it, as they were added. Both follow from what one call
does to the names of a table and to what is found in it, and together they determine the grammar.

So cutting does not try the rules as they were added: all rules of a category are tried where the
category was first used. Calls for different categories that follow each other may change places if
neither is the first for its category. Two first calls may not: the order of the categories would
change with them.
-/

namespace TextDecoration.Grammar

/-- The grammar that calls build, each of which adds a rule to a category. It is built from the
empty grammar, call by call. -/
def ofCalls (calls : List (String × Rule)) : Grammar :=
  calls.foldl (fun grammar call => grammar.rule call.1 call.2) Grammar.empty

/-- The categories that calls use, in the order in which they are first used. A later use does not
move a category. -/
def firstUses (calls : List (String × Rule)) : List String := (calls.map Prod.fst).eraseDups

/-- The calls for a category, in order. Calls for other categories in between are left out. -/
def callsFor (category : String) (calls : List (String × Rule)) : List (String × Rule) :=
  calls.filter fun call => call.1 == category

/-- The rules that calls add for a category, in order, so that a rule added earlier is tried
earlier. -/
def added (category : String) (calls : List (String × Rule)) : List Rule :=
  (callsFor category calls).map Prod.snd

/-- Calls for different categories that follow each other have changed places, neither of them the
first one for its category. -/
inductive Exchanged : List (String × Rule) → List (String × Rule) → Prop where
  | neighbours {ahead behind : List (String × Rule)} {one other : String × Rule}
      (apart : one.1 ≠ other.1) (first : one.1 ∈ ahead.map Prod.fst)
      (second : other.1 ∈ ahead.map Prod.fst) :
      Exchanged (ahead ++ one :: other :: behind) (ahead ++ other :: one :: behind)

section Builder

variable {calls others : List (String × Rule)} {category : String} {rule : Rule}

/-- A grammar that is built by one more call has one more alternative. Inductions on calls go from
the back for that reason. -/
theorem ofCalls_append (calls : List (String × Rule)) (call : String × Rule) :
    ofCalls (calls ++ [call]) = (ofCalls calls).rule call.1 call.2 := by
  rw [ofCalls, List.foldl_append]
  rfl

/-- A category is used first by some call just if there is a call for it: among several calls, one
comes first. -/
theorem mem_firstUses : category ∈ firstUses calls ↔ category ∈ calls.map Prod.fst := by
  rw [firstUses, List.mem_eraseDups]

/-- A further call adds its category, unless that was used before. In that case the order of
categories stays as it is. -/
theorem firstUses_append (calls : List (String × Rule)) (call : String × Rule) :
    firstUses (calls ++ [call]) =
      if call.1 ∈ firstUses calls then firstUses calls else firstUses calls ++ [call.1] := by
  have fresh : ([call.1].removeAll (calls.map Prod.fst)).eraseDups =
      if call.1 ∈ firstUses calls then [] else [call.1] := by
    by_cases used : call.1 ∈ calls.map Prod.fst
    · simp [mem_firstUses, used, List.removeAll]
    · simp [mem_firstUses, used, List.removeAll, List.eraseDups_cons]
  rw [firstUses, List.map_append, List.map_singleton, List.eraseDups_append, fresh, ← firstUses]
  split
  · exact List.append_nil _
  · rfl

/-- A further call adds its rule to its own category, behind the rules that are there, and to no
other one. -/
theorem added_append (category : String) (calls : List (String × Rule)) (call : String × Rule) :
    added category (calls ++ [call]) =
      if category = call.1 then added category calls ++ [call.2] else added category calls := by
  rw [added, callsFor, List.filter_append, List.map_append]
  split
  · next same => rw [List.filter_singleton, same, beq_self_eq_true]; rfl
  · next apart =>
    rw [List.filter_singleton, beq_false_of_ne (Ne.symm apart)]
    exact List.append_nil _

/-- For a category without calls no rule is added. The grammar does not list such a category
either. -/
theorem added_unused (unused : category ∉ calls.map Prod.fst) : added category calls = [] := by
  have nothing : callsFor category calls = [] := by
    rw [callsFor, List.filter_eq_nil_iff]
    intro call among same
    exact unused (beq_iff_eq.mp same ▸ List.mem_map_of_mem among)
  rw [added, nothing, List.map_nil]

/-- The calls for a category are the rules that they add, each with the category, so either of them
tells the other. -/
theorem map_added (category : String) (calls : List (String × Rule)) :
    (added category calls).map (fun rule => (category, rule)) = callsFor category calls := by
  rw [added, List.map_map]
  refine (List.map_congr_left fun call among => ?_).trans (List.map_id _)
  have same : call.1 = category := beq_iff_eq.mp (List.mem_filter.mp among).2
  exact Prod.ext same.symm rfl

/-- A grammar that calls build lists no category twice: a call for a category that is there adds to
its rules. -/
theorem distinct_ofCalls (calls : List (String × Rule)) : (ofCalls calls).Distinct := by
  induction calls using List.reverseRecOn with
  | nil => exact Table.distinct_empty
  | append_singleton calls call inductionHypothesis =>
    rw [ofCalls_append]
    exact inductionHypothesis.alter call.1 _

/-- A grammar that calls build lists the categories that are used, in the order of their first use.
The induction is on the calls from the back. -/
theorem categories_ofCalls (calls : List (String × Rule)) :
    (ofCalls calls).categories = firstUses calls := by
  induction calls using List.reverseRecOn with
  | nil => rfl
  | append_singleton calls call inductionHypothesis =>
    rw [categories] at inductionHypothesis ⊢
    rw [ofCalls_append, Grammar.rule, Table.names_alter, inductionHypothesis, firstUses_append]

/-- Under a category that is used, a grammar that calls build has the rules that were added for it,
in order. Under any other it has none. -/
theorem get?_ofCalls (calls : List (String × Rule)) (category : String) :
    (ofCalls calls).get? category =
      if category ∈ calls.map Prod.fst then some (added category calls) else none := by
  induction calls using List.reverseRecOn generalizing category with
  | nil => rfl
  | append_singleton calls call inductionHypothesis =>
    rw [ofCalls_append, Grammar.rule, Table.get?_alter, added_append, inductionHypothesis,
      inductionHypothesis]
    by_cases same : category = call.1
    · -- The rule goes behind those that the category has by now; without any it is the first one.
      have present : ((if call.1 ∈ calls.map Prod.fst then some (added call.1 calls) else none).getD
          []) = added call.1 calls := by
        split
        · rfl
        · next unused => exact (added_unused unused).symm
      have used : category ∈ (calls ++ [call]).map Prod.fst :=
        List.mem_map.mpr ⟨call, List.mem_append_right _ (List.mem_singleton_self call), same.symm⟩
      rw [if_pos same, if_pos used, if_pos same, present, same]
    · have kept : category ∈ (calls ++ [call]).map Prod.fst ↔ category ∈ calls.map Prod.fst := by
        rw [List.map_append, List.mem_append, List.map_singleton, List.mem_singleton]
        exact or_iff_left same
      simp only [if_neg same, kept]

/-- The entries of a grammar that calls build are told by the calls: the categories by their first
uses, and the rules by what was added. -/
theorem entries_ofCalls (calls : List (String × Rule)) :
    (ofCalls calls).entries =
      (firstUses calls).map fun category => (category, added category calls) := by
  rw [Table.entries_eq_filterMap (distinct_ofCalls calls), ← categories, categories_ofCalls,
    ← List.filterMap_eq_map]
  refine List.filterMap_congr fun category among => ?_
  rw [get?_ofCalls, if_pos (mem_firstUses.mp among)]
  rfl

/-- The alternatives of a grammar that calls build are the calls, those for one category after those
for another one. Only calls for different categories can change places by that. -/
theorem alternatives_ofCalls (calls : List (String × Rule)) :
    (ofCalls calls).alternatives =
      (firstUses calls).flatMap fun category => callsFor category calls := by
  rw [alternatives, entries_ofCalls, List.flatMap_map]
  exact List.flatMap_congr fun category _ => map_added category calls

/-- The alternatives of the grammar that calls build are those of the calls. None is lost, and none
is made up. -/
theorem mem_alternatives_ofCalls :
    (category, rule) ∈ (ofCalls calls).alternatives ↔ (category, rule) ∈ calls := by
  rw [alternatives_ofCalls, List.mem_flatMap]
  constructor
  · rintro ⟨_, _, among⟩
    exact (List.mem_filter.mp among).1
  · intro called
    exact ⟨category, mem_firstUses.mpr (List.mem_map_of_mem called),
      List.mem_filter.mpr ⟨called, beq_self_eq_true category⟩⟩

/-- The rule that is tried first is that of the first call, whatever calls come behind it. -/
theorem alternatives_ofCalls_first (category : String) (rule : Rule)
    (calls : List (String × Rule)) : ∃ others,
    (ofCalls ((category, rule) :: calls)).alternatives = (category, rule) :: others := by
  have first : callsFor category ((category, rule) :: calls) =
      (category, rule) :: callsFor category calls :=
    List.filter_cons_of_pos (beq_self_eq_true category)
  rw [alternatives_ofCalls, firstUses, List.map_cons, List.eraseDups_cons, List.flatMap_cons, first]
  exact ⟨_, rfl⟩

/-- Calls build the same grammar just if they use the categories in the same order first and add the
same rules for each. -/
theorem ofCalls_eq_iff : ofCalls calls = ofCalls others ↔
    firstUses calls = firstUses others ∧
      ∀ category, added category calls = added category others := by
  constructor
  · intro same
    have first : firstUses calls = firstUses others := by
      rw [← categories_ofCalls, ← categories_ofCalls, same]
    refine ⟨first, fun category => ?_⟩
    have found := congrArg (Table.get? · category) same
    simp only [get?_ofCalls, ← mem_firstUses, ← first] at found
    by_cases used : category ∈ firstUses calls
    · rw [if_pos used, if_pos used] at found
      exact Option.some.inj found
    · have unused : category ∉ firstUses others := first ▸ used
      rw [added_unused (mt mem_firstUses.mpr used), added_unused (mt mem_firstUses.mpr unused)]
  · rintro ⟨first, rules⟩
    apply Table.eq_of_entries_eq
    rw [entries_ofCalls, entries_ofCalls, first]
    simp only [rules]

/-- A call behind one for its category makes no difference to the categories' first uses, wherever
it stands. -/
theorem firstUses_used {ahead : List (String × Rule)} {call : String × Rule}
    (used : call.1 ∈ ahead.map Prod.fst) (behind : List (String × Rule)) :
    firstUses (ahead ++ call :: behind) = firstUses (ahead ++ behind) := by
  have passed : (ahead.map Prod.fst).elem call.1 = true := List.elem_iff.mpr used
  rw [firstUses, firstUses, List.map_append, List.map_append, List.map_cons, List.eraseDups_append,
    List.eraseDups_append, List.removeAll, List.removeAll, List.filter_cons, passed]
  rfl

/-- Where two calls change places, neither of them the first for its category, the categories are
used first in the same order. -/
theorem Exchanged.firstUses_eq (exchanged : Exchanged calls others) :
    firstUses calls = firstUses others := by
  obtain ⟨_, first, second⟩ := exchanged
  rw [firstUses_used first, firstUses_used second, firstUses_used second, firstUses_used first]

/-- Where two calls change places the same rules are added for each category, since the two calls
are for different ones. -/
theorem Exchanged.added_eq (exchanged : Exchanged calls others) (category : String) :
    added category calls = added category others := by
  cases exchanged with
  | @neighbours ahead behind one other apart =>
    have same : callsFor category (one :: other :: behind) =
        callsFor category (other :: one :: behind) := by
      by_cases here : one.1 = category
      · have elsewhere : other.1 ≠ category := fun there => apart (here.trans there.symm)
        simp [callsFor, here, elsewhere]
      · simp [callsFor, List.filter_cons, here]
    rw [callsFor, callsFor] at same
    rw [added, added, callsFor, callsFor, List.filter_append, List.filter_append, same]

/-- Calls of which two have changed places build the same grammar: it is told by first uses and by
what is added, and neither changes. -/
theorem Exchanged.ofCalls_eq (exchanged : Exchanged calls others) :
    ofCalls calls = ofCalls others :=
  ofCalls_eq_iff.mpr ⟨exchanged.firstUses_eq, exchanged.added_eq⟩

/-- Calls of which any number have changed places, two neighbours at a time, build the same grammar.
The induction is on the exchanges. -/
theorem ofCalls_exchanges (exchanges : Relation.ReflTransGen Exchanged calls others) :
    ofCalls calls = ofCalls others := by
  induction exchanges with
  | refl => rfl
  | tail _ exchanged inductionHypothesis => exact inductionHypothesis.trans exchanged.ofCalls_eq

end Builder

/-- The grammar that calls build lists the categories as they are first used, and under each the
rules that are added for it, in order; these two tell all of it. Cutting a text by it tries all
rules of a category where the category was first used. Calls for different categories may change
places with their neighbours, unless one of them is the first for its category: the grammar stays
the same, and so do the tokens of every text. -/
theorem ofCalls_normal (calls : List (String × Rule)) :
    (ofCalls calls).categories = firstUses calls ∧
    (∀ category, (ofCalls calls).get? category =
      if category ∈ calls.map Prod.fst then some (added category calls) else none) ∧
    (∀ engine text, tokenizeBy engine (ofCalls calls) text =
      if text.isEmpty then []
      else passes engine ((firstUses calls).flatMap fun category => callsFor category calls)
        [.plain text]) ∧
    (∀ others, ofCalls calls = ofCalls others ↔ firstUses calls = firstUses others ∧
      ∀ category, added category calls = added category others) ∧
    ∀ others, Relation.ReflTransGen Exchanged calls others →
      ofCalls calls = ofCalls others ∧
        ∀ engine text, tokenizeBy engine (ofCalls calls) text =
          tokenizeBy engine (ofCalls others) text := by
  refine ⟨categories_ofCalls calls, get?_ofCalls calls, fun engine text => ?_,
    fun others => ofCalls_eq_iff, fun others exchanges => ?_⟩
  · rw [tokenizeBy_eq, alternatives_ofCalls]
  · have same : ofCalls calls = ofCalls others := ofCalls_exchanges exchanges
    exact ⟨same, fun engine text => by rw [same]⟩

/-- Calls that use two categories first, which settles the order of the two. -/
def twoCategories : List (String × Rule) :=
  [("name", .ofPattern (.known "of" (by decide +kernel))),
    ("unit", .ofPattern (.known "x" (by decide +kernel)))]

/-- A call for the second category, with a letter that is also a part of the other call's word. -/
def laterUnit : String × Rule := ("unit", .ofPattern (.known "c" (by decide +kernel)))

/-- A call for the first category, with a word that the other call's letter begins. -/
def laterName : String × Rule := ("name", .ofPattern (.known "cd" (by decide +kernel)))

/-- Whichever of two later calls comes first, the longer word is tried first, since its category was
used first. -/
theorem ofCalls_normal_later :
    Relation.ReflTransGen Exchanged (twoCategories ++ [laterUnit, laterName])
        (twoCategories ++ [laterName, laterUnit]) ∧
      ofCalls (twoCategories ++ [laterUnit, laterName]) =
        ofCalls (twoCategories ++ [laterName, laterUnit]) ∧
      (ofCalls (twoCategories ++ [laterUnit, laterName])).categories = ["name", "unit"] ∧
      ((ofCalls (twoCategories ++ [laterUnit, laterName])).tokenize "cdc").map Token.category? =
        [some "name", some "unit"] := by
  have exchanged : Exchanged (twoCategories ++ [laterUnit, laterName])
      (twoCategories ++ [laterName, laterUnit]) :=
    .neighbours (by decide) (by decide) (by decide)
  obtain ⟨categories, _, _, _, exchange⟩ :=
    ofCalls_normal (twoCategories ++ [laterUnit, laterName])
  have once := Relation.ReflTransGen.single exchanged
  exact ⟨once, (exchange _ once).1, categories.trans (by decide), by decide +kernel⟩

end TextDecoration.Grammar
