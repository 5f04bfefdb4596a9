import TextDecoration.Config.Basic
import TextDecoration.Proofs.Except
import TextDecoration.Proofs.Grammar.Composition

/-!
# Rules ahead of one anchor

A configuration lays its rules over a grammar one at a time, and each is placed before its anchor in
a table that the earlier ones have rearranged. If they all name the same anchor, and have different
categories, none of them the anchor's, then they end up where one grammar of all of them would have
been placed at once: right before the anchor, in the order of the configuration.

The step from one rule to all of them is the law that placing twice before an anchor is placing both
at once. The first rule whose pattern does not compile makes the configuration fail; nothing else
does. Which patterns compile is left to the compiler, and the laws hold of any.
-/

namespace TextDecoration

/-- The category that the rule makes up, with the rule as its only alternative. It fails if the
rule's pattern does not compile. -/
def ConfiguredRule.entry (compile : Compiler) (configured : ConfiguredRule) :
    Except Error (String × List Rule) :=
  (configured.rule compile).map fun rule => (configured.category, [rule])

/-- The entries whose categories no rule of the configuration has. They are what placing the rules
leaves as it is. -/
def Config.unnamed (config : Config) (entries : List (String × List Rule)) :
    List (String × List Rule) :=
  entries.filter fun entry => entry.1 ∉ config.rules.map ConfiguredRule.category

namespace ConfiguredRule

variable {compile : Compiler}

/-- A rule whose pattern compiles makes up its category, with all its settings, and no rule does so
in another way. -/
theorem entry_eq_ok_iff {configured : ConfiguredRule} {entry : String × List Rule} :
    configured.entry compile = .ok entry ↔ ∃ pattern, compile configured.pattern = .ok pattern ∧
      entry = (configured.category,
        [{ pattern, lookbehind := configured.lookbehind, fallback := configured.fallback }]) := by
  rw [ConfiguredRule.entry, rule, Rule.ofText]
  cases compile configured.pattern with
  | error reason =>
    constructor
    · intro succeeded
      cases succeeded
    · rintro ⟨pattern, compiled, _⟩
      cases compiled
  | ok pattern =>
    constructor
    · intro succeeded
      cases succeeded
      exact ⟨pattern, rfl, rfl⟩
    · rintro ⟨_, compiled, rfl⟩
      cases compiled
      rfl

/-- A rule fails exactly if its pattern does not compile, and then it names the pattern and hands on
what the compiler says about it. -/
theorem entry_eq_error_iff {configured : ConfiguredRule} {error : Error} :
    configured.entry compile = .error error ↔ ∃ reason,
      compile configured.pattern = .error reason ∧
        error = .invalidPattern configured.pattern reason := by
  rw [ConfiguredRule.entry, rule, Rule.ofText]
  cases compile configured.pattern with
  | error reason =>
    constructor
    · intro failed
      cases failed
      exact ⟨reason, rfl, rfl⟩
    · rintro ⟨_, refused, rfl⟩
      cases refused
      rfl
  | ok pattern =>
    constructor
    · intro failed
      cases failed
    · rintro ⟨_, refused, _⟩
      cases refused

/-- Rules whose patterns all compile make up their categories. None of them can fail for another
reason. -/
theorem exists_entries {rules : List ConfiguredRule}
    (compiled : ∀ rule ∈ rules, ∃ pattern, compile rule.pattern = .ok pattern) :
    ∃ entries, rules.mapM (ConfiguredRule.entry compile) = .ok entries := by
  refine exists_mapM_of_ok fun rule listed => ?_
  obtain ⟨pattern, succeeded⟩ := compiled rule listed
  exact ⟨_, entry_eq_ok_iff.mpr ⟨pattern, succeeded, rfl⟩⟩

/-- The category that a rule makes up is the one it names, whatever its pattern compiles to. Which
categories there are is thus known before anything is compiled. -/
theorem category_entry {configured : ConfiguredRule} {entry : String × List Rule}
    (compiled : configured.entry compile = .ok entry) : entry.1 = configured.category := by
  obtain ⟨rule, _, rfl⟩ := map_eq_ok.mp compiled
  rfl

/-- Rules make up the categories they name, in their order, and a category named twice is made up
twice. -/
theorem categories_entries {rules : List ConfiguredRule} {entries : List (String × List Rule)}
    (compiled : rules.mapM (ConfiguredRule.entry compile) = .ok entries) :
    entries.map Prod.fst = rules.map ConfiguredRule.category := by
  induction rules generalizing entries with
  | nil =>
    cases compiled
    rfl
  | cons rule later inductionHypothesis =>
    rw [List.mapM_cons] at compiled
    obtain ⟨entry, first, remaining⟩ := bind_eq_ok.mp compiled
    obtain ⟨others, rest, same⟩ := bind_eq_ok.mp remaining
    cases same
    rw [List.map_cons, List.map_cons, category_entry first, inductionHypothesis rest]

/-- A rule that names an anchor is placed before it, by the same operation that places a whole
grammar. -/
theorem layOver_anchored {configured : ConfiguredRule} {anchor : String}
    (anchored : configured.before = some anchor) (grammar : Grammar) :
    ConfiguredRule.layOver compile grammar configured =
      (configured.entry compile).map fun entry => grammar.insertBefore anchor ⟨[entry]⟩ := by
  rw [layOver, entry, anchored]
  cases configured.rule compile <;> rfl

/-- Rules that name the same anchor are placed before it behind what has been placed there, in their
order. The induction is on the rules, for any grammar that is already placed. One step places the
first rule behind that grammar, which gives a longer one. -/
theorem layOver_all_anchored {grammar placed : Grammar} (distinct : grammar.Distinct)
    {anchor : String} (unnamed : anchor ∉ placed.names) {rules : List ConfiguredRule}
    (unique : (placed.names ++ rules.map ConfiguredRule.category).Nodup)
    (anchored : ∀ rule ∈ rules, rule.before = some anchor ∧ rule.category ≠ anchor) :
    rules.foldlM (ConfiguredRule.layOver compile) (grammar.insertBefore anchor placed) =
      (rules.mapM (ConfiguredRule.entry compile)).map fun entries =>
        grammar.insertBefore anchor ⟨placed.entries ++ entries⟩ := by
  induction rules generalizing placed with
  | nil =>
    change Except.ok (grammar.insertBefore anchor placed) =
      Except.ok (grammar.insertBefore anchor ⟨placed.entries ++ []⟩)
    rw [List.append_nil]
  | cons rule later inductionHypothesis =>
    obtain ⟨before, different⟩ := anchored rule List.mem_cons_self
    obtain ⟨_, _, separate⟩ := List.nodup_append.mp unique
    rw [List.foldlM_cons, List.mapM_cons, layOver_anchored before]
    cases compiled : rule.entry compile with
    | error error => rfl
    | ok entry =>
      have named : entry.1 = rule.category := category_entry compiled
      have fresh : entry.1 ∉ placed.names := by
        intro among
        exact separate entry.1 among rule.category List.mem_cons_self named
      have step := Table.insertBefore_entry distinct unnamed fresh
      have names : (⟨placed.entries ++ [entry]⟩ : Grammar).names =
          placed.names ++ [rule.category] := by
        rw [Table.names, List.map_append, ← named]
        rfl
      have unnamedStill : anchor ∉ (⟨placed.entries ++ [entry]⟩ : Grammar).names := by
        simp [names, unnamed, Ne.symm different]
      have uniqueStill : ((⟨placed.entries ++ [entry]⟩ : Grammar).names ++
          later.map ConfiguredRule.category).Nodup := by
        rw [names, List.append_assoc, List.singleton_append]
        exact unique
      have further := inductionHypothesis unnamedStill uniqueStill
        fun other member => anchored other (List.mem_cons_of_mem _ member)
      change later.foldlM (layOver compile)
        ((grammar.insertBefore anchor placed).insertBefore anchor
        ⟨[entry]⟩) = _
      rw [step, further]
      cases later.mapM (ConfiguredRule.entry compile) with
      | error error => rfl
      | ok entries =>
        change Except.ok (grammar.insertBefore anchor ⟨(placed.entries ++ [entry]) ++ entries⟩) =
          Except.ok (grammar.insertBefore anchor ⟨placed.entries ++ entry :: entries⟩)
        rw [List.append_assoc, List.singleton_append]

end ConfiguredRule

/-- A configuration whose rules all name one anchor, and have different categories that are not the
anchor's, places them before the anchor all at once. -/
theorem Config.apply_anchored {compile : Compiler} {grammar : Grammar}
    (distinct : grammar.Distinct) {anchor : String}
    {config : Config} (unique : (config.rules.map ConfiguredRule.category).Nodup)
    (anchored : ∀ rule ∈ config.rules, rule.before = some anchor ∧ rule.category ≠ anchor) :
    config.apply compile grammar =
      (config.rules.mapM (ConfiguredRule.entry compile)).map fun entries =>
        grammar.insertBefore anchor ⟨entries⟩ := by
  have unnamed : anchor ∉ (Table.empty : Grammar).names := by simp [Table.empty, Table.names]
  have started : config.rules.foldlM (ConfiguredRule.layOver compile)
      (grammar.insertBefore anchor Table.empty) = _ :=
    ConfiguredRule.layOver_all_anchored distinct unnamed unique anchored
  rw [Table.insertBefore_empty distinct] at started
  exact started

/-- What is kept beside the categories of a configuration is what none of its rules names. Their
patterns have no say in that. -/
theorem Config.without_entries {compile : Compiler} {config : Config}
    {entries : List (String × List Rule)}
    (compiled : config.rules.mapM (ConfiguredRule.entry compile) = .ok entries)
    (kept : List (String × List Rule)) :
    Table.without (⟨entries⟩ : Grammar) kept = config.unnamed kept := by
  have categories := ConfiguredRule.categories_entries compiled
  rw [Table.without, Config.unnamed]
  apply List.filter_congr
  intro entry _
  rw [Table.contains, Table.names, categories]
  simp only [List.contains_eq_mem, decide_not]

/-- Placing a grammar and then another one before the same anchor gives what placing both at once
gives, the first ahead of the second, if they have no category in common and the first does not have
the anchor's. The second may have it, both may have categories of the grammar on either side of the
anchor, and the grammar may lack the anchor. So a configuration whose rules all name one anchor of
the grammar, and have different categories that are not the anchor's, puts them right before it, in
the order of the configuration. It fails exactly if one of the patterns does not compile, at the
first of these. -/
theorem Grammar.Reachable.insertBefore_batched (grammar : Grammar) (built : grammar.Reachable)
    (anchor : String) :
    (∀ first second : Grammar, second.Reachable →
      (∀ category ∈ second.categories, category ∉ first.categories) →
      anchor ∉ first.categories →
        Table.insertBefore (grammar.insertBefore anchor first) anchor second =
          grammar.insertBefore anchor (first.extend second)) ∧
      ∀ ahead rules behind, grammar.entries = ahead ++ (anchor, rules) :: behind →
        ∀ (compile : Compiler) (config : Config),
          (config.rules.map ConfiguredRule.category).Nodup →
          (∀ rule ∈ config.rules, rule.before = some anchor ∧ rule.category ≠ anchor) →
            config.apply compile grammar =
              (config.rules.mapM (ConfiguredRule.entry compile)).map fun entries =>
                ⟨config.unnamed ahead ++ entries ++ (anchor, rules) :: config.unnamed behind⟩ := by
  constructor
  · intro first second builtSecond apart unnamed
    exact Table.insertBefore_insertBefore built.distinct builtSecond.distinct apart unnamed
  · intro ahead rules behind parts compile config unique anchored
    obtain ⟨before, after⟩ := built.distinct.alone parts
    rw [Config.apply_anchored built.distinct unique anchored]
    cases compiled : config.rules.mapM (ConfiguredRule.entry compile) with
    | error error => rfl
    | ok entries =>
      have foreign : (⟨entries⟩ : Grammar).contains anchor = false := by
        rw [Table.contains_eq_false_iff, Table.names, ConfiguredRule.categories_entries compiled]
        intro named
        obtain ⟨rule, member, same⟩ := List.mem_map.mp named
        exact (anchored rule member).2 same
      have placed : grammar.insertBefore anchor ⟨entries⟩ =
          ⟨config.unnamed ahead ++ entries ++ (anchor, rules) :: config.unnamed behind⟩ := by
        apply Table.eq_of_entries_eq
        rw [Table.insertBefore_present ⟨entries⟩ parts before after, foreign,
          Config.without_entries compiled, Config.without_entries compiled]
        rfl
      exact congrArg Except.ok placed

/-- Entities and comments, placed before the tags of the markup grammar from behind and ahead of
them, and then the parts of a tag, which replace the tags. A configuration puts titles and entities
before the tags as well. -/
theorem Grammar.Reachable.insertBefore_batched_markup :
    Builtin.Markup.grammar.Reachable ∧
      Table.insertBefore (Builtin.Markup.grammar.insertBefore "tag"
          ((Grammar.empty.rule "entity" (.ofPattern Builtin.Markup.numericEntity)).rule "comment"
            (.ofPattern Builtin.Markup.comment))) "tag" Builtin.Markup.tagInside =
        Builtin.Markup.grammar.insertBefore "tag"
          (((Grammar.empty.rule "entity" (.ofPattern Builtin.Markup.numericEntity)).rule "comment"
            (.ofPattern Builtin.Markup.comment)).extend Builtin.Markup.tagInside) ∧
      ∃ placed : Grammar, Config.apply { rules :=
          [{ category := "title", pattern := "#.+", before := some "tag" },
            { category := "entity", pattern := "&[a-z]+;", before := some "tag" }] }
          Pattern.compile Builtin.Markup.grammar = .ok placed ∧
        placed.categories =
          ["comment", "prolog", "doctype", "cdata", "title", "entity", "tag"] := by
  obtain ⟨batched, laid⟩ := Grammar.Reachable.insertBefore_batched Builtin.Markup.grammar
    Builtin.Markup.reachable "tag"
  refine ⟨Builtin.Markup.reachable, ?_, ?_⟩
  · exact batched _ _ Builtin.Markup.tagInside_reachable (by decide) (by decide)
  · have parts : Builtin.Markup.grammar.entries = Builtin.Markup.grammar.entries.take 4 ++
        ("tag", [(Rule.ofPattern Builtin.Markup.tag).withInside Builtin.Markup.tagInside]) ::
          Builtin.Markup.grammar.entries.drop 5 := rfl
    have read : ∀ rule ∈ [({ category := "title", pattern := "#.+", before := some "tag" } :
          ConfiguredRule),
        { category := "entity", pattern := "&[a-z]+;", before := some "tag" }],
        (Pattern.readMeaning rule.pattern.toList).isSome = true := by decide +kernel
    obtain ⟨entries, compiled⟩ := ConfiguredRule.exists_entries fun rule listed =>
      ⟨_, Pattern.compile_known (read rule listed)⟩
    have named := ConfiguredRule.categories_entries compiled
    rw [laid _ _ _ parts _ _ (by decide) (by decide), compiled]
    refine ⟨_, rfl, ?_⟩
    rw [Grammar.categories, Table.names, List.map_append, List.map_append, named]
    rfl

end TextDecoration
