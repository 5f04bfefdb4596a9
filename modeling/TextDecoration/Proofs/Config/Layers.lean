import TextDecoration.Proofs.Config.Anchored
import TextDecoration.Proofs.Table.Layers

/-!
# Rules laid over a grammar

A configuration lays its rules over a grammar one after the other, each in the place of its
category, at the end, or ahead of an anchor that may be missing or may have been moved by the rules
before. Whatever their order and their anchors, the last rule of a category decides over it, the
categories that no rule names keep their rules and their order, and nothing else is in the result.

The rules are compiled one after the other, too, so the first pattern that does not compile makes
the configuration fail. It fails for no other reason: laying a rule over a grammar always succeeds.
What compiles is up to the compiler, and nothing that is said here depends on which one it is.

One rule's entry, laid over what the rules before have left, is the step; `layOver_all` is the run.
-/

namespace TextDecoration

namespace ConfiguredRule

variable {compile : Compiler}

/-- Laying a rule over a grammar is laying its category over it, at the anchor that the rule names
or behind everything. -/
theorem layOver_eq (grammar : Grammar) (configured : ConfiguredRule) :
    ConfiguredRule.layOver compile grammar configured =
      (configured.entry compile).map (grammar.lay configured.before) := by
  rw [layOver, entry]
  cases before : configured.before <;> cases configured.rule compile <;> rfl

/-- Rules laid over a grammar one after the other fail as making up their categories does, and else
leave the grammar with their categories laid over it. -/
theorem layOver_all (compile : Compiler) {base grammar : Grammar}
    {entries : List (String × List Rule)}
    (laid : Table.Overlaid base entries grammar) (rules : List ConfiguredRule) :
    match rules.mapM (ConfiguredRule.entry compile) with
    | .error error => rules.foldlM (ConfiguredRule.layOver compile) grammar = .error error
    | .ok further => ∃ result, rules.foldlM (ConfiguredRule.layOver compile) grammar = .ok result ∧
        Table.Overlaid base (entries ++ further) result := by
  induction rules generalizing grammar entries with
  | nil => exact ⟨grammar, rfl, (List.append_nil entries).symm ▸ laid⟩
  | cons rule later inductionHypothesis =>
    rw [List.foldlM_cons, List.mapM_cons, layOver_eq]
    cases compiled : rule.entry compile with
    | error error => rfl
    | ok entry =>
      have behind := inductionHypothesis (laid.lay rule.before entry)
      change match (do
          let others ← later.mapM (ConfiguredRule.entry compile)
          pure (entry :: others) : Except Error (List (String × List Rule))) with
        | .error error => later.foldlM (layOver compile) (grammar.lay rule.before entry) =
          .error error
        | .ok further => ∃ result,
            later.foldlM (layOver compile) (grammar.lay rule.before entry) = .ok result ∧
              Table.Overlaid base (entries ++ further) result
      cases remaining : later.mapM (ConfiguredRule.entry compile) with
      | error error =>
        rw [remaining] at behind
        exact behind
      | ok others =>
        rw [remaining] at behind
        obtain ⟨result, run, laidAll⟩ := behind
        exact ⟨result, run, by simpa using laidAll⟩

end ConfiguredRule

namespace Config

variable {compile : Compiler} {config : Config} {base grammar : Grammar}

/-- A configuration fails at its first rule whose pattern does not compile, and names that pattern.
Later patterns are not compiled at all. -/
theorem apply_eq_error_iff (distinct : base.Distinct) {error : Error} :
    config.apply compile base = .error error ↔ ∃ ahead rule behind reason,
      config.rules = ahead ++ rule :: behind ∧
      (∀ other ∈ ahead, ∃ pattern, compile other.pattern = .ok pattern) ∧
      compile rule.pattern = .error reason ∧ error = .invalidPattern rule.pattern reason := by
  have run := ConfiguredRule.layOver_all compile (Table.Overlaid.bare distinct) config.rules
  have same : config.apply compile base = .error error ↔
      config.rules.mapM (ConfiguredRule.entry compile) = .error error := by
    rw [Config.apply]
    split at run
    · next other failed =>
      rw [run, failed]
      constructor <;> rintro ⟨⟩ <;> rfl
    · next entries succeeded =>
      obtain ⟨result, finished, _⟩ := run
      rw [finished, succeeded]
      constructor <;> rintro ⟨⟩
  rw [same, mapM_eq_error_iff]
  constructor
  · rintro ⟨ahead, rule, behind, parts, succeeded, failed⟩
    obtain ⟨reason, refused, named⟩ := ConfiguredRule.entry_eq_error_iff.mp failed
    refine ⟨ahead, rule, behind, reason, parts, fun other among => ?_, refused, named⟩
    obtain ⟨entry, made⟩ := succeeded other among
    obtain ⟨pattern, compiled, _⟩ := ConfiguredRule.entry_eq_ok_iff.mp made
    exact ⟨pattern, compiled⟩
  · rintro ⟨ahead, rule, behind, reason, parts, compiled, refused, named⟩
    refine ⟨ahead, rule, behind, parts, fun other among => ?_,
      ConfiguredRule.entry_eq_error_iff.mpr ⟨reason, refused, named⟩⟩
    obtain ⟨pattern, succeeded⟩ := compiled other among
    exact ⟨_, ConfiguredRule.entry_eq_ok_iff.mpr ⟨pattern, succeeded, rfl⟩⟩

/-- A grammar over which a configuration was laid has the categories of the configuration laid over
it, which says all about its categories, their rules and their order. -/
theorem overlaid_of_apply (distinct : base.Distinct)
    (applied : config.apply compile base = .ok grammar) :
    ∃ entries, config.rules.mapM (ConfiguredRule.entry compile) = .ok entries ∧
      Table.Overlaid base entries grammar := by
  have run := ConfiguredRule.layOver_all compile (Table.Overlaid.bare distinct) config.rules
  rw [Config.apply] at applied
  split at run
  · rw [applied] at run
    cases run
  · next entries succeeded =>
    obtain ⟨result, finished, laid⟩ := run
    cases applied.symm.trans finished
    exact ⟨entries, succeeded, laid⟩

end Config

/-- A configuration lays its rules over a grammar, or it fails at the first of them whose pattern
does not compile. Whether it fails does not depend on the grammar or on any anchor. If it does not,
then the result has the categories of the grammar and those of the rules, each once; a category that
rules name has one rule, the last of these with its settings; every other category has the rules
that it had; and of the other categories none has changed places with another one. All of this holds
whatever the compiler admits and whatever it says about what it refuses. -/
theorem Grammar.Reachable.apply_last (compile : Compiler) (base : Grammar) (built : base.Reachable)
    (config : Config) :
    ((∃ error, config.apply compile base = .error error) ↔
        ∃ rule ∈ config.rules, ∃ reason, compile rule.pattern = .error reason) ∧
      (∀ error, config.apply compile base = .error error ↔
        ∃ ahead rule behind reason, config.rules = ahead ++ rule :: behind ∧
          (∀ other ∈ ahead, ∃ pattern, compile other.pattern = .ok pattern) ∧
          compile rule.pattern = .error reason ∧ error = .invalidPattern rule.pattern reason) ∧
      ∀ grammar : Grammar, config.apply compile base = .ok grammar →
        grammar.categories.Nodup ∧
        (∀ category, category ∈ grammar.categories ↔
          category ∈ base.categories ∨ category ∈ config.rules.map ConfiguredRule.category) ∧
        (∀ ahead rule behind, config.rules = ahead ++ rule :: behind →
          (∀ other ∈ behind, other.category ≠ rule.category) →
            ∃ pattern, compile rule.pattern = .ok pattern ∧
              grammar.get? rule.category =
                some [{ pattern, lookbehind := rule.lookbehind, fallback := rule.fallback }]) ∧
        (∀ category, category ∉ config.rules.map ConfiguredRule.category →
          grammar.get? category = base.get? category) ∧
        (grammar.categories.filter fun category =>
            category ∉ config.rules.map ConfiguredRule.category) =
          base.categories.filter fun category =>
            category ∉ config.rules.map ConfiguredRule.category := by
  have fails : ∀ error, config.apply compile base = .error error ↔
      ∃ ahead rule behind reason, config.rules = ahead ++ rule :: behind ∧
        (∀ other ∈ ahead, ∃ pattern, compile other.pattern = .ok pattern) ∧
        compile rule.pattern = .error reason ∧ error = .invalidPattern rule.pattern reason :=
    fun error => Config.apply_eq_error_iff built.distinct
  refine ⟨?_, fails, ?_⟩
  · constructor
    · rintro ⟨error, failed⟩
      obtain ⟨ahead, rule, behind, reason, parts, _, refused, _⟩ := (fails error).mp failed
      exact ⟨rule, by simp [parts], reason, refused⟩
    · rintro ⟨rule, listed, reason, refused⟩
      -- Otherwise all rules would make up their categories, this one too.
      cases outcome : config.apply compile base with
      | error error => exact ⟨error, rfl⟩
      | ok grammar =>
        obtain ⟨entries, compiled, _⟩ := Config.overlaid_of_apply built.distinct outcome
        obtain ⟨ahead, behind, parts⟩ := List.append_of_mem listed
        rw [parts] at compiled
        obtain ⟨_, _, _, own, _⟩ := mapM_middle_of_ok compiled
        obtain ⟨pattern, succeeded, _⟩ := ConfiguredRule.entry_eq_ok_iff.mp own
        cases refused.symm.trans succeeded
  · intro grammar applied
    obtain ⟨entries, compiled, laid⟩ := Config.overlaid_of_apply built.distinct applied
    have named := ConfiguredRule.categories_entries compiled
    refine ⟨laid.distinct, ?_, ?_, ?_, ?_⟩
    · intro category
      rw [← named]
      exact laid.mem_names
    · intro ahead rule behind parts last
      rw [parts] at compiled
      obtain ⟨before, _, after, own, rest, rfl⟩ := mapM_middle_of_ok compiled
      obtain ⟨pattern, succeeded, rfl⟩ := ConfiguredRule.entry_eq_ok_iff.mp own
      refine ⟨pattern, succeeded, laid.get?_last rfl ?_⟩
      rw [ConfiguredRule.categories_entries rest]
      intro among
      obtain ⟨other, member, same⟩ := List.mem_map.mp among
      exact last other member same
    · intro category unnamed
      rw [← named] at unnamed
      exact laid.get?_unnamed unnamed
    · rw [← named]
      exact laid.order

/-- Rules for tags around one for mentions: the first one's anchor is missing, the second one's has
been moved by the first, and the third replaces the first where it stands. -/
def aroundMentions : Config where
  rules :=
    [{ category := "tag", pattern := "a+", before := some "mention" },
      { category := "mention", pattern := "@\\w+", before := some "tag" },
      { category := "tag", pattern := "(b)c", fallback := some "code", lookbehind := true }]

/-- Over the markup grammar only the last rule for tags counts, and the other categories stay in
order. With a pattern that does not compile behind the first rule, laying the rules fails and names
it. -/
theorem Grammar.Reachable.apply_last_mentions :
    Builtin.Markup.grammar.Reachable ∧
      (∃ (grammar : Grammar) (pattern : Pattern),
        aroundMentions.apply Pattern.compile Builtin.Markup.grammar = .ok grammar ∧
        grammar.get? "tag" = some [{ pattern, lookbehind := true, fallback := some "code" }] ∧
        grammar.get? "entity" = Builtin.Markup.grammar.get? "entity" ∧
        (grammar.categories.filter fun category => category ∉ ["tag", "mention", "tag"]) =
          ["comment", "prolog", "doctype", "cdata", "entity"]) ∧
      ∃ reason, Config.apply { rules := { category := "title", pattern := "#.+" } ::
          { category := "list", pattern := "(" } :: aroundMentions.rules } Pattern.compile
          Builtin.Markup.grammar = .error (.invalidPattern "(" reason) := by
  obtain ⟨fails, _, layers⟩ := Grammar.Reachable.apply_last Pattern.compile Builtin.Markup.grammar
    Builtin.Markup.reachable aroundMentions
  obtain ⟨_, first, _⟩ := Grammar.Reachable.apply_last Pattern.compile Builtin.Markup.grammar
    Builtin.Markup.reachable { rules := { category := "title", pattern := "#.+" } ::
      { category := "list", pattern := "(" } :: aroundMentions.rules }
  refine ⟨Builtin.Markup.reachable, ?_, ?_⟩
  · cases outcome : aroundMentions.apply Pattern.compile Builtin.Markup.grammar with
    | error error =>
      obtain ⟨rule, listed, reason, refused⟩ := fails.mp ⟨error, outcome⟩
      have read : ∀ rule ∈ aroundMentions.rules,
          (Pattern.readMeaning rule.pattern.toList).isSome = true := by
        decide +kernel
      cases refused.symm.trans (Pattern.compile_known (read rule listed))
    | ok grammar =>
      obtain ⟨_, _, last, kept, order⟩ := layers grammar outcome
      obtain ⟨pattern, _, found⟩ := last (aroundMentions.rules.take 2)
        { category := "tag", pattern := "(b)c", fallback := some "code", lookbehind := true } []
        rfl (by simp)
      exact ⟨grammar, pattern, rfl, found, kept "entity" (by decide), order⟩
  · obtain ⟨reason, refused⟩ : ∃ reason, Pattern.compile "(" = .error reason :=
      Pattern.compile_unknown (by decide +kernel)
    refine ⟨reason, (first _).mpr ⟨[{ category := "title", pattern := "#.+" }],
      { category := "list", pattern := "(" }, aroundMentions.rules, reason, rfl, ?_, refused, rfl⟩⟩
    intro other among
    rw [List.mem_singleton.mp among]
    exact ⟨_, Pattern.compile_known (by decide +kernel)⟩

end TextDecoration
