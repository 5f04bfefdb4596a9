import Mathlib.Data.List.Forall2
import TextDecoration.Proofs.Config.Fields
import TextDecoration.Proofs.Toml.Keys

/-!
# Which documents are configurations

A document is read as a configuration exactly if it has the documented shape: no field but those
named here, each with a value of its kind, and in every rule at least a category and a pattern. What
is read is what the document writes, or the default where it writes nothing, and the rules are in
the order of the document. The order of the keys does not matter, neither in the document nor in the
table of a rule.

Other spellings are read besides the documented ones: a policy as a table with its name as the only
key, and a rule as an array of its values. The shape leaves them out, so what is said about it is
said of documents without them. The order of the keys matters to no document.
-/

namespace TextDecoration

/-- The word for a policy, as a document writes it. Documents have other spellings, which the shape
leaves out. -/
def TagPolicy.word : TagPolicy → String
  | .outermost => "outermost"
  | .nested => "nested"

/-! ## The documented shape -/

/-- A field that a rule may have, with a value of its kind. The names are those that documents
use. -/
inductive IsRuleField : String × Toml.Value → Prop
  | category (text : String) : IsRuleField ("category", .string text)
  | pattern (text : String) : IsRuleField ("pattern", .string text)
  | fallback (text : String) : IsRuleField ("alias", .string text)
  | lookbehind (b : Bool) : IsRuleField ("lookbehind", .boolean b)
  | before (text : String) : IsRuleField ("before", .string text)

/-- The fields of a rule, among them the two that have to be there. No field is one that a rule may
not have. -/
structure IsRule (fields : List (String × Toml.Value)) : Prop where
  known : ∀ field ∈ fields, IsRuleField field
  category : "category" ∈ fields.map Prod.fst
  pattern : "pattern" ∈ fields.map Prod.fst

/-- A field that a configuration may have, with a value of its kind. A policy is one of two words,
and rules are tables. -/
inductive IsField : String × Toml.Value → Prop
  | grammar (text : String) : IsField ("grammar", .string text)
  | policy (policy : TagPolicy) : IsField ("nested-tags", .string policy.word)
  | rules {elements : List Toml.Value}
      (each : ∀ element ∈ elements, ∃ fields, element = .table fields ∧ IsRule fields) :
      IsField ("rule", .array elements)

/-- A document that has the shape of a configuration. All of its fields may be missing. -/
def IsConfiguration (entries : List (String × Toml.Value)) : Prop :=
  ∀ entry ∈ entries, IsField entry

/-- A rule holds what its fields write, or the defaults. Two of the five fields have none. -/
structure ConfiguredRule.WrittenIn (rule : ConfiguredRule) (fields : List (String × Toml.Value)) :
    Prop where
  category : fields.lookup "category" = some (.string rule.category)
  pattern : fields.lookup "pattern" = some (.string rule.pattern)
  fallback : fields.lookup "alias" = rule.fallback.map .string
  lookbehind : (fields.lookup "lookbehind").getD (.boolean false) = .boolean rule.lookbehind
  before : fields.lookup "before" = rule.before.map .string

/-- A configuration holds what a document writes, or the defaults. A grammar that is not named is
left open here. -/
structure Config.WrittenIn (config : Config) (entries : List (String × Toml.Value)) : Prop where
  grammar : entries.lookup "grammar" = config.grammar.map .string
  policy : (entries.lookup "nested-tags").getD (.string "outermost") = .string config.policy.word
  rules : ∃ elements, (entries.lookup "rule").getD (.array []) = .array elements ∧
    List.Forall₂ (fun element rule => ∃ fields, element = .table fields ∧
      ConfiguredRule.WrittenIn rule fields) elements config.rules

/-- An optional text is determined by the string it is written as, since no two texts are written as
one string. -/
theorem eq_of_map_string {text other : Option String}
    (same : text.map Toml.Value.string = other.map .string) : text = other :=
  Option.map_injective (fun _ _ equal => Toml.Value.string.inj equal) same

/-- The fields of a rule write one rule. To hold what they write is therefore a full account of the
rule. -/
theorem ConfiguredRule.WrittenIn.unique {rule other : ConfiguredRule}
    {fields : List (String × Toml.Value)} (written : rule.WrittenIn fields)
    (same : other.WrittenIn fields) : rule = other := by
  have category : rule.category = other.category := by
    simpa using written.category.symm.trans same.category
  have pattern : rule.pattern = other.pattern := by
    simpa using written.pattern.symm.trans same.pattern
  have fallback := eq_of_map_string (written.fallback.symm.trans same.fallback)
  have lookbehind : rule.lookbehind = other.lookbehind := by
    simpa using written.lookbehind.symm.trans same.lookbehind
  have before := eq_of_map_string (written.before.symm.trans same.before)
  cases rule
  cases other
  simp_all

/-- A document writes one configuration. Rules are compared one by one, as they stand in the
document's array. -/
theorem Config.WrittenIn.unique {config other : Config} {entries : List (String × Toml.Value)}
    (written : config.WrittenIn entries) (same : other.WrittenIn entries) : config = other := by
  have grammar := eq_of_map_string (written.grammar.symm.trans same.grammar)
  have policy : config.policy = other.policy := by
    have words : config.policy.word = other.policy.word := by
      simpa using written.policy.symm.trans same.policy
    cases ofConfig : config.policy <;> cases ofOther : other.policy <;>
      simp_all [TagPolicy.word]
  have rules : config.rules = other.rules := by
    obtain ⟨elements, found, each⟩ := written.rules
    obtain ⟨_, foundSame, eachSame⟩ := same.rules
    rw [found] at foundSame
    cases foundSame
    refine List.right_unique_forall₂' ?_ each eachSame
    rintro element rule other ⟨fields, rfl, writtenRule⟩ ⟨_, ⟨⟩, sameRule⟩
    exact writtenRule.unique sameRule
  cases config
  cases other
  simp_all

namespace Config

/-! ## Parts with their defaults -/

section Parts

variable {State Fault : Type} {step : State → String × Toml.Value → Except Fault State}
  {fields : List (String × Toml.Value)} {name : String} {state last : State}

/-- An optional text holds the string under its name, or nothing if there is no field of that name
and it held nothing before. -/
theorem lookup_eq_map {part : State → Option String}
    (determines : Determines step name part HoldsText) (keys : (fields.map Prod.fst).Nodup)
    (done : fields.foldlM step state = .ok last) (default : part state = none) :
    fields.lookup name = (part last).map .string := by
  rcases determines.foldlM keys done with ⟨value, found, held⟩ | ⟨missing, kept⟩
  · rw [found]
    exact held.symm
  · rw [missing, kept, default]
    rfl

/-- A text that has to be there is there if there is a field of its name; for the value of that
field was read as a text. -/
theorem isSome_of_mem_keys {part : State → Option String}
    (determines : Determines step name part HoldsText) (keys : (fields.map Prod.fst).Nodup)
    (done : fields.foldlM step state = .ok last) (present : name ∈ fields.map Prod.fst) :
    ∃ text, part last = some text := by
  obtain ⟨field, member, rfl⟩ := List.mem_map.mp present
  have found : fields.lookup field.1 = some field.2 := (lookup_eq_some_iff_mem keys).mpr member
  rcases determines.foldlM keys done with ⟨value, _, held⟩ | ⟨missing, _⟩
  · obtain ⟨text, text_eq, _⟩ := Option.map_eq_some_iff.mp held
    exact ⟨text, text_eq⟩
  · rw [found] at missing
    cases missing

end Parts

/-- There is a field of a name if there is a value under it. Nothing is said about how many there
are. -/
theorem mem_keys_of_lookup {fields : List (String × Toml.Value)} {name : String}
    {value : Toml.Value} (found : fields.lookup name = some value) :
    name ∈ fields.map Prod.fst := by
  obtain ⟨before, behind, rfl, _⟩ := List.lookup_eq_some_iff.mp found
  simp

/-! ## Rules -/

/-- The fields that a rule may have can be read, and no others. What was read before makes no
difference. -/
theorem exists_readRuleField {state : RuleFields} {field : String × Toml.Value} :
    (∃ next, readRuleField state field = .ok next) ↔ IsRuleField field := by
  simp only [readRuleField_eq_ok]
  constructor
  · rintro ⟨next, _ | _ | _ | _ | _⟩ <;> constructor
  · rintro (_ | _ | _ | _ | _) <;> exact ⟨_, by constructor⟩

/-- A rule is complete if its category and its pattern are there. Everything else has a default. -/
theorem rule_eq_ok {fields : RuleFields} {missing : Nat → String → ConfigFault}
    {rule : ConfiguredRule} : fields.rule missing = .ok rule ↔
      fields = { category := some rule.category, pattern := some rule.pattern
                 fallback := rule.fallback, lookbehind := rule.lookbehind
                 before := rule.before } := by
  obtain ⟨category, pattern, fallback, lookbehind, before⟩ := fields
  obtain ⟨ruleCategory, rulePattern, ruleFallback, ruleLookbehind, ruleBefore⟩ := rule
  cases category <;> cases pattern <;> simp [RuleFields.rule]

/-- A rule that is read holds what its table writes, and nothing that the table does not write. -/
theorem writtenIn_of_readRule {fields : List (String × Toml.Value)}
    (keys : (fields.map Prod.fst).Nodup) {rule : ConfiguredRule}
    (done : readRule (.table fields) = .ok rule) : rule.WrittenIn fields := by
  obtain ⟨state, read, complete⟩ := bind_eq_ok.mp done
  cases rule_eq_ok.mp complete
  have category := lookup_eq_map TextPart.category.determines keys read rfl
  have pattern := lookup_eq_map TextPart.pattern.determines keys read rfl
  have fallback := lookup_eq_map TextPart.fallback.determines keys read rfl
  have before := lookup_eq_map TextPart.before.determines keys read rfl
  refine ⟨category, pattern, fallback, ?_, before⟩
  rcases determines_lookbehind.foldlM keys read with ⟨value, found, held⟩ | ⟨missing, kept⟩
  · rw [found]
    exact held
  · rw [missing]
    exact congrArg Toml.Value.boolean kept.symm

/-- A table is read as a rule exactly if its fields are those of a rule. Both directions need its
keys to be distinct, as those of a document's tables are. -/
theorem exists_readRule {fields : List (String × Toml.Value)}
    (keys : (fields.map Prod.fst).Nodup) :
    (∃ rule, readRule (.table fields) = .ok rule) ↔ IsRule fields := by
  constructor
  · rintro ⟨rule, done⟩
    have written := writtenIn_of_readRule keys done
    obtain ⟨state, read, _⟩ := bind_eq_ok.mp done
    have readable := (steady_readRuleField.exists_foldlM_ok _).mp ⟨state, read⟩
    refine ⟨fun field member => exists_readRuleField.mp (readable field member), ?_, ?_⟩
    · exact mem_keys_of_lookup written.category
    · exact mem_keys_of_lookup written.pattern
  · rintro ⟨known, category, pattern⟩
    obtain ⟨state, read⟩ := (steady_readRuleField.exists_foldlM_ok {}).mpr
      fun field member => exists_readRuleField.mpr (known field member)
    obtain ⟨categoryText, categoryThere⟩ :=
      isSome_of_mem_keys TextPart.category.determines keys read category
    obtain ⟨patternText, patternThere⟩ :=
      isSome_of_mem_keys TextPart.pattern.determines keys read pattern
    obtain ⟨_, _, fallback, lookbehind, before⟩ := state
    cases categoryThere
    cases patternThere
    exact ⟨⟨categoryText, patternText, fallback, lookbehind, before⟩,
      bind_eq_ok.mpr ⟨_, read, rule_eq_ok.mpr rfl⟩⟩

/-- Rules are read from an array, each from an element, and from no other value. -/
theorem readRules_eq_ok {value : Toml.Value} {rules : List ConfiguredRule} :
    readRules value = .ok rules ↔ ∃ elements, value = .array elements ∧
      List.Forall₂ (fun element rule => readRule element = .ok rule) elements rules := by
  cases value <;> simp [readRules, mapM_eq_ok_iff]

/-- An array of tables is read as rules exactly if each table is one. One table that is none makes
all of them unread. -/
theorem exists_readRules {elements : List Toml.Value}
    (distinct : (Toml.Value.array elements).Distinct)
    (tables : ∀ element ∈ elements, ∃ fields, element = .table fields) :
    (∃ rules, readRules (.array elements) = .ok rules) ↔
      ∀ element ∈ elements, ∃ fields, element = .table fields ∧ IsRule fields := by
  simp only [readRules, mapM_eq_ok_iff, exists_forall₂]
  refine forall₂_congr fun element member => ?_
  obtain ⟨fields, rfl⟩ := tables element member
  rw [exists_readRule (distinct.of_mem_array member).keys]
  constructor
  · exact fun rule => ⟨fields, rfl, rule⟩
  · rintro ⟨_, ⟨⟩, rule⟩
    exact rule

/-- Rules that are read hold what their tables write, in the order of the tables, which is the order
in which they will be laid over a grammar. -/
theorem writtenIn_of_readRules {elements : List Toml.Value}
    (distinct : (Toml.Value.array elements).Distinct)
    (tables : ∀ element ∈ elements, ∃ fields, element = .table fields)
    {rules : List ConfiguredRule} (done : readRules (.array elements) = .ok rules) :
    List.Forall₂ (fun element rule => ∃ fields, element = .table fields ∧
      ConfiguredRule.WrittenIn rule fields) elements rules := by
  have read := (List.forall₂_and_left _ _).mpr
    ⟨fun element member => And.intro (distinct.of_mem_array member) (tables element member),
      mapM_eq_ok_iff.mp done⟩
  refine read.imp ?_
  rintro element rule ⟨⟨known, fields, rfl⟩, own⟩
  exact ⟨fields, rfl, writtenIn_of_readRule known.keys own⟩

/-! ## Policies -/

/-- A word is read as the policy whose word it is. The two words are compared exactly, case
included. -/
theorem readPolicyName_eq_ok {word : String} {policy : TagPolicy} :
    readPolicyName word = .ok policy ↔ word = policy.word := by
  by_cases outermost : word = "outermost"
  · cases policy <;> simp [readPolicyName, policies, outermost, TagPolicy.word]
  by_cases nested : word = "nested"
  · cases policy <;> simp [readPolicyName, policies, nested, TagPolicy.word, List.lookup_cons]
  · have unknown : policies.lookup word = none := by
      simp [policies, List.lookup_cons, beq_false_of_ne outermost, beq_false_of_ne nested]
    cases policy <;> simp [readPolicyName, unknown, outermost, nested, TagPolicy.word]

/-- Of what is no table, the words for a policy are read and nothing else. A table with a policy's
name as its only key is read as well, which is why it is left out here. -/
theorem readPolicy_eq_ok {value : Toml.Value} (noTable : ∀ entries, value ≠ .table entries)
    {policy : TagPolicy} : readPolicy value = .ok policy ↔ value = .string policy.word := by
  cases value with
  | string word => simp [readPolicy, readPolicyName_eq_ok]
  | table entries => exact absurd rfl (noTable entries)
  | _ => simp [readPolicy]

/-! ## Fields -/

/-- A document without the spellings that the shape leaves out: a table in place of a policy's word,
and elements of the array of rules that are no tables. -/
structure Plain (entries : List (String × Toml.Value)) : Prop where
  policy : ∀ fields, ("nested-tags", .table fields) ∉ entries
  rules : ∀ elements, ("rule", .array elements) ∈ entries →
    ∀ element ∈ elements, ∃ fields, element = .table fields

/-- The fields that a configuration may have can be read, and no others, where the document writes
them plainly. -/
theorem exists_readField {entries : List (String × Toml.Value)}
    (distinct : (Toml.Value.table entries).Distinct) (plain : Plain entries) {config : Config}
    {field : String × Toml.Value} (member : field ∈ entries) :
    (∃ next, readField config field = .ok next) ↔ IsField field := by
  simp only [readField_eq_ok]
  constructor
  · rintro ⟨next, read⟩
    cases read with
    | grammar text => exact .grammar text
    | @policy value policy read =>
      have written := (readPolicy_eq_ok fun fields same => by
        subst same
        exact plain.policy fields member).mp read
      rw [written]
      exact .policy policy
    | @rules value rules read =>
      obtain ⟨elements, rfl, _⟩ := readRules_eq_ok.mp read
      have tables := plain.rules elements member
      exact .rules ((exists_readRules (distinct.of_mem_table member) tables).mp ⟨rules, read⟩)
  · intro shape
    cases shape with
    | grammar text => exact ⟨_, .grammar text⟩
    | policy policy =>
      have read : readPolicy (.string policy.word) = .ok policy :=
        readPolicyName_eq_ok.mpr rfl
      exact ⟨_, .policy read⟩
    | @rules elements each =>
      have tables := plain.rules elements member
      obtain ⟨rules, read⟩ := (exists_readRules (distinct.of_mem_table member) tables).mpr each
      exact ⟨_, .rules read⟩

/-- A document is read exactly if it has the shape of a configuration. Each field is read by itself,
so this is a statement about all fields. -/
theorem exists_ofEntries {entries : List (String × Toml.Value)}
    (distinct : (Toml.Value.table entries).Distinct) (plain : Plain entries) :
    (∃ config, ofEntries entries = .ok config) ↔ IsConfiguration entries := by
  rw [IsConfiguration]
  simp only [ofEntries]
  rw [steady_readField.exists_foldlM_ok]
  exact forall₂_congr fun field member => exists_readField distinct plain member

/-- A configuration that is read holds what the document writes, and the defaults for what it does
not write. -/
theorem writtenIn_of_ofEntries {entries : List (String × Toml.Value)}
    (distinct : (Toml.Value.table entries).Distinct) (plain : Plain entries) {config : Config}
    (done : ofEntries entries = .ok config) : config.WrittenIn entries := by
  rw [ofEntries] at done
  refine ⟨lookup_eq_map determines_grammar distinct.keys done rfl, ?_, ?_⟩
  · rcases determines_policy.foldlM distinct.keys done with ⟨value, found, read⟩ | ⟨missing, kept⟩
    · have member := (lookup_eq_some_iff_mem distinct.keys).mp found
      rw [found]
      exact (readPolicy_eq_ok fun fields same => by
        subst same
        exact plain.policy fields member).mp read
    · rw [missing, kept]
      rfl
  · rcases determines_rules.foldlM distinct.keys done with ⟨value, found, read⟩ | ⟨missing, kept⟩
    · have member := (lookup_eq_some_iff_mem distinct.keys).mp found
      obtain ⟨elements, rfl, _⟩ := readRules_eq_ok.mp read
      have rules := writtenIn_of_readRules (distinct.of_mem_table member)
        (plain.rules elements member) read
      exact ⟨elements, by rw [found]; rfl, rules⟩
    · rw [missing, kept]
      exact ⟨[], rfl, .nil⟩

/-- What is read of a document is the configuration that it writes, if it has the shape of one. As a
document writes one configuration, nothing else can be read of it. -/
theorem ofEntries_eq_ok {entries : List (String × Toml.Value)}
    (distinct : (Toml.Value.table entries).Distinct) (plain : Plain entries) {config : Config} :
    ofEntries entries = .ok config ↔ IsConfiguration entries ∧ config.WrittenIn entries := by
  constructor
  · intro done
    exact ⟨(exists_ofEntries distinct plain).mp ⟨config, done⟩,
      writtenIn_of_ofEntries distinct plain done⟩
  · rintro ⟨shape, written⟩
    obtain ⟨read, done⟩ := (exists_ofEntries distinct plain).mpr shape
    rw [done, (writtenIn_of_ofEntries distinct plain done).unique written]

/-! ## Keys in another order -/

/-- An element whose fields, if it is a table, may stand in another order. The values of the fields
are left as they are. -/
inductive SameElement : Toml.Value → Toml.Value → Prop
  | same (value : Toml.Value) : SameElement value value
  | table {fields others : List (String × Toml.Value)} (permuted : fields.Perm others) :
      SameElement (.table fields) (.table others)

/-- A value in whose elements, if it is an array, fields may stand in another order. The elements
themselves keep their order, as the order of rules counts. -/
inductive SameValue : Toml.Value → Toml.Value → Prop
  | same (value : Toml.Value) : SameValue value value
  | array {elements others : List Toml.Value} (each : List.Forall₂ SameElement elements others) :
      SameValue (.array elements) (.array others)

/-- A document with its keys in another order, and the keys of the tables in its arrays, too. These
are all the places where order is free. -/
def Reordered (entries others : List (String × Toml.Value)) : Prop :=
  ∃ middle, entries.Perm middle ∧ List.Forall₂ (fun entry other : String × Toml.Value =>
    entry.1 = other.1 ∧ SameValue entry.2 other.2) middle others

/-- A rule is read the same with its keys in another order. An element that is no table is the same
element then. -/
theorem SameElement.readRule {element other : Toml.Value} (same : SameElement element other)
    (distinct : element.Distinct) {rule : ConfiguredRule} :
    Config.readRule element = .ok rule ↔ Config.readRule other = .ok rule := by
  cases same with
  | same => exact Iff.rfl
  | @table fields others permuted =>
    have otherKeys : (others.map Prod.fst).Nodup := (permuted.map Prod.fst).nodup distinct.keys
    exact ⟨readRule_perm distinct.keys permuted, readRule_perm otherKeys permuted.symm⟩

/-- Rules are read the same with their keys in another order, element by element. -/
theorem readRules_reordered {elements others : List Toml.Value}
    (each : List.Forall₂ SameElement elements others)
    (distinct : (Toml.Value.array elements).Distinct) {rules : List ConfiguredRule} :
    readRules (.array elements) = .ok rules ↔ readRules (.array others) = .ok rules := by
  simp only [readRules, mapM_eq_ok_iff]
  induction each generalizing rules with
  | nil => exact Iff.rfl
  | cons first _ inductionHypothesis =>
    have own := distinct.of_mem_array List.mem_cons_self
    have distinctLater := Toml.Value.Distinct.array fun element member =>
      distinct.of_mem_array (List.mem_cons_of_mem _ member)
    simp only [List.forall₂_cons_left_iff, first.readRule own, inductionHypothesis distinctLater]

/-- A field is read the same with keys inside it in another order. Only the field for rules has keys
inside that are looked at one by one. -/
theorem SameValue.readField {name : String} {value other : Toml.Value}
    (same : SameValue value other) (distinct : value.Distinct) {config next : Config} :
    Config.readField config (name, value) = .ok next ↔
      Config.readField config (name, other) = .ok next := by
  cases same with
  | same => exact Iff.rfl
  | @array elements others each =>
    -- of the fields that can be read, only the rules are an array
    have carried : ∀ {elements others : List Toml.Value},
        (∀ {rules}, readRules (.array elements) = .ok rules →
          readRules (.array others) = .ok rules) →
        ReadsField config (name, .array elements) next →
        ReadsField config (name, .array others) next := by
      intro elements others rules reads
      cases reads with
      | policy read => cases read
      | rules read => exact .rules (rules read)
    simp only [readField_eq_ok]
    constructor
    · exact carried (readRules_reordered each distinct).mp
    · exact carried (readRules_reordered each distinct).mpr

/-- Fields are read the same with keys inside them in another order. The induction is on the fields,
with what has been read so far left open. -/
theorem foldlM_readField_same {entries others : List (String × Toml.Value)}
    (each : List.Forall₂ (fun entry other : String × Toml.Value =>
      entry.1 = other.1 ∧ SameValue entry.2 other.2) entries others)
    (distinct : ∀ entry ∈ entries, entry.2.Distinct) {state last : Config} :
    entries.foldlM readField state = .ok last ↔ others.foldlM readField state = .ok last := by
  induction each generalizing state with
  | nil => exact Iff.rfl
  | @cons entry other _ _ first _ inductionHypothesis =>
    obtain ⟨name, value⟩ := entry
    obtain ⟨_, otherValue⟩ := other
    obtain ⟨rfl, same⟩ := first
    obtain ⟨own, later⟩ := List.forall_mem_cons.mp distinct
    simp only [List.foldlM_cons, bind_eq_ok, same.readField own, inductionHypothesis later]

/-- A document is read the same with its keys in another order. The keys inside its values are
exchanged first, and then the document's own. -/
theorem ofEntries_reordered {entries others : List (String × Toml.Value)}
    (distinct : (Toml.Value.table entries).Distinct) (reordered : Reordered entries others)
    {config : Config} : ofEntries entries = .ok config ↔ ofEntries others = .ok config := by
  obtain ⟨middle, permuted, each⟩ := reordered
  have middleKeys : (middle.map Prod.fst).Nodup := (permuted.map Prod.fst).nodup distinct.keys
  have middleEach : ∀ entry ∈ middle, entry.2.Distinct := fun entry member =>
    distinct.of_mem_table (permuted.mem_iff.mpr member)
  calc ofEntries entries = .ok config
      ↔ ofEntries middle = .ok config :=
        ⟨ofEntries_perm distinct.keys permuted, ofEntries_perm middleKeys permuted.symm⟩
    _ ↔ ofEntries others = .ok config := foldlM_readField_same each middleEach

/-! ## Texts -/

/-- The text of a document is read as the document is. Blanks, comments and the spelling of values
are gone by then. -/
theorem ofText_eq_ok {text : String} {entries : List (String × Toml.Value)}
    (document : Toml.document? text = some entries) {config : Config} :
    ofText text = .ok config ↔ ofEntries entries = .ok config := by
  rw [ofText, document]
  cases read : ofEntries entries <;> simp [read, Except.mapError]

/-- The text of a plain document is a configuration exactly if the document has the shape of one;
what is read is what the document writes, or the defaults, and nothing else. And the text of any
document is read the same as every text of a document with the keys in another order. -/
theorem ofText_documented {text : String} {entries : List (String × Toml.Value)}
    (document : Toml.document? text = some entries) :
    (Plain entries →
      ((∃ config, ofText text = .ok config) ↔ IsConfiguration entries) ∧
        ∀ config, ofText text = .ok config ↔
          IsConfiguration entries ∧ config.WrittenIn entries) ∧
      ∀ other others, Toml.document? other = some others → Reordered entries others →
        ∀ config, ofText text = .ok config ↔ ofText other = .ok config := by
  have distinct := Toml.distinct_of_document? document
  simp only [ofText_eq_ok document]
  refine ⟨fun plain => ⟨exists_ofEntries distinct plain, fun config =>
    ofEntries_eq_ok distinct plain⟩, fun other others documentOther reordered config => ?_⟩
  rw [ofText_eq_ok documentOther]
  exact ofEntries_reordered distinct reordered

/-- A policy and a rule without an alias, and the same with all keys the other way round. The two
texts are read as one configuration. -/
theorem ofText_documented_strike :
    let text := "nested-tags = 'nested'\nrule = [\x7bpattern = '~+', category = 'strike'\x7d]"
    let other := "rule = [\x7bcategory = 'strike', pattern = '~+'\x7d]\nnested-tags = 'nested'"
    let entries := [("nested-tags", Toml.Value.string "nested"),
      ("rule", .array [.table [("pattern", .string "~+"), ("category", .string "strike")]])]
    Toml.document? text = some entries ∧ Plain entries ∧ IsConfiguration entries ∧
      ∃ config, ofText text = .ok config ∧ config.WrittenIn entries ∧
        ofText other = .ok config := by
  intro text other entries
  have document : Toml.document? text = some entries := by decide +kernel
  have documentOther : Toml.document? other = some
      [("rule", .array [.table [("category", .string "strike"), ("pattern", .string "~+")]]),
        ("nested-tags", .string "nested")] := by decide +kernel
  have plain : Plain entries := ⟨by simp [entries], by simp [entries]⟩
  have rule : IsRule [("pattern", .string "~+"), ("category", .string "strike")] :=
    ⟨List.forall_mem_cons.mpr ⟨.pattern "~+", List.forall_mem_singleton.mpr (.category "strike")⟩,
      by simp, by simp⟩
  have shape : IsConfiguration entries :=
    List.forall_mem_cons.mpr ⟨.policy .nested, List.forall_mem_singleton.mpr
      (.rules (List.forall_mem_singleton.mpr ⟨_, rfl, rule⟩))⟩
  have reordered : Reordered entries
      [("rule", .array [.table [("category", .string "strike"), ("pattern", .string "~+")]]),
        ("nested-tags", .string "nested")] :=
    ⟨_, .swap _ _ [], .cons ⟨rfl, .array (.cons (.table (.swap _ _ [])) .nil)⟩
      (.cons ⟨rfl, .same _⟩ .nil)⟩
  obtain ⟨shaped, ordered⟩ := ofText_documented document
  obtain ⟨config, done⟩ := (shaped plain).1.mpr shape
  exact ⟨document, plain, shape, config, done, (((shaped plain).2 config).mp done).2,
    (ordered other _ documentOther reordered config).mp done⟩

end Config

end TextDecoration
