import TextDecoration.Config.Reading
import TextDecoration.Proofs.Except

/-!
# Fields in any order

The fields of a table are read one after the other, and the first that cannot be read ends it. Still
the outcome does not depend on their order. Whether a field can be read does not depend on what was
read before, so all are read exactly if each of them can be. And each field determines a part of its
own of what is read, so two fields of different names do not get in each other's way.

What a single step can do is said once for each kind of table, in `readRuleField_eq_ok` and
`readField_eq_ok`.
-/

namespace TextDecoration

/-! ## Tables with distinct keys -/

section Lookup

variable {α : Type} {fields others : List (String × α)}

/-- What stands under a key is what the key leads to. With a key that occurs twice only the first of
the two would be found. -/
theorem lookup_eq_some_iff_mem (keys : (fields.map Prod.fst).Nodup) {name : String} {value : α} :
    fields.lookup name = some value ↔ (name, value) ∈ fields := by
  constructor
  · intro found
    obtain ⟨before, behind, rfl, _⟩ := List.lookup_eq_some_iff.mp found
    simp
  · intro member
    obtain ⟨before, behind, rfl⟩ := List.append_of_mem member
    refine List.lookup_eq_some_iff.mpr ⟨before, behind, rfl, fun other among => ?_⟩
    have apart : other.1 ≠ name := by
      rw [List.map_append, List.map_cons, List.nodup_append] at keys
      exact keys.2.2 other.1 (List.mem_map_of_mem among) name List.mem_cons_self
    simpa using apart.symm

/-- The order of the fields does not matter to what a key leads to, since no other field has that
key. -/
theorem lookup_perm (keys : (fields.map Prod.fst).Nodup) (permuted : fields.Perm others)
    (name : String) : fields.lookup name = others.lookup name := by
  have otherKeys : (others.map Prod.fst).Nodup := (permuted.map Prod.fst).nodup keys
  ext value
  rw [lookup_eq_some_iff_mem keys, lookup_eq_some_iff_mem otherKeys, permuted.mem_iff]

end Lookup

/-! ## Steps that read one field each -/

section Steps

variable {State Value Fault α : Type} {step : State → String × Value → Except Fault State}
  {fields others : List (String × Value)} {name : String} {part : State → α}
  {holds : Value → α → Prop}

/-- Whether a field can be read does not depend on what was read before. What is read of it may well
do. -/
def Steady (step : State → String × Value → Except Fault State) : Prop :=
  ∀ state other field, (∃ next, step state field = .ok next) → ∃ next, step other field = .ok next

/-- All fields are read exactly if each of them can be, from whatever state. The induction is on the
fields, and steadiness carries each answer to the state that is reached. -/
theorem Steady.exists_foldlM_ok (steady : Steady step) (state : State) :
    (∃ last, fields.foldlM step state = .ok last) ↔
      ∀ field ∈ fields, ∃ next, step state field = .ok next := by
  induction fields generalizing state with
  | nil =>
    constructor
    · simp
    · exact fun _ => ⟨state, rfl⟩
  | cons field later inductionHypothesis =>
    rw [List.foldlM_cons, List.forall_mem_cons]
    constructor
    · rintro ⟨last, done⟩
      obtain ⟨next, first, rest⟩ := bind_eq_ok.mp done
      have readable := (inductionHypothesis next).mp ⟨last, rest⟩
      exact ⟨⟨next, first⟩, fun other among => steady _ _ _ (readable other among)⟩
    · rintro ⟨⟨next, first⟩, readable⟩
      obtain ⟨last, rest⟩ := (inductionHypothesis next).mpr fun other among =>
        steady _ _ _ (readable other among)
      exact ⟨last, bind_eq_ok.mpr ⟨next, first, rest⟩⟩

/-- Fields in another order are read, too; so they are read the same if what is read is determined
by the fields. -/
theorem Steady.perm (steady : Steady step) (permuted : fields.Perm others) {state last : State}
    (determined : ∀ {lastOther}, others.foldlM step state = .ok lastOther → last = lastOther)
    (done : fields.foldlM step state = .ok last) : others.foldlM step state = .ok last := by
  have readable := (steady.exists_foldlM_ok state).mp ⟨last, done⟩
  obtain ⟨lastOther, doneOther⟩ := (steady.exists_foldlM_ok state).mpr
    fun field among => readable field (permuted.mem_iff.mpr among)
  rw [doneOther, determined doneOther]

/-- A part of what is read that one field alone determines: the field's value is what the part holds
then, and all other fields leave the part alone. -/
structure Determines (step : State → String × Value → Except Fault State) (name : String)
    (part : State → α) (holds : Value → α → Prop) : Prop where
  changes : ∀ {state next : State} {field : String × Value}, step state field = .ok next →
    if field.1 = name then holds field.2 (part next) else part next = part state
  unique : ∀ {value : Value} {held same : α}, holds value held → holds value same → held = same

/-- When all fields are read, a part holds the value under its name, or what it held before if there
is no field of the name. The one field of the name settles the part, and the fields on both sides
leave it alone. -/
theorem Determines.foldlM (determines : Determines step name part holds)
    (keys : (fields.map Prod.fst).Nodup) {state last : State}
    (done : fields.foldlM step state = .ok last) :
    (∃ value, fields.lookup name = some value ∧ holds value (part last)) ∨
      fields.lookup name = none ∧ part last = part state := by
  induction fields generalizing state with
  | nil =>
    cases done
    exact .inr ⟨rfl, rfl⟩
  | cons field later inductionHypothesis =>
    obtain ⟨key, value⟩ := field
    obtain ⟨absent, keysLater⟩ := List.nodup_cons.mp keys
    rw [List.foldlM_cons] at done
    obtain ⟨next, first, rest⟩ := bind_eq_ok.mp done
    have behind := inductionHypothesis keysLater rest
    by_cases same : name = key
    · subst same
      rcases behind with ⟨value, found, _⟩ | ⟨_, kept⟩
      · exact absurd (List.mem_map_of_mem ((lookup_eq_some_iff_mem keysLater).mp found)) absent
      · refine .inl ⟨value, List.lookup_cons_self, ?_⟩
        rw [kept]
        simpa using determines.changes first
    · have skipped : ((key, value) :: later).lookup name = later.lookup name := by
        rw [List.lookup_cons, beq_false_of_ne same]
      have before : part next = part state := by
        simpa [Ne.symm same] using determines.changes first
      rw [skipped, ← before]
      exact behind

/-- Fields in another order give a part the same value, as long as what a value writes is unique. -/
theorem Determines.perm (determines : Determines step name part holds)
    (keys : (fields.map Prod.fst).Nodup) (permuted : fields.Perm others)
    {state last lastOther : State} (done : fields.foldlM step state = .ok last)
    (doneOther : others.foldlM step state = .ok lastOther) : part last = part lastOther := by
  have otherKeys : (others.map Prod.fst).Nodup := (permuted.map Prod.fst).nodup keys
  have ordered := determines.foldlM keys done
  have reordered := determines.foldlM otherKeys doneOther
  rw [lookup_perm keys permuted] at ordered
  rcases ordered with ⟨value, found, held⟩ | ⟨missing, kept⟩
  · rcases reordered with ⟨same, foundSame, heldSame⟩ | ⟨missing, _⟩
    · rw [found] at foundSame
      cases foundSame
      exact determines.unique held heldSame
    · rw [found] at missing
      cases missing
  · rcases reordered with ⟨value, found, _⟩ | ⟨_, keptSame⟩
    · rw [missing] at found
      cases found
    · rw [kept, keptSame]

end Steps

namespace Config

/-- A value is read as a text exactly if it is a string. Numbers and moments are not turned into
texts. -/
theorem readText_eq_ok {value : Toml.Value} {text : String} :
    readText value = .ok text ↔ value = .string text := by
  cases value <;> simp [readText]

/-- A value is read as a flag exactly if it is a boolean. No text and no number stands for one. -/
theorem readFlag_eq_ok {value : Toml.Value} {b : Bool} :
    readFlag value = .ok b ↔ value = .boolean b := by
  cases value <;> simp [readFlag]

/-- An optional text that a value writes. A value that is written always gives one, so nothing is
written as a missing text. -/
def HoldsText (value : Toml.Value) (held : Option String) : Prop :=
  held.map Toml.Value.string = some value

/-- A value writes one text, which makes the order of fields irrelevant to it. -/
theorem HoldsText.unique {value : Toml.Value} {held same : Option String}
    (holds : HoldsText value held) (holdsSame : HoldsText value same) : held = same := by
  obtain ⟨text, rfl, rfl⟩ := Option.map_eq_some_iff.mp holds
  obtain ⟨_, rfl, ⟨⟩⟩ := Option.map_eq_some_iff.mp holdsSame
  rfl

/-- A flag that a value writes. The value is the flag itself, in the notation of documents. -/
def HoldsFlag (value : Toml.Value) (held : Bool) : Prop := value = .boolean held

/-- A value writes one flag, which makes the order of fields irrelevant to it. -/
theorem HoldsFlag.unique {value : Toml.Value} {held same : Bool} (holds : HoldsFlag value held)
    (holdsSame : HoldsFlag value same) : held = same := by
  cases holds
  cases holdsSame
  rfl

/-! ## The fields of a rule -/

/-- The fields that a rule may have, and what they change of what was read before. -/
inductive ReadsRuleField (fields : RuleFields) : String × Toml.Value → RuleFields → Prop
  | category (text : String) :
      ReadsRuleField fields ("category", .string text) { fields with category := some text }
  | pattern (text : String) :
      ReadsRuleField fields ("pattern", .string text) { fields with pattern := some text }
  | fallback (text : String) :
      ReadsRuleField fields ("alias", .string text) { fields with fallback := some text }
  | lookbehind (b : Bool) :
      ReadsRuleField fields ("lookbehind", .boolean b) { fields with lookbehind := b }
  | before (text : String) :
      ReadsRuleField fields ("before", .string text) { fields with before := some text }

/-- What reading a field of a rule can do: nothing else is read, and each field changes its own part
and no other one. -/
theorem readRuleField_eq_ok {fields next : RuleFields} {field : String × Toml.Value} :
    readRuleField fields field = .ok next ↔ ReadsRuleField fields field next := by
  constructor
  · intro done
    obtain ⟨name, value⟩ := field
    simp only [readRuleField] at done
    split at done
    · next named =>
      obtain ⟨text, written, rfl⟩ := map_eq_ok.mp done
      rw [named, readText_eq_ok.mp written]
      exact .category text
    split at done
    · next named =>
      obtain ⟨text, written, rfl⟩ := map_eq_ok.mp done
      rw [named, readText_eq_ok.mp written]
      exact .pattern text
    split at done
    · next named =>
      obtain ⟨text, written, rfl⟩ := map_eq_ok.mp done
      rw [named, readText_eq_ok.mp written]
      exact .fallback text
    split at done
    · next named =>
      obtain ⟨b, written, rfl⟩ := map_eq_ok.mp done
      rw [named, readFlag_eq_ok.mp written]
      exact .lookbehind b
    split at done
    · next named =>
      obtain ⟨text, written, rfl⟩ := map_eq_ok.mp done
      rw [named, readText_eq_ok.mp written]
      exact .before text
    · cases done
  · rintro ⟨⟩ <;> rfl

/-- Whether a field of a rule can be read is told by its name and its value: a field that is read
twice replaces what it said before, and that is no failure of the step. -/
theorem steady_readRuleField : Steady readRuleField := by
  rintro state other field ⟨next, done⟩
  simp only [readRuleField_eq_ok] at done ⊢
  cases done with
  | category text => exact ⟨_, .category text⟩
  | pattern text => exact ⟨_, .pattern text⟩
  | fallback text => exact ⟨_, .fallback text⟩
  | lookbehind b => exact ⟨_, .lookbehind b⟩
  | before text => exact ⟨_, .before text⟩

/-- The fields of a rule that hold a text, each with the part of what is read that is its own. -/
inductive TextPart : String → (RuleFields → Option String) → Prop
  | category : TextPart "category" RuleFields.category
  | pattern : TextPart "pattern" RuleFields.pattern
  | fallback : TextPart "alias" RuleFields.fallback
  | before : TextPart "before" RuleFields.before

/-- Each field that holds a text determines its own part and no other one. -/
theorem TextPart.determines {name : String} {part : RuleFields → Option String}
    (own : TextPart name part) : Determines readRuleField name part HoldsText where
  changes done := by cases own <;> cases readRuleField_eq_ok.mp done <;> simp [HoldsText]
  unique := HoldsText.unique

/-- The one field of a rule that holds a flag determines the flag. It is the only part that has a
value before any field is read. -/
theorem determines_lookbehind :
    Determines readRuleField "lookbehind" RuleFields.lookbehind HoldsFlag where
  changes done := by cases readRuleField_eq_ok.mp done <;> simp [HoldsFlag]
  unique := HoldsFlag.unique

/-- The fields of a rule are read the same in any order, since each part is determined by a field of
its own. -/
theorem foldlM_readRuleField_perm {fields others : List (String × Toml.Value)}
    (keys : (fields.map Prod.fst).Nodup) (permuted : fields.Perm others)
    {state last : RuleFields} (done : fields.foldlM readRuleField state = .ok last) :
    others.foldlM readRuleField state = .ok last := by
  refine steady_readRuleField.perm permuted (fun {lastOther} doneOther => ?_) done
  have category := TextPart.category.determines.perm keys permuted done doneOther
  have pattern := TextPart.pattern.determines.perm keys permuted done doneOther
  have fallback := TextPart.fallback.determines.perm keys permuted done doneOther
  have lookbehind := determines_lookbehind.perm keys permuted done doneOther
  have before := TextPart.before.determines.perm keys permuted done doneOther
  cases last
  cases lastOther
  simp_all

/-- A rule is read the same with its fields in any order. Only a rule that is read is spoken of: of
two faults, the order decides which is reported. -/
theorem readRule_perm {fields others : List (String × Toml.Value)}
    (keys : (fields.map Prod.fst).Nodup) (permuted : fields.Perm others) {rule : ConfiguredRule}
    (done : readRule (.table fields) = .ok rule) : readRule (.table others) = .ok rule := by
  rw [readRule] at done ⊢
  obtain ⟨state, read, complete⟩ := bind_eq_ok.mp done
  exact bind_eq_ok.mpr ⟨state, foldlM_readRuleField_perm keys permuted read, complete⟩

/-! ## The fields of a configuration -/

/-- The fields that a configuration may have, and what they change of what was read before. -/
inductive ReadsField (config : Config) : String × Toml.Value → Config → Prop
  | grammar (text : String) :
      ReadsField config ("grammar", .string text) { config with grammar := some text }
  | policy {value : Toml.Value} {policy : TagPolicy} (read : readPolicy value = .ok policy) :
      ReadsField config ("nested-tags", value) { config with policy }
  | rules {value : Toml.Value} {rules : List ConfiguredRule} (read : readRules value = .ok rules) :
      ReadsField config ("rule", value) { config with rules }

/-- What reading a field can do: nothing else is read, and each field changes its own part and no
other one. -/
theorem readField_eq_ok {config next : Config} {field : String × Toml.Value} :
    readField config field = .ok next ↔ ReadsField config field next := by
  constructor
  · intro done
    obtain ⟨name, value⟩ := field
    simp only [readField] at done
    split at done
    · next named =>
      obtain ⟨text, written, rfl⟩ := map_eq_ok.mp done
      rw [named, readText_eq_ok.mp written]
      exact .grammar text
    split at done
    · next named =>
      obtain ⟨policy, read, rfl⟩ := map_eq_ok.mp done
      rw [named]
      exact .policy read
    split at done
    · next named =>
      obtain ⟨rules, read, rfl⟩ := map_eq_ok.mp done
      rw [named]
      exact .rules read
    · cases done
  · rintro (_ | read | read)
    · rfl
    · exact map_eq_ok.mpr ⟨_, read, rfl⟩
    · exact map_eq_ok.mpr ⟨_, read, rfl⟩

/-- Whether a field of a configuration can be read is told by its name and its value alone, even
where the field replaces what was read before. -/
theorem steady_readField : Steady readField := by
  rintro state other field ⟨next, done⟩
  simp only [readField_eq_ok] at done ⊢
  cases done with
  | grammar text => exact ⟨_, .grammar text⟩
  | policy read => exact ⟨_, .policy read⟩
  | rules read => exact ⟨_, .rules read⟩

/-- The name of a grammar determines nothing but the grammar. Whether there is such a grammar is
asked later. -/
theorem determines_grammar : Determines readField "grammar" Config.grammar HoldsText where
  changes done := by cases readField_eq_ok.mp done <;> simp [HoldsText]
  unique := HoldsText.unique

/-- The field for a policy determines the policy, in whichever of its spellings it is written.
Reading a policy says all that there is to say about the value. -/
theorem determines_policy : Determines readField "nested-tags" Config.policy
    fun value policy => readPolicy value = .ok policy where
  changes done := by cases readField_eq_ok.mp done <;> simp [*]
  unique holds same := Except.ok.inj (holds.symm.trans same)

/-- The field for rules determines all of them, since they are one array. -/
theorem determines_rules : Determines readField "rule" Config.rules
    fun value rules => readRules value = .ok rules where
  changes done := by cases readField_eq_ok.mp done <;> simp [*]
  unique holds same := Except.ok.inj (holds.symm.trans same)

/-- A configuration is read the same with its fields in any order. As with rules, this is about
configurations that are read, not about the fault that is reported. -/
theorem ofEntries_perm {entries others : List (String × Toml.Value)}
    (keys : (entries.map Prod.fst).Nodup) (permuted : entries.Perm others) {config : Config}
    (done : ofEntries entries = .ok config) : ofEntries others = .ok config := by
  rw [ofEntries] at done ⊢
  refine steady_readField.perm permuted (fun {configOther} doneOther => ?_) done
  have grammar := determines_grammar.perm keys permuted done doneOther
  have policy := determines_policy.perm keys permuted done doneOther
  have rules := determines_rules.perm keys permuted done doneOther
  cases config
  cases configOther
  simp_all

end Config

end TextDecoration
