import TextDecoration.Toml.Document

/-!
# The keys of a table are distinct

No table of a document, at whatever depth, has two entries under one key: not the document itself,
no table under a header or made by dotted keys, and no table in braces.

All entries get into a table through `Draft.alter?`, which gives a key that is there a new value in
its place and puts a new one at the end. So what is shown for it is kept along a path, by every
statement and by every document.
-/

namespace TextDecoration.Toml

/-- A value whose tables have distinct keys, at every depth. Scalars have no keys that could be the
same. -/
inductive Value.Distinct : Value → Prop
  | string {text : String} : Distinct (.string text)
  | integer {n : Int} : Distinct (.integer n)
  | float {x : Float} : Distinct (.float x)
  | boolean {b : Bool} : Distinct (.boolean b)
  | moment {text : String} : Distinct (.moment text)
  | array {elements : List Value} (each : ∀ element ∈ elements, Distinct element) :
      Distinct (.array elements)
  | table {entries : List (String × Value)} (keys : (entries.map Prod.fst).Nodup)
      (each : ∀ entry ∈ entries, Distinct entry.2) : Distinct (.table entries)

/-- A table whose keys are distinct at every depth has distinct keys at the top. -/
theorem Value.Distinct.keys {entries : List (String × Value)}
    (distinct : (Value.table entries).Distinct) : (entries.map Prod.fst).Nodup := by
  cases distinct with
  | table keys _ => exact keys

/-- The values of such a table have distinct keys as well, whatever kind they are of. -/
theorem Value.Distinct.of_mem_table {entries : List (String × Value)}
    (distinct : (Value.table entries).Distinct) {entry : String × Value}
    (member : entry ∈ entries) : entry.2.Distinct := by
  cases distinct with
  | table _ each => exact each entry member

/-- The elements of an array have distinct keys if the array has. -/
theorem Value.Distinct.of_mem_array {elements : List Value}
    (distinct : (Value.array elements).Distinct) {element : Value} (member : element ∈ elements) :
    element.Distinct := by
  cases distinct with
  | array each => exact each element member

/-- A part of a document whose tables have distinct keys, at every depth, the tables of its arrays
among them. -/
inductive Draft.Distinct : Draft → Prop
  | value {value : Value} (known : value.Distinct) : Distinct (.value value)
  | table {origin : Origin} {entries : Entries} (keys : (entries.map Prod.fst).Nodup)
      (each : ∀ entry ∈ entries, Distinct entry.2) : Distinct (.table origin entries)
  | tables {earlier : List Entries} {last : Entries}
      (keys : ∀ entries ∈ earlier ++ [last], (entries.map Prod.fst).Nodup)
      (each : ∀ entries ∈ earlier ++ [last], ∀ entry ∈ entries, Distinct entry.2) :
      Distinct (.tables earlier last)

namespace Draft

/-- Entries of a table with distinct keys, at every depth. The keys at the top are told apart from
those inside. -/
structure Entries.Distinct (entries : Entries) : Prop where
  keys : (entries.map Prod.fst).Nodup
  each : ∀ entry ∈ entries, entry.2.Distinct

/-- Entries that a table may hold are just those with distinct keys, however the table came
about. -/
theorem distinct_table {origin : Origin} {entries : Entries} :
    (Draft.table origin entries).Distinct ↔ entries.Distinct := by
  constructor
  · rintro ⟨⟩
    next keys each => exact ⟨keys, each⟩
  · rintro ⟨keys, each⟩
    exact .table keys each

/-- Tables that an array of tables may hold are just those with distinct keys, the last one as
well. -/
theorem distinct_tables {earlier : List Entries} {last : Entries} :
    (Draft.tables earlier last).Distinct ↔ ∀ entries ∈ earlier ++ [last], entries.Distinct := by
  constructor
  · rintro ⟨⟩
    next keys each => exact fun entries among => ⟨keys entries among, each entries among⟩
  · intro all
    exact .tables (fun entries among => (all entries among).keys)
      fun entries among => (all entries among).each

/-- No entries have no key twice, which is how a table begins. -/
theorem Entries.distinct_nil : Entries.Distinct [] := ⟨List.nodup_nil, by simp⟩

/-! ## One entry -/

/-- A change of an entry brings in no key but its own. The other keys are as they were. -/
theorem mem_keys_alter? {name key : String} {change : Option Draft → Option Draft}
    {entries result : Entries} (done : alter? name change entries = some result)
    (member : key ∈ result.map Prod.fst) : key = name ∨ key ∈ entries.map Prod.fst := by
  induction entries generalizing result with
  | nil =>
    simp only [alter?, Option.bind_eq_bind, Option.bind_eq_some_iff] at done
    obtain ⟨made, _, ⟨⟩⟩ := done
    simpa using member
  | cons entry later inductionHypothesis =>
    obtain ⟨other, draft⟩ := entry
    rw [alter?] at done
    split at done
    · simp only [Option.bind_eq_bind, Option.bind_eq_some_iff] at done
      obtain ⟨made, _, ⟨⟩⟩ := done
      exact .inr member
    · simp only [Option.bind_eq_bind, Option.bind_eq_some_iff] at done
      obtain ⟨changed, doneLater, ⟨⟩⟩ := done
      rw [List.map_cons, List.mem_cons] at member ⊢
      rcases member with same | among
      · exact .inr (.inl same)
      · exact (inductionHypothesis doneLater among).imp_right .inr

/-- A change of an entry keeps the keys distinct, if what it makes of the entry is so. -/
theorem Entries.Distinct.alter? {name : String} {change : Option Draft → Option Draft}
    {entries result : Entries} (distinct : entries.Distinct)
    (changes : ∀ {old : Option Draft} {made : Draft}, (∀ draft ∈ old, draft.Distinct) →
      change old = some made → made.Distinct)
    (done : Draft.alter? name change entries = some result) : result.Distinct := by
  induction entries generalizing result with
  | nil =>
    simp only [Draft.alter?, Option.bind_eq_bind, Option.bind_eq_some_iff] at done
    obtain ⟨made, new, ⟨⟩⟩ := done
    refine ⟨by simp, fun entry member => ?_⟩
    cases List.mem_singleton.mp member
    exact changes (by simp) new
  | cons entry later inductionHypothesis =>
    obtain ⟨other, draft⟩ := entry
    obtain ⟨keys, each⟩ := distinct
    have own : draft.Distinct := each _ List.mem_cons_self
    have keysLater := List.nodup_cons.mp keys
    have eachLater : ∀ entry ∈ later, entry.2.Distinct :=
      fun entry among => each entry (List.mem_cons_of_mem _ among)
    rw [Draft.alter?] at done
    split at done
    · simp only [Option.bind_eq_bind, Option.bind_eq_some_iff] at done
      obtain ⟨made, new, ⟨⟩⟩ := done
      have madeDistinct : made.Distinct := changes (by simpa using own) new
      exact ⟨keys, List.forall_mem_cons.mpr ⟨madeDistinct, eachLater⟩⟩
    · next different =>
      simp only [Option.bind_eq_bind, Option.bind_eq_some_iff] at done
      obtain ⟨changed, doneLater, ⟨⟩⟩ := done
      have rest := inductionHypothesis ⟨keysLater.2, eachLater⟩ doneLater
      have absent : other ∉ changed.map Prod.fst := fun member =>
        (mem_keys_alter? doneLater member).elim different keysLater.1
      exact ⟨List.nodup_cons.mpr ⟨absent, rest.keys⟩, List.forall_mem_cons.mpr ⟨own, rest.each⟩⟩

/-! ## Along a path -/

/-- A change at a path's end keeps the keys distinct, if it does so at the end. -/
theorem Entries.Distinct.within? {byDots : Bool} {change : Origin → Entries → Option Entries}
    {path : List String} {origin : Origin} {entries result : Entries}
    (distinct : entries.Distinct)
    (changes : ∀ {origin : Origin} {old made : Entries}, old.Distinct →
      change origin old = some made → made.Distinct)
    (done : Draft.within? byDots change path origin entries = some result) : result.Distinct := by
  induction path generalizing origin entries result with
  | nil => exact changes distinct done
  | cons name path inductionHypothesis =>
    rw [Draft.within?] at done
    refine distinct.alter? (fun {old made} known new => ?_) done
    split at new
    · obtain ⟨inner, newInner, rfl⟩ := Option.map_eq_some_iff.mp new
      exact distinct_table.mpr (inductionHypothesis Entries.distinct_nil newInner)
    · split at new
      · cases new
      · obtain ⟨inner, newInner, rfl⟩ := Option.map_eq_some_iff.mp new
        exact distinct_table.mpr
          (inductionHypothesis (distinct_table.mp (known _ rfl)) newInner)
    · next earlier last =>
      obtain ⟨inner, newInner, rfl⟩ := Option.map_eq_some_iff.mp new
      have all := distinct_tables.mp (known _ rfl)
      have changed := inductionHypothesis (all last (by simp)) newInner
      apply distinct_tables.mpr
      intro entries among
      rcases List.mem_append.mp among with before | final
      · exact all entries (List.mem_append_left _ before)
      · cases List.mem_singleton.mp final
        exact changed
    · cases new

/-- To give a value to a key keeps the keys distinct. A key that is there already is refused, and so
is one through a finished table. -/
theorem Entries.Distinct.put? {key : Key} {value : Value} {origin : Origin}
    {entries result : Entries} (distinct : entries.Distinct) (known : value.Distinct)
    (done : Draft.put? key value origin entries = some result) : result.Distinct := by
  refine distinct.within? (fun {origin old made} oldDistinct new => ?_) done
  split at new
  · cases new
  · refine oldDistinct.alter? (fun {old made} _ added => ?_) new
    split at added
    · cases added
      exact .value known
    · cases added

/-- An entry under a new key may go to the end, without a second look at the others. -/
theorem Entries.Distinct.concat {name : String} {draft : Draft} {entries : Entries}
    (distinct : entries.Distinct) (absent : name ∉ entries.map Prod.fst)
    (known : draft.Distinct) : Entries.Distinct (entries ++ [(name, draft)]) := by
  constructor
  · rw [List.map_append, List.nodup_append]
    refine ⟨distinct.keys, by simp, ?_⟩
    rintro key member _ final rfl
    cases List.mem_singleton.mp final
    exact absent member
  · intro entry member
    rcases List.mem_append.mp member with before | final
    · exact distinct.each entry before
    · cases List.mem_singleton.mp final
      exact known

/-- To open a table keeps the keys distinct, whether the table is new or was implied before. -/
theorem Entries.Distinct.openTable? {name : String} {entries result : Entries}
    (distinct : entries.Distinct) (done : Draft.openTable? name entries = some result) :
    result.Distinct := by
  rw [Draft.openTable?] at done
  split at done
  · next absent =>
    cases done
    refine distinct.concat ?_ (distinct_table.mpr Entries.distinct_nil)
    rintro member
    obtain ⟨entry, among, rfl⟩ := List.mem_map.mp member
    simpa using List.lookup_eq_none_iff.mp absent entry among
  · next inner present =>
    cases done
    obtain ⟨before, behind, rfl, _⟩ := List.lookup_eq_some_iff.mp present
    have own : (Draft.table .implied inner).Distinct := distinct.each (name, _) (by simp)
    have kept : Entries.Distinct ((before ++ (name, .table .implied inner) :: behind).filter
        fun entry => entry.1 ≠ name) :=
      ⟨(List.filter_sublist.map Prod.fst).nodup distinct.keys,
        fun entry member => distinct.each entry (List.mem_filter.mp member).1⟩
    refine kept.concat ?_ (distinct_table.mpr (distinct_table.mp own))
    intro member
    obtain ⟨entry, among, rfl⟩ := List.mem_map.mp member
    simpa using (List.mem_filter.mp among).2
  · cases done

/-- To open a further table of an array keeps the keys distinct, since a table of its own begins. -/
theorem Entries.Distinct.openElement? {name : String} {entries result : Entries}
    (distinct : entries.Distinct) (done : Draft.openElement? name entries = some result) :
    result.Distinct := by
  refine distinct.alter? (fun {old made} known new => ?_) done
  split at new
  · cases new
    exact distinct_tables.mpr (by simpa using Entries.distinct_nil)
  · cases new
    have all := distinct_tables.mp (known _ rfl)
    apply distinct_tables.mpr
    intro entries among
    rcases List.mem_append.mp among with before | final
    · exact all entries before
    · cases List.mem_singleton.mp final
      exact Entries.distinct_nil
  · cases new

/-! ## What entries amount to -/

/-- The entries amount to what each of them does, under the same keys. -/
theorem finishedEntries_eq (entries : Entries) :
    finishedEntries entries = entries.map fun entry => (entry.1, entry.2.finished) := by
  induction entries with
  | nil => rw [finishedEntries, List.map_nil]
  | cons entry later inductionHypothesis =>
    obtain ⟨name, draft⟩ := entry
    rw [finishedEntries, finishedEntry, inductionHypothesis, List.map_cons]

/-- Tables amount to what each of them does, in their order. -/
theorem finishedTables_eq (tables : List Entries) :
    finishedTables tables = tables.map fun entries => .table (finishedEntries entries) := by
  induction tables with
  | nil => rw [finishedTables, List.map_nil]
  | cons entries later inductionHypothesis =>
    rw [finishedTables, inductionHypothesis, List.map_cons]

/-- A table with distinct keys amounts to one, as the keys are the same ones. -/
theorem distinct_finishedEntries {entries : Entries} (keys : (entries.map Prod.fst).Nodup)
    (each : ∀ entry ∈ entries, entry.2.finished.Distinct) :
    (Value.table (finishedEntries entries)).Distinct := by
  rw [finishedEntries_eq]
  constructor
  · rw [List.map_map]
    exact keys
  · intro entry member
    obtain ⟨drafted, among, rfl⟩ := List.mem_map.mp member
    exact each drafted among

/-- A part with distinct keys amounts to a value with distinct keys. The induction is on the
part. -/
theorem Distinct.finished {draft : Draft} (distinct : draft.Distinct) :
    draft.finished.Distinct := by
  induction distinct with
  | value known =>
    rw [Draft.finished]
    exact known
  | table keys _ each =>
    rw [Draft.finished]
    exact distinct_finishedEntries keys each
  | @tables earlier last keys _ each =>
    rw [Draft.finished, finishedTables_eq]
    constructor
    intro element member
    have listed : element ∈ (earlier ++ [last]).map fun entries =>
        Value.table (finishedEntries entries) := by
      rw [List.map_append]
      exact member
    obtain ⟨entries, among, rfl⟩ := List.mem_map.mp listed
    exact distinct_finishedEntries (keys entries among) (each entries among)

/-- Entries with distinct keys amount to a table with distinct keys, at every depth. -/
theorem Entries.Distinct.finished {entries : Entries} (distinct : entries.Distinct) :
    (Value.table (finishedEntries entries)).Distinct :=
  distinct_finishedEntries distinct.keys fun entry among => (distinct.each entry among).finished

end Draft

/-! ## Values -/

/-- Scalars have no keys, so those that are read cannot repeat one. -/
theorem distinct_of_scalar? {cs rest : List Char} {value : Value}
    (read : scalar? cs = some (value, rest)) : value.Distinct := by
  rw [scalar?.eq_def] at read
  split at read
  · cases read
    exact .boolean
  · cases read
    exact .boolean
  · split at read
    · cases read
      exact .string
    · rw [number?] at read
      split at read
      · cases read
        exact .moment
      · split at read
        · cases read
          exact .float
        · obtain ⟨n, _, ⟨⟩⟩ := Option.map_eq_some_iff.mp read
          exact .integer

section Containers

variable {read : List Char → Option (Value × List Char)}

/-- The elements of an array are what is read, and so they are as good as what is read. -/
theorem distinct_of_elements?
    (reads : ∀ {cs rest : List Char} {value : Value}, read cs = some (value, rest) →
      value.Distinct)
    {steps : Nat} {cs rest : List Char} {values : List Value}
    (done : elements? read steps cs = some (values, rest)) : ∀ value ∈ values, value.Distinct := by
  induction steps generalizing cs values with
  | zero => cases done
  | succ steps inductionHypothesis =>
    rw [elements?] at done
    split at done
    · cases done
      simp
    · simp only [Option.bind_eq_bind, Option.bind_eq_some_iff] at done
      obtain ⟨⟨value, behind⟩, first, done⟩ := done
      have own : value.Distinct := reads first
      dsimp only at done
      split at done
      · simp only [Option.bind_eq_some_iff] at done
        obtain ⟨⟨later, last⟩, doneLater, ⟨⟩⟩ := done
        exact List.forall_mem_cons.mpr ⟨own, inductionHypothesis doneLater⟩
      · cases done
        simpa using own
      · cases done

/-- The value of an assignment is what is read behind the equals sign. -/
theorem distinct_of_assignment?
    (reads : ∀ {cs rest : List Char} {value : Value}, read cs = some (value, rest) →
      value.Distinct)
    {cs rest : List Char} {key : Key} {value : Value}
    (done : assignment? read cs = some ((key, value), rest)) : value.Distinct := by
  simp only [assignment?, Option.bind_eq_bind, Option.bind_eq_some_iff] at done
  obtain ⟨⟨key, behind⟩, _, done⟩ := done
  dsimp only at done
  split at done
  · simp only [Option.bind_eq_some_iff] at done
    obtain ⟨⟨value, last⟩, doneValue, ⟨⟩⟩ := done
    exact reads doneValue
  · cases done

/-- The entries of a table in braces have distinct keys: each is put to those before it, which
refuses a key that is there. -/
theorem distinct_of_assignments?
    (reads : ∀ {cs rest : List Char} {value : Value}, read cs = some (value, rest) →
      value.Distinct)
    {steps : Nat} {cs rest : List Char} {entries result : Draft.Entries}
    (distinct : entries.Distinct)
    (done : assignments? read steps entries cs = some (result, rest)) : result.Distinct := by
  induction steps generalizing cs entries with
  | zero => cases done
  | succ steps inductionHypothesis =>
    simp only [assignments?, Option.bind_eq_bind, Option.bind_eq_some_iff] at done
    obtain ⟨⟨⟨key, value⟩, behind⟩, first, done⟩ := done
    obtain ⟨added, put, done⟩ := done
    have more : added.Distinct := distinct.put? (distinct_of_assignment? reads first) put
    split at done
    · exact inductionHypothesis more done
    · cases done
      exact more
    · cases done

end Containers

/-- The tables of a value that is read have distinct keys, at every depth. The induction is on the
levels that are allowed. -/
theorem distinct_of_value? {levels : Nat} {cs rest : List Char} {value : Value}
    (done : value? levels cs = some (value, rest)) : value.Distinct := by
  induction levels generalizing cs rest value with
  | zero =>
    rw [value?.eq_def] at done
    exact distinct_of_scalar? done
  | succ levels inductionHypothesis =>
    rw [value?.eq_def] at done
    split at done
    · next same =>
      cases same
      simp only [Option.bind_eq_bind, Option.bind_eq_some_iff] at done
      obtain ⟨⟨values, behind⟩, doneValues, ⟨⟩⟩ := done
      exact .array (distinct_of_elements? inductionHypothesis doneValues)
    · next same =>
      cases same
      split at done
      · cases done
        exact .table List.nodup_nil (by simp)
      · simp only [Option.bind_eq_bind, Option.bind_eq_some_iff] at done
        obtain ⟨⟨entries, behind⟩, doneEntries, ⟨⟩⟩ := done
        exact (distinct_of_assignments? inductionHypothesis Draft.Entries.distinct_nil
          doneEntries).finished
    · exact distinct_of_scalar? done

/-! ## Documents -/

/-- A statement whose value, if it has one, has distinct keys. Headers bring no value. -/
def Statement.Distinct : Statement → Prop
  | .entry _ value => value.Distinct
  | _ => True

/-- The tables in a statement that is read have distinct keys, whatever form the statement has. -/
theorem distinct_of_statement? {cs rest : List Char} {statement : Statement}
    (done : statement? cs = some (statement, rest)) : statement.Distinct := by
  rw [statement?.eq_def] at done
  split at done
  · simp only [Option.bind_eq_bind, Option.bind_eq_some_iff] at done
    obtain ⟨_, _, _, _, ⟨⟩⟩ := done
    trivial
  · simp only [Option.bind_eq_bind, Option.bind_eq_some_iff] at done
    obtain ⟨_, _, _, _, ⟨⟩⟩ := done
    trivial
  · simp only [Option.bind_eq_bind, Option.bind_eq_some_iff] at done
    obtain ⟨_, assigned, ⟨⟩⟩ := done
    exact distinct_of_assignment? distinct_of_value? assigned

/-- The tables in the statements that are read have distinct keys, statement by statement. -/
theorem distinct_of_statements? {steps : Nat} {cs : List Char} {statements : List Statement}
    (done : statements? steps cs = some statements) :
    ∀ statement ∈ statements, statement.Distinct := by
  induction steps generalizing cs statements with
  | zero => cases done
  | succ steps inductionHypothesis =>
    rw [statements?] at done
    split at done
    · cases done
      simp
    · simp only [Option.bind_eq_bind, Option.bind_eq_some_iff] at done
      obtain ⟨⟨statement, behind⟩, first, _, _, later, doneLater, ⟨⟩⟩ := done
      exact List.forall_mem_cons.mpr
        ⟨distinct_of_statement? first, inductionHypothesis doneLater⟩

/-- A statement that is carried out keeps the keys distinct. It opens a table or puts a value, and
both refuse a key that is there. -/
theorem Progress.distinct_carryOut? {progress next : Progress} {statement : Statement}
    (distinct : progress.root.Distinct) (known : statement.Distinct)
    (done : progress.carryOut? statement = some next) : next.root.Distinct := by
  cases statement with
  | table key =>
    simp only [carryOut?, Option.bind_eq_bind, Option.bind_eq_some_iff] at done
    obtain ⟨root, changed, ⟨⟩⟩ := done
    exact distinct.within? (fun old => old.openTable?) changed
  | element key =>
    simp only [carryOut?, Option.bind_eq_bind, Option.bind_eq_some_iff] at done
    obtain ⟨root, changed, ⟨⟩⟩ := done
    exact distinct.within? (fun old => old.openElement?) changed
  | entry key value =>
    simp only [carryOut?, Option.bind_eq_bind, Option.bind_eq_some_iff] at done
    obtain ⟨root, changed, ⟨⟩⟩ := done
    exact distinct.within? (fun old => old.put? known) changed

/-- Statements that are carried out in order keep the keys distinct. The induction is on the
statements, with the progress left open. -/
theorem Progress.distinct_foldlM {progress last : Progress} {statements : List Statement}
    (distinct : progress.root.Distinct) (known : ∀ statement ∈ statements, statement.Distinct)
    (done : statements.foldlM carryOut? progress = some last) : last.root.Distinct := by
  induction statements generalizing progress with
  | nil =>
    cases done
    exact distinct
  | cons statement later inductionHypothesis =>
    obtain ⟨own, knownLater⟩ := List.forall_mem_cons.mp known
    rw [List.foldlM_cons] at done
    simp only [Option.bind_eq_bind, Option.bind_eq_some_iff] at done
    obtain ⟨next, first, doneLater⟩ := done
    exact inductionHypothesis (distinct_carryOut? distinct own first) knownLater doneLater

/-- The tables of a document have distinct keys, at every depth. A reader may therefore take fields
in any order. -/
theorem distinct_of_document? {text : String} {entries : List (String × Value)}
    (done : document? text = some entries) : (Value.table entries).Distinct := by
  simp only [document?, Option.bind_eq_bind, Option.bind_eq_some_iff] at done
  obtain ⟨statements, read, progress, carried, ⟨⟩⟩ := done
  have root : progress.root.Distinct := Progress.distinct_foldlM Draft.Entries.distinct_nil
    (distinct_of_statements? read) carried
  exact root.finished

end TextDecoration.Toml
