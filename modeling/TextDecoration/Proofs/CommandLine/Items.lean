import Mathlib.Data.List.Basic
import Mathlib.Data.List.Induction
import TextDecoration.CommandLine.Options

/-!
# Arguments as items

Arguments are items, read from left to right: an option for a grammar together with the argument
behind it, whatever that is, and any other argument by itself. Every list of arguments is read as
items in exactly one way, and what it asks for is told by the items. The first one that settles the
reading does so alone; if none does, each setting is the last one of its kind.

So what stands behind an item that settles the reading makes no difference, and items of different
kinds may change places. The items are described by their spelling and without the reader, which is
then shown to take one of them at each step.
-/

namespace TextDecoration

namespace Argument

/-- All that is spelled in a fixed way, short and long. Everything else is a file or an option that
does not exist. -/
def fixed : List String :=
  ["--help", "-h", "--version", "-V", "--tokens", "--ranges", "--json", "--grammar", "-g", "-"]

/-- A text spells an argument. All that does not begin with a hyphen spells a file, and so does a
hyphen alone; what else begins with one is an option, and no such option exists unless it is spelled
in a fixed way. -/
def Spelled : Argument → String → Prop
  | help, text => text = "--help" ∨ text = "-h"
  | version, text => text = "--version" ∨ text = "-V"
  | mode .painted, _ => False
  | mode .tokens, text => text = "--tokens"
  | mode .ranges, text => text = "--ranges"
  | mode .json, text => text = "--json"
  | grammar, text => text = "--grammar" ∨ text = "-g"
  | file, text => text = "-" ∨ text.toList.head? ≠ some '-'
  | unknown, text => text.toList.head? = some '-' ∧ text ∉ fixed

/-- What is spelled in no fixed way is told by its first character: a hyphen makes it an unknown
option. A hyphen alone is spelled in a fixed way. -/
theorem ofText_of_not_fixed {text : String} (free : text ∉ fixed) :
    ofText text = if text.toList.head? = some '-' then unknown else file := by
  have listed : ∀ option ∈ options, option.1 ∈ fixed := by decide
  have missing : options.lookup text = none := by
    rw [List.lookup_eq_none_iff]
    intro option among
    exact bne_iff_ne.mpr fun same => free (same ▸ listed option among)
  rw [ofText, missing]

/-- What does not begin with a hyphen is spelled in no fixed way, since all that is begins with
one. -/
theorem not_fixed_of_head? {text : String} (apart : text.toList.head? ≠ some '-') :
    text ∉ fixed := by
  have hyphens : ∀ text ∈ fixed, text.toList.head? = some '-' := by decide
  exact fun among => apart (hyphens text among)

/-- Every text is understood as something that it spells. -/
theorem spelled_ofText (text : String) : (ofText text).Spelled text := by
  by_cases free : text ∈ fixed
  · simp only [fixed, List.mem_cons, List.not_mem_nil, or_false] at free
    rcases free with rfl | rfl | rfl | rfl | rfl | rfl | rfl | rfl | rfl | rfl <;>
      simp [ofText, options, Spelled, List.lookup_cons]
  · rw [ofText_of_not_fixed free]
    split
    · next hyphen => exact ⟨hyphen, free⟩
    · next apart => exact Or.inr apart

/-- A text is understood as an argument if and only if it spells that argument. No text spells two,
so the spellings are a second definition of the reading. -/
theorem ofText_eq_iff {text : String} {argument : Argument} :
    ofText text = argument ↔ argument.Spelled text := by
  constructor
  · rintro rfl
    exact spelled_ofText text
  · intro spelled
    cases argument with
    | help => rcases spelled with rfl | rfl <;> rfl
    | version => rcases spelled with rfl | rfl <;> rfl
    | mode mode =>
      cases mode with
      | painted => exact spelled.elim
      | tokens => cases spelled; rfl
      | ranges => cases spelled; rfl
      | json => cases spelled; rfl
    | grammar => rcases spelled with rfl | rfl <;> rfl
    | file =>
      rcases spelled with rfl | apart
      · rfl
      · rw [ofText_of_not_fixed (not_fixed_of_head? apart), if_neg apart]
    | unknown => rw [ofText_of_not_fixed spelled.2, if_pos spelled.1]

end Argument

/-- What is read in one go: an option with the value it takes, or any other argument. -/
inductive Item where
  | help
  | version
  | mode (mode : OutputMode)
  | grammar (name : String)
  /-- An option for a grammar behind which no argument is left. It can only be the last item. -/
  | grammarWithoutName
  | file (path : String)
  /-- An option that does not exist. The text is kept for the message. -/
  | unknown (option : String)
  deriving DecidableEq

/-- Arguments and the items that they are from left to right. Only an option for a grammar takes
the argument behind it, and that argument may spell anything. -/
inductive Itemised : List String → List Item → Prop where
  | none : Itemised [] []
  | help {text : String} {later : List String} {items : List Item}
      (spelled : Argument.help.Spelled text) (behind : Itemised later items) :
      Itemised (text :: later) (.help :: items)
  | version {text : String} {later : List String} {items : List Item}
      (spelled : Argument.version.Spelled text) (behind : Itemised later items) :
      Itemised (text :: later) (.version :: items)
  | mode {text : String} {later : List String} {items : List Item} {mode : OutputMode}
      (spelled : (Argument.mode mode).Spelled text) (behind : Itemised later items) :
      Itemised (text :: later) (.mode mode :: items)
  | grammar {text name : String} {later : List String} {items : List Item}
      (spelled : Argument.grammar.Spelled text) (behind : Itemised later items) :
      Itemised (text :: name :: later) (.grammar name :: items)
  | grammarWithoutName {text : String} (spelled : Argument.grammar.Spelled text) :
      Itemised [text] [.grammarWithoutName]
  | file {text : String} {later : List String} {items : List Item}
      (spelled : Argument.file.Spelled text) (behind : Itemised later items) :
      Itemised (text :: later) (.file text :: items)
  | unknown {text : String} {later : List String} {items : List Item}
      (spelled : Argument.unknown.Spelled text) (behind : Itemised later items) :
      Itemised (text :: later) (.unknown text :: items)

namespace Item

/-- The items that arguments are. They are read from left to right, and an option for a grammar
takes the next argument unseen. -/
def ofArguments : List String → List Item
  | [] => []
  | text :: later =>
    match Argument.ofText text, later with
    | .help, later => .help :: ofArguments later
    | .version, later => .version :: ofArguments later
    | .mode chosen, later => .mode chosen :: ofArguments later
    | .grammar, [] => [.grammarWithoutName]
    | .grammar, name :: later => .grammar name :: ofArguments later
    | .file, later => .file text :: ofArguments later
    | .unknown, later => .unknown text :: ofArguments later

/-- What an item settles, if anything: that there is nothing to decorate, since help or the version
is asked for, or that the arguments cannot be understood. -/
def verdict? : Item → Option (Except UsageFault Request)
  | help => some (.ok .help)
  | version => some (.ok .version)
  | grammarWithoutName => some (.error .grammarWithoutName)
  | unknown option => some (.error (.unknownOption option))
  | mode _ | grammar _ | file _ => none

/-- The output mode that an item chooses. Painting is what happens without one, and no argument asks
for it. -/
def mode? : Item → Option OutputMode
  | .mode chosen => some chosen
  | _ => none

/-- The grammar that an item names, which may be no name of a grammar at all; that is found out
later. -/
def name? : Item → Option String
  | grammar name => some name
  | _ => none

/-- The path of the document that an item tells. A hyphen is such a path too, and stands for the
standard input. -/
def path? : Item → Option String
  | file path => some path
  | _ => none

/-- The settings when an item has been read. Items that settle the reading leave the settings as
they are. -/
def apply (options : Options) : Item → Options
  | .mode chosen => { options with mode := chosen }
  | grammar name => { options with grammar := some name }
  | file path => { options with file := some path }
  | help | version | grammarWithoutName | unknown _ => options

/-- What items are about. Of those that settle the reading the first one decides, of all others the
last one of each kind. -/
inductive Kind where
  | verdict
  | mode
  | grammar
  | file
  deriving DecidableEq

/-- The kind of an item. All items that settle the reading are of one kind, as only the first of
them counts. -/
def kind : Item → Kind
  | help | version | grammarWithoutName | unknown _ => .verdict
  | mode _ => .mode
  | grammar _ => .grammar
  | file _ => .file

/-- The same items, where those of each kind stand in the same order. Items of different kinds may
have changed places in any way. -/
def Reordered (items others : List Item) : Prop :=
  ∀ kind, items.filter (·.kind = kind) = others.filter (·.kind = kind)

end Item

/-- The settings of the last item of each kind, or the default where there is none of that kind. -/
def Options.ofItems (items : List Item) : Options :=
  { mode := (items.filterMap Item.mode?).getLast?.getD .painted
    grammar := (items.filterMap Item.name?).getLast?
    file := (items.filterMap Item.path?).getLast? }

section Reading

variable {arguments : List String} {items others : List Item}

/-- Arguments are items in one way, the one in which they are read from left to right. -/
theorem itemised_iff : Itemised arguments items ↔ Item.ofArguments arguments = items := by
  constructor
  · intro read
    induction read with
    | none => rfl
    | help spelled _ inductionHypothesis
    | version spelled _ inductionHypothesis
    | mode spelled _ inductionHypothesis
    | grammar spelled _ inductionHypothesis
    | file spelled _ inductionHypothesis
    | unknown spelled _ inductionHypothesis =>
      rw [Item.ofArguments.eq_def]
      simp only [Argument.ofText_eq_iff.mpr spelled, inductionHypothesis]
    | grammarWithoutName spelled =>
      rw [Item.ofArguments.eq_def]
      simp only [Argument.ofText_eq_iff.mpr spelled]
  · rintro rfl
    fun_induction Item.ofArguments arguments with
    | case1 => exact .none
    | case2 text later understood inductionHypothesis =>
      exact .help (Argument.ofText_eq_iff.mp understood) inductionHypothesis
    | case3 text later understood inductionHypothesis =>
      exact .version (Argument.ofText_eq_iff.mp understood) inductionHypothesis
    | case4 text mode later understood inductionHypothesis =>
      exact .mode (Argument.ofText_eq_iff.mp understood) inductionHypothesis
    | case5 text understood =>
      exact .grammarWithoutName (Argument.ofText_eq_iff.mp understood)
    | case6 text name later understood inductionHypothesis =>
      exact .grammar (Argument.ofText_eq_iff.mp understood) inductionHypothesis
    | case7 text later understood inductionHypothesis =>
      exact .file (Argument.ofText_eq_iff.mp understood) inductionHypothesis
    | case8 text later understood inductionHypothesis =>
      exact .unknown (Argument.ofText_eq_iff.mp understood) inductionHypothesis

/-- The reader takes one item at a time: it ends at the first that settles the reading, and all
others are put into the settings in turn. -/
theorem Itemised.ofArguments_eq (read : Itemised arguments items) (options : Options) :
    Request.ofArguments options arguments =
      (items.findSome? Item.verdict?).getD (.ok (.decorate (items.foldl Item.apply options))) := by
  induction read generalizing options with
  | none => rfl
  | help spelled
  | version spelled
  | grammarWithoutName spelled
  | unknown spelled =>
    rw [Request.ofArguments, Request.read.eq_def]
    simp only [Argument.ofText_eq_iff.mpr spelled]
    rfl
  | mode spelled _ inductionHypothesis
  | grammar spelled _ inductionHypothesis
  | file spelled _ inductionHypothesis =>
    rw [Request.ofArguments, Request.read.eq_def]
    simp only [Argument.ofText_eq_iff.mpr spelled]
    exact inductionHypothesis _

/-- Reading a further item replaces the setting of its kind, and leaves the others as they are. -/
theorem Options.ofItems_append (items : List Item) (item : Item) :
    Options.ofItems (items ++ [item]) = item.apply (Options.ofItems items) := by
  cases item <;> simp [Options.ofItems, Item.apply, Item.mode?, Item.name?, Item.path?]

/-- Putting items into the settings one after the other leaves each setting as the last item of its
kind tells it. The induction is on the items from the back, where the last one is. -/
theorem foldl_apply (items : List Item) : items.foldl Item.apply {} = Options.ofItems items := by
  -- The last item decides over those ahead of it, so the items are taken off from behind.
  induction items using List.reverseRecOn with
  | nil => rfl
  | append_singleton items item inductionHypothesis =>
    rw [List.foldl_append, inductionHypothesis, Options.ofItems_append]
    rfl

/-- Only items of one kind settle the reading, and each item of that kind does. -/
theorem Item.verdict?_eq_none_iff {item : Item} : item.verdict? = none ↔ item.kind ≠ .verdict := by
  cases item <;> simp [verdict?, kind]

/-- Each setting is told by items of one kind. An item of another kind says nothing about it. -/
theorem Item.eq_none_of_kind (item : Item) :
    (item.kind ≠ .mode → item.mode? = none) ∧ (item.kind ≠ .grammar → item.name? = none) ∧
      (item.kind ≠ .file → item.path? = none) := by
  cases item <;> simp [mode?, name?, path?, kind]

/-- What items of one kind tell stays the same when items are reordered, since the items that tell
something stay in their order. -/
theorem Item.Reordered.filterMap_eq {α : Type} {tell : Item → Option α} {kind : Item.Kind}
    (reordered : Item.Reordered items others)
    (only : ∀ item : Item, item.kind ≠ kind → tell item = none) :
    items.filterMap tell = others.filterMap tell := by
  -- The items of other kinds tell nothing, so leaving them out makes no difference.
  have told (items : List Item) :
      (items.filter (·.kind = kind)).filterMap tell = items.filterMap tell := by
    rw [List.filterMap_filter]
    refine List.filterMap_congr fun item _ => ?_
    by_cases same : item.kind = kind
    · simp only [same, decide_true, if_true]
    · simp only [same, only item same, decide_false, ite_self]
  rw [← told items, ← told others, reordered kind]

/-- The first item that settles the reading says the same when items are reordered, and there is one
in both orders or in neither. -/
theorem Item.Reordered.findSome?_eq (reordered : Item.Reordered items others) :
    items.findSome? Item.verdict? = others.findSome? Item.verdict? := by
  rw [← List.head?_filterMap, ← List.head?_filterMap,
    reordered.filterMap_eq fun _ => Item.verdict?_eq_none_iff.mpr]

/-- The last items of the other kinds make the same settings when items are reordered. Each setting
is the last entry of a list that does not change. -/
theorem Item.Reordered.ofItems_eq (reordered : Item.Reordered items others) :
    Options.ofItems items = Options.ofItems others := by
  have modes : items.filterMap Item.mode? = others.filterMap Item.mode? :=
    reordered.filterMap_eq fun item => item.eq_none_of_kind.1
  have names : items.filterMap Item.name? = others.filterMap Item.name? :=
    reordered.filterMap_eq fun item => item.eq_none_of_kind.2.1
  have paths : items.filterMap Item.path? = others.filterMap Item.path? :=
    reordered.filterMap_eq fun item => item.eq_none_of_kind.2.2
  rw [Options.ofItems, Options.ofItems, modes, names, paths]

/-- What an item says that settles the reading is said whatever stands behind it, unless another one
ahead has settled the reading before. -/
theorem exists_findSome?_eq {item : Item} (settles : item.kind = .verdict) (ahead : List Item) :
    ∃ verdict, ∀ behind, (ahead ++ item :: behind).findSome? Item.verdict? = some verdict := by
  cases said : item.verdict? with
  | none => exact absurd settles (Item.verdict?_eq_none_iff.mp said)
  | some verdict =>
    refine ⟨(ahead.findSome? Item.verdict?).getD verdict, fun behind => ?_⟩
    rw [List.findSome?_append, List.findSome?_cons, said, Option.or_some]

/-- What arguments ask for is told by their items: by the first that settles the reading, or else by
the last of each kind. -/
theorem Itemised.ofArguments_default (read : Itemised arguments items) :
    Request.ofArguments {} arguments =
      (items.findSome? Item.verdict?).getD (.ok (.decorate (Options.ofItems items))) := by
  rw [read.ofArguments_eq, foldl_apply]

end Reading

/-- Every list of arguments is read as items in exactly one way. What it asks for, or why it cannot
be understood, is what the first of its items says that settles the reading, and if there is none,
to decorate with the settings of the last item of each kind. Whatever arguments are put behind an
item that settles the reading, they make no difference; and neither does the order of the items, as
long as those of each kind stay in theirs. -/
theorem Request.ofArguments_itemised (arguments : List String) :
    ∃ items, (∀ others, Itemised arguments others ↔ others = items) ∧
      Request.ofArguments {} arguments =
        (items.findSome? Item.verdict?).getD (.ok (.decorate (Options.ofItems items))) ∧
      (∀ ahead item behind after others, items = ahead ++ item :: behind → item.kind = .verdict →
        Itemised others (ahead ++ item :: after) →
        Request.ofArguments {} others = Request.ofArguments {} arguments) ∧
      ∀ reordered others, Item.Reordered items reordered → Itemised others reordered →
        Request.ofArguments {} others = Request.ofArguments {} arguments := by
  have read : Itemised arguments (Item.ofArguments arguments) := itemised_iff.mpr rfl
  refine ⟨Item.ofArguments arguments, fun others => ?_, read.ofArguments_default, ?_, ?_⟩
  · rw [itemised_iff]
    exact eq_comm
  · intro ahead item behind after others parts settles other
    obtain ⟨verdict, said⟩ := exists_findSome?_eq settles ahead
    rw [read.ofArguments_default, other.ofArguments_default, parts, said, said]
    rfl
  · intro reordered others same other
    rw [read.ofArguments_default, other.ofArguments_default, same.findSome?_eq, same.ofItems_eq]

/-- Names of grammars that look like options are names all the same, settings of different kinds may
change places, and what stands behind a question for help is not looked at. -/
theorem Request.ofArguments_itemised_hyphens :
    Itemised ["-g", "--help", "a.md", "--json", "-"]
        [.grammar "--help", .file "a.md", .mode .json, .file "-"] ∧
      Request.ofArguments {} ["-g", "--help", "a.md", "--json", "-"] =
        .ok (.decorate { mode := .json, grammar := some "--help", file := some "-" }) ∧
      Request.ofArguments {} ["--json", "a.md", "-", "--grammar", "--help"] =
        Request.ofArguments {} ["-g", "--help", "a.md", "--json", "-"] ∧
      Request.ofArguments {} ["--json", "-h", "--bogus"] =
        Request.ofArguments {} ["--json", "-h", "-g"] := by
  have read : Itemised ["-g", "--help", "a.md", "--json", "-"]
      [.grammar "--help", .file "a.md", .mode .json, .file "-"] := itemised_iff.mpr rfl
  obtain ⟨items, unique, asked, _, reordered⟩ :=
    Request.ofArguments_itemised ["-g", "--help", "a.md", "--json", "-"]
  obtain rfl := (unique _).mp read
  obtain ⟨other, once, _, behind, _⟩ := Request.ofArguments_itemised ["--json", "-h", "-g"]
  have parts : other = [.mode .json, .help, .grammarWithoutName] :=
    ((once _).mp (itemised_iff.mpr rfl)).symm
  refine ⟨read, asked, ?_, ?_⟩
  · apply reordered [.mode .json, .file "a.md", .file "-", .grammar "--help"]
    · intro kind
      cases kind <;> rfl
    · exact itemised_iff.mpr rfl
  · exact behind [.mode .json] .help [.grammarWithoutName] [.unknown "--bogus"] _ parts rfl
      (itemised_iff.mpr rfl)

end TextDecoration
