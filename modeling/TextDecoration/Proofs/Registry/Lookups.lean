import Mathlib.Data.List.Sort
import TextDecoration.Proofs.Registry.Detection

/-!
# Lookups in a registry

A registry answers by the languages that were added, the last one first. A file's language is the
last one that lists the file's extension; a name stands for the grammar of the last language of that
name; and the names are those of all languages, each once and in order.

The two tables of a registry are written side by side: an extension leads to a name that was added
in the same step. So every name that is ever detected is known, also if the language that listed the
extension has been replaced since; which grammar then stands under the name is told by the names and
not by the extension.
-/

namespace TextDecoration

/-- A set of names is written as the only strictly ascending list of its members. Both the order and
the members determine the list. -/
theorem Names.eq_toList_iff {set : Names} {list : List String} :
    list = set.toList ↔ list.Pairwise (· < ·) ∧ ∀ name, name ∈ list ↔ name ∈ set.toList := by
  constructor
  · rintro rfl
    exact ⟨set.ascending, fun _ => Iff.rfl⟩
  · rintro ⟨ascending, same⟩
    exact ascending.eq_of_mem_iff set.ascending same

namespace Registry

/-- One of the languages passes a test exactly if there is a last one that does. -/
theorem isSome_findRev? (languages : List Language) (test : Language → Bool) :
    (languages.findRev? test).isSome = true ↔ ∃ language ∈ languages, test language = true := by
  rw [List.findRev?_eq_find?_reverse, List.find?_isSome]
  simp only [List.mem_reverse]

/-- The grammar under a name is that of the last language of the name, if there is one. -/
theorem get?_ofLanguages (languages : List Language) (name : String) :
    (ofLanguages languages).get? name =
      (languages.findRev? fun language => language.name == name).map Language.grammar := by
  rw [get?, get?_languages]

/-- Looking a name up gives the grammar of the last language of the name, or the failure to find
one. -/
theorem resolve_ofLanguages (languages : List Language) (name : String) :
    (ofLanguages languages).resolve name =
      match languages.findRev? fun language => language.name == name with
      | some language => .ok language.grammar
      | none => .error (.unknownGrammar name) := by
  rw [resolve, get?_ofLanguages]
  cases languages.findRev? fun language => language.name == name <;> rfl

/-- The name of a language that was added is known, also if the language itself has been
replaced. -/
theorem exists_of_added {languages : List Language} {language : Language}
    (added : language ∈ languages) :
    ∃ grammar, (ofLanguages languages).resolve language.name = .ok grammar := by
  have present : (languages.findRev? fun other => other.name == language.name).isSome = true :=
    (isSome_findRev? languages _).mpr ⟨language, added, beq_self_eq_true language.name⟩
  obtain ⟨last, found⟩ := Option.isSome_iff_exists.mp present
  exact ⟨last.grammar, by rw [resolve_ofLanguages, found]⟩

/-- The table of languages has the names of those that were added. Replacing one does not remove its
name. -/
theorem mem_names_languages {languages : List Language} {name : String} :
    name ∈ (ofLanguages languages).languages.names ↔
      ∃ language ∈ languages, language.name = name := by
  rw [← Table.contains_iff, Table.contains_eq_isSome, get?_languages, isSome_findRev?]
  simp only [beq_iff_eq]

/-- What a file's extension leads to is the name of the last language that lists it. A file without
an extension leads nowhere. -/
theorem detect_ofLanguages (languages : List Language) (file : String) :
    (ofLanguages languages).detect file = (Text.extension? file).bind fun extension =>
      (languages.findRev? (·.lists extension)).map Language.name := by
  rw [detect]
  cases Text.extension? file with
  | none => rfl
  | some extension => exact get?_extensions languages extension

/-- A registry follows the languages that were added to it, whatever they are called and whatever
they list. A file's language is the last one that lists the file's extension, without regard to
case, and there is none if the file has no extension or no language lists it. Every detected name is
known. The names that are known are those of languages that were added; each stands for the grammar
added last under it, and to look up any other one fails with that name. All names together are
written as the one strictly ascending list of them. -/
theorem lookups_last (languages : List Language) :
    (∀ file, (ofLanguages languages).detect file = (Text.extension? file).bind fun extension =>
        (languages.findRev? (·.lists extension)).map Language.name) ∧
      (∀ file name, (ofLanguages languages).detect file = some name →
        ∃ grammar, (ofLanguages languages).resolve name = .ok grammar) ∧
      (∀ name, (ofLanguages languages).resolve name =
        match languages.findRev? fun language => language.name == name with
        | some language => .ok language.grammar
        | none => .error (.unknownGrammar name)) ∧
      (∀ name, (∃ grammar, (ofLanguages languages).resolve name = .ok grammar) ↔
        ∃ language ∈ languages, language.name = name) ∧
      ∀ list, list = (ofLanguages languages).names.toList ↔
        list.Pairwise (· < ·) ∧
          ∀ name, name ∈ list ↔ ∃ language ∈ languages, language.name = name := by
  have known : ∀ name, (∃ grammar, (ofLanguages languages).resolve name = .ok grammar) ↔
      ∃ language ∈ languages, language.name = name := by
    intro name
    constructor
    · rintro ⟨grammar, resolved⟩
      rw [resolve_ofLanguages] at resolved
      split at resolved
      · next language last =>
        obtain ⟨own, ahead, behind, rfl, _⟩ := findRev?_eq_some_iff.mp last
        exact ⟨language, by simp, beq_iff_eq.mp own⟩
      · cases resolved
    · rintro ⟨language, added, rfl⟩
      exact exists_of_added added
  refine ⟨detect_ofLanguages languages, ?_, resolve_ofLanguages languages, known, ?_⟩
  · intro file name detected
    rw [detect_ofLanguages] at detected
    obtain ⟨extension, _, listed⟩ := Option.bind_eq_some_iff.mp detected
    obtain ⟨language, last, rfl⟩ := Option.map_eq_some_iff.mp listed
    obtain ⟨_, ahead, behind, rfl, _⟩ := findRev?_eq_some_iff.mp last
    exact exists_of_added (by simp)
  · intro list
    rw [Names.eq_toList_iff, names]
    simp only [Names.mem_toList_ofList, mem_names_languages]

/-- Three languages, of which the last one replaces the first and another one has taken its
extension. -/
def overtaken : List Language :=
  [{ name := "notes", grammar := Grammar.empty, extensions := ["md", "TXT"] },
   { name := "prose", grammar := Builtin.Markup.grammar, extensions := ["Md"] },
   { name := "notes", grammar := Builtin.Markdown.grammar, extensions := ["rst"] }]

/-- The extension leads to the language that has taken it, and the replaced language's other one to
the grammar that stands under its name now. -/
theorem lookups_last_overtaken :
    (ofLanguages overtaken).detect "a.mD" = some "prose" ∧
      (ofLanguages overtaken).detect "b.txt" = some "notes" ∧
      (ofLanguages overtaken).resolve "notes" = .ok Builtin.Markdown.grammar ∧
      (∃ grammar, (ofLanguages overtaken).resolve "prose" = .ok grammar) ∧
      (ofLanguages overtaken).resolve "md" = .error (.unknownGrammar "md") ∧
      (ofLanguages overtaken).names.toList = ["notes", "prose"] := by
  obtain ⟨detected, resolves, resolved, _, listed⟩ := lookups_last overtaken
  have prose : (ofLanguages overtaken).detect "a.mD" = some "prose" := by
    rw [detected]
    decide +kernel
  refine ⟨prose, ?_, ?_, resolves "a.mD" "prose" prose, ?_, ?_⟩
  · rw [detected]
    decide +kernel
  · rw [resolved]
    rfl
  · rw [resolved]
    rfl
  · have members : ∀ name, name ∈ ["notes", "prose"] ↔
        ∃ language ∈ overtaken, language.name = name := by
      intro name
      simp only [overtaken, List.mem_cons, List.not_mem_nil, or_false, exists_eq_or_imp,
        exists_eq_left]
      grind
    exact ((listed ["notes", "prose"]).mpr ⟨by decide, members⟩).symm

end Registry

end TextDecoration
