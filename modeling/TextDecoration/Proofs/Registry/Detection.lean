import Mathlib.Data.List.Basic
import Mathlib.Data.List.Induction
import TextDecoration.Proofs.Table.Values
import TextDecoration.Registry

/-!
# Detected languages

The name that a file's extension is detected by is that of the language, among all that were ever
added, that was the last one to list the extension. The language registered under a name is the last
one added with it. The two need not be the same: a language that replaces another one of its name
takes over the name alone, and what the replaced one claimed stays claimed. So a detected language
may not list the file's extension, and this happens just when the one that listed it was replaced.

Nothing is said about what an extension is; that is left to the reading of file names.
-/

namespace TextDecoration

/-- Whether a language lists an extension. Case does not count on either side. -/
def Language.lists (language : Language) (extension : String) : Bool :=
  (language.extensions.map Unicode.toLower).contains (Unicode.toLower extension)

namespace Registry

/-- The last language of a list that passes a test is the one behind which none does. -/
theorem findRev?_eq_some_iff {languages : List Language} {test : Language → Bool}
    {language : Language} : languages.findRev? test = some language ↔
      test language = true ∧ ∃ ahead behind, languages = ahead ++ language :: behind ∧
        ∀ other ∈ behind, test other = false := by
  rw [List.findRev?_eq_find?_reverse, List.find?_eq_some_iff_append]
  constructor
  · rintro ⟨passes, before, after, parts, none⟩
    refine ⟨passes, after.reverse, before.reverse, ?_, fun other among => ?_⟩
    · rw [← List.reverse_reverse languages, parts]
      simp
    · simpa using none other (List.mem_reverse.mp among)
  · rintro ⟨passes, ahead, behind, rfl, none⟩
    refine ⟨passes, behind.reverse, ahead.reverse, by simp, fun other among => ?_⟩
    simpa using none other (List.mem_reverse.mp among)

/-- A further language is the last one that passes a test, or else it is one of those before it. -/
theorem findRev?_concat (languages : List Language) (language : Language)
    (test : Language → Bool) : (languages ++ [language]).findRev? test =
      if test language then some language else languages.findRev? test := by
  rw [List.findRev?_eq_find?_reverse, List.findRev?_eq_find?_reverse, List.reverse_concat,
    List.find?_cons]
  cases test language with
  | true => rfl
  | false => rfl

/-- A further language is added to the registry of those before it. -/
theorem ofLanguages_concat (languages : List Language) (language : Language) :
    ofLanguages (languages ++ [language]) = (ofLanguages languages).add language :=
  List.foldl_concat ..

/-- Extensions given to a name belong to it, and all others to whom they belonged before. -/
theorem get?_claimed (name : String) (extensions : List String) (claimed : Table String)
    (key : String) :
    (extensions.foldl (fun claimed extension => claimed.put (Unicode.toLower extension) name)
        claimed).get? key =
      if key ∈ extensions.map Unicode.toLower then some name else claimed.get? key := by
  induction extensions generalizing claimed with
  | nil => simp
  | cons extension extensions inductionHypothesis =>
    rw [List.foldl_cons, inductionHypothesis, Table.get?_put, List.map_cons]
    by_cases later : key ∈ extensions.map Unicode.toLower
    · simp [later]
    · simp [later]

/-- An extension belongs to the last language that lists it. Whether that language is still
registered under its name is not asked. -/
theorem get?_extensions (languages : List Language) (extension : String) :
    (ofLanguages languages).extensions.get? (Unicode.toLower extension) =
      (languages.findRev? (·.lists extension)).map Language.name := by
  induction languages using List.reverseRecOn with
  | nil => rfl
  | append_singleton languages language inductionHypothesis =>
    rw [ofLanguages_concat, add, get?_claimed, inductionHypothesis, findRev?_concat]
    by_cases listed : Unicode.toLower extension ∈ language.extensions.map Unicode.toLower
    · have lists : language.lists extension = true := List.contains_iff_mem.mpr listed
      rw [if_pos listed, if_pos lists]
      rfl
    · have lists : ¬language.lists extension = true := fun lists =>
        listed (List.contains_iff_mem.mp lists)
      rw [if_neg listed, if_neg lists]

/-- A name belongs to the last language of that name. Earlier ones are gone from the table of
languages. -/
theorem get?_languages (languages : List Language) (name : String) :
    (ofLanguages languages).languages.get? name =
      languages.findRev? fun language => language.name == name := by
  induction languages using List.reverseRecOn with
  | nil => rfl
  | append_singleton languages language inductionHypothesis =>
    rw [ofLanguages_concat, add, Table.get?_put, inductionHypothesis, findRev?_concat]
    by_cases same : language.name = name
    · simp [same]
    · simp [same, Ne.symm same]

/-- A file's language is detected by the extension in its name, in lower case, and by nothing
else. -/
theorem detect_eq_some_iff {registry : Registry} {file name : String} :
    registry.detect file = some name ↔ ∃ extension, Text.extension? file = some extension ∧
      registry.extensions.get? (Unicode.toLower extension) = some name :=
  Option.bind_eq_some_iff

/-- A detected name is that of the last language, in the order in which they were added, that lists
the file's extension. The language now registered under the name lists the extension too exactly if
none of this name was added since. -/
theorem detect_current (languages : List Language) (file name : String)
    (detected : (ofLanguages languages).detect file = some name) :
    ∃ extension ahead claimant behind current,
      Text.extension? file = some extension ∧ languages = ahead ++ claimant :: behind ∧
      claimant.name = name ∧ claimant.lists extension = true ∧
      (∀ other ∈ behind, other.lists extension = false) ∧
      (ofLanguages languages).languages.get? name = some current ∧
      (current.lists extension = true ↔ ∀ other ∈ behind, other.name ≠ name) := by
  obtain ⟨extension, read, found⟩ := detect_eq_some_iff.mp detected
  rw [get?_extensions, Option.map_eq_some_iff] at found
  obtain ⟨claimant, last, own⟩ := found
  obtain ⟨lists, ahead, behind, parts, none⟩ := findRev?_eq_some_iff.mp last
  by_cases kept : ∀ other ∈ behind, other.name ≠ name
  · have registered : languages.findRev? (fun language => language.name == name) =
        some claimant :=
      findRev?_eq_some_iff.mpr ⟨by simp [own], ahead, behind, parts,
        fun other among => by simp [kept other among]⟩
    exact ⟨extension, ahead, claimant, behind, claimant, read, parts, own, lists, none,
      (get?_languages languages name).trans registered, iff_of_true lists kept⟩
  · -- The last language of the name stands behind the claimant, where none lists the extension.
    have replaced : ∃ other ∈ behind, other.name = name := by simpa using kept
    obtain ⟨current, registered⟩ : ∃ current,
        behind.findRev? (fun language => language.name == name) = some current := by
      rw [← Option.isSome_iff_exists, List.findRev?_eq_find?_reverse]
      simpa using replaced
    obtain ⟨same, between, after, rest, others⟩ := findRev?_eq_some_iff.mp registered
    have whole : languages.findRev? (fun language => language.name == name) = some current :=
      findRev?_eq_some_iff.mpr ⟨same, ahead ++ claimant :: between, after,
        by rw [parts, rest, List.append_assoc, List.cons_append], others⟩
    have stale : current.lists extension = false := none current (by simp [rest])
    exact ⟨extension, ahead, claimant, behind, current, read, parts, own, lists, none,
      (get?_languages languages name).trans whole, iff_of_false (by simp [stale]) kept⟩

/-- Two languages of the same name, of which the second one lists another extension. The first one
is replaced. -/
def renewed : List Language :=
  [{ name := "notes", grammar := Grammar.empty, extensions := ["md"] },
   { name := "notes", grammar := Grammar.empty, extensions := ["txt"] }]

/-- The extension of the first one still leads to the name, under which the second one stands. -/
theorem detect_current_renewed : (ofLanguages renewed).detect "a.MD" = some "notes" ∧
    ∃ current, (ofLanguages renewed).languages.get? "notes" = some current ∧
      Text.extension? "a.MD" = some "MD" ∧ current.lists "MD" = false := by
  have detected : (ofLanguages renewed).detect "a.MD" = some "notes" := by decide +kernel
  obtain ⟨extension, ahead, claimant, behind, current,
    read, parts, _, lists, _, registered, kept⟩ :=
    detect_current renewed "a.MD" "notes" detected
  obtain rfl : "MD" = extension := Option.some.inj read
  have replaced : ∃ other ∈ behind, other.name = "notes" := by
    cases ahead with
    | nil =>
      obtain ⟨_, rfl⟩ := List.cons.inj parts
      exact ⟨_, List.mem_singleton_self _, rfl⟩
    | cons first ahead =>
      -- Behind the first language there is only the second one, which does not list it.
      have second : claimant ∈ renewed.tail := by simp [parts]
      obtain rfl := List.mem_singleton.mp second
      exact absurd lists (by decide +kernel)
  obtain ⟨other, among, same⟩ := replaced
  refine ⟨detected, current, registered, rfl, Bool.eq_false_iff.mpr fun still => ?_⟩
  exact kept.mp still other among same

/-- Not every detected name is that of a registered language that lists the file's extension. The
extension of a language that was replaced is kept. -/
theorem not_always_current : ¬∀ languages file name,
    (ofLanguages languages).detect file = some name → ∃ extension current,
      Text.extension? file = some extension ∧
      (ofLanguages languages).languages.get? name = some current ∧
      current.lists extension = true := by
  intro always
  have detected : (ofLanguages renewed).detect "a.MD" = some "notes" := by decide +kernel
  obtain ⟨extension, current, read, registered, lists⟩ := always renewed "a.MD" "notes" detected
  obtain rfl : "MD" = extension := Option.some.inj read
  obtain rfl := Option.some.inj registered
  exact absurd lists (by decide +kernel)

end Registry

end TextDecoration
