import TextDecoration.Proofs.Style.Merging
import TextDecoration.Proofs.Table.Values

/-!
# The style of a range

A theme is made by giving styles to categories, and the last style given to a category is the one it
has. The style of a range is then told by the styles of those of its tags that the theme knows: it
has every attribute that one of them has, and of each colour the last one that they name in the
order of the tags. A tag that is not known is as good as not there.

The alias stands in only where no tag is known. A tag whose style changes nothing is known all the
same, and so keeps the alias out.
-/

namespace TextDecoration.Theme

open Style

/-- The theme that is made by giving styles to categories, one after the other. A category may be
given a style more than once. -/
def ofSettings (settings : List (String × Style)) : Theme :=
  settings.foldl (fun theme setting => theme.set setting.1 setting.2) empty

/-- Whether a theme has a style for one of some tags. A style that changes nothing is a style
too. -/
def Knows (theme : Theme) (tags : List String) : Prop :=
  ∃ tag ∈ tags, ∃ style, theme.get? tag = some style

section Resolution

variable {theme : Theme} {tags : List String}

/-- Tags have no styles exactly if none of them is known to the theme. -/
theorem filterMap_get?_eq_nil_iff : tags.filterMap theme.get? = [] ↔ ¬theme.Knows tags := by
  rw [List.filterMap_eq_nil_iff, Knows]
  simp only [Option.eq_none_iff_forall_ne_some, not_exists, not_and, ne_eq]

/-- Where no tag is known, the style is the alias's, or none. A token without an alias is unstyled
then. -/
theorem styleFor_unknown (unknown : ¬theme.Knows tags) (fallback : Option String) :
    theme.styleFor tags fallback = (fallback.bind theme.get?).getD {} := by
  rw [styleFor, filterMap_get?_eq_nil_iff.mpr unknown, layered]

/-- Where a tag is known, the style is that of all known tags laid over one another, whatever the
alias. -/
theorem exists_layered (known : theme.Knows tags) :
    ∃ style, layered (tags.filterMap theme.get?) = some style ∧
      ∀ fallback, theme.styleFor tags fallback = style := by
  cases result : layered (tags.filterMap theme.get?) with
  | none =>
    have none := layered_eq_none_iff.mp result
    exact absurd known (filterMap_get?_eq_nil_iff.mp none)
  | some style => exact ⟨style, rfl, fun fallback => by rw [styleFor, result]⟩

/-- The style of tags of which one is known has the attributes of all known ones, and no others. -/
theorem has_styleFor (known : theme.Knows tags) (fallback : Option String) (effect : Effect) :
    (theme.styleFor tags fallback).has effect = true ↔
      ∃ tag ∈ tags, ∃ style, theme.get? tag = some style ∧ style.has effect = true := by
  obtain ⟨style, result, resolved⟩ := exists_layered known
  rw [resolved, has_layered result, List.any_eq_true]
  constructor
  · rintro ⟨layer, among, on⟩
    obtain ⟨tag, listed, found⟩ := List.mem_filterMap.mp among
    exact ⟨tag, listed, layer, found, on⟩
  · rintro ⟨tag, listed, layer, found, on⟩
    exact ⟨layer, List.mem_filterMap.mpr ⟨tag, listed, found⟩, on⟩

/-- Each colour of such a style is the last one that known tags name, in the order of the tags. -/
theorem colour_styleFor (known : theme.Knows tags) (fallback : Option String) (ground : Ground) :
    (theme.styleFor tags fallback).colour ground =
      lastNamed ((tags.filterMap theme.get?).map fun style => style.colour ground) := by
  obtain ⟨style, result, resolved⟩ := exists_layered known
  rw [resolved, colour_layered result]

/-- Of two lists that both have known tags, the style of the second is laid over that of the
first. -/
theorem styleFor_append {others : List String} (known : theme.Knows tags)
    (knownOthers : theme.Knows others) (fallback lower upper : Option String) :
    theme.styleFor (tags ++ others) fallback =
      (theme.styleFor tags lower).merge (theme.styleFor others upper) := by
  obtain ⟨style, result, resolved⟩ := exists_layered known
  obtain ⟨other, resultOthers, resolvedOthers⟩ := exists_layered knownOthers
  rw [resolved, resolvedOthers, styleFor, List.filterMap_append,
    layered_append result resultOthers]

/-- Tags with the same known ones in the same order have the same style, also where their aliases
are asked. -/
theorem styleFor_congr {others : List String} (same : layered (tags.filterMap theme.get?) =
    layered (others.filterMap theme.get?)) (fallback : Option String) :
    theme.styleFor tags fallback = theme.styleFor others fallback := by
  rw [styleFor, styleFor, same]

/-- A tag that is not known is as good as not there, wherever it stands. -/
theorem styleFor_skip {tag : String} (unknown : theme.get? tag = none)
    (ahead behind : List String) (fallback : Option String) :
    theme.styleFor (ahead ++ tag :: behind) fallback =
      theme.styleFor (ahead ++ behind) fallback := by
  apply styleFor_congr
  rw [List.filterMap_append, List.filterMap_append, List.filterMap_cons_none unknown]

/-- The last tag once more changes nothing, known or not. Tags of a range are distinct, so this is
about lists of other origin. -/
theorem styleFor_repeat (ahead : List String) (tag : String) (fallback : Option String) :
    theme.styleFor (ahead ++ [tag, tag]) fallback = theme.styleFor (ahead ++ [tag]) fallback := by
  cases found : theme.get? tag with
  | none => rw [styleFor_skip found, styleFor_skip found]
  | some style =>
    apply styleFor_congr
    rw [List.filterMap_append, List.filterMap_append, List.filterMap_cons_some found,
      List.filterMap_cons_some found, List.filterMap_nil, layered_repeat]

/-- Themes that have the same styles resolve alike, whatever the order in which they were given. -/
theorem styleFor_of_get?_eq {other : Theme} (same : ∀ name, theme.get? name = other.get? name) :
    theme.styleFor = other.styleFor := by
  funext tags fallback
  rw [styleFor, styleFor, funext same]

end Resolution

/-- A category has the last style that was given to it, if any was. The styles given before are not
laid under it. -/
theorem get?_ofSettings (settings : List (String × Style)) (name : String) :
    (ofSettings settings).get? name =
      (settings.findRev? fun setting => setting.1 == name).map Prod.snd := by
  exact (Table.get?_foldl_put settings empty name).trans Option.or_none

/-- Further styles given to categories decide over those before them, category by category. -/
theorem get?_ofSettings_append (ahead behind : List (String × Style)) (name : String) :
    (ofSettings (ahead ++ behind)).get? name =
      ((behind.findRev? fun setting => setting.1 == name).map Prod.snd).or
        ((ofSettings ahead).get? name) := by
  rw [ofSettings, List.foldl_append]
  exact Table.get?_foldl_put behind (ofSettings ahead) name

/-- A style given to a category before another one does not count. Leaving it out makes no
difference to any range. -/
theorem styleFor_overtaken {name : String} {behind : List (String × Style)}
    (overtaken : name ∈ behind.map Prod.fst) (ahead : List (String × Style)) (style : Style) :
    (ofSettings (ahead ++ (name, style) :: behind)).styleFor =
      (ofSettings (ahead ++ behind)).styleFor := by
  apply styleFor_of_get?_eq
  intro other
  rw [get?_ofSettings_append, get?_ofSettings_append, List.findRev?]
  cases last : behind.findRev? fun setting => setting.1 == other with
  | some setting => rfl
  | none =>
    have different : (name == other) = false := by
      rw [List.findRev?_eq_find?_reverse, List.find?_eq_none] at last
      obtain ⟨setting, among, rfl⟩ := List.mem_map.mp overtaken
      simpa using last setting (List.mem_reverse.mpr among)
    rw [different]
    rfl

/-- The style of a range, for any theme made by giving styles to categories. A category has the last
style that was given to it, and styles given to it before do not count. Where no tag is known, the
style is the alias's if the theme has one, and else none. Where a tag is known, the alias does not
matter: the style has the attributes of all known tags, and each colour is the last one that they
name. So a tag that is not known is as good as not there, the last tag once more changes nothing,
and of two lists that both have known tags the style of the second is laid over that of the
first. -/
theorem styleFor_ofSettings (settings : List (String × Style)) :
    (∀ name, (ofSettings settings).get? name =
      (settings.findRev? fun setting => setting.1 == name).map Prod.snd) ∧
    (∀ ahead name style behind, settings = ahead ++ (name, style) :: behind →
      name ∈ behind.map Prod.fst →
        (ofSettings settings).styleFor = (ofSettings (ahead ++ behind)).styleFor) ∧
    ∀ (tags : List String) (fallback : Option String),
      (¬(ofSettings settings).Knows tags → (ofSettings settings).styleFor tags fallback =
        (fallback.bind (ofSettings settings).get?).getD {}) ∧
      ((ofSettings settings).Knows tags →
        (∀ other, (ofSettings settings).styleFor tags other =
          (ofSettings settings).styleFor tags fallback) ∧
        (∀ effect, ((ofSettings settings).styleFor tags fallback).has effect = true ↔
          ∃ tag ∈ tags, ∃ style, (ofSettings settings).get? tag = some style ∧
            style.has effect = true) ∧
        ∀ ground, ((ofSettings settings).styleFor tags fallback).colour ground =
          lastNamed ((tags.filterMap (ofSettings settings).get?).map
            fun style => style.colour ground)) ∧
      (∀ ahead tag behind, tags = ahead ++ tag :: behind →
        (ofSettings settings).get? tag = none →
          (ofSettings settings).styleFor tags fallback =
            (ofSettings settings).styleFor (ahead ++ behind) fallback) ∧
      (∀ last, tags.getLast? = some last →
        (ofSettings settings).styleFor (tags ++ [last]) fallback =
          (ofSettings settings).styleFor tags fallback) ∧
      ∀ others lower upper, (ofSettings settings).Knows tags →
        (ofSettings settings).Knows others →
          (ofSettings settings).styleFor (tags ++ others) fallback =
            ((ofSettings settings).styleFor tags lower).merge
              ((ofSettings settings).styleFor others upper) := by
  refine ⟨get?_ofSettings settings, ?_, fun tags fallback => ⟨fun unknown => ?_, fun known => ?_,
    ?_, ?_, fun others lower upper known knownOthers => ?_⟩⟩
  · rintro ahead name style behind rfl overtaken
    exact styleFor_overtaken overtaken ahead style
  · exact styleFor_unknown unknown fallback
  · obtain ⟨style, _, resolved⟩ := exists_layered known
    exact ⟨fun other => (resolved other).trans (resolved fallback).symm,
      has_styleFor known fallback, colour_styleFor known fallback⟩
  · rintro ahead tag behind rfl unknown
    exact styleFor_skip unknown ahead behind fallback
  · intro last ends
    obtain ⟨ahead, rfl⟩ := List.getLast?_eq_some_iff.mp ends
    rw [List.append_assoc]
    exact styleFor_repeat ahead last fallback
  · exact styleFor_append known knownOthers fallback lower upper

/-- A style given twice, colours with and without the terminal's own over them, and a style that
changes nothing. -/
def overlaidSettings : List (String × Style) :=
  [("bold", { fg := .red }), ("code", { fg := .blue, bg := .white }), ("quiet", {}),
    ("bold", { bg := .green, bold := true })]

/-- A tag that is not known, and one whose style changes nothing, leave the styles of the others as
they are; the alias of the known tags does not count, and that of an unknown one does. -/
theorem styleFor_overlaid :
    (ofSettings overlaidSettings).Knows ["code", "none", "quiet"] ∧
      (ofSettings overlaidSettings).Knows ["bold"] ∧
      ¬(ofSettings overlaidSettings).Knows ["none"] ∧
      (ofSettings overlaidSettings).styleFor ["code", "none", "quiet", "bold"] (some "code") =
        { fg := .blue, bg := .green, bold := true } ∧
      (ofSettings overlaidSettings).styleFor ["none"] (some "code") =
        { fg := .blue, bg := .white } := by
  obtain ⟨_, _, resolved⟩ := styleFor_ofSettings overlaidSettings
  have known : (ofSettings overlaidSettings).Knows ["code", "none", "quiet"] :=
    ⟨"code", by decide, _, rfl⟩
  have knownBold : (ofSettings overlaidSettings).Knows ["bold"] := ⟨"bold", by decide, _, rfl⟩
  have unknown : ¬(ofSettings overlaidSettings).Knows ["none"] := by
    rintro ⟨tag, among, style, found⟩
    obtain rfl := List.mem_singleton.mp among
    cases found
  obtain ⟨_, _, _, _, appended⟩ := resolved ["code", "none", "quiet"] (some "code")
  have merged := appended ["bold"] none none known knownBold
  refine ⟨known, knownBold, unknown, merged.trans ?_, ?_⟩
  · decide
  · exact (resolved ["none"] (some "code")).1 unknown

end TextDecoration.Theme
