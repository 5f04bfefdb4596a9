import TextDecoration.Grammar.Find
import TextDecoration.Proofs.Text.ByteSlices

/-!
# Finding a token by bytes

A text that is kept in its UTF-8 form is searched by offsets in bytes. Where a fit leaves an empty
token, the text behind the fit, or behind the offset searched from, is sliced off to see how many
bytes its first character has. The slice is there only if it begins between characters, and
`ByteEngine.findWithin` is done only if every slice it takes is there and its searches suffice.

It is done with one search more than there are characters left. Every search begins between
characters and behind the one before, and a token that is found lies in the text. All that is asked
of an engine is that its fits lie between characters of the text, at or behind the offset searched
from. The end of the first group may be anywhere; where it is between characters, so is the start of
the token.
-/

namespace TextDecoration

/-- A way of locating patterns that counts bytes: the fit that a search for a pattern in a text
settles for, at or behind an offset. -/
abbrev ByteEngine := Pattern → List Char → Nat → Option Pattern.Fit

namespace ByteEngine

/-- What is relied on of an engine that counts bytes. Nothing is said of a search from inside a
character. -/
structure Sound (engine : ByteEngine) : Prop where
  /-- A fit begins between characters, where a slice of the text may begin. -/
  begins {pattern : Pattern} {cs : List Char} {position : Nat} {fit : Pattern.Fit}
    (between : Text.IsBoundary cs position) (located : engine pattern cs position = some fit) :
    Text.IsBoundary cs fit.start
  /-- A fit ends between characters, where a slice of the text may end. -/
  ends {pattern : Pattern} {cs : List Char} {position : Nat} {fit : Pattern.Fit}
    (between : Text.IsBoundary cs position) (located : engine pattern cs position = some fit) :
    Text.IsBoundary cs fit.stop
  /-- A fit does not begin before the offset that the search began at. -/
  ahead {pattern : Pattern} {cs : List Char} {position : Nat} {fit : Pattern.Fit}
    (between : Text.IsBoundary cs position) (located : engine pattern cs position = some fit) :
    position ≤ fit.start
  /-- A fit does not end before it begins. It may be empty. -/
  ordered {pattern : Pattern} {cs : List Char} {position : Nat} {fit : Pattern.Fit}
    (between : Text.IsBoundary cs position) (located : engine pattern cs position = some fit) :
    fit.start ≤ fit.stop

section Search

variable (engine : ByteEngine) (pattern : Pattern) (lookbehind : Bool) (cs : List Char)

/-- Search again and again from an offset on: the offsets searched from, and the token that is found
in the end. There is no result if a slice is not there, or if `count` searches do not suffice. -/
def findWithin : (count position : Nat) → Option (List Nat × Option Hit)
  | 0, _ => none
  | count + 1, position =>
    if position ≤ Text.byteOffset cs cs.length then
      match engine pattern cs position with
      | none => some ([position], none)
      | some fit =>
        if (fit.hit lookbehind).start < (fit.hit lookbehind).stop then
          some ([position], some (fit.hit lookbehind))
        else do
          let next := max fit.stop position
          match ← Text.byteSlice? cs next (Text.byteOffset cs cs.length) with
          | [] => some ([position], none)
          | c :: _ =>
            let (searches, found) ← findWithin count (next + c.utf8Size)
            return (position :: searches, found)
    else some ([], none)

/-- Search as often as a text with so many characters can take: once at each of them, and once
behind the last. -/
def find (start : Nat) : Option (List Nat × Option Hit) :=
  findWithin engine pattern lookbehind cs (cs.length + 1) start

end Search

section Steps

variable {engine : ByteEngine} {pattern : Pattern} {lookbehind : Bool} {cs : List Char}
  {count before : Nat}

/-- Where nothing fits, the search ends, and nothing is found. -/
theorem findWithin_missed
    (nothing : engine pattern cs (Text.byteOffset cs before) = none) :
    engine.findWithin pattern lookbehind cs (count + 1) (Text.byteOffset cs before) =
      some ([Text.byteOffset cs before], none) := by
  rw [findWithin, if_pos (Text.isBoundary_byteOffset cs before).le, nothing]

variable {fit : Pattern.Fit}

/-- Where a fit has a token, the token is found, and the search ends there. -/
theorem findWithin_found
    (located : engine pattern cs (Text.byteOffset cs before) = some fit)
    (filled : (fit.hit lookbehind).start < (fit.hit lookbehind).stop) :
    engine.findWithin pattern lookbehind cs (count + 1) (Text.byteOffset cs before) =
      some ([Text.byteOffset cs before], some (fit.hit lookbehind)) := by
  rw [findWithin, if_pos (Text.isBoundary_byteOffset cs before).le, located]
  exact if_pos filled

/-- Where a fit leaves an empty token at the text's end, the search ends. There is no character left
to go on behind. -/
theorem findWithin_atEnd
    (located : engine pattern cs (Text.byteOffset cs before) = some fit)
    (idle : ¬(fit.hit lookbehind).start < (fit.hit lookbehind).stop)
    (last : max fit.stop (Text.byteOffset cs before) = Text.byteOffset cs cs.length) :
    engine.findWithin pattern lookbehind cs (count + 1) (Text.byteOffset cs before) =
      some ([Text.byteOffset cs before], none) := by
  have rest := Text.byteSlice?_byteOffset (Nat.le_refl cs.length) (Nat.le_refl cs.length)
  rw [slice_eq_drop, List.drop_length] at rest
  rw [findWithin, if_pos (Text.isBoundary_byteOffset cs before).le, located]
  simp only [if_neg idle, last, rest, Option.bind_eq_bind, Option.bind_some]

/-- Where a fit leaves an empty token before a character, the search goes on behind that character.
The fit's end decides which character that is, unless the search began behind it. -/
theorem findWithin_onward
    (located : engine pattern cs (Text.byteOffset cs before) = some fit)
    (idle : ¬(fit.hit lookbehind).start < (fit.hit lookbehind).stop) {next : Nat}
    (reached : max fit.stop (Text.byteOffset cs before) = Text.byteOffset cs next)
    (within : next < cs.length) :
    engine.findWithin pattern lookbehind cs (count + 1) (Text.byteOffset cs before) =
      (engine.findWithin pattern lookbehind cs count (Text.byteOffset cs (next + 1))).map
        fun later => (Text.byteOffset cs before :: later.1, later.2) := by
  have rest := Text.byteSlice?_byteOffset (Nat.le_of_lt within) (Nat.le_refl cs.length)
  rw [slice_eq_drop, List.drop_eq_getElem_cons within] at rest
  have character := Text.byteOffset_succ (List.drop_eq_getElem_cons within)
  rw [findWithin, if_pos (Text.isBoundary_byteOffset cs before).le, located]
  simp only [if_neg idle, reached, rest, Option.bind_eq_bind, Option.bind_some, character]
  cases engine.findWithin pattern lookbehind cs count (Text.byteOffset cs (next + 1)) <;> rfl

end Steps

/-- Where finding a token by bytes goes from some number of characters on: the offsets searched
from, and what is found in the end. -/
structure Searched (engine : ByteEngine) (pattern : Pattern) (lookbehind : Bool) (cs : List Char)
    (before : Nat) (searches : List Nat) (found : Option Hit) : Prop where
  /-- Every search begins behind the one before, so none is made twice. -/
  ascending : searches.Pairwise (· < ·)
  /-- Every search begins between characters, not before the offset that finding began at. -/
  between : ∀ position ∈ searches,
    Text.byteOffset cs before ≤ position ∧ Text.IsBoundary cs position
  /-- There is at most one search more than there are characters left: one before each character,
  and one at the end. -/
  few : searches.length ≤ cs.length - before + 1
  /-- What is found is the token of a fit that one of the searches reported. -/
  reported : ∀ hit, found = some hit → hit.start < hit.stop ∧ ∃ position ∈ searches, ∃ fit,
    engine pattern cs position = some fit ∧ hit = fit.hit lookbehind

section Searched

variable {engine : ByteEngine} {pattern : Pattern} {lookbehind : Bool} {cs : List Char}
  {count before : Nat} {searches : List Nat} {found : Option Hit}

/-- A single search, that finds nothing or the token of its fit. Both ways to end are of this
kind. -/
theorem Searched.single (reported : ∀ hit, found = some hit → hit.start < hit.stop ∧ ∃ fit,
        engine pattern cs (Text.byteOffset cs before) = some fit ∧ hit = fit.hit lookbehind) :
    Searched engine pattern lookbehind cs before [Text.byteOffset cs before] found where
  ascending := List.pairwise_singleton _ _
  between position among := by
    obtain rfl := List.mem_singleton.mp among
    exact ⟨Nat.le_refl _, Text.isBoundary_byteOffset cs before⟩
  few := Nat.le_add_left 1 _
  reported hit token := by
    obtain ⟨filled, fit, located, same⟩ := reported hit token
    exact ⟨filled, _, List.mem_singleton_self _, fit, located, same⟩

/-- A search before others, from further back. The character between the two is what pays for it. -/
theorem Searched.cons {later : Nat} (inside : before < later) (within : later ≤ cs.length)
    (searched : Searched engine pattern lookbehind cs later searches found) :
    Searched engine pattern lookbehind cs before (Text.byteOffset cs before :: searches) found where
  ascending := by
    have further := Text.byteOffset_lt inside within
    exact List.pairwise_cons.mpr ⟨fun position among =>
      Nat.lt_of_lt_of_le further (searched.between position among).1, searched.ascending⟩
  between position among := by
    rcases List.mem_cons.mp among with rfl | among
    · exact ⟨Nat.le_refl _, Text.isBoundary_byteOffset cs before⟩
    · obtain ⟨behind, between⟩ := searched.between position among
      exact ⟨Nat.le_trans (Text.byteOffset_mono cs (Nat.le_of_lt inside)) behind, between⟩
  few := by
    have few := searched.few
    rw [List.length_cons]
    omega
  reported hit token := by
    obtain ⟨filled, position, among, fit, located, same⟩ := searched.reported hit token
    exact ⟨filled, position, List.mem_cons_of_mem _ among, fit, located, same⟩

/-- From between characters, finding a token by bytes is done with one search more than there are
characters left. By induction on the number of searches: a fit that leaves an empty token ends
between characters, so the slice behind it is there, and what is left is shorter by a character. -/
theorem findWithin_searched (sound : engine.Sound) (inside : before ≤ cs.length)
    (enough : cs.length - before < count) :
    ∃ searches found, engine.findWithin pattern lookbehind cs count (Text.byteOffset cs before) =
        some (searches, found) ∧
      Searched engine pattern lookbehind cs before searches found := by
  induction count generalizing before with
  | zero => cases enough
  | succ count inductionHypothesis =>
    have here : Text.IsBoundary cs (Text.byteOffset cs before) :=
      Text.isBoundary_byteOffset cs before
    have nothing : Searched engine pattern lookbehind cs before [Text.byteOffset cs before] none :=
      Searched.single fun hit token => by cases token
    cases located : engine pattern cs (Text.byteOffset cs before) with
    | none => exact ⟨_, _, findWithin_missed located, nothing⟩
    | some fit =>
      by_cases filled : (fit.hit lookbehind).start < (fit.hit lookbehind).stop
      · refine ⟨_, _, findWithin_found located filled, Searched.single ?_⟩
        intro hit token
        cases token
        exact ⟨filled, fit, located, rfl⟩
      · obtain ⟨next, within, reached⟩ := (sound.ends here located).max here
        have onward : before ≤ next := by
          rw [← Text.byteOffset_le_iff inside within, reached]
          exact Nat.le_max_right _ _
        rcases Nat.eq_or_lt_of_le within with rfl | within
        · exact ⟨_, _, findWithin_atEnd located filled reached.symm, nothing⟩
        · have shorter : cs.length - (next + 1) < count := by omega
          obtain ⟨searches, found, done, searched⟩ := inductionHypothesis within shorter
          refine ⟨_, _, ?_, searched.cons (Nat.lt_succ_of_le onward) within⟩
          rw [findWithin_onward located filled reached.symm within, done, Option.map_some]

/-- Finding a token from between characters is done with the searches that it may take. In
particular there is a result. -/
theorem find_searched (sound : engine.Sound) (inside : before ≤ cs.length) :
    ∃ searches found, engine.find pattern lookbehind cs (Text.byteOffset cs before) =
        some (searches, found) ∧
      Searched engine pattern lookbehind cs before searches found :=
  findWithin_searched sound inside (by omega)

/-- The token that is found lies in the text, at or behind the offset that finding began at, and it
is not empty. It begins and ends between characters if the group's end is between characters. -/
theorem Searched.bounds (sound : engine.Sound)
    (searched : Searched engine pattern lookbehind cs before searches found) {hit : Hit}
    (token : found = some hit) :
    Text.byteOffset cs before ≤ hit.origin ∧ hit.origin ≤ hit.start ∧ hit.start < hit.stop ∧
      Text.IsBoundary cs hit.stop ∧ ∃ position ∈ searches, ∃ fit,
        engine pattern cs position = some fit ∧ hit = fit.hit lookbehind ∧
        ((∀ groupStop, fit.groupStop = some groupStop → Text.IsBoundary cs groupStop) →
          Text.IsBoundary cs hit.start) := by
  obtain ⟨filled, position, among, fit, located, rfl⟩ := searched.reported hit token
  obtain ⟨behind, between⟩ := searched.between position among
  have begins := sound.begins between located
  refine ⟨Nat.le_trans behind (sound.ahead between located), ?_, filled,
    sound.ends between located, position, among, fit, located, rfl, fun grouped => ?_⟩
  · rw [Pattern.Fit.hit]
    dsimp only
    split
    · exact Nat.le_max_right _ _
    · exact Nat.le_refl _
  · rw [Pattern.Fit.hit]
    dsimp only
    split
    · cases group : fit.groupStop with
      | none => exact begins.max begins
      | some groupStop => exact (grouped groupStop group).max begins
    · exact begins

end Searched

end ByteEngine

end TextDecoration
