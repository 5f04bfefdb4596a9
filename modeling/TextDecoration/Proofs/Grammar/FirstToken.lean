import TextDecoration.Proofs.Grammar.Visits
import TextDecoration.Proofs.Pattern.Groups
import TextDecoration.Proofs.Text.Offsets

/-!
# Which token is found

A rule whose token is the whole fit finds the first token that there is: the preferred fit, if it is
not empty, of the first position that has such a one. A fit with an empty token is empty itself, so
every position up to there is visited; and to begin the search at any of them makes no difference.

A rule whose pattern's first group is context does not always find the first token. A fit of which
the group takes all is passed over as a whole, along with the character behind it, so a token that
begins in between is not found. Such a rule finds the first token exactly if no fit that is visited
on the way reaches the token's position.

Both laws hold of every engine that finds leftmost preferred fits, whatever its patterns are and
however they are compiled. Nothing is said about a search that is cut short.
-/

namespace TextDecoration

/-- A hit with its positions counted in the bytes of the text, the fit's start among them. -/
def Hit.inBytes (cs : List Char) (hit : Hit) : Hit where
  origin := Text.byteOffset cs hit.origin
  start := Text.byteOffset cs hit.start
  stop := Text.byteOffset cs hit.stop

namespace Engine

section Bytes

variable {engine : Engine} {pattern : Pattern} {lookbehind : Bool} {cs : List Char}

/-- To find a token from the bytes before a character on is to find it from that character on. -/
theorem findAtByte_byteOffset {start : Nat} (inside : start ≤ cs.length) :
    engine.findAtByte pattern lookbehind (String.ofList cs) (Text.byteOffset cs start) =
      (engine.find pattern lookbehind cs.toArray start).map (Hit.inBytes cs) := by
  simp only [findAtByte, String.toList_ofList, Text.charOffset?_byteOffset inside,
    Option.bind_eq_bind, Option.bind_some]
  cases engine.find pattern lookbehind cs.toArray start <;> rfl

/-- Behind the last byte no token is found, and the engine is not asked. -/
theorem findAtByte_beyond {bytes : Nat} (beyond : Text.byteOffset cs cs.length < bytes) :
    engine.findAtByte pattern lookbehind (String.ofList cs) bytes = none := by
  simp only [findAtByte, String.toList_ofList, Text.charOffset?_beyond beyond,
    Option.bind_eq_bind, Option.bind_none]

end Bytes

namespace Preference

variable {engine : Engine} {pattern : Pattern} {text : Array Char}

/-- Whether the token of every fit is the whole fit: there is no context, or the pattern has no
group that could be context, so that none of its fits reports the end of one. -/
def Direct (preference : engine.Preference pattern text) (lookbehind : Bool) : Prop :=
  lookbehind = false ∨
    ∀ position fit, preference.fitAt position = some fit → fit.groupStop = none

variable {preference : engine.Preference pattern text} {lookbehind : Bool}

section WholeFits

variable {start position : Nat} (direct : preference.Direct lookbehind)

include direct

/-- The token of a fit is the whole fit, where no context can be left out. A group that is no
context does not matter. -/
theorem hit_of_direct {fit : Pattern.Fit} (fits : preference.fitAt position = some fit) :
    fit.hit lookbehind = { origin := position, start := position, stop := fit.stop } := by
  have begins := preference.begins fits
  rcases direct with context | groupless
  · rw [Pattern.Fit.hit, context, begins]
    rfl
  · have none := groupless position fit fits
    rw [Pattern.Fit.hit, none, begins]
    simp

/-- A position has a token exactly if the preferred fit there is not empty. -/
theorem tokenAt_eq_some_iff_of_direct {hit : Hit} :
    preference.tokenAt lookbehind position = some hit ↔
      ∃ fit, preference.fitAt position = some fit ∧ position < fit.stop ∧
        hit = { origin := position, start := position, stop := fit.stop } := by
  rw [tokenAt_eq_some_iff]
  constructor
  · rintro ⟨⟨fit, fits, rfl⟩, filled⟩
    rw [hit_of_direct direct fits] at filled ⊢
    exact ⟨fit, fits, filled, rfl⟩
  · rintro ⟨fit, fits, filled, rfl⟩
    exact ⟨⟨fit, fits, (hit_of_direct direct fits).symm⟩, filled⟩

/-- A position has no token exactly if the preferred fit there, if any, is empty. Nothing else can
keep it from having one. -/
theorem tokenAt_eq_none_iff_of_direct :
    preference.tokenAt lookbehind position = none ↔
      ∀ fit, preference.fitAt position = some fit → fit.stop = position := by
  constructor
  · intro none fit fits
    have idle := (tokenAt_eq_none_iff fits).mp none
    rw [hit_of_direct direct fits] at idle
    exact Nat.le_antisymm (Nat.le_of_not_lt idle) (preference.ordered fits)
  · intro empty
    cases fits : preference.fitAt position with
    | none => exact tokenAt_of_fitAt_none fits
    | some fit =>
      rw [tokenAt_eq_none_iff fits, hit_of_direct direct fits, empty fit fits]
      exact Nat.lt_irrefl position

/-- Finding such a token goes on to the next position: the fit that is passed over is empty, so it
ends where it begins. -/
theorem GoesOn.eq_succ {next : Nat} (goesOn : preference.GoesOn lookbehind position next) :
    next = position + 1 := by
  cases goesOn with
  | missed => rfl
  | idle fits empty =>
    exact congrArg (· + 1) ((tokenAt_eq_none_iff_of_direct direct).mp empty _ fits)

/-- From every position without such a token finding one goes on to the next, whether nothing fits
there or only the empty stretch. -/
theorem goesOn_succ (empty : preference.tokenAt lookbehind position = none) :
    preference.GoesOn lookbehind position (position + 1) := by
  cases fits : preference.fitAt position with
  | none => exact GoesOn.missed fits
  | some fit =>
    have onward := GoesOn.idle fits empty
    rwa [(tokenAt_eq_none_iff_of_direct direct).mp empty fit fits] at onward

/-- The visited positions are those up to the first one with a token: no step leaves one out. -/
theorem visits_iff_of_direct :
    preference.Visits lookbehind start position ↔ start ≤ position ∧
      ∀ earlier, start ≤ earlier → earlier < position →
        preference.tokenAt lookbehind earlier = none := by
  constructor
  · intro visited
    refine ⟨visited.le, ?_⟩
    induction visited with
    | refl => exact fun earlier ahead before => absurd before (Nat.not_lt.mpr ahead)
    | tail _ goesOn inductionHypothesis =>
      intro earlier ahead before
      rw [goesOn.eq_succ direct] at before
      rcases Nat.lt_succ_iff_lt_or_eq.mp before with further | rfl
      · exact inductionHypothesis earlier ahead further
      · exact tokenAt_eq_none_of_goesOn goesOn
  · rintro ⟨ahead, vain⟩
    induction position, ahead using Nat.le_induction with
    | base => exact Relation.ReflTransGen.refl
    | succ position ahead inductionHypothesis =>
      have visited := inductionHypothesis fun earlier from' before =>
        vain earlier from' (Nat.lt_succ_of_lt before)
      exact visited.tail (goesOn_succ direct (vain position ahead (Nat.lt_succ_self position)))

/-- If none of the visited positions has a token, no position from the start on has one at all. By
induction, all positions are visited then. -/
theorem tokenAt_eq_none_of_visits
    (nowhere : ∀ position, preference.Visits lookbehind start position →
      preference.tokenAt lookbehind position = none) (ahead : start ≤ position) :
    preference.tokenAt lookbehind position = none := by
  induction position using Nat.strong_induction_on with
  | _ position inductionHypothesis =>
    exact nowhere position ((visits_iff_of_direct direct).mpr
      ⟨ahead, fun earlier from' before => inductionHypothesis earlier before from'⟩)

/-- The course from a later position, up to where the token's fit begins, finds the same. Up to the
start of the next fit the search finds that fit, and behind it the courses are one. -/
theorem course_further {searches : List Nat} {found : Option Hit}
    (course : Course engine pattern lookbehind text start searches found)
    (conclusive : ∀ position ∈ searches, preference.Concludes position)
    {hit : Hit} (token : found = some hit) {later : Nat} (behind : start ≤ later)
    (ahead : later ≤ hit.origin) :
    ∃ searches, Course engine pattern lookbehind text later searches found := by
  induction course with
  | missed => cases token
  | atEnd => cases token
  | @found position fit located filled =>
    cases token
    have concluded := conclusive position List.mem_cons_self
    exact ⟨_, Course.found (preference.located_further concluded located behind ahead) filled⟩
  | @onward position fit searches found located idle inside rest inductionHypothesis =>
    have concluded := conclusive position List.mem_cons_self
    have leftmost := preference.leftmost_of_located concluded located
    have empty := (tokenAt_eq_none_iff leftmost.2.1).mpr idle
    have ends := (tokenAt_eq_none_iff_of_direct direct).mp empty fit leftmost.2.1
    have begins := leftmost.1
    -- Either the later start has passed the fit, which was empty, and what follows is a course from
    -- there; or the search from there finds the same fit, and the two courses meet behind it.
    rcases Nat.lt_or_ge fit.start later with further | within
    · exact inductionHypothesis
        (fun position among => conclusive position (List.mem_cons_of_mem _ among)) token (by omega)
    · have same : max fit.stop later = max fit.stop position := by omega
      have located' := preference.located_further concluded located behind within
      exact ⟨_, Course.onward located' idle (same ▸ inside) (same ▸ rest)⟩

/-- From a later position, up to where the token's fit begins, the same token is found. A search
resumed there misses nothing and finds nothing new. -/
theorem find_further (conclusive : preference.Conclusive lookbehind start) {hit : Hit}
    (found : engine.find pattern lookbehind text start = some hit) {later : Nat}
    (behind : start ≤ later) (ahead : later ≤ hit.origin) :
    engine.find pattern lookbehind text later = some hit := by
  obtain ⟨position, _, token⟩ := (find_eq_some_iff conclusive).mp found
  obtain ⟨origin, within⟩ := tokenAt_bounds token
  obtain ⟨searches, course⟩ := course_further direct (find_course (by omega)) conclusive found
    behind ahead
  exact ((find_course (by omega)).unique course).2.trans found

end WholeFits

end Preference

/-- Whatever the context, the token of a visited position is found, and nothing is found exactly if
no visited position has a token. The first token that there is, if any, is found exactly if no fit
at a visited position before it reaches it. A start counted in bytes leads to the same. -/
theorem find_visited {engine : Engine} {pattern : Pattern} {text : Array Char}
    (preference : engine.Preference pattern text) (lookbehind : Bool) (start : Nat)
    (conclusive : preference.Conclusive lookbehind start) :
    (∀ hit, engine.find pattern lookbehind text start = some hit ↔
      ∃ position, preference.Visits lookbehind start position ∧
        preference.tokenAt lookbehind position = some hit) ∧
    (engine.find pattern lookbehind text start = none ↔
      ∀ position, preference.Visits lookbehind start position →
        preference.tokenAt lookbehind position = none) ∧
    (∀ position hit, start ≤ position → preference.tokenAt lookbehind position = some hit →
      (∀ earlier, start ≤ earlier → earlier < position →
        preference.tokenAt lookbehind earlier = none) →
      (engine.find pattern lookbehind text start = some hit ↔
        ∀ earlier fit, preference.Visits lookbehind start earlier → earlier < position →
          preference.fitAt earlier = some fit → fit.stop < position)) ∧
    (start ≤ text.size →
      engine.findAtByte pattern lookbehind (String.ofList text.toList)
          (Text.byteOffset text.toList start) =
        (engine.find pattern lookbehind text start).map (Hit.inBytes text.toList)) := by
  refine ⟨fun hit => Preference.find_eq_some_iff conclusive,
    Preference.find_eq_none_iff conclusive, ?_, findAtByte_byteOffset⟩
  intro position hit ahead token vain
  rw [← Preference.visits_iff_of_first ahead vain, Preference.find_eq_some_iff conclusive]
  constructor
  · rintro ⟨reached, visited, token'⟩
    obtain rfl : position = reached :=
      (Preference.tokenAt_bounds token).1.symm.trans (Preference.tokenAt_bounds token').1
    exact visited
  · exact fun visited => ⟨position, visited, token⟩

end Engine

namespace Rule

/-- A rule with two letters that are all context, or a third one that is its token. Over all three
letters the context is found first. -/
def contextOrLetter : Rule :=
  (Rule.ofPattern (.known "(ab)|c" (by decide +kernel))).withLookbehind

/-- The token that a position of a text has for the rule by the engine of this library, whether or
not a search comes to it. -/
def contextToken (text : Array Char) (position : Nat) : Option Hit :=
  (contextOrLetter.pattern.preference text).tokenAt contextOrLetter.lookbehind position

/-- The searches for the tokens of this rule do not retry, so none of them is cut short. -/
theorem conclusive_contextOrLetter (text : Array Char) (start : Nat) :
    (contextOrLetter.pattern.preference text).Conclusive contextOrLetter.lookbehind start :=
  fun _ _ => Pattern.conclusive_of_direct (by decide +kernel)

/-- In a text of all three letters the third one is a token, and its position is not visited. The
search goes on behind it. -/
theorem findAt_visited_context :
    (contextOrLetter.pattern.preference #['a', 'b', 'c']).Conclusive contextOrLetter.lookbehind 0 ∧
    contextToken #['a', 'b', 'c'] 2 = some { origin := 2, start := 2, stop := 3 } ∧
    ∀ position,
      (contextOrLetter.pattern.preference #['a', 'b', 'c']).Visits contextOrLetter.lookbehind 0
        position → contextToken #['a', 'b', 'c'] position = none := by
  have conclusive := conclusive_contextOrLetter #['a', 'b', 'c'] 0
  have nothing : contextOrLetter.findAt #['a', 'b', 'c'] 0 = none := by decide +kernel
  exact ⟨conclusive, by decide +kernel, (Engine.find_visited _ _ 0 conclusive).2.1.mp nothing⟩

/-- The first token that there is, is not always found. A fit that is all context may reach over
it. -/
theorem not_always_first_token : ¬∀ (rule : Rule) (text : Array Char) (start position : Nat)
    (hit : Hit), rule.lookbehind = true →
      (rule.pattern.preference text).Conclusive rule.lookbehind start → start ≤ position →
      (rule.pattern.preference text).tokenAt rule.lookbehind position = some hit →
      (∀ earlier, start ≤ earlier → earlier < position →
        (rule.pattern.preference text).tokenAt rule.lookbehind earlier = none) →
      rule.findAt text start = some hit := by
  intro always
  have token : contextToken #['a', 'b', 'c'] 2 =
      some { origin := 2, start := 2, stop := 3 } := by decide +kernel
  have vain : ∀ earlier < 2, contextToken #['a', 'b', 'c'] earlier = none := by decide +kernel
  have found := always contextOrLetter #['a', 'b', 'c'] 0 2 _ rfl
    (conclusive_contextOrLetter _ 0) (Nat.zero_le 2) token
    (fun earlier _ before => vain earlier before)
  exact absurd found (by decide +kernel)

end Rule

/-- Without context, or with a pattern that has no group, what is found is the preferred fit of the
first position, from the start on, at which that is not empty, as a whole; nothing is found exactly
if there is no such position. From every later start, up to where the fit begins, the same is found.
Positions in bytes lead to the same, and one behind the text to nothing. -/
theorem Engine.find_exact {engine : Engine} {pattern : Pattern} {text : Array Char}
    {preference : engine.Preference pattern text} {lookbehind : Bool}
    (direct : preference.Direct lookbehind) (start : Nat)
    (conclusive : preference.Conclusive lookbehind start) :
    (∀ hit, engine.find pattern lookbehind text start = some hit ↔
      ∃ position fit, start ≤ position ∧
        preference.fitAt position = some fit ∧ position < fit.stop ∧
        (∀ earlier other, start ≤ earlier → earlier < position →
          preference.fitAt earlier = some other → other.stop = earlier) ∧
        hit = { origin := position, start := position, stop := fit.stop }) ∧
    (engine.find pattern lookbehind text start = none ↔ ∀ position fit, start ≤ position →
      preference.fitAt position = some fit → fit.stop = position) ∧
    (∀ hit later, engine.find pattern lookbehind text start = some hit → start ≤ later →
      later ≤ hit.origin → engine.find pattern lookbehind text later = some hit) ∧
    (start ≤ text.size →
      engine.findAtByte pattern lookbehind (String.ofList text.toList)
          (Text.byteOffset text.toList start) =
        (engine.find pattern lookbehind text start).map (Hit.inBytes text.toList)) ∧
    ∀ bytes, Text.byteOffset text.toList text.size < bytes →
      engine.findAtByte pattern lookbehind (String.ofList text.toList) bytes = none := by
  refine ⟨fun hit => ?_, ?_, ?_, Engine.findAtByte_byteOffset,
    fun bytes => Engine.findAtByte_beyond⟩
  · rw [Engine.Preference.find_eq_some_iff conclusive]
    simp only [Engine.Preference.visits_iff_of_direct direct,
      Engine.Preference.tokenAt_eq_some_iff_of_direct direct,
      Engine.Preference.tokenAt_eq_none_iff_of_direct direct]
    constructor
    · rintro ⟨position, ⟨ahead, vain⟩, fit, fits, filled, same⟩
      exact ⟨position, fit, ahead, fits, filled,
        fun earlier other from' before => vain earlier from' before other, same⟩
    · rintro ⟨position, fit, ahead, fits, filled, vain, same⟩
      exact ⟨position, ⟨ahead, fun earlier from' before other => vain earlier other from' before⟩,
        fit, fits, filled, same⟩
  · rw [Engine.Preference.find_eq_none_iff conclusive]
    constructor
    · intro none position fit ahead fits
      have empty := Engine.Preference.tokenAt_eq_none_of_visits direct none ahead
      exact (Engine.Preference.tokenAt_eq_none_iff_of_direct direct).mp empty fit fits
    · intro empty position visited
      exact (Engine.Preference.tokenAt_eq_none_iff_of_direct direct).mpr
        fun fit => empty position fit visited.le
  · exact fun hit later found => Engine.Preference.find_further direct conclusive found

namespace Rule

/-- A rule for any number of one letter behind which another does not stand. Its pattern looks
ahead, so it retries, and has no group that the rule could leave out as context. -/
def lettersBefore : Rule :=
  (Rule.ofPattern (.known "x*(?!a)" (by decide +kernel))).withLookbehind

/-- Behind a position where nothing fits and one whose fit is empty, the rule finds two letters,
from either of the two positions on. -/
theorem findAt_exact_behind_empty :
    (lettersBefore.pattern.preference #['a', 'b', 'x', 'x']).Direct lettersBefore.lookbehind ∧
    (lettersBefore.pattern.preference #['a', 'b', 'x', 'x']).Conclusive
      lettersBefore.lookbehind 0 ∧
    lettersBefore.findAt #['a', 'b', 'x', 'x'] 0 =
      some { origin := 2, start := 2, stop := 4 } ∧
    lettersBefore.findAt #['a', 'b', 'x', 'x'] 1 =
      some { origin := 2, start := 2, stop := 4 } := by
  have direct : (lettersBefore.pattern.preference #['a', 'b', 'x', 'x']).Direct
      lettersBefore.lookbehind :=
    Or.inr fun position fit fits => Pattern.groupStop_eq_none (by decide +kernel) fits
  have conclusive : ∀ position ∈ Engine.searches Pattern.locate lettersBefore.pattern
      lettersBefore.lookbehind #['a', 'b', 'x', 'x'] 0,
        lettersBefore.pattern.conclusive #['a', 'b', 'x', 'x'] position = true := by
    decide +kernel
  have found : lettersBefore.findAt #['a', 'b', 'x', 'x'] 0 =
      some { origin := 2, start := 2, stop := 4 } := by decide +kernel
  exact ⟨direct, conclusive, found, (Engine.find_exact direct 0 conclusive).2.2.1 _ 1 found
    (Nat.zero_le 1) (by decide)⟩

end Rule

end TextDecoration
