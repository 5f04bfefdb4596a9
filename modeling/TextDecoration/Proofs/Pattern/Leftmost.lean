import TextDecoration.Proofs.Pattern.Allowance
import TextDecoration.Proofs.Pattern.Bounds

/-!
# Searches find the leftmost preferred fit

What a pattern prefers at a position is told without any search: it is the stretch that following
leads from there ends with, or, if the pattern has to retry, the first of its tree's ways from
there. A search from a position on finds the preferred fit of the first position that has one, and
finds nothing only if none has. That holds of every search that is conclusive; about one that is cut
short nothing is said.

As a conclusive search has tried the positions before its fit in vain, a search that begins at any
of them is conclusive too, and so finds the same fit.

`Engine.Preference` asks just that of an engine and names nothing of how patterns are read or
searched for. Laws about finding tokens rest on it, and the engine of this library is one instance,
`Pattern.preference`.
-/

namespace TextDecoration

namespace Pattern

/-- The stretch that a pattern prefers among those that begin at a position. Anchors, word edges and
look-behind see the whole text. -/
def stretchAt (pattern : Pattern) (text : Array Char) (position : Nat) : Option Stretch :=
  if pattern.meaning.retries then
    (pattern.meaning.node.ways text position pattern.emptySlots).head?
  else pattern.meaning.node.preferred text position pattern.emptySlots

/-- The fit that a pattern prefers among those that begin at a position of the text. -/
def preferredAt (pattern : Pattern) (text : Array Char) (position : Nat) : Option Fit :=
  if position ≤ text.size then
    (pattern.stretchAt text position).map fun stretch => fit position stretch.stop stretch.slots
  else none

/-- What a search from a position on is to find: the preferred fit of the first position that has
one, or nothing if none has. -/
def Leftmost (preferred : Nat → Option Fit) (position : Nat) : Option Fit → Prop
  | some fit => position ≤ fit.start ∧ preferred fit.start = some fit ∧
      ∀ earlier, position ≤ earlier → earlier < fit.start → preferred earlier = none
  | none => ∀ reached, position ≤ reached → preferred reached = none

namespace Leftmost

variable {preferred : Nat → Option Fit} {position : Nat} {found : Option Fit}

/-- A preferred fit at the position itself is the one to find, whatever fits there are behind it. -/
theorem here {fit : Fit} (fits : preferred position = some fit) (begins : fit.start = position) :
    Leftmost preferred position (some fit) :=
  ⟨Nat.le_of_eq begins.symm, begins ▸ fits, fun _ behind before => by omega⟩

/-- Where the position itself has no preferred fit, what is to be found is what there is behind
it. -/
theorem later (none : preferred position = none)
    (behind : Leftmost preferred (position + 1) found) :
    Leftmost preferred position found := by
  have first : ∀ reached, position ≤ reached → reached = position ∨ position + 1 ≤ reached := by
    intro reached ahead
    omega
  cases found with
  | none =>
    intro reached ahead
    rcases first reached ahead with rfl | further
    · exact none
    · exact behind reached further
  | some fit =>
    obtain ⟨ahead, fits, before⟩ := behind
    refine ⟨Nat.le_of_succ_le ahead, fits, fun earlier from' within => ?_⟩
    rcases first earlier from' with rfl | further
    · exact none
    · exact before earlier further within

/-- What is to be found from a position on is so from any later one up to the fit. Only positions
without a fit are left out then. -/
theorem further {fit : Fit} (leftmost : Leftmost preferred position (some fit)) {reached : Nat}
    (behind : position ≤ reached) (ahead : reached ≤ fit.start) :
    Leftmost preferred reached (some fit) :=
  ⟨ahead, leftmost.2.1, fun earlier from' within =>
    leftmost.2.2 earlier (Nat.le_trans behind from') within⟩

/-- There is one answer to what is to be found, since of two fits the later one would not be
leftmost. -/
theorem unique {other : Option Fit} (one : Leftmost preferred position found)
    (another : Leftmost preferred position other) : found = other := by
  cases found with
  | none =>
    cases other with
    | none => rfl
    | some fit => cases (one fit.start another.1).symm.trans another.2.1
  | some fit =>
    cases other with
    | none => cases (another fit.start one.1).symm.trans one.2.1
    | some fit' =>
      obtain ⟨ahead, fits, before⟩ := one
      obtain ⟨ahead', fits', before'⟩ := another
      rcases Nat.lt_trichotomy fit.start fit'.start with less | same | more
      · cases (before' _ ahead less).symm.trans fits
      · rw [same] at fits
        exact fits.symm.trans fits'
      · cases (before _ ahead' more).symm.trans fits'

end Leftmost

section Search

variable {pattern : Pattern} {text : Array Char} {position : Nat}

/-- Behind the text nothing fits, whatever the pattern, be it the empty one. -/
theorem preferredAt_beyond (beyond : text.size < position) :
    pattern.preferredAt text position = none := if_neg (Nat.not_le.mpr beyond)

/-- In the text the preferred fit is the preferred stretch, with the end of its first group. -/
theorem preferredAt_inside (inside : position ≤ text.size) :
    pattern.preferredAt text position =
      (pattern.stretchAt text position).map fun stretch =>
        fit position stretch.stop stretch.slots :=
  if_pos inside

/-- A preferred fit begins at its position and lies in the text. -/
theorem preferredAt_bounds {fit : Fit} (fits : pattern.preferredAt text position = some fit) :
    fit.start = position ∧ position ≤ fit.stop ∧ fit.stop ≤ text.size := by
  by_cases inside : position ≤ text.size
  · rw [preferredAt_inside inside] at fits
    obtain ⟨stretch, preferred, rfl⟩ := Option.map_eq_some_iff.mp fits
    refine ⟨rfl, ?_⟩
    rw [stretchAt] at preferred
    split at preferred
    · exact Node.ways_bounds _ inside (List.mem_of_head? preferred)
    · exact Node.preferred_bounds inside preferred
  · rw [preferredAt_beyond (Nat.lt_of_not_le inside)] at fits
    cases fits

/-- A search without retries finds the leftmost preferred fit. The induction is on the positions
that are left to try. -/
theorem firstFit_leftmost (direct : pattern.meaning.retries = false) {count : Nat}
    (counted : count = text.size + 1 - position) :
    Leftmost (pattern.preferredAt text) position
      (firstFit text pattern.meaning.node pattern.emptySlots count position) := by
  induction count generalizing position with
  | zero => exact fun reached behind => preferredAt_beyond (by omega)
  | succ count inductionHypothesis =>
    have own : pattern.preferredAt text position =
        (pattern.meaning.node.preferred text position pattern.emptySlots).map
          fun stretch => fit position stretch.stop stretch.slots := by
      rw [preferredAt_inside (by omega), stretchAt, direct, if_neg Bool.false_ne_true]
    rw [firstFit]
    split
    · next stretch preferred => exact Leftmost.here (by rw [own, preferred, Option.map_some]) rfl
    · next none =>
      refine Leftmost.later (by rw [own, none, Option.map_none]) ?_
      exact inductionHypothesis (by omega)

/-- What an attempt with nothing to follow tells about the preferred fit, if it does not give up. -/
theorem preferredAt_of_attempt (retries : pattern.meaning.retries = true)
    (inside : position ≤ text.size) (allowance : Nat) :
    match pattern.meaning.node.attempt text position pattern.emptySlots allowance .fits with
    | .fits stop slots _ => pattern.preferredAt text position = some (fit position stop slots)
    | .fails _ => pattern.preferredAt text position = none
    | .givesUp => True := by
  have tried := pattern.meaning.node.attempt_tries text position pattern.emptySlots allowance .fits
  rw [preferredAt_inside inside, stretchAt, if_pos retries]
  split
  · next stop slots left fitted =>
    rw [fitted] at tried
    rw [tried.head_of_fits, Option.map_some]
  · next left failed =>
    rw [failed] at tried
    rw [tried.nil_of_fails, List.head?_nil, Option.map_none]
  · trivial

/-- A search by retrying that is not cut short finds the leftmost preferred fit. -/
theorem firstFitRetrying_leftmost (retries : pattern.meaning.retries = true) {count : Nat}
    (counted : count = text.size + 1 - position) {allowance : Nat}
    (concluded : conclusiveWithin text pattern.meaning.node pattern.emptySlots count position
      allowance = true) :
    Leftmost (pattern.preferredAt text) position
      (firstFitRetrying text pattern.meaning.node pattern.emptySlots count position allowance) := by
  induction count generalizing position allowance with
  | zero => exact fun reached behind => preferredAt_beyond (by omega)
  | succ count inductionHypothesis =>
    have own := preferredAt_of_attempt retries (by omega : position ≤ text.size) allowance
    rw [conclusiveWithin] at concluded
    rw [firstFitRetrying]
    cases outcome :
      pattern.meaning.node.attempt text position pattern.emptySlots allowance .fits with
    | fits stop slots left =>
      rw [outcome] at own
      exact Leftmost.here own rfl
    | fails left =>
      rw [outcome] at own concluded
      cases left with
      | zero =>
        -- Nothing is left to spend, which cuts no search short that has no position left to try.
        obtain rfl : count = 0 := beq_iff_eq.mp concluded
        exact Leftmost.later own fun reached behind => preferredAt_beyond (by omega)
      | succ left => exact Leftmost.later own (inductionHypothesis (by omega) concluded)
    | givesUp =>
      rw [outcome] at concluded
      cases concluded

/-- A conclusive search finds the preferred fit of the first position, from the one given on, that
has one; and it finds nothing only if none has. -/
theorem locate_leftmost (concluded : pattern.conclusive text position = true) :
    Leftmost (pattern.preferredAt text) position (pattern.locate text position) := by
  rw [conclusive] at concluded
  rw [locate]
  cases kind : pattern.meaning.retries with
  | false => exact firstFit_leftmost kind rfl
  | true =>
    rw [kind] at concluded
    exact firstFitRetrying_leftmost kind rfl concluded

/-- The positions between the start of a conclusive search and its fit were tried in vain, so what a
search from one of them may spend is at least what was left there. -/
theorem conclusiveWithin_later (retries : pattern.meaning.retries = true) {count allowance : Nat}
    (counted : count = text.size + 1 - position)
    (concluded : conclusiveWithin text pattern.meaning.node pattern.emptySlots count position
      allowance = true) {reached : Nat} (behind : position ≤ reached)
    (vain : ∀ earlier, position ≤ earlier → earlier < reached →
      pattern.preferredAt text earlier = none) :
    conclusiveWithin text pattern.meaning.node pattern.emptySlots (text.size + 1 - reached) reached
      allowance = true := by
  induction count generalizing position allowance with
  | zero =>
    rw [(by omega : text.size + 1 - reached = 0)]
    rfl
  | succ count inductionHypothesis =>
    rcases Nat.eq_or_lt_of_le behind with rfl | further
    · rwa [← counted]
    · have own := preferredAt_of_attempt retries (by omega : position ≤ text.size) allowance
      have failed : ∀ stop stored left, pattern.meaning.node.attempt text position
          pattern.emptySlots allowance .fits ≠ .fits stop stored left := by
        intro stop stored left fitted
        rw [fitted] at own
        cases (vain position (Nat.le_refl position) further).symm.trans own
      exact inductionHypothesis (by omega) (conclusiveWithin_next failed concluded) further
        fun earlier ahead before => vain earlier (Nat.le_of_succ_le ahead) before

/-- A search that begins between the start of a conclusive one and its fit is conclusive: it has
less to try, and what it tries was affordable before. -/
theorem conclusive_further (concluded : pattern.conclusive text position = true) {fit : Fit}
    (located : pattern.locate text position = some fit) {reached : Nat}
    (behind : position ≤ reached) (ahead : reached ≤ fit.start) :
    pattern.conclusive text reached = true := by
  have leftmost : Leftmost (pattern.preferredAt text) position (some fit) :=
    located ▸ locate_leftmost concluded
  cases kind : pattern.meaning.retries with
  | false => exact conclusive_of_direct kind
  | true =>
    rw [conclusive, kind] at concluded ⊢
    exact conclusiveWithin_later kind rfl concluded behind
      fun earlier from' before => leftmost.2.2 earlier from' (Nat.lt_of_lt_of_le before ahead)

end Search

end Pattern

/-- What is relied on of an engine, for a pattern and a text, where the first token is to be told.
The pattern prefers one fit among those that begin at a position, whatever position a search began
at; a search that is not cut short finds the leftmost of these, and a search that begins nearer to
what it finds is not cut short either. A pattern that asks where the search began, or that moves the
start of its fit, has no such preference, and nothing is said about it. -/
structure Engine.Preference (engine : Engine) (pattern : Pattern) (text : Array Char) where
  /-- The fit that the pattern prefers among those that begin at a position, if any does. -/
  fitAt : Nat → Option Pattern.Fit
  /-- A preferred fit begins at the position that it is preferred at. -/
  begins {position : Nat} {fit : Pattern.Fit} (fits : fitAt position = some fit) :
    fit.start = position
  /-- A preferred fit does not end before it begins. It may be empty. -/
  ordered {position : Nat} {fit : Pattern.Fit} (fits : fitAt position = some fit) :
    position ≤ fit.stop
  /-- A preferred fit ends in the text. -/
  within {position : Nat} {fit : Pattern.Fit} (fits : fitAt position = some fit) :
    fit.stop ≤ text.size
  /-- Whether a search from a position on is not cut short. An engine that is never cut short says
  so everywhere. -/
  Concludes : Nat → Prop
  /-- A search that is not cut short finds the leftmost preferred fit, or nothing if there is
  none. -/
  leftmost {position : Nat} (concluded : Concludes position) :
    Pattern.Leftmost fitAt position (engine pattern text position)
  /-- No search is cut short that begins between the start of one that is not and what that one
  finds. -/
  further {position reached : Nat} {fit : Pattern.Fit} (concluded : Concludes position)
    (located : engine pattern text position = some fit) (behind : position ≤ reached)
    (ahead : reached ≤ fit.start) : Concludes reached

namespace Engine.Preference

variable {engine : Engine} {pattern : Pattern} {text : Array Char}
  (preference : engine.Preference pattern text) {position : Nat}

/-- What a search that is not cut short came to is the leftmost preferred fit. -/
theorem leftmost_of_located (concluded : preference.Concludes position)
    {found : Option Pattern.Fit} (located : engine pattern text position = found) :
    Pattern.Leftmost preference.fitAt position found := located ▸ preference.leftmost concluded

/-- A search that begins between one that is not cut short and its fit finds the same fit. -/
theorem located_further (concluded : preference.Concludes position) {fit : Pattern.Fit}
    (located : engine pattern text position = some fit) {reached : Nat}
    (behind : position ≤ reached) (ahead : reached ≤ fit.start) :
    engine pattern text reached = some fit := by
  have nearer := preference.leftmost (preference.further concluded located behind ahead)
  have leftmost := preference.leftmost_of_located concluded located
  exact nearer.unique (leftmost.further behind ahead)

/-- Behind the text nothing fits: a fit would end before it begins, or behind the text. -/
theorem fitAt_beyond (beyond : text.size < position) : preference.fitAt position = none := by
  cases fits : preference.fitAt position with
  | none => rfl
  | some fit =>
    have ordered := preference.ordered fits
    have within := preference.within fits
    omega

end Engine.Preference

/-- What the patterns of this library prefer, and when a search by its engine is not cut short. -/
def Pattern.preference (pattern : Pattern) (text : Array Char) :
    Engine.Preference Pattern.locate pattern text where
  fitAt := pattern.preferredAt text
  begins fits := (preferredAt_bounds fits).1
  ordered fits := (preferredAt_bounds fits).2.1
  within fits := (preferredAt_bounds fits).2.2
  Concludes position := pattern.conclusive text position = true
  leftmost := locate_leftmost
  further concluded located behind ahead := conclusive_further concluded located behind ahead

end TextDecoration
