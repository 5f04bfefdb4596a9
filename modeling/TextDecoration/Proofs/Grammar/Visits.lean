import Mathlib.Data.Nat.Init
import Mathlib.Logic.Relation
import TextDecoration.Proofs.Grammar.Course
import TextDecoration.Proofs.Pattern.Leftmost

/-!
# Positions visited in finding a token

A position has a token if the fit that the pattern prefers there leaves one that is not empty.
Finding a token visits positions from the start on: from one at which nothing fits it goes on to the
next, and from one whose fit leaves an empty token to the one behind the character at the fit's end.
None of this mentions a search; it is told by what the pattern prefers at each position.

The token that is found is that of the first visited position that has one, and where none has, none
is found: `find_eq_some_iff` and `find_eq_none_iff`. This holds of every engine that finds leftmost
preferred fits, as far as no search on the way is cut short.
-/

namespace TextDecoration.Engine.Preference

variable {engine : Engine} {pattern : Pattern} {text : Array Char}

/-- The token that a position has, if any: that of the preferred fit there, unless it is empty.
Whether a search comes to the position is another matter. -/
def tokenAt (preference : engine.Preference pattern text) (lookbehind : Bool) (position : Nat) :
    Option Hit :=
  ((preference.fitAt position).map (Pattern.Fit.hit lookbehind)).filter
    fun hit => hit.start < hit.stop

/-- From a position without a token to where finding one goes on. It is one position further, or
further than the fit that was passed over. -/
inductive GoesOn (preference : engine.Preference pattern text) (lookbehind : Bool) :
    Nat → Nat → Prop where
  /-- Nothing fits, so the next position is looked at. -/
  | missed {position : Nat} (nothing : preference.fitAt position = none) :
      GoesOn preference lookbehind position (position + 1)
  /-- The fit leaves an empty token, so what it takes is passed over, with a character behind it. -/
  | idle {position : Nat} {fit : Pattern.Fit} (fits : preference.fitAt position = some fit)
      (empty : preference.tokenAt lookbehind position = none) :
      GoesOn preference lookbehind position (fit.stop + 1)

/-- The positions that finding a token from a position on comes to, if it is not ended by one. Those
that a fit without a token reaches over are not among them. -/
def Visits (preference : engine.Preference pattern text) (lookbehind : Bool) : Nat → Nat → Prop :=
  Relation.ReflTransGen (preference.GoesOn lookbehind)

/-- Whether no search for a token from a position on is cut short. Where one is, nothing is said
about what is found. -/
def Conclusive (preference : engine.Preference pattern text) (lookbehind : Bool) (start : Nat) :
    Prop :=
  ∀ position ∈ engine.searches pattern lookbehind text start, preference.Concludes position

variable {preference : engine.Preference pattern text} {lookbehind : Bool}

section Tokens

variable {position : Nat} {hit : Hit}

/-- A position has a token if its preferred fit leaves one that is not empty. Other fits at the
position do not count. -/
theorem tokenAt_eq_some_iff : preference.tokenAt lookbehind position = some hit ↔
    (∃ fit, preference.fitAt position = some fit ∧ hit = fit.hit lookbehind) ∧
      hit.start < hit.stop := by
  simp only [tokenAt, Option.filter_eq_some_iff, Option.map_eq_some_iff, decide_eq_true_eq]
  constructor
  · rintro ⟨⟨fit, fits, rfl⟩, filled⟩
    exact ⟨⟨fit, fits, rfl⟩, filled⟩
  · rintro ⟨⟨fit, fits, rfl⟩, filled⟩
    exact ⟨⟨fit, fits, rfl⟩, filled⟩

/-- A position at which nothing fits has no token, so finding one goes on at the next position. -/
theorem tokenAt_of_fitAt_none (nothing : preference.fitAt position = none) :
    preference.tokenAt lookbehind position = none := by
  rw [tokenAt, nothing]
  rfl

/-- A position at which the pattern fits has no token just when the fit leaves an empty one. This is
the case in which positions may be left out. -/
theorem tokenAt_eq_none_iff {fit : Pattern.Fit} (fits : preference.fitAt position = some fit) :
    preference.tokenAt lookbehind position = none ↔
      ¬(fit.hit lookbehind).start < (fit.hit lookbehind).stop := by
  rw [tokenAt, fits]
  simp

/-- The fit of a token begins at the token's position, which lies in the text. The token itself may
begin behind it. -/
theorem tokenAt_bounds (token : preference.tokenAt lookbehind position = some hit) :
    hit.origin = position ∧ position ≤ text.size := by
  obtain ⟨⟨fit, fits, rfl⟩, filled⟩ := tokenAt_eq_some_iff.mp token
  exact ⟨preference.begins fits, Nat.le_trans (preference.ordered fits) (preference.within fits)⟩

/-- Nothing behind the text has a token, since nothing fits there. -/
theorem tokenAt_beyond (beyond : text.size < position) :
    preference.tokenAt lookbehind position = none :=
  tokenAt_of_fitAt_none (preference.fitAt_beyond beyond)

end Tokens

section Visits

variable {start position next : Nat}

/-- Finding a token goes on behind the position, so it comes to an end. -/
theorem GoesOn.lt (goesOn : preference.GoesOn lookbehind position next) : position < next := by
  cases goesOn with
  | missed => exact Nat.lt_succ_self position
  | idle fits => exact Nat.lt_succ_of_le (preference.ordered fits)

/-- Finding a token goes on in one way, as the preferred fit is unique and decides where. -/
theorem GoesOn.unique {other : Nat} (one : preference.GoesOn lookbehind position next)
    (another : preference.GoesOn lookbehind position other) : next = other := by
  cases one with
  | missed nothing =>
    cases another with
    | missed => rfl
    | idle fits => cases nothing.symm.trans fits
  | idle fits =>
    cases another with
    | missed nothing => cases nothing.symm.trans fits
    | idle fits' =>
      cases fits.symm.trans fits'
      rfl

/-- Finding a token goes on from positions without a token only. A position that has one ends it. -/
theorem tokenAt_eq_none_of_goesOn (goesOn : preference.GoesOn lookbehind position next) :
    preference.tokenAt lookbehind position = none := by
  cases goesOn with
  | missed nothing => exact tokenAt_of_fitAt_none nothing
  | idle _ empty => exact empty

/-- No position before the start is visited. Each step leads further. -/
theorem Visits.le (visited : preference.Visits lookbehind start position) : start ≤ position := by
  induction visited with
  | refl => exact Nat.le_refl start
  | tail _ goesOn inductionHypothesis =>
    exact Nat.le_trans inductionHypothesis (Nat.le_of_lt goesOn.lt)

/-- Of two visited positions the one is visited from the other, as there is but one way to go on. -/
theorem Visits.total {other : Nat} (one : preference.Visits lookbehind start position)
    (another : preference.Visits lookbehind start other) :
    preference.Visits lookbehind position other ∨ preference.Visits lookbehind other position :=
  Relation.ReflTransGen.total_of_right_unique (fun _ _ _ => GoesOn.unique) one another

/-- Nothing is visited behind a position that has a token. Other positions with tokens may well lie
there. -/
theorem Visits.eq_of_tokenAt {hit : Hit} (token : preference.tokenAt lookbehind start = some hit)
    (visited : preference.Visits lookbehind start position) : position = start := by
  rcases Relation.ReflTransGen.cases_head visited with same | ⟨next, goesOn, _⟩
  · exact same.symm
  · cases (tokenAt_eq_none_of_goesOn goesOn).symm.trans token

/-- One visited position at most has a token. What is found is therefore unique. -/
theorem Visits.unique {other : Nat} {hit hit' : Hit}
    (one : preference.Visits lookbehind start position)
    (token : preference.tokenAt lookbehind position = some hit)
    (another : preference.Visits lookbehind start other)
    (token' : preference.tokenAt lookbehind other = some hit') : position = other := by
  rcases one.total another with ahead | behind
  · exact (ahead.eq_of_tokenAt token).symm
  · exact behind.eq_of_tokenAt token'

/-- Positions at which nothing fits are visited one after the other, none of them left out. The
induction is on their number. -/
theorem visits_of_missed (ahead : start ≤ position)
    (vain : ∀ earlier, start ≤ earlier → earlier < position → preference.fitAt earlier = none) :
    preference.Visits lookbehind start position := by
  induction position, ahead using Nat.le_induction with
  | base => exact Relation.ReflTransGen.refl
  | succ position ahead inductionHypothesis =>
    refine Relation.ReflTransGen.tail (inductionHypothesis fun earlier from' before =>
      vain earlier from' (Nat.lt_succ_of_lt before)) ?_
    exact GoesOn.missed (vain position ahead (Nat.lt_succ_self position))

/-- Positions without a token are passed one after the other, as long as no fit among them reaches
what is to be visited. -/
theorem visits_of_clear {reached : Nat} (visited : preference.Visits lookbehind start reached)
    (ahead : reached ≤ position)
    (vain : ∀ earlier, start ≤ earlier → earlier < position →
      preference.tokenAt lookbehind earlier = none)
    (clear : ∀ earlier fit, preference.Visits lookbehind start earlier → earlier < position →
      preference.fitAt earlier = some fit → fit.stop < position) :
    preference.Visits lookbehind start position := by
  -- By induction on what is left to the position; every step, however long, stays before it.
  induction gap : position - reached using Nat.strong_induction_on generalizing reached with
  | _ gap inductionHypothesis =>
    rcases Nat.eq_or_lt_of_le ahead with rfl | before
    · exact visited
    · have empty := vain reached visited.le before
      obtain ⟨next, goesOn, within⟩ :
          ∃ next, preference.GoesOn lookbehind reached next ∧ next ≤ position := by
        cases fits : preference.fitAt reached with
        | none => exact ⟨_, GoesOn.missed fits, before⟩
        | some fit => exact ⟨_, GoesOn.idle fits empty, clear reached fit visited before fits⟩
      have further := goesOn.lt
      exact inductionHypothesis (position - next) (by omega) (visited.tail goesOn) within rfl

/-- Where nothing before a position has a token, the position is visited exactly if no fit of a
visited position before it reaches it. -/
theorem visits_iff_of_first (ahead : start ≤ position)
    (vain : ∀ earlier, start ≤ earlier → earlier < position →
      preference.tokenAt lookbehind earlier = none) :
    preference.Visits lookbehind start position ↔
      ∀ earlier fit, preference.Visits lookbehind start earlier → earlier < position →
        preference.fitAt earlier = some fit → fit.stop < position := by
  constructor
  · intro visited earlier fit visitedEarlier before fits
    rcases visitedEarlier.total visited with onward | back
    · rcases Relation.ReflTransGen.cases_head onward with same | ⟨next, goesOn, further⟩
      · omega
      · have empty := tokenAt_eq_none_of_goesOn goesOn
        obtain rfl := goesOn.unique (GoesOn.idle fits empty)
        exact Visits.le further
    · exact absurd back.le (Nat.not_le.mpr before)
  · exact visits_of_clear Relation.ReflTransGen.refl ahead vain

/-- Behind a fit that leaves an empty token, what has one is visited from the position behind the
character at the fit's end. -/
theorem Visits.past {fit : Pattern.Fit} {visitedLast : Nat}
    (leftmost : Pattern.Leftmost preference.fitAt position (some fit))
    (empty : preference.tokenAt lookbehind fit.start = none)
    (visited : preference.Visits lookbehind position visitedLast) :
    preference.tokenAt lookbehind visitedLast = none ∨
      preference.Visits lookbehind (fit.stop + 1) visitedLast := by
  obtain ⟨ahead, fits, vain⟩ := leftmost
  have reached : preference.Visits lookbehind position fit.start := visits_of_missed ahead vain
  rcases reached.total visited with onward | back
  · rcases Relation.ReflTransGen.cases_head onward with same | ⟨next, goesOn, further⟩
    · exact Or.inl (same ▸ empty)
    · obtain rfl := goesOn.unique (GoesOn.idle fits empty)
      exact Or.inr further
  · rcases Nat.eq_or_lt_of_le back.le with same | before
    · exact Or.inl (same ▸ empty)
    · exact Or.inl (tokenAt_of_fitAt_none (vain _ visited.le before))

end Visits

section Find

variable {start : Nat}

/-- What finding a token from a position on is to find: the token of a visited position, or nothing
if none of them has one. -/
def FirstVisited (preference : engine.Preference pattern text) (lookbehind : Bool) (start : Nat) :
    Option Hit → Prop
  | some hit => ∃ position, preference.Visits lookbehind start position ∧
      preference.tokenAt lookbehind position = some hit
  | none => ∀ position, preference.Visits lookbehind start position →
      preference.tokenAt lookbehind position = none

/-- The course of finding a token over searches that are not cut short ends with the first visited
one. Each search finds the leftmost preferred fit, so its course is a part of the visit. -/
theorem firstVisited_of_course {searches : List Nat} {found : Option Hit}
    (course : Course engine pattern lookbehind text start searches found)
    (conclusive : ∀ position ∈ searches, preference.Concludes position) :
    preference.FirstVisited lookbehind start found := by
  induction course with
  | @missed position nothing =>
    have leftmost := preference.leftmost_of_located (conclusive position List.mem_cons_self) nothing
    exact fun reached visited => tokenAt_of_fitAt_none (leftmost reached visited.le)
  | @found position fit located filled =>
    have leftmost := preference.leftmost_of_located (conclusive position List.mem_cons_self) located
    exact ⟨fit.start, visits_of_missed leftmost.1 leftmost.2.2,
      tokenAt_eq_some_iff.mpr ⟨⟨fit, leftmost.2.1, rfl⟩, filled⟩⟩
  | @atEnd position fit located idle last =>
    have leftmost := preference.leftmost_of_located (conclusive position List.mem_cons_self) located
    have ahead := leftmost.1
    have fits := leftmost.2.1
    have ordered := preference.ordered fits
    intro reached visited
    rcases visited.past leftmost ((tokenAt_eq_none_iff fits).mpr idle) with empty | further
    · exact empty
    · have beyond := further.le
      exact tokenAt_beyond (by omega)
  | @onward position fit searches found located idle inside later inductionHypothesis =>
    have leftmost := preference.leftmost_of_located (conclusive position List.mem_cons_self) located
    have ahead := leftmost.1
    have fits := leftmost.2.1
    have ordered := preference.ordered fits
    have empty := (tokenAt_eq_none_iff fits).mpr idle
    -- A leftmost fit does not end before the position it was searched from.
    have behind : max fit.stop position = fit.stop := by omega
    have rest := inductionHypothesis fun position among =>
      conclusive position (List.mem_cons_of_mem _ among)
    rw [behind] at rest
    cases found with
    | some hit =>
      obtain ⟨reached, visited, token⟩ := rest
      refine ⟨reached, ?_, token⟩
      have past := (visits_of_missed ahead leftmost.2.2).tail (GoesOn.idle fits empty)
      exact past.trans visited
    | none =>
      intro reached visited
      rcases visited.past leftmost empty with none | further
      · exact none
      · exact rest reached further

/-- Finding a token over searches that are not cut short finds that of the first visited position
that has one, and nothing behind the text's end. -/
theorem find_firstVisited (conclusive : preference.Conclusive lookbehind start) :
    preference.FirstVisited lookbehind start (engine.find pattern lookbehind text start) := by
  by_cases inside : start ≤ text.size
  · exact firstVisited_of_course (find_course inside) conclusive
  · have beyond : text.size < start := Nat.lt_of_not_le inside
    rw [find_beyond beyond]
    exact fun reached visited => tokenAt_beyond (Nat.lt_of_lt_of_le beyond visited.le)

/-- A token is found exactly if a visited position has it. One direction is the course; in the
other, a visited token is the only one. -/
theorem find_eq_some_iff (conclusive : preference.Conclusive lookbehind start) {hit : Hit} :
    engine.find pattern lookbehind text start = some hit ↔
      ∃ position, preference.Visits lookbehind start position ∧
        preference.tokenAt lookbehind position = some hit := by
  have first := find_firstVisited conclusive
  constructor
  · intro found
    rwa [found] at first
  · rintro ⟨position, visited, token⟩
    cases found : engine.find pattern lookbehind text start with
    | none =>
      rw [found] at first
      cases (first position visited).symm.trans token
    | some other =>
      rw [found] at first
      obtain ⟨reached, visited', token'⟩ := first
      obtain rfl := visited.unique token visited' token'
      exact token'.symm.trans token

/-- No token is found exactly if no visited position has one. This is no claim about positions that
are not visited. -/
theorem find_eq_none_iff (conclusive : preference.Conclusive lookbehind start) :
    engine.find pattern lookbehind text start = none ↔
      ∀ position, preference.Visits lookbehind start position →
        preference.tokenAt lookbehind position = none := by
  have first := find_firstVisited conclusive
  constructor
  · intro found
    rwa [found] at first
  · intro none
    cases found : engine.find pattern lookbehind text start with
    | none => rfl
    | some hit =>
      rw [found] at first
      obtain ⟨position, visited, token⟩ := first
      cases (none position visited).symm.trans token

end Find

end TextDecoration.Engine.Preference
