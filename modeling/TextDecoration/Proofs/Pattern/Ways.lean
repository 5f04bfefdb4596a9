import TextDecoration.Pattern.Basic

/-!
# Ways through a pattern tree

From a position a tree can take the text in several ways. `Node.ways` lists them with the one that
the tree prefers first: where each way ends, and the slots it leaves. There is no follower and no
allowance in this list; loops are bounded by the characters ahead, as in the search.

Searching by retrying is a walk through that list, `Node.attempt_tries`: what is to follow is tried
behind each way in turn, a way behind which it fails is given up for the next one, and the first
way behind which it fits decides. The search may also give up before the list is at its end; nothing
is said about when it does. If nothing is to follow, a fit is the preferred way, and a failure
means that there is no way at all.
-/

namespace TextDecoration.Pattern

/-- Two lists of ways in the order that a loop prefers: its body first if it is greedy. -/
def inOrder (greedy : Bool) (body leave : List Stretch) : List Stretch :=
  if greedy then body ++ leave else leave ++ body

/-- Ways of further iterations of a loop body, at most `ahead` of them, each taking some text. -/
def iterations (greedy : Bool) (body : Nat → Slots → List Stretch) :
    (ahead position : Nat) → Slots → List Stretch
  | 0, position, slots => [⟨position, slots⟩]
  | ahead + 1, position, slots =>
    inOrder greedy
      ((body position slots).flatMap fun way =>
        if way.stop ≤ position then [] else iterations greedy body ahead way.stop way.slots)
      [⟨position, slots⟩]

/-- The way on from `position` behind a look at it that has these ways: with the slots of the
preferred one, or, where none was to be found, with the slots as they were. -/
def lookedFrom (negated : Bool) (position : Nat) (slots : Slots) (ways : List Stretch) :
    List Stretch :=
  match ways, negated with
  | way :: _, false => [⟨position, way.slots⟩]
  | [], true => [⟨position, slots⟩]
  | _, _ => []

/-- All ways of a tree from a position, best first. This is what a search means; how it is carried
out is a matter of time and room. -/
def Node.ways (text : Array Char) : Node → Nat → Slots → List Stretch
  | .empty, position, slots => [⟨position, slots⟩]
  | .char set, position, slots =>
    match text[position]? with
    | some c => if set.contains c then [⟨position + 1, slots⟩] else []
    | none => []
  | .anchor condition, position, slots =>
    if condition.holds text position then [⟨position, slots⟩] else []
  | .mark slot, position, slots => [⟨position, slots.set slot (some position)⟩]
  | .seq first second, position, slots =>
    (first.ways text position slots).flatMap fun way => second.ways text way.stop way.slots
  | .alt first second, position, slots =>
    first.ways text position slots ++ second.ways text position slots
  | .optional greedy body, position, slots =>
    inOrder greedy (body.ways text position slots) [⟨position, slots⟩]
  | .star greedy body, position, slots | .more greedy body, position, slots =>
    iterations greedy (body.ways text) (text.size - position) position slots
  | .plus greedy body, position, slots =>
    (body.ways text position slots).flatMap fun way =>
      iterations greedy (body.ways text) (text.size - way.stop) way.stop way.slots
  | .backref ignoreCase group, position, slots =>
    match captured text slots group with
    | some cs =>
      if standsAt text ignoreCase cs position then [⟨position + cs.length, slots⟩] else []
    | none => []
  | .look false negated body, position, slots =>
    lookedFrom negated position slots (body.ways text position slots)
  | .look true negated body, position, slots =>
    lookedFrom negated position slots ((lookStarts body position).flatMap fun start =>
      (body.ways text start slots).flatMap fun way => if way.stop = position then [way] else [])
  | .atomic body, position, slots =>
    if body.regular [] then (body.preferred text position slots).toList
    else (body.ways text position slots).head?.toList

section Members

attribute [local simp] Node.ways

variable {text : Array Char} {position : Nat} {slots : Slots} {way : Stretch}

/-- The order that a loop prefers does not change which ways there are, only which is best. -/
@[simp] theorem mem_inOrder {greedy : Bool} {body leave : List Stretch} :
    way ∈ inOrder greedy body leave ↔ way ∈ body ∨ way ∈ leave := by
  cases greedy <;> simp [inOrder, or_comm]

/-- A way behind a look goes on at the position: where something was sought that is there, with the
slots found, and where nothing was to be there and nothing is, with the old ones. -/
theorem mem_lookedFrom {negated : Bool} {ways : List Stretch} :
    way ∈ lookedFrom negated position slots ways ↔
      (negated = false ∧ ∃ found, ways.head? = some found ∧ way = ⟨position, found.slots⟩) ∨
        (negated = true ∧ ways = [] ∧ way = ⟨position, slots⟩) := by
  cases ways <;> cases negated <;> simp [lookedFrom]

/-- Whatever relation holds between a position and the ways of a body, and holds of all that it
connects, holds between a position and the ways of further iterations. -/
theorem iterations_related (related : Stretch → Stretch → Prop)
    (refl : ∀ place, related place place)
    (trans : ∀ first second third, related first second → related second third →
      related first third)
    {greedy : Bool} {body : Nat → Slots → List Stretch}
    (step : ∀ position slots, ∀ way ∈ body position slots, related ⟨position, slots⟩ way)
    {ahead : Nat} (among : way ∈ iterations greedy body ahead position slots) :
    related ⟨position, slots⟩ way := by
  induction ahead generalizing position slots with
  | zero =>
    cases List.mem_singleton.mp among
    exact refl _
  | succ ahead inductionHypothesis =>
    rcases mem_inOrder.mp among with again | left
    · obtain ⟨first, taken, later⟩ := List.mem_flatMap.mp again
      split at later
      · cases later
      · exact trans _ _ _ (step position slots first taken) (inductionHypothesis later)
    · cases List.mem_singleton.mp left
      exact refl _

/-- A set takes one character of its own and stores nothing. -/
theorem Node.mem_ways_char {set : CharSet} :
    way ∈ (Node.char set).ways text position slots ↔
      ∃ c, text[position]? = some c ∧ set.contains c = true ∧ way = ⟨position + 1, slots⟩ := by
  rw [Node.ways]
  cases text[position]? with
  | none => simp
  | some c => simp

/-- An anchor takes nothing where its condition holds, and has no way elsewhere. -/
theorem Node.mem_ways_anchor {condition : Anchor} :
    way ∈ (Node.anchor condition).ways text position slots ↔
      condition.holds text position = true ∧ way = ⟨position, slots⟩ := by
  rw [Node.ways]
  split <;> simp_all

/-- A mark stores the position in its slot, takes nothing, and never fails. -/
theorem Node.mem_ways_mark {slot : Nat} :
    way ∈ (Node.mark slot).ways text position slots ↔
      way = ⟨position, slots.set slot (some position)⟩ := by
  simp

/-- A sequence takes a way of the second tree behind one of the first, with the slots as the first
has left them. -/
theorem Node.mem_ways_seq {first second : Node} :
    way ∈ (Node.seq first second).ways text position slots ↔
      ∃ middle ∈ first.ways text position slots,
        way ∈ second.ways text middle.stop middle.slots := by
  simp

/-- A capturing group takes a way of its body and stores where that begins and ends. -/
theorem Node.mem_ways_group {index : Nat} {body : Node} :
    way ∈ (Node.group index body).ways text position slots ↔
      ∃ inner ∈ body.ways text position (slots.set (2 * index) (some position)),
        way = ⟨inner.stop, inner.slots.set (2 * index + 1) (some inner.stop)⟩ := by
  rw [Node.group, mem_ways_seq]
  simp only [mem_ways_mark, mem_ways_seq, exists_eq_left]

/-- An alternative takes a way of either tree, from the same position and slots. -/
theorem Node.mem_ways_alt {first second : Node} :
    way ∈ (Node.alt first second).ways text position slots ↔
      way ∈ first.ways text position slots ∨ way ∈ second.ways text position slots := by
  simp

/-- An option takes a way of its body, or nothing. Both are ways also where the body takes
nothing. -/
theorem Node.mem_ways_optional {greedy : Bool} {body : Node} :
    way ∈ (Node.optional greedy body).ways text position slots ↔
      way ∈ body.ways text position slots ∨ way = ⟨position, slots⟩ := by
  simp

/-- A loop that has to be entered takes a way of its body and then further iterations, of which
there need be none. -/
theorem Node.mem_ways_plus {greedy : Bool} {body : Node} :
    way ∈ (Node.plus greedy body).ways text position slots ↔
      ∃ first ∈ body.ways text position slots,
        way ∈ iterations greedy (body.ways text) (text.size - first.stop) first.stop
          first.slots := by
  simp

/-- A back-reference takes again what its group took, and has no way if the group has not taken
part. -/
theorem Node.mem_ways_backref {ignoreCase : Bool} {group : Nat} :
    way ∈ (Node.backref ignoreCase group).ways text position slots ↔
      ∃ cs, captured text slots group = some cs ∧ standsAt text ignoreCase cs position = true ∧
        way = ⟨position + cs.length, slots⟩ := by
  rw [Node.ways]
  cases captured text slots group with
  | none => simp
  | some cs => simp

end Members

/-- Characters that stand at a position, in the same case, are those of the text from there on. -/
theorem getElem?_of_standsAt {text : Array Char} {cs : List Char} {position : Nat}
    (stands : standsAt text false cs position = true) {i : Nat} {c : Char}
    (present : cs[i]? = some c) : text[position + i]? = some c := by
  induction cs generalizing position i with
  | nil => cases present
  | cons d cs inductionHypothesis =>
    rw [standsAt] at stands
    split at stands
    · next found there =>
      obtain ⟨equal, later⟩ := Bool.and_eq_true_iff.mp stands
      cases i with
      | zero =>
        obtain rfl : d = found := by simpa [sameChar] using equal
        cases present
        exact there
      | succ i =>
        have further : text[position + 1 + i]? = some c :=
          inductionHypothesis later (by rwa [List.getElem?_cons_succ] at present)
        rwa [Nat.add_right_comm] at further
    · cases stands

/-- What comes of trying a follower behind each of the listed ways in turn. The search may give up
at any time; otherwise it fails when every way has failed, and fits at the first way behind which
the follower does. -/
inductive Outcome.Tries (follow : Follow) : List Stretch → Outcome → Prop where
  | givesUp {ways : List Stretch} : Tries follow ways .givesUp
  | fails (allowance : Nat) : Tries follow [] (.fails allowance)
  | fits {way : Stretch} {ways : List Stretch} {allowance stop left : Nat} {slots : Slots}
      (followed : follow way.stop way.slots allowance = .fits stop slots left) :
      Tries follow (way :: ways) (.fits stop slots left)
  | retry {way : Stretch} {ways : List Stretch} {allowance left : Nat} {outcome : Outcome}
      (failed : follow way.stop way.slots allowance = .fails left)
      (later : Tries follow ways outcome) : Tries follow (way :: ways) outcome

namespace Outcome.Tries

variable {follow : Follow}

/-- Calling the follower is trying it behind the only way that there is. -/
theorem call (way : Stretch) (allowance : Nat) :
    Outcome.Tries follow [way] (follow way.stop way.slots allowance) := by
  cases followed : follow way.stop way.slots allowance with
  | fits stop slots left => exact fits followed
  | fails left => exact retry followed (fails left)
  | givesUp => exact givesUp

/-- What fits behind one of the first ways fits whatever ways come after them. -/
theorem append_fits {first : List Stretch} {stop left : Nat} {slots : Slots}
    (tried : Outcome.Tries follow first (.fits stop slots left)) (second : List Stretch) :
    Outcome.Tries follow (first ++ second) (.fits stop slots left) := by
  generalize fitted : Outcome.fits stop slots left = outcome at tried
  induction tried with
  | givesUp => cases fitted
  | fails => cases fitted
  | fits followed => exact fits followed
  | retry failed _ inductionHypothesis => exact retry failed (inductionHypothesis fitted)

/-- Where the follower fails behind all of the first ways, the others decide. -/
theorem append_fails {first second : List Stretch} {left : Nat} {outcome : Outcome}
    (tried : Outcome.Tries follow first (.fails left))
    (other : Outcome.Tries follow second outcome) :
    Outcome.Tries follow (first ++ second) outcome := by
  generalize none : Outcome.fails left = failure at tried
  induction tried with
  | givesUp => cases none
  | fails => exact other
  | fits => cases none
  | retry failed _ inductionHypothesis => exact retry failed (inductionHypothesis none)

/-- A retry goes on with the ways of the second attempt, unless the first one fits or the allowance
is used up. -/
theorem orRetry {first second : List Stretch} {outcome : Outcome} {retried : Nat → Outcome}
    (one : Outcome.Tries follow first outcome)
    (other : ∀ allowance, Outcome.Tries follow second (retried allowance)) :
    Outcome.Tries follow (first ++ second) (outcome.orRetry retried) := by
  cases outcome with
  | fits stop slots left => exact one.append_fits second
  | fails left =>
    cases left with
    | zero => exact givesUp
    | succ left => exact one.append_fails (other left)
  | givesUp => exact givesUp

/-- The attempts of a loop's two sides are tried in the order that the loop prefers, as their ways
are listed. -/
theorem inOrder {greedy : Bool} {body leave : List Stretch}
    {bodyAttempt leaveAttempt : Nat → Outcome}
    (allowance : Nat) (one : ∀ allowance, Outcome.Tries follow body (bodyAttempt allowance))
    (other : ∀ allowance, Outcome.Tries follow leave (leaveAttempt allowance)) :
    Outcome.Tries follow (Pattern.inOrder greedy body leave)
      (Outcome.inOrder greedy bodyAttempt leaveAttempt allowance) := by
  cases greedy with
  | false => exact (other allowance).orRetry one
  | true => exact (one allowance).orRetry other

/-- If the follower is itself a walk through ways, the two walks are one through the ways of the
first part, each continued by those of the second. -/
theorem bind {ways : List Stretch} {outcome : Outcome} {second : Follow}
    {on : Stretch → List Stretch} (tried : Outcome.Tries second ways outcome)
    (continued : ∀ way allowance,
      Outcome.Tries follow (on way) (second way.stop way.slots allowance)) :
    Outcome.Tries follow (ways.flatMap on) outcome := by
  induction tried with
  | givesUp => exact givesUp
  | fails allowance => exact fails allowance
  | @fits way ways allowance stop left slots followed =>
    have fitted := continued way allowance
    rw [followed] at fitted
    exact fitted.append_fits _
  | @retry way ways allowance left outcome failed _ inductionHypothesis =>
    have tried := continued way allowance
    rw [failed] at tried
    exact tried.append_fails inductionHypothesis

/-- With nothing to follow, a fit is the first of the ways, as nothing can fail behind it. -/
theorem head_of_fits {ways : List Stretch} {stop left : Nat} {slots : Slots}
    (tried : Outcome.Tries .fits ways (.fits stop slots left)) :
    ways.head? = some ⟨stop, slots⟩ := by
  cases tried with
  | fits followed => cases followed; rfl
  | retry failed => cases failed

/-- With nothing to follow, a failure leaves no way: any way would have fitted. -/
theorem nil_of_fails {ways : List Stretch} {left : Nat}
    (tried : Outcome.Tries .fits ways (.fails left)) : ways = [] := by
  cases tried with
  | fails => rfl
  | retry failed => cases failed

/-- Looking around goes on at the position itself, if it goes on, with one way at most. -/
theorem afterLook {ways : List Stretch} {outcome : Outcome}
    (tried : Outcome.Tries .fits ways outcome) (negated : Bool) (position : Nat) (slots : Slots) :
    Outcome.Tries follow (lookedFrom negated position slots ways)
      (outcome.afterLook negated position slots follow) := by
  cases outcome with
  | fits stop found allowance =>
    obtain ⟨later, rfl⟩ := List.head?_eq_some_iff.mp tried.head_of_fits
    cases negated with
    | false => exact call ⟨position, found⟩ allowance
    | true => exact fails allowance
  | fails allowance =>
    rw [tried.nil_of_fails]
    cases negated with
    | false => exact fails allowance
    | true => exact call ⟨position, slots⟩ allowance
  | givesUp => exact givesUp

/-- A part that is matched on its own goes on behind its preferred way alone, so what follows may
fail for good. -/
theorem resume {ways : List Stretch} {outcome : Outcome}
    (tried : Outcome.Tries .fits ways outcome) :
    Outcome.Tries follow ways.head?.toList (outcome.resume follow) := by
  cases outcome with
  | fits stop found allowance =>
    rw [tried.head_of_fits]
    exact call ⟨stop, found⟩ allowance
  | fails allowance =>
    rw [tried.nil_of_fails]
    exact fails allowance
  | givesUp => exact givesUp

/-- The first of several attempts that does not fail walks through the ways of all of them. -/
theorem firstOf {attempt : Nat → Nat → Outcome} {ways : Nat → List Stretch}
    (each : ∀ start allowance, Outcome.Tries follow (ways start) (attempt start allowance))
    (starts : List Nat) (allowance : Nat) :
    Outcome.Tries follow (starts.flatMap ways) (Pattern.firstOf attempt starts allowance) := by
  induction starts generalizing allowance with
  | nil => exact fails allowance
  | cons start starts inductionHypothesis =>
    cases starts with
    | nil =>
      rw [List.flatMap_singleton]
      exact each start allowance
    | cons next starts => exact (each start allowance).orRetry inductionHypothesis

end Outcome.Tries

/-- Further iterations of a body are a walk through their ways, if an attempt at the body is. The
induction is on the iterations. -/
theorem iterate_tries {greedy : Bool} {body : Nat → Slots → Nat → Follow → Outcome}
    {ways : Nat → Slots → List Stretch}
    (each : ∀ position slots allowance follow,
      Outcome.Tries follow (ways position slots) (body position slots allowance follow))
    (ahead position : Nat) (slots : Slots) (allowance : Nat) (follow : Follow) :
    Outcome.Tries follow (iterations greedy ways ahead position slots)
      (iterate greedy body ahead position slots allowance follow) := by
  induction ahead generalizing position slots allowance with
  | zero => exact Outcome.Tries.call ⟨position, slots⟩ allowance
  | succ ahead inductionHypothesis =>
    refine Outcome.Tries.inOrder allowance (fun allowance => ?_)
      (Outcome.Tries.call ⟨position, slots⟩)
    refine (each position slots allowance _).bind fun way allowance => ?_
    split
    · exact Outcome.Tries.fails allowance
    · exact inductionHypothesis way.stop way.slots allowance

/-- An attempt at a tree is a walk through the tree's ways, whatever follows and whatever the
allowance. The induction is on the tree. -/
theorem Node.attempt_tries (text : Array Char) (node : Node) (position : Nat) (slots : Slots)
    (allowance : Nat) (follow : Follow) :
    Outcome.Tries follow (node.ways text position slots)
      (node.attempt text position slots allowance follow) := by
  induction node generalizing position slots allowance follow with
  | empty => exact Outcome.Tries.call ⟨position, slots⟩ allowance
  | char set =>
    rw [Node.ways, Node.attempt]
    cases text[position]? with
    | none => exact Outcome.Tries.fails allowance
    | some c =>
      dsimp only
      split
      · exact Outcome.Tries.call ⟨position + 1, slots⟩ allowance
      · exact Outcome.Tries.fails allowance
  | anchor condition =>
    rw [Node.ways, Node.attempt]
    split
    · exact Outcome.Tries.call ⟨position, slots⟩ allowance
    · exact Outcome.Tries.fails allowance
  | mark slot => exact Outcome.Tries.call ⟨position, slots.set slot (some position)⟩ allowance
  | seq first second firstTries secondTries =>
    exact (firstTries position slots allowance _).bind fun way allowance =>
      secondTries way.stop way.slots allowance follow
  | alt first second firstTries secondTries =>
    exact (firstTries position slots allowance follow).orRetry fun allowance =>
      secondTries position slots allowance follow
  | optional greedy body bodyTries =>
    exact Outcome.Tries.inOrder allowance
      (fun allowance => bodyTries position slots allowance follow)
      (Outcome.Tries.call ⟨position, slots⟩)
  | star greedy body bodyTries | more greedy body bodyTries =>
    exact iterate_tries bodyTries (text.size - position) position slots allowance follow
  | plus greedy body bodyTries =>
    exact (bodyTries position slots allowance _).bind fun way allowance =>
      iterate_tries bodyTries (text.size - way.stop) way.stop way.slots allowance follow
  | backref ignoreCase group =>
    rw [Node.ways, Node.attempt]
    cases captured text slots group with
    | none => exact Outcome.Tries.fails allowance
    | some cs =>
      dsimp only
      split
      · exact Outcome.Tries.call ⟨position + cs.length, slots⟩ allowance
      · exact Outcome.Tries.fails allowance
  | look behind negated body bodyTries =>
    cases behind with
    | false => exact (bodyTries position slots allowance .fits).afterLook negated position slots
    | true =>
      refine Outcome.Tries.afterLook (Outcome.Tries.firstOf (fun start allowance => ?_)
        (lookStarts body position) allowance) negated position slots
      refine (bodyTries start slots allowance _).bind fun way allowance => ?_
      split
      · exact Outcome.Tries.call way allowance
      · exact Outcome.Tries.fails allowance
  | atomic body bodyTries =>
    rw [Node.ways, Node.attempt]
    split
    · split
      · next stretch found =>
        rw [found]
        exact Outcome.Tries.call stretch allowance
      · next none =>
        rw [none]
        exact Outcome.Tries.fails allowance
    · exact (bodyTries position slots allowance .fits).resume

/-- An attempt that fits with nothing to follow takes the preferred way, and leaves its slots. -/
theorem Node.ways_head_of_fits {text : Array Char} {node : Node}
    {position allowance stop left : Nat} {slots stored : Slots}
    (fitted : node.attempt text position slots allowance .fits = .fits stop stored left) :
    (node.ways text position slots).head? = some ⟨stop, stored⟩ := by
  have tried := node.attempt_tries text position slots allowance .fits
  rw [fitted] at tried
  exact tried.head_of_fits

/-- A search by retrying finds the preferred way from one of the positions it tries, if it finds
anything. -/
theorem firstFitRetrying_way {text : Array Char} {node : Node} {slots : Slots}
    {count position allowance : Nat} {fit : Fit}
    (found : firstFitRetrying text node slots count position allowance = some fit) :
    position ≤ fit.start ∧ fit.start < position + count ∧ ∃ stored : Slots,
      (node.ways text fit.start slots).head? = some ⟨fit.stop, stored⟩ ∧
        fit.groupStop = stored[3]?.join := by
  induction count generalizing position allowance with
  | zero => cases found
  | succ count inductionHypothesis =>
    rw [firstFitRetrying] at found
    split at found
    · next stop stored left fitted =>
      cases found
      exact ⟨Nat.le_refl position, Nat.lt_add_of_pos_right (Nat.succ_pos count), stored,
        Node.ways_head_of_fits fitted, rfl⟩
    · obtain ⟨ahead, before, taken⟩ := inductionHypothesis found
      exact ⟨Nat.le_of_succ_le ahead, by omega, taken⟩
    · cases found
    · cases found

/-- A fit of a pattern that is searched by retrying is the preferred way of its tree, and the end of
its first group is what that way left in the group's second slot. -/
theorem locate_way {pattern : Pattern} {text : Array Char} {position : Nat} {fit : Fit}
    (retries : pattern.meaning.retries = true) (located : pattern.locate text position = some fit) :
    ∃ stored : Slots,
      (pattern.meaning.node.ways text fit.start pattern.emptySlots).head? =
          some ⟨fit.stop, stored⟩ ∧
        fit.groupStop = stored[3]?.join := by
  rw [locate, if_pos retries] at located
  exact (firstFitRetrying_way located).2.2

end TextDecoration.Pattern
