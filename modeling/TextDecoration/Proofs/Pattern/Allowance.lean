import TextDecoration.Pattern.Basic

/-!
# What an attempt costs

An attempt that may retry has a price. With an allowance below the price it gives up; with any other
it comes to the same verdict, and what is left is what the allowance exceeds the price by. So an
allowance decides whether an answer is reached and never which one, and there is always an allowance
that suffices.

A search tries one position after the other, and what one of them leaves is all that the later ones
get. It is *conclusive* if it is not cut short: it fits somewhere, or every position was tried. One
that is conclusive with some allowance is so with a larger one.
-/

namespace TextDecoration.Pattern

/-- What an attempt comes to if it does not give up. With a larger allowance it would come to the
same. -/
inductive Verdict where
  /-- Everything fits, up to position `stop`, with the slots as they are then. -/
  | fits (stop : Nat) (slots : Slots)
  /-- Nothing fits, in whatever way the attempt goes on. -/
  | fails

/-- The outcome of a verdict that leaves an allowance. Outcomes that give up are not among these. -/
def Verdict.leaving : Verdict → (allowance : Nat) → Outcome
  | .fits stop slots, allowance => .fits stop slots allowance
  | .fails, allowance => .fails allowance

/-- The outcome of what costs `price` retries and then comes to a verdict. With less than the price
it gives up. -/
def Verdict.charged (verdict : Verdict) (price allowance : Nat) : Outcome :=
  if price ≤ allowance then verdict.leaving (allowance - price) else .givesUp

/-- An attempt, as a function of the allowance, that has a price and a verdict. Neither of them
depends on the allowance. -/
def Metered (attempt : Nat → Outcome) : Prop :=
  ∃ (verdict : Verdict) (price : Nat),
    ∀ allowance, attempt allowance = verdict.charged price allowance

namespace Metered

/-- What comes to its verdict at once costs nothing, and leaves the allowance as it was. -/
theorem free (verdict : Verdict) : Metered verdict.leaving :=
  ⟨verdict, 0, fun allowance => (if_pos (Nat.zero_le allowance)).symm⟩

/-- To fail at once costs nothing. The price of a retry is paid by what is tried next. -/
theorem fails : Metered Outcome.fails := free .fails

/-- A retry costs one more than what is retried, since it takes one from the allowance before
anything is tried. -/
theorem retried {second : Nat → Outcome} (metered : Metered second) :
    Metered fun allowance => (Outcome.fails allowance).orRetry second := by
  obtain ⟨verdict, price, charged⟩ := metered
  refine ⟨verdict, price + 1, fun allowance => ?_⟩
  cases allowance with
  | zero => rfl
  | succ allowance =>
    change second allowance = _
    rw [charged, Verdict.charged, Verdict.charged, Nat.add_sub_add_right]
    simp only [Nat.add_le_add_iff_right]

/-- What goes on from an outcome has a price if the outcome has one, if it gives up with the
outcome, and if it has a price from either verdict on. The two prices add up. -/
theorem bind {attempt : Nat → Outcome} (metered : Metered attempt) (onward : Outcome → Outcome)
    (ends : onward .givesUp = .givesUp)
    (each : ∀ verdict : Verdict, Metered fun allowance => onward (verdict.leaving allowance)) :
    Metered fun allowance => onward (attempt allowance) := by
  obtain ⟨first, price, charged⟩ := metered
  obtain ⟨second, further, chargedLater⟩ := each first
  refine ⟨second, price + further, fun allowance => ?_⟩
  have later : ∀ left, onward (first.leaving left) = second.charged further left := chargedLater
  change onward (attempt allowance) = _
  rw [charged, Verdict.charged, Verdict.charged]
  by_cases affordable : price ≤ allowance
  · have both : price + further ≤ allowance ↔ further ≤ allowance - price := by omega
    rw [if_pos affordable, later, Verdict.charged, Nat.sub_add_eq]
    simp only [both]
  · rw [if_neg affordable, if_neg (by omega : ¬price + further ≤ allowance), ends]

/-- A retry has a price if both attempts have one. It is that of the first attempt alone, where that
fits. -/
theorem orRetry {first second : Nat → Outcome} (one : Metered first) (other : Metered second) :
    Metered fun allowance => (first allowance).orRetry second := by
  refine one.bind (fun outcome => outcome.orRetry second) rfl fun verdict => ?_
  cases verdict with
  | fits stop slots => exact free (.fits stop slots)
  | fails => exact other.retried

/-- A choice between a loop's two sides has a price if both sides have one, whichever is
preferred. -/
theorem inOrder {greedy : Bool} {body leave : Nat → Outcome} (one : Metered body)
    (other : Metered leave) : Metered (Outcome.inOrder greedy body leave) := by
  cases greedy with
  | false => exact other.orRetry one
  | true => exact one.orRetry other

/-- Going on behind a part that was matched on its own has a price. What follows can fail, but the
part is not paid for twice. -/
theorem resume {part : Nat → Outcome} {follow : Follow} (metered : Metered part)
    (followed : ∀ position slots, Metered (follow position slots)) :
    Metered fun allowance => (part allowance).resume follow := by
  refine metered.bind (fun outcome => outcome.resume follow) rfl fun verdict => ?_
  cases verdict with
  | fits stop slots => exact followed stop slots
  | fails => exact fails

/-- Going on behind a look has a price, whether something is sought or is not to be there. -/
theorem afterLook {part : Nat → Outcome} {follow : Follow} (metered : Metered part)
    (followed : ∀ position slots, Metered (follow position slots)) (negated : Bool)
    (position : Nat) (slots : Slots) :
    Metered fun allowance => (part allowance).afterLook negated position slots follow := by
  refine metered.bind (fun outcome => outcome.afterLook negated position slots follow) rfl
    fun verdict => ?_
  cases verdict with
  | fits stop found =>
    cases negated with
    | false => exact followed position found
    | true => exact fails
  | fails =>
    cases negated with
    | false => exact fails
    | true => exact followed position slots

/-- The first of several attempts that does not fail has a price, if each of them has one. -/
theorem firstOf {attempt : Nat → Nat → Outcome} (each : ∀ start, Metered (attempt start))
    (starts : List Nat) : Metered (Pattern.firstOf attempt starts) := by
  induction starts with
  | nil => exact fails
  | cons start starts inductionHypothesis =>
    cases starts with
    | nil => exact each start
    | cons next starts => exact (each start).orRetry inductionHypothesis

/-- Further iterations of a body have a price, if the body has one wherever what follows it has
one. -/
theorem iterate {greedy : Bool} {body : Nat → Slots → Nat → Follow → Outcome}
    (each : ∀ position slots follow, (∀ position slots, Metered (follow position slots)) →
      Metered fun allowance => body position slots allowance follow)
    {follow : Follow} (followed : ∀ position slots, Metered (follow position slots))
    (ahead position : Nat) (slots : Slots) :
    Metered fun allowance => iterate greedy body ahead position slots allowance follow := by
  induction ahead generalizing position slots with
  | zero => exact followed position slots
  | succ ahead inductionHypothesis =>
    refine inOrder (each position slots _ fun reached slots => ?_) (followed position slots)
    by_cases idle : reached ≤ position
    · simpa only [if_pos idle] using fails
    · simpa only [if_neg idle] using inductionHypothesis reached slots

end Metered

/-- An attempt at a tree has a price wherever what follows it has one. The induction is on the tree,
one case for each way to build it. -/
theorem Node.attempt_metered (text : Array Char) (node : Node) (position : Nat) (slots : Slots)
    {follow : Follow} (followed : ∀ position slots, Metered (follow position slots)) :
    Metered fun allowance => node.attempt text position slots allowance follow := by
  induction node generalizing position slots follow with
  | empty => exact followed position slots
  | char set =>
    simp only [Node.attempt]
    cases text[position]? with
    | none => exact Metered.fails
    | some c =>
      dsimp only
      split
      · exact followed (position + 1) slots
      · exact Metered.fails
  | anchor condition =>
    simp only [Node.attempt]
    split
    · exact followed position slots
    · exact Metered.fails
  | mark slot => exact followed position (slots.set slot (some position))
  | seq first second firstMetered secondMetered =>
    exact firstMetered position slots fun reached slots => secondMetered reached slots followed
  | alt first second firstMetered secondMetered =>
    exact (firstMetered position slots followed).orRetry (secondMetered position slots followed)
  | optional greedy body bodyMetered =>
    exact Metered.inOrder (bodyMetered position slots followed) (followed position slots)
  | star greedy body bodyMetered | more greedy body bodyMetered =>
    exact Metered.iterate (fun position slots _ => bodyMetered position slots) followed
      (text.size - position) position slots
  | plus greedy body bodyMetered =>
    exact bodyMetered position slots fun reached slots =>
      Metered.iterate (fun position slots _ => bodyMetered position slots) followed
        (text.size - reached) reached slots
  | backref ignoreCase group =>
    simp only [Node.attempt]
    cases captured text slots group with
    | none => exact Metered.fails
    | some cs =>
      dsimp only
      split
      · exact followed (position + cs.length) slots
      · exact Metered.fails
  | look behind negated body bodyMetered =>
    have ended : ∀ stop slots, Metered (Outcome.fits stop slots) :=
      fun stop slots => Metered.free (.fits stop slots)
    cases behind with
    | false => exact (bodyMetered position slots ended).afterLook followed negated position slots
    | true =>
      refine Metered.afterLook (Metered.firstOf (fun start => ?_) (lookStarts body position))
        followed negated position slots
      refine bodyMetered start slots fun reached slots => ?_
      by_cases arrived : reached = position
      · simpa only [if_pos arrived] using ended reached slots
      · simpa only [if_neg arrived] using Metered.fails
  | atomic body bodyMetered =>
    have ended : ∀ stop slots, Metered (Outcome.fits stop slots) :=
      fun stop slots => Metered.free (.fits stop slots)
    simp only [Node.attempt]
    split
    · split
      · next stretch found => exact followed stretch.stop stretch.slots
      · exact Metered.fails
    · exact (bodyMetered position slots ended).resume followed

/-- With nothing to follow, an attempt at a tree has a price and a verdict. A search for a pattern
begins with such an attempt at each position. -/
theorem Node.attempt_charged (text : Array Char) (node : Node) (position : Nat) (slots : Slots) :
    ∃ (verdict : Verdict) (price : Nat), ∀ allowance,
      node.attempt text position slots allowance .fits = verdict.charged price allowance :=
  node.attempt_metered text position slots fun stop slots => Metered.free (.fits stop slots)

/-- Whether a search by retrying is not cut short: it fits somewhere, or every position was tried.
The allowance is shared by all positions. -/
def conclusiveWithin (text : Array Char) (node : Node) (slots : Slots) :
    (count position allowance : Nat) → Bool
  | 0, _, _ => true
  | count + 1, position, allowance =>
    match node.attempt text position slots allowance .fits with
    | .fits _ _ _ => true
    | .fails (allowance + 1) => conclusiveWithin text node slots count (position + 1) allowance
    | .fails 0 => count == 0
    | .givesUp => false

/-- Whether a search for a pattern from a position on is not cut short by the allowance. One that
does not retry never is. -/
def conclusive (pattern : Pattern) (text : Array Char) (position : Nat) : Bool :=
  !pattern.meaning.retries || conclusiveWithin text pattern.meaning.node pattern.emptySlots
    (text.size + 1 - position) position allowance

/-- A search that does not retry is conclusive, whatever the text, since it has nothing to run out
of. -/
theorem conclusive_of_direct {pattern : Pattern} (direct : pattern.meaning.retries = false)
    {text : Array Char} {position : Nat} : pattern.conclusive text position = true := by
  rw [conclusive, direct]
  rfl

section Conclusive

variable {text : Array Char} {node : Node} {slots : Slots} {count position : Nat}

/-- What is conclusive with some allowance is so with a larger one. Wherever the smaller one was
enough, the larger one leaves more for the positions behind. -/
theorem conclusiveWithin_mono {allowance larger : Nat} (more : allowance ≤ larger)
    (concluded : conclusiveWithin text node slots count position allowance = true) :
    conclusiveWithin text node slots count position larger = true := by
  induction count generalizing position allowance larger with
  | zero => rfl
  | succ count inductionHypothesis =>
    obtain ⟨verdict, price, charged⟩ := node.attempt_charged text position slots
    rw [conclusiveWithin, charged, Verdict.charged] at concluded ⊢
    by_cases affordable : price ≤ allowance
    · rw [if_pos affordable] at concluded
      rw [if_pos (Nat.le_trans affordable more)]
      have left : allowance - price ≤ larger - price := Nat.sub_le_sub_right more price
      generalize allowance - price = less at left concluded
      generalize larger - price = further at left ⊢
      cases verdict with
      | fits stop slots => rfl
      | fails =>
        cases further with
        | zero =>
          cases Nat.le_zero.mp left
          exact concluded
        | succ further =>
          cases less with
          | zero =>
            obtain rfl : count = 0 := beq_iff_eq.mp concluded
            rfl
          | succ less => exact inductionHypothesis (Nat.le_of_succ_le_succ left) concluded
    · rw [if_neg affordable] at concluded
      cases concluded

/-- Where nothing fits at a position, the search from the next one on is conclusive with the whole
allowance, since it was so with what the position had left. -/
theorem conclusiveWithin_next {allowance : Nat}
    (vain : ∀ stop stored left,
      node.attempt text position slots allowance .fits ≠ .fits stop stored left)
    (concluded : conclusiveWithin text node slots (count + 1) position allowance = true) :
    conclusiveWithin text node slots count (position + 1) allowance = true := by
  obtain ⟨verdict, price, charged⟩ := node.attempt_charged text position slots
  rw [conclusiveWithin] at concluded
  rw [charged, Verdict.charged] at concluded vain
  split at concluded
  · next stop stored left fitted => exact absurd fitted (vain stop stored left)
  · next left failed =>
    have spent : left ≤ allowance := by
      split at failed
      · cases verdict with
        | fits stop stored => cases failed
        | fails =>
          have same : allowance - price = left + 1 := Outcome.fails.inj failed
          omega
      · cases failed
    exact conclusiveWithin_mono spent concluded
  · obtain rfl : count = 0 := beq_iff_eq.mp concluded
    rfl
  · cases concluded

end Conclusive

end TextDecoration.Pattern
