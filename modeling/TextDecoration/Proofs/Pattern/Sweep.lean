import TextDecoration.Pattern.Leads

/-!
# Ends found by following leads

Following leads side by side never loses an end. Once there is one, the sweep keeps it or puts a
better one in its place; a lead to stop makes one; and of two leads that go on in the same way, none
is dropped whose twin is not kept. So a tree that offers, among its leads, one that takes the
character at hand and may then stop, has a preferred stretch. The stretch that is preferred in the
end begins at the position given and lies in the text.

Which of several ends is kept is not looked at here.
-/

namespace TextDecoration.Pattern

/-- Dropping twins drops no lead to stop but behind another one, so whether there is one stays the
same. -/
theorem Lead.any_isStop_distinct (leads : List Lead) :
    (Lead.distinct leads).any Lead.isStop = leads.any Lead.isStop := by
  induction leads with
  | nil => rfl
  | cons lead leads inductionHypothesis =>
    rw [Lead.distinct, List.any_cons, List.any_cons]
    cases lead with
    | stop slots => rfl
    | take set rest slots =>
      have differs : ∀ other : Lead, other.isStop = true →
          (!(Lead.take set rest slots).sameWay other) = true := by
        intro other stops
        cases other with
        | stop slots => rfl
        | take set rest slots => cases stops
      have same : ∀ other : Lead,
          (!(Lead.take set rest slots).sameWay other && other.isStop) = other.isStop := by
        intro other
        cases stops : other.isStop with
        | false => exact Bool.and_false _
        | true => rw [differs other stops, Bool.and_self]
      rw [List.any_filter, List.any_congr rfl same, inductionHypothesis]

/-- There is an end to keep at a position if there was one before or one of the leads is to stop. -/
theorem best_isSome {position : Nat} {leads : List Lead} {best : Option Stretch}
    (sure : best.isSome = true ∨ leads.any Lead.isStop = true) :
    (match leads.find? Lead.isStop with
      | some (.stop slots) => some (Stretch.mk position slots)
      | _ => best).isSome = true := by
  cases found : leads.find? Lead.isStop with
  | none =>
    rcases sure with had | stops
    · exact had
    · obtain ⟨lead, among, isStop⟩ := List.any_eq_true.mp stops
      exact absurd isStop (List.find?_eq_none.mp found lead among)
  | some lead =>
    cases lead with
    | stop slots => rfl
    | take set rest slots => cases List.find?_some found

/-- Following leads ends somewhere if there was an end before or one of the leads is to stop. -/
theorem sweep_isSome (text : Array Char) (ahead position : Nat) (leads : List Lead)
    (best : Option Stretch) (sure : best.isSome = true ∨ leads.any Lead.isStop = true) :
    (sweep text ahead position leads best).isSome = true := by
  fun_induction sweep text ahead position leads best with
  | case1 => exact best_isSome sure
  | case2 position leads best live kept ahead c present next further inductionHypothesis =>
    exact inductionHypothesis (Or.inl (best_isSome sure))
  | case3 => exact best_isSome sure

/-- A tree has a preferred stretch from a position if one of its leads there takes the character at
hand and may then stop. A lead to stop before it is an end already, so it does not matter that the
leads behind such a one are not followed. -/
theorem Node.preferred_isSome {text : Array Char} {node : Node} {position : Nat}
    {slots stored : Slots} {set : CharSet} {rest : Node} {c : Char}
    (offered : .take set rest stored ∈ node.leads text position slots)
    (present : text[position]? = some c) (admitted : set.contains c = true)
    (stops : (rest.leads text (position + 1) stored).any Lead.isStop = true) :
    (node.preferred text position slots).isSome = true := by
  by_cases sure : (node.leads text position slots).any Lead.isStop = true
  · exact sweep_isSome text _ _ _ _ (Or.inr sure)
  · have going : ∀ lead ∈ node.leads text position slots, (!lead.isStop) = true := by
      intro lead among
      rw [Bool.not_eq_true']
      exact Bool.eq_false_iff.mpr fun isStop => sure (List.any_eq_true.mpr ⟨lead, among, isStop⟩)
    have live : (node.leads text position slots).takeWhile (fun lead => !lead.isStop) =
        node.leads text position slots := by
      rw [← List.append_nil (node.leads text position slots), List.takeWhile_append_of_pos going,
        List.takeWhile_nil]
    obtain ⟨bound, _⟩ := Array.getElem?_eq_some_iff.mp present
    obtain ⟨ahead, counted⟩ : ∃ ahead, text.size - position = ahead + 1 :=
      ⟨text.size - position - 1, by omega⟩
    obtain ⟨lead, among, isStop⟩ := List.any_eq_true.mp stops
    rw [Node.preferred, counted]
    unfold sweep
    simp only [present, live]
    split
    · next exhausted =>
      have none := List.flatMap_eq_nil_iff.mp (List.isEmpty_iff.mp exhausted) _ offered
      simp only [admitted, if_true] at none
      rw [none] at among
      cases among
    · refine sweep_isSome text _ _ _ _ (Or.inr ?_)
      rw [Lead.any_isStop_distinct]
      refine List.any_eq_true.mpr ⟨lead, List.mem_flatMap.mpr ⟨_, offered, ?_⟩, isStop⟩
      simpa only [admitted, if_true] using among

/-- Stopping at the present position replaces the best end so far. Whichever of the two is kept
respects the bounds that both respect. -/
theorem best_bounds {least size position : Nat} {leads : List Lead} {best : Option Stretch}
    (reached : least ≤ position) (inside : position ≤ size)
    (sofar : ∀ known, best = some known → least ≤ known.stop ∧ known.stop ≤ size) :
    ∀ known, (match leads.find? Lead.isStop with
      | some (.stop slots) => some (Stretch.mk position slots)
      | _ => best) = some known → least ≤ known.stop ∧ known.stop ≤ size := by
  intro known kept
  split at kept
  · cases kept
    exact ⟨reached, inside⟩
  · exact sofar known kept

/-- Following leads side by side ends no earlier than a bound that the best end so far and the
present position respect, and no later than the text. Each round either stops with one of those
two or moves one character on, which is there to be taken. -/
theorem sweep_bounds (text : Array Char) (least ahead position : Nat) (leads : List Lead)
    (best : Option Stretch) (stretch : Stretch) (reached : least ≤ position)
    (inside : position ≤ text.size)
    (sofar : ∀ known, best = some known → least ≤ known.stop ∧ known.stop ≤ text.size)
    (found : sweep text ahead position leads best = some stretch) :
    least ≤ stretch.stop ∧ stretch.stop ≤ text.size := by
  fun_induction sweep text ahead position leads best with
  | case1 position leads best live kept ahead c present next exhausted =>
    exact best_bounds reached inside sofar stretch found
  | case2 position leads best live kept ahead c present next further inductionHypothesis =>
    have taken : position < text.size := by
      obtain ⟨bound, _⟩ := Array.getElem?_eq_some_iff.mp present
      exact bound
    exact inductionHypothesis (Nat.le_succ_of_le reached) taken
      (best_bounds reached inside sofar) found
  | case3 ahead position leads best kept atEnd =>
    exact best_bounds reached inside sofar stretch found

/-- The stretch that a regular tree prefers begins at the position given and lies in the text, as
each lead takes a character that is there. -/
theorem Node.preferred_bounds {text : Array Char} {node : Node} {position : Nat} {slots : Slots}
    {stretch : Stretch} (inside : position ≤ text.size)
    (found : node.preferred text position slots = some stretch) :
    position ≤ stretch.stop ∧ stretch.stop ≤ text.size :=
  sweep_bounds text position _ position _ none stretch (Nat.le_refl position) inside
    (by simp) found

end TextDecoration.Pattern
