import TextDecoration.Proofs.Pattern.Leftmost
import TextDecoration.Proofs.Pattern.Preferred

/-!
# Slots of a fit

Matching stores positions in the slots that there are; it adds none and drops none. A pattern
without capturing groups has two slots, which belong to no group, so none of its fits reports the
end of a group.
-/

namespace TextDecoration.Pattern

/-- The slots that a lead carries, as they are when the lead is taken. -/
def Lead.slots : Lead → Slots
  | .stop slots | .take _ _ slots => slots

section Slots

variable {text : Array Char} {position : Nat} {slots : Slots}

/-- A further obligation leaves a lead's slots alone: it is stored for later. -/
@[simp] theorem Lead.slots_before (next : Node) (lead : Lead) :
    (lead.before next).slots = lead.slots := by
  cases lead <;> rfl

/-- The leads of a tree carry as many slots as it was given. Marks write to slots and add none. -/
theorem Node.length_of_mem_leads {node : Node} {lead : Lead}
    (among : lead ∈ node.leads text position slots) : lead.slots.length = slots.length := by
  induction node generalizing slots lead with
  | empty | char set =>
    cases List.mem_singleton.mp among
    rfl
  | anchor condition =>
    rw [leads] at among
    split at among
    · cases List.mem_singleton.mp among
      rfl
    · cases among
  | mark slot =>
    cases List.mem_singleton.mp among
    exact List.length_set
  | seq first second firstKeeps secondKeeps =>
    obtain ⟨earlier, listed, later⟩ := List.mem_flatMap.mp among
    have kept := firstKeeps listed
    cases earlier with
    | stop reached => exact (secondKeeps later).trans kept
    | take set rest reached =>
      cases List.mem_singleton.mp later
      exact kept
  | alt first second firstKeeps secondKeeps =>
    rcases Lead.mem_of_mem_preferring among with taken | taken
    · exact firstKeeps taken
    · exact secondKeeps taken
  | optional greedy body bodyKeeps =>
    rcases Lead.mem_of_mem_loop among with taken | left
    · exact bodyKeeps taken
    · cases List.mem_singleton.mp left
      rfl
  | star greedy body bodyKeeps =>
    rcases Lead.mem_of_mem_loop among with taken | left
    · obtain ⟨earlier, listed, rfl⟩ := List.mem_map.mp taken
      rw [Lead.slots_before]
      exact bodyKeeps listed
    · cases List.mem_singleton.mp left
      rfl
  | more greedy body bodyKeeps =>
    rcases Lead.mem_of_mem_loop among with taken | left
    · obtain ⟨earlier, kept, rfl⟩ := List.mem_map.mp taken
      rw [Lead.slots_before]
      exact bodyKeeps (List.mem_filter.mp kept).1
    · cases List.mem_singleton.mp left
      rfl
  | plus greedy body bodyKeeps =>
    obtain ⟨earlier, listed, rfl⟩ := List.mem_map.mp among
    rw [Lead.slots_before]
    exact bodyKeeps listed
  | backref ignoreCase group | look behind negated body | atomic body => cases among

/-- The end that is kept at a position has as many slots as the leads and the end before. -/
theorem length_of_best {count : Nat} {leads : List Lead} {best : Option Stretch}
    (carried : ∀ lead ∈ leads, lead.slots.length = count)
    (sofar : ∀ known, best = some known → known.slots.length = count) :
    ∀ known, (match leads.find? Lead.isStop with
      | some (.stop slots) => some (Stretch.mk position slots)
      | _ => best) = some known → known.slots.length = count := by
  intro known kept
  split at kept
  · next stored stops =>
    cases kept
    exact carried (.stop stored) (List.mem_of_find?_eq_some stops)
  · exact sofar known kept

/-- The end that following leads finds has as many slots as the leads and the end before. -/
theorem length_of_sweep {count ahead : Nat} {leads : List Lead} {best : Option Stretch}
    {stretch : Stretch} (carried : ∀ lead ∈ leads, lead.slots.length = count)
    (sofar : ∀ known, best = some known → known.slots.length = count)
    (found : sweep text ahead position leads best = some stretch) :
    stretch.slots.length = count := by
  fun_induction sweep text ahead position leads best with
  | case1 => exact length_of_best carried sofar stretch found
  | case2 position leads best live kept ahead c present next further inductionHypothesis =>
    refine inductionHypothesis (fun lead among => ?_) (length_of_best carried sofar) found
    obtain ⟨set, rest, stored, listed, later⟩ :=
      Lead.exists_of_mem_next (Lead.mem_of_mem_distinct among)
    exact (Node.length_of_mem_leads later).trans (carried _ listed)
  | case3 => exact length_of_best carried sofar stretch found

/-- The stretch that a regular tree prefers has as many slots as it was given, so slots are found by
their number. -/
theorem Node.length_of_preferred {node : Node} {stretch : Stretch}
    (found : node.preferred text position slots = some stretch) :
    stretch.slots.length = slots.length :=
  length_of_sweep (fun _ => length_of_mem_leads) (by simp) found

/-- Iterations of a body whose ways have as many slots as it was given have as many, too. -/
theorem length_of_mem_iterations {greedy : Bool} {body : Nat → Slots → List Stretch}
    (keeps : ∀ position slots, ∀ way ∈ body position slots, way.slots.length = slots.length)
    {ahead : Nat} {way : Stretch} (among : way ∈ iterations greedy body ahead position slots) :
    way.slots.length = slots.length :=
  iterations_related (fun first second => second.slots.length = first.slots.length)
    (fun _ => rfl) (fun _ _ _ one other => other.trans one) keeps among

/-- Every way of a tree has as many slots as it was given, whether it is searched by retrying or
not. -/
theorem Node.length_of_mem_ways {node : Node} {way : Stretch}
    (among : way ∈ node.ways text position slots) : way.slots.length = slots.length := by
  induction node generalizing position slots way with
  | empty =>
    cases List.mem_singleton.mp among
    rfl
  | char set =>
    obtain ⟨_, _, _, rfl⟩ := mem_ways_char.mp among
    rfl
  | anchor condition =>
    obtain ⟨_, rfl⟩ := mem_ways_anchor.mp among
    rfl
  | mark slot =>
    cases mem_ways_mark.mp among
    exact List.length_set
  | seq first second firstKeeps secondKeeps =>
    obtain ⟨middle, taken, later⟩ := mem_ways_seq.mp among
    exact (secondKeeps later).trans (firstKeeps taken)
  | alt first second firstKeeps secondKeeps =>
    rcases mem_ways_alt.mp among with taken | taken
    · exact firstKeeps taken
    · exact secondKeeps taken
  | optional greedy body bodyKeeps =>
    rcases mem_ways_optional.mp among with taken | rfl
    · exact bodyKeeps taken
    · rfl
  | star greedy body bodyKeeps | more greedy body bodyKeeps =>
    exact length_of_mem_iterations (fun _ _ _ => bodyKeeps) among
  | plus greedy body bodyKeeps =>
    obtain ⟨first, taken, later⟩ := mem_ways_plus.mp among
    exact (length_of_mem_iterations (fun _ _ _ => bodyKeeps) later).trans (bodyKeeps taken)
  | backref ignoreCase group =>
    obtain ⟨_, _, _, rfl⟩ := mem_ways_backref.mp among
    rfl
  | look behind negated body bodyKeeps =>
    cases behind with
    | false =>
      rcases mem_lookedFrom.mp among with ⟨_, found, preferred, rfl⟩ | ⟨_, _, rfl⟩
      · have kept : found.slots.length = slots.length := bodyKeeps (List.mem_of_head? preferred)
        exact kept
      · rfl
    | true =>
      rcases mem_lookedFrom.mp among with ⟨_, found, preferred, rfl⟩ | ⟨_, _, rfl⟩
      · obtain ⟨start, _, ended⟩ := List.mem_flatMap.mp (List.mem_of_head? preferred)
        obtain ⟨reached, taken, arrived⟩ := List.mem_flatMap.mp ended
        split at arrived
        · cases List.mem_singleton.mp arrived
          have kept : found.slots.length = slots.length := bodyKeeps taken
          exact kept
        · cases arrived
      · rfl
  | atomic body bodyKeeps =>
    rw [ways] at among
    split at among
    · exact length_of_preferred (Option.mem_toList.mp among)
    · exact bodyKeeps (List.mem_of_head? (Option.mem_toList.mp among))

/-- A pattern without capturing groups never reports the end of one: it has no slot for it. -/
theorem groupStop_eq_none {pattern : Pattern} (groupless : pattern.meaning.groups = 0) {fit : Fit}
    (fits : pattern.preferredAt text position = some fit) : fit.groupStop = none := by
  have inside : position ≤ text.size := by
    obtain ⟨_, ahead, within⟩ := preferredAt_bounds fits
    exact Nat.le_trans ahead within
  rw [preferredAt_inside inside] at fits
  obtain ⟨stretch, preferred, rfl⟩ := Option.map_eq_some_iff.mp fits
  have two : stretch.slots.length = 2 := by
    have given : pattern.emptySlots.length = 2 := by
      rw [emptySlots, List.length_replicate, groupless]
    rw [← given]
    rw [stretchAt] at preferred
    split at preferred
    · exact Node.length_of_mem_ways (List.mem_of_head? preferred)
    · exact Node.length_of_preferred preferred
  have absent : stretch.slots[3]? = none := List.getElem?_eq_none (by omega)
  rw [fit, absent]
  rfl

end Slots

end TextDecoration.Pattern
