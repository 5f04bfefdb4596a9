import TextDecoration.Proofs.Pattern.Bounds

/-!
# Trees that take some text

In an *advancing* tree there is no way to take nothing. That is read off the tree: a sequence
advances if one of its parts does, an alternative if both do, and of the loops only the one that has
to be entered. Such a tree offers no lead to stop, and each of its ways ends behind the position it
begins at. The check is sufficient and not necessary; back-references never pass it.
-/

namespace TextDecoration.Pattern

/-- Whether every way of a tree takes at least one character. It is told by the tree, so some trees
are counted out that do advance. -/
def Node.advances : Node → Bool
  | .char _ => true
  | .seq first second => first.advances || second.advances
  | .alt first second => first.advances && second.advances
  | .plus _ body | .atomic body => body.advances
  | _ => false

section Advances

variable {text : Array Char} {position : Nat} {slots : Slots}

/-- Preferring one list of leads to another adds none, though it may drop one. -/
theorem Lead.mem_of_mem_preferring {first second : List Lead} {lead : Lead}
    (among : lead ∈ Lead.preferring first second) : lead ∈ first ∨ lead ∈ second := by
  rw [Lead.preferring] at among
  split at among
  · exact (List.mem_append.mp among).imp_right fun later => (List.mem_filter.mp later).1
  · exact List.mem_append.mp among

/-- A loop adds no leads to those of its body and those of leaving it. -/
theorem Lead.mem_of_mem_loop {greedy : Bool} {body leave : List Lead} {lead : Lead}
    (among : lead ∈ Lead.loop greedy body leave) : lead ∈ body ∨ lead ∈ leave := by
  cases greedy with
  | false => exact (Lead.mem_of_mem_preferring among).symm
  | true => exact Lead.mem_of_mem_preferring among

/-- An advancing tree has no lead to stop. It needs a character before anything can be satisfied. -/
theorem Node.isStop_of_advances {node : Node} (advancing : node.advances = true) {lead : Lead}
    (among : lead ∈ node.leads text position slots) : lead.isStop = false := by
  induction node generalizing slots lead with
  | char set =>
    cases List.mem_singleton.mp among
    rfl
  | seq first second firstTakes secondTakes =>
    obtain ⟨earlier, listed, later⟩ := List.mem_flatMap.mp among
    cases earlier with
    | stop reached =>
      rcases Bool.or_eq_true_iff.mp advancing with here | there
      · cases firstTakes here listed
      · exact secondTakes there later
    | take set rest reached =>
      cases List.mem_singleton.mp later
      rfl
  | alt first second firstTakes secondTakes =>
    obtain ⟨one, other⟩ := Bool.and_eq_true_iff.mp advancing
    rcases Lead.mem_of_mem_preferring among with taken | taken
    · exact firstTakes one taken
    · exact secondTakes other taken
  | plus greedy body bodyTakes =>
    obtain ⟨earlier, listed, rfl⟩ := List.mem_map.mp among
    cases earlier with
    | stop reached => cases bodyTakes advancing listed
    | take set rest reached => rfl
  | atomic body => cases among
  | _ => cases advancing

/-- The stretch that an advancing tree prefers ends behind the position. As there is no lead to stop
there, the first end that is kept comes one character later at the earliest. -/
theorem Node.lt_of_preferred {node : Node} (advancing : node.advances = true) {stretch : Stretch}
    (found : node.preferred text position slots = some stretch) : position < stretch.stop := by
  have none : (node.leads text position slots).find? Lead.isStop = none :=
    List.find?_eq_none.mpr fun lead among => by
      rw [isStop_of_advances advancing among]
      exact Bool.false_ne_true
  rw [preferred] at found
  unfold sweep at found
  simp only [none] at found
  split at found
  · next ahead c _ present =>
    obtain ⟨bound, _⟩ := Array.getElem?_eq_some_iff.mp present
    split at found
    · cases found
    · exact (sweep_bounds text (position + 1) _ _ _ _ stretch (Nat.le_refl _) bound (by simp)
        found).1
  · cases found

/-- Every way of an advancing tree ends behind the position it begins at, so no token of such a
pattern is empty. -/
theorem Node.lt_of_advances {text : Array Char} {node : Node} (advancing : node.advances = true)
    {position : Nat} {slots : Slots} {way : Stretch} (inside : position ≤ text.size)
    (among : way ∈ node.ways text position slots) : position < way.stop := by
  induction node generalizing position slots way with
  | char set =>
    obtain ⟨c, _, _, rfl⟩ := mem_ways_char.mp among
    exact Nat.lt_succ_self position
  | seq first second firstAdvances secondAdvances =>
    obtain ⟨middle, taken, later⟩ := mem_ways_seq.mp among
    obtain ⟨behind, within⟩ := first.ways_bounds inside taken
    rcases Bool.or_eq_true_iff.mp advancing with here | there
    · exact Nat.lt_of_lt_of_le (firstAdvances here inside taken) (second.ways_bounds within later).1
    · exact Nat.lt_of_le_of_lt behind (secondAdvances there within later)
  | alt first second firstAdvances secondAdvances =>
    obtain ⟨one, other⟩ := Bool.and_eq_true_iff.mp advancing
    rcases mem_ways_alt.mp among with taken | taken
    · exact firstAdvances one inside taken
    · exact secondAdvances other inside taken
  | plus greedy body bodyAdvances =>
    obtain ⟨first, taken, later⟩ := mem_ways_plus.mp among
    obtain ⟨_, within⟩ := body.ways_bounds inside taken
    have further := iterations_bounds (fun _ _ _ inside taken => body.ways_bounds inside taken)
      within later
    exact Nat.lt_of_lt_of_le (bodyAdvances advancing inside taken) further.1
  | atomic body bodyAdvances =>
    have advancingBody : body.advances = true := advancing
    rw [ways] at among
    split at among
    · exact lt_of_preferred advancingBody (Option.mem_toList.mp among)
    · exact bodyAdvances advancingBody inside (List.mem_of_head? (Option.mem_toList.mp among))
  | _ => cases advancing

end Advances

end TextDecoration.Pattern
