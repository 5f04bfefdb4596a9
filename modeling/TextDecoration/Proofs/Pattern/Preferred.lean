import Mathlib.Data.List.TakeWhile
import TextDecoration.Proofs.Pattern.Ends

/-!
# Following leads finds the preferred way

A regular tree is matched by following all its leads side by side, without ever turning back. The
end that is found in this way is the end of the first of the tree's ways, the one that trying them
in order would settle for. So both kinds of search agree on what a tree prefers, and laws about
preferred ways need not be proved twice.

The law is about steady trees. In other ones an empty iteration ends a loop where leads are followed
and is given up where ways are listed, so the two may prefer different ends.

The leads of a position stand for the ways from it in the same order, but a way on that two leads
share is listed once. So the lists of ends on both sides are not equal, they are `Alike`: whatever
is to follow, the first end behind which it can is the same.
-/

namespace TextDecoration.Pattern

/-- Two lists of ends between which nothing that may follow can tell: where each end is replaced by
what comes behind it, the first one is the same. -/
def Alike (one other : List Nat) : Prop :=
  ∀ follow : Nat → List Nat, (one.flatMap follow).head? = (other.flatMap follow).head?

namespace Alike

variable {one other third : List Nat}

/-- Equal lists are alike. This begins most chains of such steps. -/
theorem of_eq (same : one = other) : Alike one other := fun _ => same ▸ rfl

/-- Lists that are alike to a third one are alike, so that steps can be put together. -/
theorem trans (first : Alike one other) (second : Alike other third) : Alike one third :=
  fun follow => (first follow).trans (second follow)

/-- Lists that are alike begin with the same end: nothing may follow but the end itself. -/
theorem head?_eq (alike : Alike one other) : one.head? = other.head? := by
  simpa only [List.flatMap_singleton'] using alike fun stop => [stop]

/-- Lists that are alike, with lists behind them that are alike, are alike. -/
theorem append {later later' : List Nat} (first : Alike one other) (second : Alike later later') :
    Alike (one ++ later) (other ++ later') := by
  intro follow
  rw [List.flatMap_append, List.flatMap_append, List.head?_append, List.head?_append, first follow,
    second follow]

/-- Going on from lists that are alike gives lists that are alike, since what comes behind a longer
way is one thing that may follow. -/
theorem flatMap (alike : Alike one other) (on : Nat → List Nat) :
    Alike (one.flatMap on) (other.flatMap on) := by
  intro follow
  rw [List.flatMap_assoc, List.flatMap_assoc]
  exact alike fun stop => (on stop).flatMap follow

/-- Going on from the same places by lists that are alike gives lists that are alike, place by
place. -/
theorem flatMap_congr {α : Type} {places : List α} {on on' : α → List Nat}
    (each : ∀ place ∈ places, Alike (on place) (on' place)) :
    Alike (places.flatMap on) (places.flatMap on') := by
  induction places with
  | nil => exact of_eq rfl
  | cons place places inductionHypothesis =>
    rw [List.flatMap_cons, List.flatMap_cons]
    exact (each place List.mem_cons_self).append
      (inductionHypothesis fun other among => each other (List.mem_cons_of_mem _ among))

/-- Leaving a loop at the same position, behind lists that are alike, gives lists that are alike. -/
theorem leaving (alike : Alike one other) (greedy : Bool) (position : Nat) :
    Alike (Pattern.leaving greedy position one) (Pattern.leaving greedy position other) := by
  cases greedy with
  | false => exact (of_eq (rfl : [position] = [position])).append alike
  | true => exact alike.append (of_eq rfl)

end Alike

/-- What a lead comes to: its position if it is to stop, or the ends of its rest behind the
character at hand, if it takes that. -/
def Lead.ends (text : Array Char) (position : Nat) : Lead → List Nat
  | .stop _ => [position]
  | .take set rest _ =>
    match text[position]? with
    | some c => if set.contains c then rest.ends text (position + 1) else []
    | none => []

/-- Whether the rest of a lead is steady. A lead to stop has no rest. -/
def Lead.steady : Lead → Bool
  | .stop _ => true
  | .take _ rest _ => rest.steady

section Leads

variable {text : Array Char} {position : Nat} {slots : Slots}

/-- A part of a list that comes to nothing may be dropped, wherever it stands. -/
theorem flatMap_filter_of_nil {α : Type} {on : α → List Nat} {keep : α → Bool} {places : List α}
    (nothing : ∀ place ∈ places, keep place = false → on place = []) :
    (places.filter keep).flatMap on = places.flatMap on := by
  induction places with
  | nil => rfl
  | cons place places inductionHypothesis =>
    have later := inductionHypothesis fun other among =>
      nothing other (List.mem_cons_of_mem _ among)
    rw [List.filter_cons]
    split
    · rw [List.flatMap_cons, List.flatMap_cons, later]
    · next dropped =>
      rw [List.flatMap_cons, nothing place List.mem_cons_self (Bool.eq_false_iff.mpr dropped),
        later, List.nil_append]

/-- Leads that come to the same as some lead before them may be dropped. What is to follow either
can behind the lead before, or cannot behind any of the two. -/
theorem alike_filter {first later : List Lead} {keep : Lead → Bool}
    (covered : ∀ lead ∈ later, keep lead = false →
      ∃ earlier ∈ first, earlier.ends text position = lead.ends text position) :
    Alike ((first ++ later.filter keep).flatMap (Lead.ends text position))
      ((first ++ later).flatMap (Lead.ends text position)) := by
  intro follow
  rw [List.flatMap_append, List.flatMap_append, List.flatMap_append, List.flatMap_append,
    List.head?_append, List.head?_append]
  cases begun : ((first.flatMap (Lead.ends text position)).flatMap follow).head? with
  | some stop => rfl
  | none =>
    have none := List.head?_eq_none_iff.mp begun
    rw [List.flatMap_assoc, List.flatMap_eq_nil_iff] at none
    rw [List.flatMap_assoc, List.flatMap_assoc, flatMap_filter_of_nil]
    intro lead among dropped
    obtain ⟨earlier, member, same⟩ := covered lead among dropped
    rw [← same]
    exact none earlier member

/-- Of two leads to stop the second one may be dropped, since it comes to the same position. -/
theorem Lead.preferring_alike (first second : List Lead) :
    Alike ((Lead.preferring first second).flatMap (Lead.ends text position))
      (first.flatMap (Lead.ends text position) ++ second.flatMap (Lead.ends text position)) := by
  rw [Lead.preferring, ← List.flatMap_append]
  split
  · next stops =>
    refine alike_filter fun lead _ dropped => ?_
    obtain ⟨earlier, member, isStop⟩ := List.any_eq_true.mp stops
    refine ⟨earlier, member, ?_⟩
    cases earlier with
    | take set rest slots => cases isStop
    | stop slots =>
      cases lead with
      | take set rest slots => cases dropped
      | stop slots => rfl
  · exact Alike.of_eq rfl

/-- The leads of a loop that may be left stand for the ends of its iterations and the position. -/
theorem Lead.loop_alike (greedy : Bool) (body : List Lead) :
    Alike ((Lead.loop greedy body [.stop slots]).flatMap (Lead.ends text position))
      (leaving greedy position (body.flatMap (Lead.ends text position))) := by
  cases greedy with
  | false => exact Lead.preferring_alike [.stop slots] body
  | true => exact Lead.preferring_alike body [.stop slots]

/-- Each way on needs to be followed under its best lead only. A twin comes to the same ends, and
later. -/
theorem Lead.distinct_alike (leads : List Lead) :
    Alike ((Lead.distinct leads).flatMap (Lead.ends text position))
      (leads.flatMap (Lead.ends text position)) := by
  induction leads with
  | nil => exact Alike.of_eq rfl
  | cons lead leads inductionHypothesis =>
    have once : Alike
        (([lead] ++ (Lead.distinct leads).filter fun other => !lead.sameWay other).flatMap
          (Lead.ends text position))
        (([lead] ++ Lead.distinct leads).flatMap (Lead.ends text position)) := by
      refine alike_filter fun other _ dropped => ⟨lead, List.mem_singleton_self lead, ?_⟩
      have same : lead.sameWay other = true := by simpa using dropped
      cases lead with
      | stop slots =>
        cases other with
        | stop slots => rfl
        | take set rest slots => cases same
      | take set rest slots =>
        cases other with
        | stop slots => cases same
        | take set' rest' slots' =>
          obtain ⟨rfl, rfl⟩ := of_decide_eq_true same
          rfl
    rw [Lead.distinct, List.flatMap_cons]
    refine once.trans ?_
    rw [List.flatMap_append, List.flatMap_singleton]
    exact (Alike.of_eq rfl).append inductionHypothesis

/-- No lead is listed that was not there. Dropping twins adds nothing. -/
theorem Lead.mem_of_mem_distinct {leads : List Lead} {lead : Lead}
    (member : lead ∈ Lead.distinct leads) : lead ∈ leads := by
  induction leads with
  | nil => exact member
  | cons first leads inductionHypothesis =>
    rcases List.mem_cons.mp member with rfl | later
    · exact List.mem_cons_self
    · exact List.mem_cons_of_mem _ (inductionHypothesis (List.mem_filter.mp later).1)

/-- A further obligation goes on from the ends of a tree, also where the tree was empty and has been
left out. -/
theorem Node.ends_andThen {first second : Node} (steady : second.steady = true) :
    (first.andThen second).ends text position =
      (first.ends text position).flatMap (second.ends text) := by
  cases first with
  | empty => exact (List.flatMap_singleton (second.ends text) position).symm
  | _ => exact Node.ends_seq steady

/-- A further obligation behind a lead that takes a character goes on from what the lead comes
to. -/
theorem Lead.ends_before {lead : Lead} {next : Node} (steady : next.steady = true)
    (going : lead.isStop = false) : (lead.before next).ends text position =
      (lead.ends text position).flatMap (next.ends text) := by
  cases lead with
  | stop slots => cases going
  | take set rest slots =>
    rw [Lead.before, Lead.ends, Lead.ends]
    split
    · split
      · exact Node.ends_andThen steady
      · rfl
    · rfl

/-- Further leads behind leads that all take a character go on from what these come to. -/
theorem Lead.flatMap_ends_before {next : Node} (steady : next.steady = true) {leads : List Lead}
    (going : ∀ lead ∈ leads, lead.isStop = false) :
    (leads.map (Lead.before next)).flatMap (Lead.ends text position) =
      (leads.flatMap (Lead.ends text position)).flatMap (next.ends text) := by
  rw [List.flatMap_map, List.flatMap_assoc]
  exact List.flatMap_congr fun lead among => Lead.ends_before steady (going lead among)

/-- A sequence without needless parts is steady if both trees are. Leaving out an empty part does no
harm. -/
theorem Node.steady_andThen {first second : Node} (one : first.steady = true)
    (other : second.steady = true) : (first.andThen second).steady = true := by
  cases first with
  | empty => exact other
  | _ => exact Bool.and_eq_true_iff.mpr ⟨one, other⟩

/-- A lead that is steady still is so with a steady obligation behind it. -/
theorem Lead.steady_before {lead : Lead} {next : Node} (one : lead.steady = true)
    (other : next.steady = true) : (lead.before next).steady = true := by
  cases lead with
  | stop slots => rfl
  | take set rest slots => exact Node.steady_andThen one other

/-- The leads of a steady tree are steady. Each carries what is left of the tree, which is made of
its parts. -/
theorem Node.steady_of_mem_leads {node : Node} (steady : node.steady = true) {lead : Lead}
    (among : lead ∈ node.leads text position slots) : lead.steady = true := by
  induction node generalizing slots lead with
  | empty | char set | mark slot =>
    cases List.mem_singleton.mp among
    rfl
  | anchor condition =>
    rw [leads] at among
    split at among
    · cases List.mem_singleton.mp among
      rfl
    · cases among
  | seq first second firstSteady secondSteady =>
    obtain ⟨one, other⟩ := Bool.and_eq_true_iff.mp steady
    obtain ⟨earlier, listed, later⟩ := List.mem_flatMap.mp among
    cases earlier with
    | stop reached => exact secondSteady other later
    | take set rest reached =>
      cases List.mem_singleton.mp later
      exact steady_andThen (firstSteady one listed) other
  | alt first second firstSteady secondSteady =>
    obtain ⟨one, other⟩ := Bool.and_eq_true_iff.mp steady
    rcases Lead.mem_of_mem_preferring among with taken | taken
    · exact firstSteady one taken
    · exact secondSteady other taken
  | optional greedy body bodySteady =>
    rcases Lead.mem_of_mem_loop among with taken | left
    · exact bodySteady steady taken
    · cases List.mem_singleton.mp left
      rfl
  | star greedy body bodySteady =>
    rcases Lead.mem_of_mem_loop among with taken | left
    · obtain ⟨earlier, listed, rfl⟩ := List.mem_map.mp taken
      exact Lead.steady_before (bodySteady (Bool.and_eq_true_iff.mp steady).2 listed) steady
    · cases List.mem_singleton.mp left
      rfl
  | more greedy body bodySteady =>
    rcases Lead.mem_of_mem_loop among with taken | left
    · obtain ⟨earlier, kept, rfl⟩ := List.mem_map.mp taken
      have listed := (List.mem_filter.mp kept).1
      exact Lead.steady_before (bodySteady (Bool.and_eq_true_iff.mp steady).2 listed) steady
    · cases List.mem_singleton.mp left
      rfl
  | plus greedy body bodySteady =>
    obtain ⟨earlier, listed, rfl⟩ := List.mem_map.mp among
    exact Lead.steady_before (bodySteady (Bool.and_eq_true_iff.mp steady).2 listed) steady
  | backref ignoreCase group => cases steady
  | look behind negated body => cases steady
  | atomic body => cases steady

/-- The leads of a steady tree come to the ends of its ways. The induction is on the tree, and loops
are the case where twins are dropped. -/
theorem Node.leads_alike {node : Node} (steady : node.steady = true)
    (inside : position ≤ text.size) :
    Alike ((node.leads text position slots).flatMap (Lead.ends text position))
      (node.ends text position) := by
  induction node generalizing slots with
  | empty | mark slot => exact Alike.of_eq rfl
  | char set =>
    refine Alike.of_eq ?_
    rw [leads, List.flatMap_singleton, Lead.ends, ends, ends, ways, ways]
    cases text[position]? with
    | none => rfl
    | some c =>
      dsimp only
      split <;> rfl
  | anchor condition =>
    refine Alike.of_eq ?_
    rw [leads, ends, ways]
    split <;> rfl
  | seq first second firstAlike secondAlike =>
    obtain ⟨one, other⟩ := Bool.and_eq_true_iff.mp steady
    have each : ∀ lead ∈ first.leads text position slots,
        Alike (((match lead with
          | .stop reached => second.leads text position reached
          | .take set rest reached => [Lead.take set (rest.andThen second) reached]) :
            List Lead).flatMap (Lead.ends text position))
          ((lead.ends text position).flatMap (second.ends text)) := by
      intro lead _
      cases lead with
      | stop reached =>
        refine (secondAlike other).trans (Alike.of_eq ?_)
        exact (List.flatMap_singleton (second.ends text) position).symm
      | take set rest reached =>
        have going : (Lead.take set rest reached).isStop = false := rfl
        refine Alike.of_eq ?_
        rw [List.flatMap_singleton]
        exact Lead.ends_before other going
    rw [leads, List.flatMap_assoc, ends_seq other]
    refine (Alike.flatMap_congr each).trans ?_
    rw [← List.flatMap_assoc]
    exact (firstAlike one).flatMap (second.ends text)
  | alt first second firstAlike secondAlike =>
    obtain ⟨one, other⟩ := Bool.and_eq_true_iff.mp steady
    rw [leads, ends_alt]
    exact (Lead.preferring_alike _ _).trans ((firstAlike one).append (secondAlike other))
  | optional greedy body bodyAlike =>
    rw [leads, ends_optional]
    exact (Lead.loop_alike greedy _).trans ((bodyAlike steady).leaving greedy position)
  | star greedy body bodyAlike =>
    obtain ⟨advancing, bodySteady⟩ := Bool.and_eq_true_iff.mp steady
    have again : (Node.more greedy body).steady = true := steady
    refine (Lead.loop_alike greedy _).trans ?_
    rw [Lead.flatMap_ends_before again fun lead => isStop_of_advances advancing]
    refine (((bodyAlike bodySteady).flatMap _).leaving greedy position).trans ?_
    exact Alike.of_eq (ends_more again inside).symm
  | more greedy body bodyAlike =>
    obtain ⟨advancing, bodySteady⟩ := Bool.and_eq_true_iff.mp steady
    have going : ∀ lead ∈ body.leads text position slots, lead.isStop = false :=
      fun lead => isStop_of_advances advancing
    have all : (body.leads text position slots).filter (fun lead => !lead.isStop) =
        body.leads text position slots :=
      List.filter_eq_self.mpr fun lead among => by rw [going lead among]; rfl
    rw [leads, all]
    refine (Lead.loop_alike greedy _).trans ?_
    rw [Lead.flatMap_ends_before steady going]
    refine (((bodyAlike bodySteady).flatMap _).leaving greedy position).trans ?_
    exact Alike.of_eq (ends_more steady inside).symm
  | plus greedy body bodyAlike =>
    obtain ⟨advancing, bodySteady⟩ := Bool.and_eq_true_iff.mp steady
    have again : (Node.more greedy body).steady = true := steady
    rw [leads, Lead.flatMap_ends_before again fun lead => isStop_of_advances advancing,
      ends_plus steady]
    exact (bodyAlike bodySteady).flatMap _
  | backref ignoreCase group => cases steady
  | look behind negated body => cases steady
  | atomic body => cases steady

/-- What some leads come to first is what those before the first lead to stop do, or the position
if there is such a lead. -/
theorem Lead.head?_ends (leads : List Lead) :
    (leads.flatMap (Lead.ends text position)).head? =
      (((leads.takeWhile fun lead => !lead.isStop).flatMap (Lead.ends text position)).head?).or
        ((leads.find? Lead.isStop).map fun _ => position) := by
  induction leads with
  | nil => rfl
  | cons lead leads inductionHypothesis =>
    cases lead with
    | stop slots => rfl
    | take set rest slots =>
      rw [List.takeWhile_cons_of_pos rfl, List.find?_cons_of_neg Bool.false_ne_true,
        List.flatMap_cons, List.flatMap_cons, List.head?_append, List.head?_append,
        inductionHypothesis, Option.or_assoc]

/-- The end that is kept at a position is that position if one of the leads is to stop. -/
theorem map_stop_best (leads : List Lead) (best : Option Stretch) :
    (match leads.find? Lead.isStop with
      | some (.stop slots) => some (Stretch.mk position slots)
      | _ => best).map Stretch.stop =
      ((leads.find? Lead.isStop).map fun _ => position).or (best.map Stretch.stop) := by
  cases found : leads.find? Lead.isStop with
  | none => rfl
  | some lead =>
    cases lead with
    | stop slots => rfl
    | take set rest slots => cases List.find?_some found

/-- What some leads come to first, or else the best end so far, is what those before the first lead
to stop do, or else the end that is kept at the position. -/
theorem Lead.head?_ends_or (leads : List Lead) (best : Option Stretch) :
    ((leads.flatMap (Lead.ends text position)).head?).or (best.map Stretch.stop) =
      (((leads.takeWhile fun lead => !lead.isStop).flatMap (Lead.ends text position)).head?).or
        ((match leads.find? Lead.isStop with
          | some (.stop slots) => some (Stretch.mk position slots)
          | _ => best).map Stretch.stop) := by
  rw [map_stop_best, ← Option.or_assoc, ← Lead.head?_ends]

/-- The leads that go on behind a character: what is left of those before the first lead to stop
that take it. -/
def Lead.next (text : Array Char) (position : Nat) (c : Char) (leads : List Lead) : List Lead :=
  (leads.takeWhile fun lead => !lead.isStop).flatMap fun
    | .take set rest slots =>
      if set.contains c then rest.leads text (position + 1) slots else []
    | .stop _ => []

/-- The leads behind a character come to what the leads before it do. -/
theorem Lead.next_alike {c : Char} (present : text[position]? = some c) {leads : List Lead}
    (steady : ∀ lead ∈ leads, lead.steady = true) :
    Alike ((Lead.next text position c leads).flatMap (Lead.ends text (position + 1)))
      ((leads.takeWhile fun lead => !lead.isStop).flatMap (Lead.ends text position)) := by
  obtain ⟨inside, _⟩ := Array.getElem?_eq_some_iff.mp present
  rw [Lead.next, List.flatMap_assoc]
  refine Alike.flatMap_congr fun lead among => ?_
  cases lead with
  | stop slots => cases List.mem_takeWhile_imp among
  | take set rest slots =>
    have restSteady : rest.steady = true := steady _ ((List.takeWhile_sublist _).mem among)
    simp only [Lead.ends, present]
    split
    · exact Node.leads_alike restSteady inside
    · exact Alike.of_eq rfl

/-- A lead that goes on behind a character is one of the rest of a lead that takes it. -/
theorem Lead.exists_of_mem_next {c : Char} {leads : List Lead} {lead : Lead}
    (among : lead ∈ Lead.next text position c leads) :
    ∃ set rest slots, .take set rest slots ∈ leads ∧
      lead ∈ rest.leads text (position + 1) slots := by
  obtain ⟨earlier, live, later⟩ := List.mem_flatMap.mp among
  have listed : earlier ∈ leads := (List.takeWhile_sublist _).mem live
  cases earlier with
  | stop slots => cases later
  | take set rest slots =>
    dsimp only at later
    split at later
    · exact ⟨set, rest, slots, listed, later⟩
    · cases later

/-- The leads behind a character are steady if those before it are, as they belong to what those
leave to do. -/
theorem Lead.steady_next {c : Char} {leads : List Lead}
    (steady : ∀ lead ∈ leads, lead.steady = true) {lead : Lead}
    (among : lead ∈ Lead.next text position c leads) : lead.steady = true := by
  obtain ⟨set, rest, slots, listed, later⟩ := Lead.exists_of_mem_next among
  have restSteady : rest.steady = true := steady _ listed
  exact Node.steady_of_mem_leads restSteady later

/-- Following steady leads side by side finds what they come to first, or else the best end so
far. -/
theorem map_stop_sweep (ahead position : Nat) (leads : List Lead) (best : Option Stretch)
    (enough : text.size - position ≤ ahead) (steady : ∀ lead ∈ leads, lead.steady = true) :
    (sweep text ahead position leads best).map Stretch.stop =
      ((leads.flatMap (Lead.ends text position)).head?).or (best.map Stretch.stop) := by
  fun_induction sweep text ahead position leads best with
  | case1 position leads best live kept ahead c present next exhausted =>
    have none : Lead.next text position c leads = [] := List.isEmpty_iff.mp exhausted
    have nothing := (Lead.next_alike present steady).head?_eq
    rw [none] at nothing
    rw [Lead.head?_ends_or, ← nothing]
    exact Option.none_or.symm
  | case2 position leads best live kept ahead c present next further inductionHypothesis =>
    have steadyNext : ∀ lead ∈ Lead.distinct next, lead.steady = true :=
      fun lead among => Lead.steady_next steady (Lead.mem_of_mem_distinct among)
    have same : ((Lead.distinct next).flatMap (Lead.ends text (position + 1))).head? =
        (live.flatMap (Lead.ends text position)).head? :=
      ((Lead.distinct_alike next).trans (Lead.next_alike present steady)).head?_eq
    rw [inductionHypothesis (by omega) steadyNext, same]
    exact (Lead.head?_ends_or leads best).symm
  | case3 ahead position leads best kept atEnd =>
    have absent : text[position]? = none := by
      cases present : text[position]? with
      | none => rfl
      | some c =>
        obtain ⟨inside, _⟩ := Array.getElem?_eq_some_iff.mp present
        exact (atEnd (ahead - 1) c (by omega) present).elim
    have nothing : (leads.takeWhile fun lead => !lead.isStop).flatMap (Lead.ends text position) =
        [] := by
      refine List.flatMap_eq_nil_iff.mpr fun lead live => ?_
      cases lead with
      | stop slots => cases List.mem_takeWhile_imp live
      | take set rest slots => rw [Lead.ends, absent]
    rw [Lead.head?_ends_or, nothing]
    exact Option.none_or.symm

/-- The end that a search along leads settles for is that of the tree's first way. -/
theorem Node.map_stop_preferred {node : Node} (steady : node.steady = true)
    (inside : position ≤ text.size) :
    (node.preferred text position slots).map Stretch.stop = (node.ends text position).head? := by
  rw [preferred, map_stop_sweep _ _ _ _ (Nat.le_refl _) fun lead => steady_of_mem_leads steady,
    (leads_alike steady inside).head?_eq]
  exact Option.or_none

/-- A tree that is tried at one position after the other fits at the first from which there is a
way, and takes the preferred one. -/
theorem firstFit_first {node : Node} (steady : node.steady = true) {count : Nat} {fit : Fit}
    (tried : position + count ≤ text.size + 1)
    (found : firstFit text node slots count position = some fit) :
    position ≤ fit.start ∧
      (∀ earlier, position ≤ earlier → earlier < fit.start → node.ends text earlier = []) ∧
      (node.ends text fit.start).head? = some fit.stop := by
  induction count generalizing position with
  | zero => cases found
  | succ count inductionHypothesis =>
    have here : (node.preferred text position slots).map Stretch.stop =
        (node.ends text position).head? := Node.map_stop_preferred steady (by omega)
    rw [firstFit] at found
    split at found
    · next stretch preferred =>
      cases found
      rw [preferred] at here
      exact ⟨Nat.le_refl position, fun _ behind before => absurd before (Nat.not_lt.mpr behind),
        here.symm⟩
    · next missed =>
      obtain ⟨ahead, nothing, taken⟩ := inductionHypothesis (by omega) found
      refine ⟨Nat.le_of_succ_le ahead, fun earlier behind before => ?_, taken⟩
      rcases Nat.eq_or_lt_of_le behind with rfl | further
      · rw [missed] at here
        exact List.head?_eq_none_iff.mp here.symm
      · exact nothing earlier further before

/-- Where a tree fits at none of the positions tried, there is no way from any of them. -/
theorem firstFit_none {node : Node} (steady : node.steady = true) {count : Nat}
    (tried : position + count ≤ text.size + 1)
    (missed : firstFit text node slots count position = none) {reached : Nat}
    (behind : position ≤ reached) (before : reached < position + count) :
    node.ends text reached = [] := by
  induction count generalizing position with
  | zero => omega
  | succ count inductionHypothesis =>
    have here : (node.preferred text position slots).map Stretch.stop =
        (node.ends text position).head? := Node.map_stop_preferred steady (by omega)
    rw [firstFit] at missed
    split at missed
    · cases missed
    · next none =>
      rcases Nat.eq_or_lt_of_le behind with rfl | further
      · rw [none] at here
        exact List.head?_eq_none_iff.mp here.symm
      · exact inductionHypothesis (by omega) missed further (by omega)

end Leads

section Search

variable {pattern : Pattern} {text : Array Char} {position : Nat}

/-- A search for a steady pattern without retries settles for the first position from which there is
a way, and for the end of the preferred one. -/
theorem locate_first (direct : pattern.meaning.retries = false)
    (steady : pattern.meaning.node.steady = true) (inside : position ≤ text.size) {fit : Fit}
    (located : pattern.locate text position = some fit) :
    position ≤ fit.start ∧
      (∀ earlier, position ≤ earlier → earlier < fit.start →
        pattern.meaning.node.ends text earlier = []) ∧
      (pattern.meaning.node.ends text fit.start).head? = some fit.stop := by
  rw [locate, direct, if_neg Bool.false_ne_true] at located
  exact firstFit_first steady (by omega) located

/-- Where a search for a steady pattern without retries finds nothing, there is no way from any
position behind. -/
theorem locate_none (direct : pattern.meaning.retries = false)
    (steady : pattern.meaning.node.steady = true)
    (missed : pattern.locate text position = none) {reached : Nat} (behind : position ≤ reached)
    (inside : reached ≤ text.size) : pattern.meaning.node.ends text reached = [] := by
  rw [locate, direct, if_neg Bool.false_ne_true] at missed
  exact firstFit_none steady (by omega) missed behind (by omega)

/-- With retries or without, a search settles for the end of the preferred way from where the fit
begins. -/
theorem locate_preferred
    (admitted : pattern.meaning.retries = true ∨ pattern.meaning.node.steady = true)
    (inside : position ≤ text.size) {fit : Fit}
    (located : pattern.locate text position = some fit) :
    ∃ slots way, (pattern.meaning.node.ways text fit.start slots).head? = some way ∧
      way.stop = fit.stop := by
  cases kind : pattern.meaning.retries with
  | true =>
    obtain ⟨stored, preferred, _⟩ := locate_way kind located
    exact ⟨_, _, preferred, rfl⟩
  | false =>
    have steady : pattern.meaning.node.steady = true := by simpa [kind] using admitted
    obtain ⟨_, _, taken⟩ := locate_first kind steady inside located
    rw [Node.ends, List.head?_map] at taken
    obtain ⟨way, preferred, same⟩ := Option.map_eq_some_iff.mp taken
    exact ⟨[], way, preferred, same⟩

end Search

end TextDecoration.Pattern
