import TextDecoration.Proofs.Pattern.Preferred

/-!
# How fits end

Two checks of a tree tell something about the last character it takes. `Node.neverLast` says that it
is never a given one, whichever way the tree takes. `Node.endsClear` says that the preferred way
does not stop between the given character and one of some marks: either the last character is
another one, or a greedy loop over single characters, which would take the marks as well, came to
its end there.

Both are sufficient and not necessary. A back-reference is never passed, nor is a part that is
matched on its own, unless it is a steady one at the end. A tree that fails a check may still end as
it should; for one that ends by looking ahead, what it looks for tells what stands behind it.
-/

namespace TextDecoration.Pattern

/-- Whether no way of a tree that takes some text takes `c` last. It is told by the tree, from what
can come last in it. -/
def Node.neverLast (c : Char) : Node → Bool
  | .empty | .anchor _ | .mark _ | .look _ _ _ => true
  | .char set => !set.contains c
  | .seq first second => second.neverLast c && (second.advances || first.neverLast c)
  | .alt first second => first.neverLast c && second.neverLast c
  | .optional _ body | .star _ body | .plus _ body | .more _ body => body.neverLast c
  | .backref _ _ | .atomic _ => false

/-- Whether the preferred way of a tree never stops right behind `c` and before one of the marks. A
loop over single characters goes on as long as it can, an option behind a tree leaves that tree its
preferred way, and a part that is matched on its own takes its preferred way. -/
def Node.endsClear (c : Char) (marks : List Char) : Node → Bool
  | .plus true (.char set) => !set.contains c || marks.all set.contains
  | .alt first second => first.endsClear c marks && second.endsClear c marks
  | .atomic body => body.steady && body.endsClear c marks
  | .seq first (.optional _ body) => first.endsClear c marks && body.neverLast c
  | .seq first second =>
    if second.advances then second.endsClear c marks else (Node.seq first second).neverLast c
  | node => node.neverLast c

/-- From the first place to the second, some text may be taken, and if so `c` is not its last
character. -/
def Sparing (text : Array Char) (c : Char) (first second : Stretch) : Prop :=
  first.stop ≤ text.size → first.stop ≤ second.stop ∧ second.stop ≤ text.size ∧
    (first.stop < second.stop → text[second.stop - 1]? ≠ some c)

/-- What stops at `stop` having begun at `start` does not stop right behind `c` and before one of
the marks, unless it takes nothing. -/
def ClearEnd (text : Array Char) (c : Char) (marks : List Char) (start stop : Nat) : Prop :=
  start < stop → text[stop - 1]? = some c → ∀ mark ∈ marks, text[stop]? ≠ some mark

section Ways

variable {text : Array Char} {c : Char} {marks : List Char} {position : Nat} {slots : Slots}
  {way : Stretch}

/-- Sparing a character goes on from one part of the text to the next. If the second part is empty,
the first one has the last character. -/
theorem Sparing.trans {first second third : Stretch} (one : Sparing text c first second)
    (other : Sparing text c second third) : Sparing text c first third := by
  intro inside
  obtain ⟨ahead, within, spared⟩ := one inside
  obtain ⟨further, reached, sparedLater⟩ := other within
  refine ⟨Nat.le_trans ahead further, reached, fun taken => ?_⟩
  rcases Nat.eq_or_lt_of_le further with same | more
  · rw [← same] at taken ⊢
    exact spared taken
  · exact sparedLater more

/-- Where nothing is taken, nothing has to be spared, whatever stands before. -/
theorem Sparing.of_stop_eq {first second : Stretch} (same : second.stop = first.stop) :
    Sparing text c first second := by
  intro inside
  rw [same]
  exact ⟨Nat.le_refl _, inside, fun taken => absurd taken (Nat.lt_irrefl _)⟩

/-- A tree that passes the first check spares the character on all its ways, not on the preferred
one alone. -/
theorem Node.sparing {node : Node} (never : node.neverLast c = true)
    (among : way ∈ node.ways text position slots) : Sparing text c ⟨position, slots⟩ way := by
  induction node generalizing position slots way with
  | empty =>
    cases List.mem_singleton.mp among
    exact Sparing.of_stop_eq rfl
  | char set =>
    obtain ⟨d, present, admitted, rfl⟩ := mem_ways_char.mp among
    refine fun _ => ⟨Nat.le_succ position, (Array.getElem?_eq_some_iff.mp present).1, fun _ => ?_⟩
    rw [Nat.add_sub_cancel, present]
    rintro ⟨rfl⟩
    rw [neverLast, admitted] at never
    cases never
  | anchor condition =>
    obtain ⟨_, rfl⟩ := mem_ways_anchor.mp among
    exact Sparing.of_stop_eq rfl
  | mark slot =>
    cases mem_ways_mark.mp among
    exact Sparing.of_stop_eq rfl
  | seq first second firstSpares secondSpares =>
    obtain ⟨neverSecond, either⟩ := Bool.and_eq_true_iff.mp never
    obtain ⟨middle, taken, later⟩ := mem_ways_seq.mp among
    have spared := secondSpares neverSecond later
    rcases Bool.or_eq_true_iff.mp either with advancing | neverFirst
    · intro inside
      obtain ⟨ahead, within⟩ := first.ways_bounds inside taken
      obtain ⟨_, reached, last⟩ := spared within
      have further : middle.stop < way.stop := lt_of_advances advancing within later
      exact ⟨Nat.le_trans ahead (Nat.le_of_lt further), reached, fun _ => last further⟩
    · exact (firstSpares neverFirst taken).trans spared
  | alt first second firstSpares secondSpares =>
    obtain ⟨neverFirst, neverSecond⟩ := Bool.and_eq_true_iff.mp never
    rcases mem_ways_alt.mp among with taken | taken
    · exact firstSpares neverFirst taken
    · exact secondSpares neverSecond taken
  | optional greedy body bodySpares =>
    rcases mem_ways_optional.mp among with taken | rfl
    · exact bodySpares never taken
    · exact Sparing.of_stop_eq rfl
  | star greedy body bodySpares | more greedy body bodySpares =>
    exact iterations_related (Sparing text c) (fun _ => Sparing.of_stop_eq rfl)
      (fun _ _ _ => Sparing.trans) (fun _ _ _ taken => bodySpares never taken) among
  | plus greedy body bodySpares =>
    obtain ⟨first, taken, later⟩ := mem_ways_plus.mp among
    have further : Sparing text c ⟨first.stop, first.slots⟩ way :=
      iterations_related (Sparing text c) (fun _ => Sparing.of_stop_eq rfl)
        (fun _ _ _ => Sparing.trans) (fun _ _ _ taken => bodySpares never taken) later
    exact (bodySpares never taken).trans further
  | backref ignoreCase group => cases never
  | look behind negated body bodySpares =>
    cases behind with
    | false | true =>
      rcases mem_lookedFrom.mp among with ⟨_, _, _, rfl⟩ | ⟨_, _, rfl⟩
      · exact Sparing.of_stop_eq rfl
      · exact Sparing.of_stop_eq rfl
  | atomic body => cases never

/-- Further iterations always have a way, if only that of leaving at once. A loop does not fail by
itself. -/
theorem iterations_ne_nil {greedy : Bool} {body : Nat → Slots → List Stretch} {ahead : Nat} :
    iterations greedy body ahead position slots ≠ [] := by
  cases ahead with
  | zero => exact List.cons_ne_nil _ _
  | succ ahead => exact List.ne_nil_of_mem (mem_inOrder.mpr (Or.inr (List.mem_singleton_self _)))

/-- The preferred way of a sequence is the preferred one of its second tree behind some way of the
first, and not always the first one's preferred way. -/
theorem Node.head?_ways_seq {first second : Node}
    (preferred : ((Node.seq first second).ways text position slots).head? = some way) :
    ∃ middle ∈ first.ways text position slots,
      (second.ways text middle.stop middle.slots).head? = some way := by
  rw [ways, List.head?_flatMap] at preferred
  exact List.exists_of_findSome?_eq_some preferred

/-- An option behind a tree leaves that tree its preferred way, as the option can always be left
out. -/
theorem Node.head?_ways_seq_optional {first body : Node} {greedy : Bool}
    (preferred : ((Node.seq first (.optional greedy body)).ways text position slots).head? =
      some way) :
    ∃ middle, (first.ways text position slots).head? = some middle ∧
      way ∈ (Node.optional greedy body).ways text middle.stop middle.slots := by
  rw [ways] at preferred
  cases taken : first.ways text position slots with
  | nil =>
    rw [taken] at preferred
    cases preferred
  | cons middle others =>
    have some : (Node.optional greedy body).ways text middle.stop middle.slots ≠ [] :=
      List.ne_nil_of_mem (mem_ways_optional.mpr (Or.inr rfl))
    rw [taken, List.flatMap_cons, List.head?_append_of_ne_nil _ some] at preferred
    exact ⟨middle, rfl, List.mem_of_head? preferred⟩

/-- A greedy loop over single characters prefers to go on as long as it can. -/
theorem head?_iterations_char {set : CharSet} {ahead : Nat} (enough : text.size - position ≤ ahead)
    (preferred : (iterations true ((Node.char set).ways text) ahead position slots).head? =
      some way) {d : Char} (present : text[way.stop]? = some d) : set.contains d = false := by
  induction ahead generalizing position slots with
  | zero =>
    cases preferred
    have bound : position < text.size := (Array.getElem?_eq_some_iff.mp present).1
    omega
  | succ ahead inductionHypothesis =>
    rw [iterations, inOrder, if_pos rfl, Node.ways] at preferred
    cases here : text[position]? with
    | none =>
      rw [here] at preferred
      cases preferred
      rw [here] at present
      cases present
    | some e =>
      rw [here] at preferred
      dsimp only at preferred
      split at preferred
      · have further : ¬position + 1 ≤ position := by omega
        rw [List.flatMap_singleton, if_neg further, List.head?_append_of_ne_nil _ iterations_ne_nil]
          at preferred
        have enoughBehind : text.size - (position + 1) ≤ ahead := by omega
        exact inductionHypothesis enoughBehind preferred
      · next refused =>
        cases preferred
        rw [here] at present
        cases present
        exact Bool.eq_false_iff.mpr refused

/-- A greedy loop over single characters that has to be entered does not stop before a character of
its set. -/
theorem Node.head?_ways_plus_char {set : CharSet}
    (preferred : ((Node.plus true (.char set)).ways text position slots).head? = some way)
    {d : Char}
    (present : text[way.stop]? = some d) : set.contains d = false := by
  rw [ways, ways] at preferred
  cases here : text[position]? with
  | none =>
    rw [here] at preferred
    cases preferred
  | some e =>
    rw [here] at preferred
    dsimp only at preferred
    split at preferred
    · rw [List.flatMap_singleton] at preferred
      exact head?_iterations_char (Nat.le_refl _) preferred present
    · cases preferred

/-- A steady part that is matched on its own stops where its preferred way does. -/
theorem Node.head?_ways_atomic {body : Node} (steady : body.steady = true)
    (inside : position ≤ text.size)
    (among : way ∈ (Node.atomic body).ways text position slots) :
    ∃ stored own, (body.ways text position stored).head? = some own ∧ own.stop = way.stop := by
  rw [ways] at among
  split at among
  · have same : (body.preferred text position slots).map Stretch.stop =
        (body.ends text position).head? := map_stop_preferred steady inside
    rw [Option.mem_toList.mp among, Option.map_some, ends, List.head?_map] at same
    obtain ⟨own, preferred, stop⟩ := Option.map_eq_some_iff.mp same.symm
    exact ⟨[], own, preferred, stop⟩
  · exact ⟨slots, way, Option.mem_toList.mp among, rfl⟩

/-- A tree that spares the character has no end to be avoided: what it takes never has the character
last. -/
theorem Sparing.clearEnd (inside : position ≤ text.size)
    (spared : Sparing text c ⟨position, slots⟩ way) : ClearEnd text c marks position way.stop :=
  fun taken last => absurd last ((spared inside).2.2 taken)

/-- The preferred way of a tree that passes the second check stops where it should. The induction is
on the tree, with a case for each form that the check admits. -/
theorem Node.clearEnd_of_head? {node : Node} (clear : node.endsClear c marks = true)
    (inside : position ≤ text.size)
    (preferred : (node.ways text position slots).head? = some way) :
    ClearEnd text c marks position way.stop := by
  fun_induction Node.endsClear c marks node generalizing position slots way with
  | case1 set =>
    rcases Bool.or_eq_true_iff.mp clear with never | all
    · have neverLoop : (Node.plus true (.char set)).neverLast c = true := never
      exact (sparing neverLoop (List.mem_of_head? preferred)).clearEnd inside
    · intro _ _ mark among present
      have refused := head?_ways_plus_char preferred present
      rw [List.all_eq_true.mp all mark among] at refused
      cases refused
  | case2 first second firstClear secondClear =>
    obtain ⟨clearFirst, clearSecond⟩ := Bool.and_eq_true_iff.mp clear
    rw [ways, List.head?_append] at preferred
    rcases Option.or_eq_some_iff.mp preferred with taken | ⟨_, taken⟩
    · exact firstClear clearFirst inside taken
    · exact secondClear clearSecond inside taken
  | case3 body bodyClear =>
    obtain ⟨steady, clearBody⟩ := Bool.and_eq_true_iff.mp clear
    obtain ⟨stored, own, ownPreferred, same⟩ :=
      head?_ways_atomic steady inside (List.mem_of_head? preferred)
    rw [← same]
    exact bodyClear clearBody inside ownPreferred
  | case4 first greedy body firstClear =>
    obtain ⟨clearFirst, never⟩ := Bool.and_eq_true_iff.mp clear
    obtain ⟨middle, taken, later⟩ := head?_ways_seq_optional preferred
    have within := (first.ways_bounds inside (List.mem_of_head? taken)).2
    have neverOption : (Node.optional greedy body).neverLast c = true := never
    obtain ⟨ahead, _, spared⟩ := sparing neverOption later within
    rcases Nat.eq_or_lt_of_le ahead with same | further
    · rw [← same]
      exact firstClear clearFirst inside taken
    · exact fun _ last => absurd last (spared further)
  | case5 first second _ advancing secondClear =>
    obtain ⟨middle, taken, later⟩ := head?_ways_seq preferred
    have within := (first.ways_bounds inside taken).2
    have further := lt_of_advances advancing within (List.mem_of_head? later)
    exact fun _ => secondClear clear within later further
  | case6 | case7 => exact (sparing clear (List.mem_of_head? preferred)).clearEnd inside

/-- What a search for a pattern settles for stops where it should, if both kinds of search agree on
the pattern's tree. -/
theorem locate_clearEnd {pattern : Pattern}
    (admitted : pattern.meaning.retries = true ∨ pattern.meaning.node.steady = true)
    (clear : pattern.meaning.node.endsClear c marks = true) (inside : position ≤ text.size)
    {fit : Fit} (located : pattern.locate text position = some fit) :
    ClearEnd text c marks fit.start fit.stop := by
  obtain ⟨slots, way, preferred, same⟩ := locate_preferred admitted inside located
  obtain ⟨_, ordered, within⟩ := locate_bounds inside located
  rw [← same]
  exact Node.clearEnd_of_head? clear (Nat.le_trans ordered within) preferred

/-- A lazy loop is left at the first place behind which something follows, as long as each iteration
takes one character: no later than at any `stop` behind which it does. -/
theorem head?_iterations_lazy {body : Nat → Slots → List Stretch}
    {follow : Stretch → List Stretch} {ahead stop : Nat} (behind : position ≤ stop)
    (enough : stop - position ≤ ahead)
    (single : ∀ i, position ≤ i → i < stop → body i slots = [⟨i + 1, slots⟩])
    (follows : follow ⟨stop, slots⟩ ≠ [])
    (preferred : ((iterations false body ahead position slots).flatMap follow).head? = some way) :
    ∃ first, first ≤ stop ∧ way ∈ follow ⟨first, slots⟩ := by
  induction ahead generalizing position with
  | zero =>
    rw [iterations, List.flatMap_singleton] at preferred
    exact ⟨position, behind, List.mem_of_head? preferred⟩
  | succ ahead inductionHypothesis =>
    rw [iterations, inOrder, if_neg Bool.false_ne_true, List.singleton_append, List.flatMap_cons,
      List.head?_append] at preferred
    rcases Option.or_eq_some_iff.mp preferred with left | ⟨nothing, later⟩
    · exact ⟨position, behind, List.mem_of_head? left⟩
    · have further : position < stop := by
        refine Nat.lt_of_le_of_ne behind ?_
        rintro rfl
        exact follows (List.head?_eq_none_iff.mp nothing)
      have on : ¬position + 1 ≤ position := by omega
      rw [single position (Nat.le_refl _) further, List.flatMap_singleton, if_neg on] at later
      exact inductionHypothesis further (by omega)
        (fun i reached before => single i (Nat.le_of_succ_le reached) before) later

/-- What a tree looks for at its end, if it ends by looking ahead. Only a look for something that is
to be there counts. -/
def Node.lookAhead? : Node → Option Node
  | .seq _ second => second.lookAhead?
  | .look false false body => some body
  | _ => none

/-- A tree that ends by looking ahead stops only where what it looks for begins, since it would fail
anywhere else. -/
theorem Node.exists_of_lookAhead? {node body : Node} (looking : node.lookAhead? = some body)
    (among : way ∈ node.ways text position slots) :
    ∃ stored found, found ∈ body.ways text way.stop stored := by
  fun_induction Node.lookAhead? node generalizing position slots with
  | case1 first second secondLooks =>
    obtain ⟨middle, _, later⟩ := mem_ways_seq.mp among
    exact secondLooks looking later
  | case2 body =>
    cases looking
    rcases mem_lookedFrom.mp among with ⟨_, found, first, rfl⟩ | ⟨impossible, _⟩
    · exact ⟨slots, found, List.mem_of_head? first⟩
    · cases impossible
  | case3 => cases looking

end Ways

end TextDecoration.Pattern
