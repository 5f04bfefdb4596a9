import TextDecoration.Proofs.Pattern.Preferred

/-!
# Literal characters in patterns

A sequence of literal characters takes these characters and nothing else: it goes on behind them if
they stand at the position, and nowhere otherwise. A lazy loop over all characters goes on at every
position up to the end of the text, nearest first.

A word of ASCII letters and digits is read as the sequence of its characters. None of them means
anything else in the regular dialect, so every such word is a pattern, and no search for it has to
retry.
-/

namespace TextDecoration.Pattern

/-- A word stands at a position exactly if its first character does and the others stand behind
it. -/
theorem cons_prefix_drop {c : Char} {word cs : List Char} {position : Nat} :
    c :: word <+: cs.drop position ↔
      cs[position]? = some c ∧ word <+: cs.drop (position + 1) := by
  by_cases inside : position < cs.length
  · rw [List.drop_eq_getElem_cons inside, List.cons_prefix_cons, List.getElem?_eq_getElem inside,
      Option.some.injEq, eq_comm]
  · have outside : cs.length ≤ position := Nat.le_of_not_lt inside
    rw [List.drop_eq_nil_of_le outside, List.getElem?_eq_none outside]
    simp

namespace Node

/-- A sequence is steady if all its parts are. The empty one is steady as well. -/
theorem steady_sequence (nodes : List Node) : (sequence nodes).steady = nodes.all steady := by
  induction nodes with
  | nil => rfl
  | cons node nodes inductionHypothesis =>
    cases nodes with
    | nil => simp [sequence]
    | cons next nodes =>
      have parts : sequence (node :: next :: nodes) = .seq node (sequence (next :: nodes)) := rfl
      rw [List.all_cons, parts, steady, inductionHypothesis]

/-- A sequence advances if one of its parts does, wherever that stands. -/
theorem advances_sequence (nodes : List Node) : (sequence nodes).advances = nodes.any advances := by
  induction nodes with
  | nil => rfl
  | cons node nodes inductionHypothesis =>
    cases nodes with
    | nil => simp [sequence]
    | cons next nodes =>
      have parts : sequence (node :: next :: nodes) = .seq node (sequence (next :: nodes)) := rfl
      rw [List.any_cons, parts, advances, inductionHypothesis]

/-- The nodes that take characters literally. -/
def literals (cs : List Char) : List Node := cs.map fun c => .char (.single c)

/-- The nodes that take characters literally are steady, as sets are. -/
theorem steady_literals (cs : List Char) : (literals cs).all steady = true := by
  simp [literals, steady]

section Ends

variable {text : Array Char} {position : Nat}

/-- A sequence ends where what follows its first part does, from each end of that part. This is also
true of a sequence of one part. -/
theorem ends_sequence_cons (node : Node) {nodes : List Node}
    (steady : (sequence nodes).steady = true) :
    (sequence (node :: nodes)).ends text position =
      (node.ends text position).flatMap ((sequence nodes).ends text) := by
  cases nodes with
  | nil => exact (List.flatMap_singleton' _).symm
  | cons next nodes => exact ends_seq steady

/-- A literal character ends behind that character, where it stands, and has no end anywhere
else. -/
theorem ends_single (c : Char) : (Node.char (.single c)).ends text position =
    if text[position]? = some c then [position + 1] else [] := by
  rw [ends, ways]
  cases text[position]? with
  | none => rfl
  | some d => by_cases same : d = c <;> simp [same]

/-- Literal characters, and what follows them, end where that does behind the characters, if they
stand at the position. -/
theorem ends_literals (cs : List Char) {nodes : List Node}
    (steady : (sequence nodes).steady = true) :
    (sequence (literals cs ++ nodes)).ends text position =
      if cs <+: text.toList.drop position then (sequence nodes).ends text (position + cs.length)
      else [] := by
  induction cs generalizing position with
  | nil => simp [literals]
  | cons c cs inductionHypothesis =>
    have steadyLater : (sequence (literals cs ++ nodes)).steady = true := by
      rw [steady_sequence] at steady ⊢
      rw [List.all_append, steady_literals, steady]
      rfl
    have parts : literals (c :: cs) ++ nodes = .char (.single c) :: (literals cs ++ nodes) := rfl
    rw [parts, ends_sequence_cons _ steadyLater, ends_single]
    simp only [cons_prefix_drop, Array.getElem?_toList]
    by_cases here : text[position]? = some c
    · rw [if_pos here, List.flatMap_singleton, inductionHypothesis, List.length_cons,
        Nat.add_assoc, Nat.add_comm 1]
      simp only [here, true_and]
    · simp only [here, if_false, List.flatMap_nil, false_and]

/-- A lazy loop over all characters is left at once, or else behind the next character. -/
theorem ends_anything {next : Node} (steady : next.steady = true) (inside : position ≤ text.size) :
    (Node.seq (.star false (.char .all)) next).ends text position = next.ends text position ++
      if position < text.size then
        (Node.seq (.star false (.char .all)) next).ends text (position + 1)
      else [] := by
  have loop : ∀ reached, (Node.star false (.char .all)).ends text reached =
      (Node.more false (.char .all)).ends text reached := fun reached => rfl
  rw [ends_seq steady, ends_seq steady, loop, loop, ends_more rfl inside, leaving,
    if_neg Bool.false_ne_true, List.flatMap_cons]
  congr 1
  by_cases further : position < text.size
  · have one : (Node.char .all).ends text position = [position + 1] := by
      rw [ends, ways, Array.getElem?_eq_getElem further]
      rfl
    rw [if_pos further, one, List.flatMap_singleton]
  · have none : (Node.char .all).ends text position = [] := by
      rw [ends, ways, Array.getElem?_eq_none (Nat.le_of_not_lt further)]
      rfl
    rw [if_neg further, none, List.flatMap_nil, List.flatMap_nil]

/-- Behind a lazy loop over all characters, what follows begins as early as it can. -/
theorem head?_ends_anything {next : Node} (steady : next.steady = true) {reached stop : Nat}
    (behind : position ≤ reached) (inside : reached ≤ text.size)
    (vain : ∀ earlier, position ≤ earlier → earlier < reached → next.ends text earlier = [])
    (taken : (next.ends text reached).head? = some stop) :
    ((Node.seq (.star false (.char .all)) next).ends text position).head? = some stop := by
  obtain ⟨ahead, rfl⟩ := Nat.exists_eq_add_of_le behind
  induction ahead generalizing position with
  | zero =>
    rw [Nat.add_zero] at inside taken
    rw [ends_anything steady inside, List.head?_append, taken]
    rfl
  | succ ahead inductionHypothesis =>
    have first := vain position (Nat.le_refl position) (by omega)
    rw [ends_anything steady (by omega), first, List.nil_append, if_pos (by omega)]
    have shifted : position + 1 + ahead = position + (ahead + 1) := by omega
    rw [← shifted] at inside taken
    exact inductionHypothesis (by omega) inside
      (fun earlier behind' before => vain earlier (by omega) (by omega)) taken

/-- Where what follows a lazy loop over all characters cannot begin at any position, there is no way
at all. -/
theorem ends_anything_nil {next : Node} (steady : next.steady = true)
    (inside : position ≤ text.size)
    (vain : ∀ reached, position ≤ reached → reached ≤ text.size → next.ends text reached = []) :
    (Node.seq (.star false (.char .all)) next).ends text position = [] := by
  obtain ⟨ahead, whole⟩ := Nat.exists_eq_add_of_le inside
  induction ahead generalizing position with
  | zero =>
    rw [ends_anything steady inside, vain position (Nat.le_refl position) inside,
      if_neg (by omega)]
    rfl
  | succ ahead inductionHypothesis =>
    rw [ends_anything steady inside, vain position (Nat.le_refl position) inside, List.nil_append,
      if_pos (by omega)]
    exact inductionHypothesis (by omega) (fun reached behind => vain reached (by omega)) (by omega)

end Ends

end Node

section Words

/-- An ASCII letter or digit stands for itself, wherever in a pattern it is read as a part of its
own. -/
theorem lexeme?_alphanum {c : Char} (plain : c.isAlphanum = true) (loose : Bool) (cs : List Char) :
    lexeme? .regular loose (c :: cs) = some (.char c, cs) := by
  -- Each case but the last is for a character with a meaning, and none of these is plain.
  unfold lexeme?
  split <;> simp_all

/-- A word of letters and digits falls apart into its characters. No two of them are read as one
part. -/
theorem lexemesWithin_word {word : List Char} (plain : ∀ c ∈ word, c.isAlphanum = true)
    {steps : Nat} (enough : word.length ≤ steps) (loose : Bool) :
    lexemesWithin .regular steps loose word = some (word.map .char) := by
  induction word generalizing steps loose with
  | nil => rw [lexemesWithin, List.map_nil]
  | cons c word inductionHypothesis =>
    obtain ⟨fewer, rfl⟩ := Nat.exists_eq_add_of_le' (Nat.le_trans (Nat.le_add_left 1 _) enough)
    have first : c.isAlphanum = true := plain c List.mem_cons_self
    have later := inductionHypothesis (fun d among => plain d (List.mem_cons_of_mem c among))
      (Nat.le_of_succ_le_succ enough)
    rw [lexemesWithin, lexeme?_alphanum first]
    · simp only [Option.bind_eq_bind, Option.bind_some, later]
      rfl
    · exact List.cons_ne_nil c word

/-- Reading characters adds a part for each of them, where their case matters. -/
theorem steps_word (dialect : Dialect) (word : List Char) {reading : Reading}
    (strict : reading.flags.ignoreCase = false) :
    Reading.steps dialect reading (word.map .char) = some { reading with
      frame := { reading.frame with
        pieces := (Node.literals word).reverse.map .plain ++ reading.frame.pieces } } := by
  induction word generalizing reading with
  | nil => rfl
  | cons c word inductionHypothesis =>
    have added : reading.step dialect (.char c) = some (reading.add (.char (.single c))) := by
      rw [Reading.step, Reading.addSet, strict]
      rfl
    have still : (reading.add (.char (.single c))).flags.ignoreCase = false := strict
    rw [List.map_cons, Reading.steps, added, Option.bind_eq_bind, Option.bind_some,
      inductionHypothesis still]
    simp [Reading.add, Frame.push, Node.literals]

/-- A word of letters and digits means its characters, one after the other, with no groups and no
need for retries. -/
theorem readMeaning_word {word : List Char} (plain : ∀ c ∈ word, c.isAlphanum = true) :
    readMeaning word = some ⟨.sequence (Node.literals word), 0, false⟩ := by
  have lexemes : lexemes? .regular word = some (word.map .char) :=
    lexemesWithin_word plain (Nat.le_refl _) true
  have tree : readTree .regular word = some ⟨.sequence (Node.literals word), 0, []⟩ := by
    rw [readTree, lexemes, Option.bind_eq_bind, Option.bind_some, steps_word .regular word rfl]
    simp [Frame.body, Frame.alternative, Node.choice, List.filterMap_map, Function.comp_def,
      Piece.node?]
  rw [readMeaning, tree]

end Words

end TextDecoration.Pattern
