import TextDecoration.Proofs.Grammar.Canonical
import TextDecoration.Range.Projection

/-!
# Projection is exact

Projecting a sequence of tokens gives one range for every classified token at the top, in order,
and the range covers exactly that token's text. Ranges do not overlap, and what they leave is the
text of the plain tokens. This holds for any tokens, however deep and whether or not they hold
text; tokens that come from cutting hold some, so their ranges are not empty.

All of it is read off the classified tokens with their offsets, `placed`: the ranges are their
images, and a token is placed where the texts before it end.
-/

namespace TextDecoration

/-- The range of a token that begins at an offset. Only its tags depend on the policy. -/
def Token.rangeAt (policy : TagPolicy) (path : NodePath) (offset : Nat) (token : Token) : Range :=
  { tags := token.tags policy, fallback := token.fallback?, start := offset
    stop := offset + token.literal.length, path }

/-- The classified tokens of a sequence, in order. What stands inside them is not listed. -/
def classified (tokens : List Token) : List Token := tokens.filter fun token => !token.isPlain

/-- The classified tokens of a sequence that begins at an offset, with the offsets they begin at. -/
def placed (offset : Nat) : List Token → List (Nat × Token)
  | [] => []
  | token :: later =>
    (if token.isPlain then [] else [(offset, token)]) ++
      placed (offset + token.literal.length) later

/-- Ranges are the images of the placed tokens, one for each of them. Everything about ranges is
told by places. -/
theorem projectFrom_eq (path : NodePath) (policy : TagPolicy) (offset : Nat)
    (tokens : List Token) : projectFrom path policy offset tokens =
      (placed offset tokens).map fun place => place.2.rangeAt policy path place.1 := by
  induction tokens generalizing offset with
  | nil => rfl
  | cons token later inductionHypothesis =>
    rw [projectFrom, placed, Token.textLength_eq, inductionHypothesis]
    cases token with
    | plain text => rfl
    | leaf category fallback text => simp [Token.isPlain, Token.category?, Token.rangeAt]
    | nested category fallback children => simp [Token.isPlain, Token.category?, Token.rangeAt]

/-- The placed tokens are the classified ones, in the same order. -/
theorem placed_tokens (offset : Nat) (tokens : List Token) :
    (placed offset tokens).map Prod.snd = classified tokens := by
  induction tokens generalizing offset with
  | nil => rfl
  | cons token later inductionHypothesis =>
    rw [placed, List.map_append, inductionHypothesis, classified, classified, List.filter_cons]
    cases token <;> rfl

/-- A token is placed where the texts before it end. A token that occurs twice has two places. -/
theorem mem_placed {offset position : Nat} {tokens : List Token} {token : Token} :
    (position, token) ∈ placed offset tokens ↔
      token.isPlain = false ∧ ∃ earlier later, tokens = earlier ++ token :: later ∧
        position = offset + (Token.literals earlier).length := by
  induction tokens generalizing offset with
  | nil => simp [placed]
  | cons first tokens inductionHypothesis =>
    rw [placed, List.mem_append, inductionHypothesis]
    constructor
    · rintro (here | ⟨kind, earlier, later, rfl, rfl⟩)
      · split at here
        · cases here
        · next kind =>
          cases List.mem_singleton.mp here
          exact ⟨Bool.eq_false_iff.mpr kind, [], tokens, rfl, by simp⟩
      · exact ⟨kind, first :: earlier, later, rfl, by simp [Nat.add_assoc]⟩
    · rintro ⟨kind, earlier, later, parts, rfl⟩
      cases earlier with
      | nil =>
        obtain ⟨rfl, rfl⟩ := List.cons.inj parts
        exact Or.inl (by simp [kind])
      | cons other earlier =>
        obtain ⟨rfl, rfl⟩ := List.cons.inj parts
        exact Or.inr ⟨kind, earlier, later, rfl, by simp [Nat.add_assoc]⟩

/-- Tokens are placed one behind the other. Plain text may stand between them. -/
theorem placed_ascending (offset : Nat) (tokens : List Token) :
    (placed offset tokens).Pairwise fun earlier later =>
      earlier.1 + earlier.2.literal.length ≤ later.1 := by
  induction tokens generalizing offset with
  | nil => exact List.Pairwise.nil
  | cons token later inductionHypothesis =>
    rw [placed, List.pairwise_append]
    refine ⟨by split <;> simp, inductionHypothesis _, ?_⟩
    intro first here place behind
    obtain ⟨_, earlier, _, _, position⟩ := mem_placed.mp behind
    split at here
    · cases here
    · cases List.mem_singleton.mp here
      rw [position]
      exact Nat.le_add_right _ _

/-- A placed token's text is cut out of the text of the whole sequence by the token's offsets. -/
theorem slice_placed {position : Nat} {tokens : List Token} {token : Token}
    (place : (position, token) ∈ placed 0 tokens) :
    slice (Token.literals tokens).toList position (position + token.literal.length) =
        token.literal.toList ∧
      position + token.literal.length ≤ (Token.literals tokens).length := by
  obtain ⟨_, earlier, later, rfl, begins⟩ := mem_placed.mp place
  rw [Nat.zero_add] at begins
  constructor
  · rw [slice, Nat.add_sub_cancel_left, begins, Token.literals_append, Token.literals_cons,
      String.toList_append, String.toList_append, ← String.length_toList, ← String.length_toList,
      List.drop_left, List.take_left]
  · rw [begins, Token.literals_append, Token.literals_cons, String.length_append,
      String.length_append]
    omega

/-- The characters of a text that no range covers, where the text begins at an offset. Offsets may
be covered more than once. -/
def uncovered (ranges : List Range) (offset : Nat) (cs : List Char) : List Char :=
  ((cs.zipIdx offset).filter fun place => !ranges.any fun range => range.covers place.2).map
    Prod.fst

/-- Texts in a row leave uncovered what each of them does, the second one from where the first one
ends. -/
theorem uncovered_append (ranges : List Range) (offset : Nat) (first second : List Char) :
    uncovered ranges offset (first ++ second) =
      uncovered ranges offset first ++ uncovered ranges (offset + first.length) second := by
  rw [uncovered, List.zipIdx_append, List.filter_append, List.map_append]
  rfl

/-- Where no range covers any character, the whole text is left, in its order. -/
theorem uncovered_all {ranges : List Range} {offset : Nat} {cs : List Char}
    (off : ∀ range ∈ ranges, ∀ position, offset ≤ position → position < offset + cs.length →
      range.covers position = false) : uncovered ranges offset cs = cs := by
  have none : ∀ place ∈ cs.zipIdx offset,
      (!ranges.any fun range => range.covers place.2) = true := by
    rintro ⟨c, position⟩ member
    obtain ⟨least, most, _⟩ := List.mem_zipIdx member
    rw [Bool.not_eq_true', List.any_eq_false]
    intro range among
    rw [off range among position least most]
    exact Bool.false_ne_true
  rw [uncovered, List.filter_eq_self.mpr none, List.zipIdx_map_fst]

/-- Where some range covers every character, nothing is left, whatever other ranges do. -/
theorem uncovered_none {ranges : List Range} {offset : Nat} {cs : List Char} {range : Range}
    (among : range ∈ ranges) (on : ∀ position, offset ≤ position →
      position < offset + cs.length → range.covers position = true) :
    uncovered ranges offset cs = [] := by
  have all : ∀ place ∈ cs.zipIdx offset,
      ¬(!ranges.any fun range => range.covers place.2) = true := by
    rintro ⟨c, position⟩ member
    obtain ⟨least, most, _⟩ := List.mem_zipIdx member
    rw [Bool.not_eq_true, Bool.not_eq_false', List.any_eq_true]
    exact ⟨range, among, on position least most⟩
  rw [uncovered, List.filter_eq_nil_iff.mpr all, List.map_nil]

/-- A range that ends before a text begins does not change what is left of the text, as it covers
none of its characters. -/
theorem uncovered_cons {ranges : List Range} {offset : Nat} (cs : List Char) {range : Range}
    (passed : range.stop ≤ offset) :
    uncovered (range :: ranges) offset cs = uncovered ranges offset cs := by
  have same : ∀ place ∈ cs.zipIdx offset,
      (!(range :: ranges).any fun range => range.covers place.2) =
        !ranges.any fun range => range.covers place.2 := by
    rintro ⟨c, position⟩ member
    obtain ⟨least, _, _⟩ := List.mem_zipIdx member
    have off : range.covers position = false := by
      rw [Range.covers, decide_eq_false_iff_not]
      omega
    rw [List.any_cons, off, Bool.false_or]
  rw [uncovered, uncovered, List.filter_congr same]

/-- Every range begins at or behind the offset of its sequence. Earlier text is out of reach. -/
theorem offset_le_start {path : NodePath} {policy : TagPolicy} {offset : Nat}
    {tokens : List Token} {range : Range}
    (among : range ∈ projectFrom path policy offset tokens) : offset ≤ range.start := by
  rw [projectFrom_eq] at among
  obtain ⟨⟨position, token⟩, place, rfl⟩ := List.mem_map.mp among
  obtain ⟨_, earlier, _, _, rfl⟩ := mem_placed.mp place
  exact Nat.le_add_right offset _

/-- What the ranges leave of the text is the text of the plain tokens. The range of the first token
covers its text if it is classified; otherwise no range does, since all later ones begin behind
it. Behind the first token its range covers nothing. -/
theorem uncovered_projectFrom (path : NodePath) (policy : TagPolicy) (offset : Nat)
    (tokens : List Token) :
    uncovered (projectFrom path policy offset tokens) offset (Token.literals tokens).toList =
      (tokens.filter Token.isPlain).flatMap fun token => token.literal.toList := by
  induction tokens generalizing offset with
  | nil => rfl
  | cons token later inductionHypothesis =>
    have behind := inductionHypothesis (offset + token.literal.length)
    rw [Token.literals_cons, String.toList_append, uncovered_append, String.length_toList,
      projectFrom_eq, placed, List.map_append, ← projectFrom_eq, List.filter_cons]
    cases kind : token.isPlain with
    | true =>
      have off : ∀ range ∈ projectFrom path policy (offset + token.literal.length) later,
          ∀ position, offset ≤ position → position < offset + token.literal.toList.length →
            range.covers position = false := by
        intro range among position _ most
        have begins := offset_le_start among
        rw [String.length_toList] at most
        rw [Range.covers, decide_eq_false_iff_not]
        omega
      simp only [if_true, List.map_nil, List.nil_append, List.flatMap_cons]
      rw [uncovered_all off, behind]
    | false =>
      have on : ∀ position, offset ≤ position →
          position < offset + token.literal.toList.length →
            (token.rangeAt policy path offset).covers position = true := by
        intro position least most
        rw [String.length_toList] at most
        rw [Range.covers, decide_eq_true_iff]
        exact ⟨least, most⟩
      simp only [Bool.false_eq_true, if_false, List.map_cons, List.map_nil, List.cons_append,
        List.nil_append]
      have passed : (token.rangeAt policy path offset).stop ≤ offset + token.literal.length :=
        Nat.le_refl _
      rw [uncovered_none List.mem_cons_self on, uncovered_cons _ passed, behind, List.nil_append]

/-- The range at an index is that of the classified token at the same index: it has that token's
alias, the node's path, and offsets that cut the token's text out of the whole. -/
theorem project_getElem {path : NodePath} {policy : TagPolicy} {tokens : List Token} {k : Nat}
    {range : Range} {token : Token} (here : (project tokens path policy)[k]? = some range)
    (there : (classified tokens)[k]? = some token) :
    range.fallback = token.fallback? ∧ range.path = path ∧
      slice (Token.literals tokens).toList range.start range.stop = token.literal.toList := by
  rw [project, projectFrom_eq, List.getElem?_map] at here
  rw [← placed_tokens 0, List.getElem?_map] at there
  obtain ⟨⟨position, other⟩, place, rfl⟩ := Option.map_eq_some_iff.mp here
  rw [place] at there
  cases there
  exact ⟨rfl, rfl, (slice_placed (List.mem_of_getElem? place)).1⟩

/-- A range ends at or behind its start, and not behind the end of the text. It is therefore a
stretch of the text. -/
theorem project_inside {path : NodePath} {policy : TagPolicy} {tokens : List Token}
    {range : Range} (among : range ∈ project tokens path policy) :
    range.start ≤ range.stop ∧ range.stop ≤ (Token.literals tokens).length := by
  rw [project, projectFrom_eq] at among
  obtain ⟨⟨position, token⟩, place, rfl⟩ := List.mem_map.mp among
  exact ⟨Nat.le_add_right _ _, (slice_placed place).2⟩

/-- Ranges do not overlap and come in order, as the tokens that they belong to do. -/
theorem project_ascending (path : NodePath) (policy : TagPolicy) (tokens : List Token) :
    (project tokens path policy).Pairwise fun earlier later => earlier.stop ≤ later.start := by
  rw [project, projectFrom_eq, List.pairwise_map]
  exact placed_ascending 0 tokens

/-- No range of a sequence without empty tokens is empty. With an empty token there would be an
empty range. -/
theorem project_filled {path : NodePath} {policy : TagPolicy} {tokens : List Token}
    (filled : Filled tokens) {range : Range} (among : range ∈ project tokens path policy) :
    range.start < range.stop := by
  rw [project, projectFrom_eq] at among
  obtain ⟨⟨position, token⟩, place, rfl⟩ := List.mem_map.mp among
  obtain ⟨_, earlier, later, rfl, _⟩ := mem_placed.mp place
  have present : token.literal ≠ "" := filled token (by simp)
  have counted : token.literal.length ≠ 0 := fun none => present (String.length_eq_zero_iff.mp none)
  exact Nat.lt_add_of_pos_right (Nat.pos_of_ne_zero counted)

/-- Projecting gives one range for each classified token and no other: the range has that token's
alias and the node's path, and cuts exactly that token's text out of the whole. Ranges do not
overlap, lie in the text, and leave exactly the text of the plain tokens. The tokens that a sound
engine cuts a text into make up that text, so there the offsets are offsets of the text, and no
range is empty. -/
theorem project_exact (path : NodePath) (policy : TagPolicy) :
    (∀ tokens : List Token,
      (project tokens path policy).length = (classified tokens).length ∧
      (∀ (k : Nat) (range : Range) (token : Token), (project tokens path policy)[k]? = some range →
        (classified tokens)[k]? = some token →
          range.fallback = token.fallback? ∧ range.path = path ∧
          slice (Token.literals tokens).toList range.start range.stop = token.literal.toList) ∧
      (project tokens path policy).Pairwise (fun earlier later => earlier.stop ≤ later.start) ∧
      (∀ range ∈ project tokens path policy,
        range.start ≤ range.stop ∧ range.stop ≤ (Token.literals tokens).length) ∧
      uncovered (project tokens path policy) 0 (Token.literals tokens).toList =
        (tokens.filter Token.isPlain).flatMap fun token => token.literal.toList) ∧
    ∀ engine : Engine, engine.Sound → ∀ (grammar : Grammar) (text : String),
      Token.literals (Grammar.tokenizeBy engine grammar text) = text ∧
      ∀ range ∈ project (Grammar.tokenizeBy engine grammar text) path policy,
        range.start < range.stop ∧ range.stop ≤ text.length := by
  constructor
  · intro tokens
    refine ⟨?_, fun k range token here there => project_getElem here there,
      project_ascending path policy tokens, fun range among => project_inside among,
      uncovered_projectFrom path policy 0 tokens⟩
    rw [project, projectFrom_eq, ← placed_tokens 0, List.length_map, List.length_map]
  · intro engine sound grammar text
    have whole : Token.literals (Grammar.tokenizeBy engine grammar text) = text :=
      (lossless sound grammar text).1
    refine ⟨whole, fun range among => ⟨?_, ?_⟩⟩
    · exact project_filled (tokenizeBy_filled sound grammar text) among
    · exact whole ▸ (project_inside among).2

/-- The engine of this library is sound, so the ranges of a text with a tag around emphasis lie in
that text, and none of them is empty. -/
theorem project_exact_markdown :
    Engine.Sound Pattern.locate ∧
      ∀ range ∈ project (Grammar.tokenizeBy Pattern.locate Builtin.Markdown.grammar
        "<b>**a**</b>") [0, 0] .nested, range.start < range.stop ∧ range.stop ≤ 12 :=
  ⟨Pattern.locate_sound, ((project_exact [0, 0] .nested).2 Pattern.locate Pattern.locate_sound
    Builtin.Markdown.grammar "<b>**a**</b>").2⟩

end TextDecoration
