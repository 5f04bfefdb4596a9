import TextDecoration.Proofs.Markdown.BlankLines
import TextDecoration.Proofs.Markdown.Earliest
import TextDecoration.Proofs.Markdown.Edges

/-!
# The marks inside bold and italic tokens

The marks of an emphasised token are cut out of it as leaves, the opening one first and the closing
one last. Cutting goes on from each mark with the rest as a text of its own, at whose start a mark
is taken again. So a body that begins with marks is taken mark by mark, and if at last less than a
mark is left of it before the closing one, this mark is taken too early and its end is left over.

That cannot happen with single marks. With double ones it can only if the body is one character of
the mark: with anything before that character the closing mark would stand one character earlier,
and the token would have ended there. So five equal stars or low lines are the only bold text that
does not end with its closing mark.
-/

namespace TextDecoration.Builtin.Markdown

open Pattern Text

/-- The leaf for a mark, as the rule for punctuation makes it. -/
def markLeaf (mark : String) : Token := .leaf "punctuation" none mark

/-- Children that begin with the leaf for a mark and end with another one. Between them may stand
anything. -/
def Enclosed (mark : String) (children : List Token) : Prop :=
  ∃ between, children = markLeaf mark :: between ++ [markLeaf mark]

/-- The course of cutting marks out of a text. Each hit is followed by a scan of the rest as a text
of its own. -/
abbrev MarkScan (marks : Pattern) : List Char → List Token → Prop :=
  Scan ((Rule.ofPattern marks).search Pattern.locate)
    ((Rule.ofPattern marks).token Pattern.locate "punctuation")

/-- Nothing is cut out of nothing, not even an empty token. -/
theorem MarkScan.nil {marks : Pattern} {tokens : List Token} (scan : MarkScan marks [] tokens) :
    tokens = [] := by
  cases scan with
  | missed nothing => rfl
  | found searched later =>
    have bounds := Rule.search_productive locate_sound _ _ _ searched
    rw [List.length_nil] at bounds
    omega

/-- A row of one character that reaches from the start into a row of another one is of the same
character, and so is all that stands before the latter. -/
theorem eq_replicate_of_prefix {width : Nat} {c d : Char} {body : List Char}
    (first : List.replicate width c <+: body ++ List.replicate width d)
    (short : body.length < width) : d = c ∧ body = List.replicate body.length c := by
  have ahead : body <+: List.replicate width c :=
    List.prefix_of_prefix_length_le (List.prefix_append _ _) first
      (by simpa using Nat.le_of_lt short)
  have same : d = c := by
    have there := List.prefix_iff_getElem?.mp first body.length (by simpa using short)
    rw [List.getElem?_append_right (Nat.le_refl _), Nat.sub_self,
      List.getElem?_replicate_of_lt (Nat.zero_lt_of_lt short), List.getElem_replicate] at there
    exact Option.some.inj there
  exact ⟨same, (List.prefix_replicate_iff.mp ahead).2⟩

section Scan

variable {marks : Pattern} {width : Nat} (edges : TakesEdges marks width) (wide : 0 < width)
  {tokens : List Token} {mark : Char} (isMark : mark = '*' ∨ mark = '_')

include edges wide isMark

/-- A mark at the start is cut out, and the rest is cut as a text of its own. -/
theorem MarkScan.opening {later : List Char}
    (scan : MarkScan marks (List.replicate width mark ++ later) tokens) :
    ∃ others, tokens = markLeaf (String.ofList (List.replicate width mark)) :: others ∧
      MarkScan marks later others := by
  have opens := search_opening edges wide isMark later
  cases scan with
  | missed nothing =>
    rw [opens] at nothing
    cases nothing
  | @found _ hit others searched further =>
    cases Option.some.inj (opens.symm.trans searched)
    have taken :
        slice (List.replicate width mark ++ later) 0 width = List.replicate width mark := by
      simp [slice]
    have behind : (List.replicate width mark ++ later).drop width = later := by simp
    refine ⟨others, ?_, behind ▸ further⟩
    rw [taken]
    rfl

/-- Where there is no mark at the start, the mark at the end is cut out last, and what is before it
becomes other tokens. -/
theorem MarkScan.closing {body : List Char}
    (unopened : ¬MarkAt (body ++ List.replicate width mark).toArray width 0)
    (scan : MarkScan marks (body ++ List.replicate width mark) tokens) :
    ∃ between, tokens = between ++ [markLeaf (String.ofList (List.replicate width mark))] := by
  have closes := search_closing edges wide isMark unopened
  cases scan with
  | missed nothing =>
    rw [closes] at nothing
    cases nothing
  | @found _ hit others searched further =>
    cases Option.some.inj (closes.symm.trans searched)
    have taken : slice (body ++ List.replicate width mark) body.length (body.length + width) =
        List.replicate width mark := by
      simp [slice]
    have behind : (body ++ List.replicate width mark).drop (body.length + width) = [] := by simp
    rw [behind] at further
    rw [MarkScan.nil further, taken]
    exact ⟨_, rfl⟩

/-- Of a body and the mark behind it, that mark is cut out last, unless the body ends, behind marks,
with less than a mark of its characters. -/
theorem MarkScan.last {body : List Char}
    (scan : MarkScan marks (body ++ List.replicate width mark) tokens) :
    (∃ between, tokens = between ++ [markLeaf (String.ofList (List.replicate width mark))]) ∨
      ∃ taken excess, body = taken ++ List.replicate excess mark ∧
        (∀ c ∈ taken, c = '*' ∨ c = '_') ∧ 0 < excess ∧ excess < width := by
  induction counted : body.length using Nat.strong_induction_on generalizing body tokens with
  | h length inductionHypothesis =>
    by_cases opens : MarkAt (body ++ List.replicate width mark).toArray width 0
    · obtain ⟨c, isMarkToo, first⟩ := prefix_of_markAt opens
      by_cases long : width ≤ body.length
      · -- The body begins with that mark, and the induction goes on behind it.
        obtain ⟨rest, rfl⟩ : List.replicate width c <+: body :=
          List.prefix_of_prefix_length_le first (List.prefix_append _ _) (by simpa using long)
        rw [List.append_assoc] at scan
        obtain ⟨others, rfl, later⟩ := MarkScan.opening edges wide isMarkToo scan
        have shorter : rest.length < length := by
          rw [List.length_append, List.length_replicate] at counted
          omega
        rcases inductionHypothesis _ shorter later rfl with
          ⟨between, rfl⟩ | ⟨taken, excess, rfl, areMarks, some, few⟩
        · exact Or.inl ⟨markLeaf _ :: between, rfl⟩
        · refine Or.inr ⟨List.replicate width c ++ taken, excess, by rw [List.append_assoc],
            fun d among => ?_, some, few⟩
          rcases List.mem_append.mp among with here | there
          · rw [List.eq_of_mem_replicate here]
            exact isMarkToo
          · exact areMarks d there
      · -- The mark reaches into the closing one, so both are made of the same character.
        have short : body.length < width := Nat.lt_of_not_le long
        obtain ⟨rfl, filled⟩ := eq_replicate_of_prefix first short
        rcases Nat.eq_zero_or_pos body.length with none | some
        · obtain rfl := List.eq_nil_of_length_eq_zero none
          rw [List.nil_append, ← List.append_nil (List.replicate width mark)] at scan
          obtain ⟨others, rfl, later⟩ := MarkScan.opening edges wide isMark scan
          rw [MarkScan.nil later]
          exact Or.inl ⟨[], rfl⟩
        · exact Or.inr ⟨[], body.length, filled, by simp, some, short⟩
    · exact Or.inl (MarkScan.closing edges wide isMark opens scan)

end Scan

/-- Whether a rule has no alias and a grammar inside that tries a pattern with the text of given
marks first, if it is listed under a given category. -/
def marksFirst (category : String) (marks : Pattern) (listed : String) (rule : Rule) : Bool :=
  listed != category || (rule.fallback.isNone && match rule.inside with
    | none => false
    | some inner => match Grammar.alternatives inner with
      | [] => false
      | (name, first) :: _ => name == "punctuation" && first.pattern.text == marks.text &&
          !first.lookbehind && first.fallback.isNone && first.inside.isNone)

/-- A rule that passes this check under its own category has no alias and tries the marks first,
since the text of the marks is one that is read. -/
theorem of_marksFirst {category : String} {marks : Pattern} {rule : Rule}
    (known : (readMeaning marks.text.toList).isSome = true)
    (checked : marksFirst category marks category rule = true) :
    rule.fallback = none ∧ ∃ (inner : Grammar) (others : List (String × Rule)),
      rule.inside = some inner ∧
        inner.alternatives = ("punctuation", Rule.ofPattern marks) :: others := by
  simp only [marksFirst, bne_self_eq_false, Bool.false_or, Bool.and_eq_true,
    Option.isNone_iff_eq_none] at checked
  obtain ⟨noAlias, tried⟩ := checked
  refine ⟨noAlias, ?_⟩
  split at tried
  · cases tried
  · next inner deep =>
    split at tried
    · cases tried
    · next name first others parts =>
      simp only [Bool.and_eq_true, beq_iff_eq, Bool.not_eq_true',
        Option.isNone_iff_eq_none] at tried
      obtain ⟨⟨⟨⟨rfl, same⟩, noContext⟩, plain⟩, simple⟩ := tried
      refine ⟨inner, others, deep, ?_⟩
      rw [parts]
      obtain ⟨pattern, lookbehind, fallback, inside⟩ := first
      cases Pattern.eq_of_text_eq known same
      cases noContext
      cases plain
      cases simple
      rfl

/-- All rules under a category, in all parts of the grammar, have no alias and a grammar inside that
tries given marks first. -/
def MarksFirst (category : String) (marks : Pattern) : Prop :=
  ∀ part rule, grammar.Part part → (category, rule) ∈ part.alternatives →
    rule.fallback = none ∧ ∃ (inner : Grammar) (others : List (String × Rule)),
      rule.inside = some inner ∧
        inner.alternatives = ("punctuation", Rule.ofPattern marks) :: others

/-- Whether a rule under either category of emphasised text tries its marks first. Rules under other
categories pass. -/
def marksOfEmphasisFirst (category : String) (rule : Rule) : Bool :=
  marksFirst "bold" boldMarks category rule && marksFirst "italic" italicMarks category rule

/-- All rules in all parts of the grammar try the marks of emphasised text first. Parts are many, so
they are checked by evaluation. -/
theorem marksOfEmphasisFirst_listed : ((Grammar.parts grammar).all fun part =>
    part.alternatives.all fun alternative =>
      marksOfEmphasisFirst alternative.1 alternative.2) = true :=
  rfl

/-- All rules for bold text have no alias and try double marks first. -/
theorem marksFirst_bold : MarksFirst "bold" boldMarks := fun _ _ below listed =>
  of_marksFirst (Pattern.isSome_readMeaning_known _)
    (Bool.and_eq_true_iff.mp (below.checked marksOfEmphasisFirst_listed listed)).1

/-- All rules for italic text have no alias and try single marks first. -/
theorem marksFirst_italic : MarksFirst "italic" italicMarks := fun _ _ below listed =>
  of_marksFirst (Pattern.isSome_readMeaning_known _)
    (Bool.and_eq_true_iff.mp (below.checked marksOfEmphasisFirst_listed listed)).2

/-- No pass changes the leaf for a mark, whatever the rules are that come later. -/
theorem passes_markLeaf (others : List (String × Rule)) (mark : String) (tokens : List Token) :
    passes Pattern.locate others (markLeaf mark :: tokens) =
      markLeaf mark :: passes Pattern.locate others tokens := by
  have apart : markLeaf mark :: tokens = [markLeaf mark] ++ tokens := rfl
  rw [apart, passes_tokens_append, passes_classified Pattern.locate others rfl]
  rfl

/-- What a grammar that tries marks first makes of a text between marks: the leaf for the opening
one, and what its other rules make of what cutting the marks leaves of the rest. -/
theorem tokenizeBy_marksFirst {marks : Pattern} {width : Nat} (edges : TakesEdges marks width)
    (wide : 0 < width) {inner : Grammar} {others : List (String × Rule)}
    (first : inner.alternatives = ("punctuation", Rule.ofPattern marks) :: others)
    {matched : String} {mark : Char} {later : List Char} (isMark : mark = '*' ∨ mark = '_')
    (parts : matched.toList = List.replicate width mark ++ later) :
    ∃ tokens, MarkScan marks later tokens ∧ Grammar.tokenizeBy Pattern.locate inner matched =
      markLeaf (String.ofList (List.replicate width mark)) ::
        passes Pattern.locate others tokens := by
  have filled : matched.isEmpty = false := by
    rw [← Bool.not_eq_true, String.isEmpty_iff]
    rintro rfl
    have counted := congrArg List.length parts
    simp at counted
    omega
  have scan : MarkScan marks matched.toList (split ((Rule.ofPattern marks).search Pattern.locate)
      ((Rule.ofPattern marks).token Pattern.locate "punctuation") matched) :=
    split_scan (Rule.search_productive locate_sound _) _ matched
  rw [parts] at scan
  obtain ⟨tokens, cut, further⟩ := MarkScan.opening edges wide isMark scan
  refine ⟨tokens, further, ?_⟩
  rw [Grammar.tokenizeBy_eq, filled, if_neg Bool.false_ne_true, first, passes, List.foldl_cons,
    Rule.pass_plain, cut, ← passes, passes_markLeaf]

section Tokens

variable {text : String} {layer : List Token} {token : Token}

/-- An emphasised token is the leaf for its opening mark and what some rules make of what cutting
the marks leaves of its body and the closing one. If its body ends, behind marks, with characters of
the closing mark, there is nothing before these: the closing mark would have stood there. -/
theorem nested_of_emphasis {category : String} {pattern marks : Pattern} {width : Nat}
    (wide : 0 < width) (emphasises : Emphasises pattern width) (edges : TakesEdges marks width)
    (keeps : Keeps category pattern) (tries : MarksFirst category marks)
    (layered : Layer (grammar.tokenize text) layer) (member : token ∈ layer)
    (own : token.category? = some category) :
    ∃ mark body others tokens, (mark = '*' ∨ mark = '_') ∧
      token.literal.toList = List.replicate width mark ++ (body ++ List.replicate width mark) ∧
      token = .nested category none (markLeaf (String.ofList (List.replicate width mark)) ::
        passes Pattern.locate others tokens) ∧
      MarkScan marks (body ++ List.replicate width mark) tokens ∧
      ∀ taken excess, body = taken ++ List.replicate excess mark →
        (∀ c ∈ taken, c = '*' ∨ c = '_') → 0 < excess → taken = [] := by
  obtain ⟨part, rule, matched, below, listed, finds, rfl⟩ := layered.made locate_sound member own
  obtain ⟨rfl, context⟩ := keeps part rule below listed
  obtain ⟨noAlias, inner, others, deep, first⟩ := tries part rule below listed
  obtain ⟨mark, body, isMark, _, parts⟩ :=
    (isEmphasised_of_finds emphasises context finds).parts wide
  rw [List.append_assoc] at parts
  obtain ⟨tokens, scan, cut⟩ := tokenizeBy_marksFirst edges wide first isMark parts
  have holds : (rule.token Pattern.locate category matched).literal = matched :=
    Rule.literal_token category (fun inner _ text => lossless locate_sound inner text) matched
  refine ⟨mark, body, others, tokens, isMark, by rw [holds, parts], ?_, scan, ?_⟩
  · rw [Rule.token_nested Pattern.locate category deep, noAlias, cut]
  · rintro taken excess rfl areMarks some
    by_contra filled
    have ordinary : ∀ c ∈ taken, ¬IsBreak c := by
      intro c among
      rcases areMarks c among with rfl | rfl <;> simp [IsBreak]
    have again : matched.toList = List.replicate width mark ++ taken ++
        List.replicate width mark ++ List.replicate excess mark := by
      rw [parts, List.append_assoc taken, List.append_assoc, List.append_assoc,
        List.replicate_append_replicate, List.replicate_append_replicate, Nat.add_comm excess]
    have none := nil_of_finds wide emphasises context finds filled ordinary again
    rw [List.replicate_eq_nil_iff] at none
    omega

/-- The children of an emphasised token are enclosed by its marks, unless its body is less than a
mark of the same character. -/
theorem enclosed_of_scan {marks : Pattern} {width : Nat} (edges : TakesEdges marks width)
    (wide : 0 < width) {mark : Char} (isMark : mark = '*' ∨ mark = '_') {body : List Char}
    {others : List (String × Rule)} {tokens : List Token}
    (scan : MarkScan marks (body ++ List.replicate width mark) tokens)
    (earliest : ∀ taken excess, body = taken ++ List.replicate excess mark →
      (∀ c ∈ taken, c = '*' ∨ c = '_') → 0 < excess → taken = []) :
    Enclosed (String.ofList (List.replicate width mark))
        (markLeaf (String.ofList (List.replicate width mark)) ::
          passes Pattern.locate others tokens) ∨
      ∃ excess, body = List.replicate excess mark ∧ 0 < excess ∧ excess < width := by
  rcases MarkScan.last edges wide isMark scan with
    ⟨between, rfl⟩ | ⟨taken, excess, parts, areMarks, some, few⟩
  · refine Or.inl ⟨passes Pattern.locate others between, ?_⟩
    rw [passes_tokens_append, passes_classified Pattern.locate others rfl]
    rfl
  · have none := earliest taken excess parts areMarks some
    rw [none, List.nil_append] at parts
    exact Or.inr ⟨excess, parts, some, few⟩

/-- The children of an italic token are enclosed by its marks. A body of less than a single mark
would be empty. -/
theorem enclosed_of_italic (layered : Layer (grammar.tokenize text) layer) (member : token ∈ layer)
    (own : token.category? = some "italic") :
    ∃ mark ∈ ["*", "_"], ∃ children, token = .nested "italic" none children ∧
      Enclosed mark children := by
  obtain ⟨mark, body, others, tokens, isMark, _, made, scan, earliest⟩ :=
    nested_of_emphasis Nat.one_pos emphasises_italic takesEdges_italicMarks keeps_italic
      marksFirst_italic layered member own
  have known : String.ofList (List.replicate 1 mark) ∈ ["*", "_"] := by
    rcases isMark with rfl | rfl <;> decide
  refine ⟨_, known, _, made, ?_⟩
  rcases enclosed_of_scan takesEdges_italicMarks Nat.one_pos isMark scan earliest with
    enclosed | ⟨excess, _, some, few⟩
  · exact enclosed
  · omega

/-- The children of a bold token are enclosed by its marks, unless it is made of five equal
characters. Then two marks are cut out of these, and the last character is left over. -/
theorem enclosed_of_bold (layered : Layer (grammar.tokenize text) layer) (member : token ∈ layer)
    (own : token.category? = some "bold") :
    ∃ half ∈ ["*", "_"], ∃ children, token = .nested "bold" none children ∧
      (token.literal ≠ half ++ half ++ half ++ half ++ half → Enclosed (half ++ half) children) ∧
      (token.literal = half ++ half ++ half ++ half ++ half →
        ∃ rest, children = markLeaf (half ++ half) :: markLeaf (half ++ half) :: rest ∧
          Token.literals rest = half) := by
  obtain ⟨mark, body, others, tokens, isMark, parts, made, scan, earliest⟩ :=
    nested_of_emphasis Nat.two_pos emphasises_bold takesEdges_boldMarks keeps_bold
      marksFirst_bold layered member own
  have known : String.ofList [mark] ∈ ["*", "_"] := by
    rcases isMark with rfl | rfl <;> decide
  have double : String.ofList [mark] ++ String.ofList [mark] =
      String.ofList (List.replicate 2 mark) := String.ofList_append.symm
  have five : ∀ literal : String, literal = String.ofList [mark] ++ String.ofList [mark] ++
      String.ofList [mark] ++ String.ofList [mark] ++ String.ofList [mark] ↔
        literal.toList = List.replicate 5 mark := by
    intro literal
    rw [← String.toList_inj]
    simp [List.replicate]
  refine ⟨String.ofList [mark], known, _, made, fun differs => ?_, fun same => ?_⟩
  · rcases enclosed_of_scan takesEdges_boldMarks Nat.two_pos isMark scan earliest with
      enclosed | ⟨excess, filled, some, few⟩
    · rw [double]
      exact enclosed
    · obtain rfl : excess = 1 := by omega
      refine absurd ((five _).mpr ?_) differs
      rw [parts, filled]
      rfl
  · have whole : token.literal.toList =
        List.replicate 2 mark ++ (List.replicate 2 mark ++ [mark]) :=
      (five _).mp same
    have body_eq : body ++ List.replicate 2 mark = List.replicate 2 mark ++ [mark] :=
      List.append_cancel_left (parts.symm.trans whole)
    rw [body_eq] at scan
    obtain ⟨rest, rfl, _⟩ := MarkScan.opening takesEdges_boldMarks Nat.two_pos isMark scan
    rw [passes_markLeaf] at made ⊢
    refine ⟨passes Pattern.locate others rest, by rw [double], ?_⟩
    have left : String.ofList (List.replicate 2 mark) ++ (String.ofList (List.replicate 2 mark) ++
        Token.literals (passes Pattern.locate others rest)) = token.literal := by
      rw [made, Token.literal_nested, Token.literals_cons, Token.literals_cons, markLeaf,
        Token.literal_leaf]
    rw [← String.toList_inj, String.toList_ofList]
    have chars := congrArg String.toList left
    simpa [whole] using chars

end Tokens

/-- The children of an italic token, at any depth, begin with its mark and end with it, each as a
leaf of its own. So do those of a bold token, unless it is made of five equal stars or low lines;
then they begin with two double marks, and only the last character stands behind these. -/
theorem marks_of_emphasis (text : String) (layer : List Token) (token : Token)
    (layered : Layer (grammar.tokenize text) layer) (member : token ∈ layer) :
    (token.category? = some "italic" → ∃ mark ∈ ["*", "_"], ∃ children,
      token = .nested "italic" none children ∧ Enclosed mark children) ∧
    (token.category? = some "bold" → ∃ half ∈ ["*", "_"], ∃ children,
      token = .nested "bold" none children ∧
        (token.literal ≠ half ++ half ++ half ++ half ++ half →
          Enclosed (half ++ half) children) ∧
        (token.literal = half ++ half ++ half ++ half ++ half →
          ∃ rest, children = markLeaf (half ++ half) :: markLeaf (half ++ half) :: rest ∧
            Token.literals rest = half)) :=
  ⟨fun own => enclosed_of_italic layered member own, fun own => enclosed_of_bold layered member own⟩

/-- Five low lines are one bold token, with a single low line as its body. -/
theorem tokenize_five_lines : ∃ token, grammar.tokenize "_____" = [token] ∧
    token.category? = some "bold" ∧ token.literal = "_____" :=
  tokenize_whole (by decide +kernel)

/-- The marks of a bold token of low lines are made of low lines: the other half would make another
text. -/
theorem half_of_five_lines {token : Token} {half : String} {children : List Token}
    (holds : token.literal = "_____") (known : half ∈ ["*", "_"])
    (made : token = .nested "bold" none children)
    (enclosed : token.literal ≠ half ++ half ++ half ++ half ++ half →
      Enclosed (half ++ half) children) : half = "_" := by
  rcases List.mem_pair.mp known with rfl | rfl
  · have differs : token.literal ≠ "*" ++ "*" ++ "*" ++ "*" ++ "*" := by
      rw [holds]
      decide
    obtain ⟨between, rfl⟩ := enclosed differs
    rw [made, Token.literal_nested, List.cons_append, Token.literals_cons, markLeaf,
      Token.literal_leaf] at holds
    have chars := congrArg String.toList holds
    simp at chars
  · rfl

/-- Of five low lines, two double marks are cut out, and the last one stands behind these. -/
theorem marks_of_five_lines : ∃ rest, grammar.tokenize "_____" =
    [.nested "bold" none (markLeaf "__" :: markLeaf "__" :: rest)] ∧ Token.literals rest = "_" := by
  obtain ⟨token, cut, own, holds⟩ := tokenize_five_lines
  have member : token ∈ grammar.tokenize "_____" := by simp [cut]
  obtain ⟨half, known, children, made, enclosed, overlapped⟩ :=
    (marks_of_emphasis "_____" _ token Layer.top member).2 own
  obtain rfl := half_of_five_lines holds known made enclosed
  obtain ⟨rest, rfl, left⟩ := overlapped holds
  exact ⟨rest, by rw [cut, made]; rfl, left⟩

/-- Not the children of all bold and italic tokens are enclosed by their marks, whatever the alias.
Five low lines are a token whose children are not. -/
theorem not_all_enclosed : ¬∀ text layer token, Layer (grammar.tokenize text) layer →
    token ∈ layer →
      (token.category? = some "bold" → ∃ mark ∈ ["**", "__"], ∃ fallback children,
        token = .nested "bold" fallback children ∧ Enclosed mark children) ∧
      (token.category? = some "italic" → ∃ mark ∈ ["*", "_"], ∃ fallback children,
        token = .nested "italic" fallback children ∧ Enclosed mark children) := by
  intro all
  obtain ⟨token, cut, own, holds⟩ := tokenize_five_lines
  have member : token ∈ grammar.tokenize "_____" := by simp [cut]
  obtain ⟨half, known, children, made, enclosed, overlapped⟩ :=
    enclosed_of_bold Layer.top member own
  obtain rfl := half_of_five_lines holds known made enclosed
  obtain ⟨rest, rfl, left⟩ := overlapped holds
  obtain ⟨mark, isMark, _, children, again, between, rfl⟩ := (all _ _ token Layer.top member).1 own
  rw [made] at again
  injection again with _ _ same
  -- The last child would be a double mark, of which only half a one is left.
  rcases List.eq_nil_or_concat rest with rfl | ⟨ahead, last, rfl⟩
  · rw [Token.literals_nil] at left
    exact absurd left (by decide)
  · have split : (markLeaf "__" :: markLeaf "__" :: ahead) ++ [last] =
        (markLeaf mark :: between) ++ [markLeaf mark] := by
      simpa using same
    obtain rfl : last = markLeaf mark := List.singleton_inj.mp (List.append_inj' split rfl).2
    have two : mark.length = 2 := by
      rcases List.mem_pair.mp isMark with rfl | rfl <;> decide
    have double : (Token.literals [markLeaf mark]).length = 2 := by
      simp [markLeaf, two]
    have single : "_".length = 1 := by decide
    have chars := congrArg String.length left
    rw [List.concat_eq_append, Token.literals_append, String.length_append] at chars
    omega

end TextDecoration.Builtin.Markdown
