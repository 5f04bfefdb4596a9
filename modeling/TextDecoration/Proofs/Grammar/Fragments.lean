import Mathlib.Data.List.Basic
import TextDecoration.Proofs.Grammar.Conformance

/-!
# What passes leave of plain text

Passes work on plain text alone. What they make of it are parts of it, one behind the other, so no
text is lost and all that was classified before keeps its offset. Whatever a part holds, the text it
was cut from holds too. In this way a fact about the plain text that one rule leaves lasts through
the passes of all rules behind it.
-/

namespace TextDecoration

section Places

/-- Two sequences in a row are placed as each of them is, the second one behind the text of the
first. -/
theorem placed_append (offset : Nat) (first second : List Token) : placed offset (first ++ second) =
    placed offset first ++ placed (offset + (Token.literals first).length) second := by
  induction first generalizing offset with
  | nil => simp [placed]
  | cons token first inductionHypothesis =>
    rw [List.cons_append, placed, placed, inductionHypothesis, List.append_assoc,
      Token.literals_cons, String.length_append, Nat.add_assoc]

/-- Plain tokens have no place among the classified ones. Only classified tokens are placed. -/
theorem placed_plainToken (offset : Nat) (cs : List Char) : placed offset (plainToken cs) = [] := by
  cases cs <;> rfl

/-- A plain token for a text holds that text, since there is at most the one. -/
theorem toList_of_mem_plainToken {cs : List Char} {fragment : String}
    (member : .plain fragment ∈ plainToken cs) : fragment.toList = cs := by
  cases cs with
  | nil => cases member
  | cons c cs =>
    cases List.mem_singleton.mp member
    exact String.toList_ofList

/-- A token's text is a part of the text of the sequence it stands in, and more exactly one that
begins where the tokens before it end. -/
theorem Token.literal_infix {token : Token} {tokens : List Token} (member : token ∈ tokens) :
    token.literal.toList <:+: (literals tokens).toList := by
  obtain ⟨earlier, later, rfl⟩ := List.append_of_mem member
  rw [literals_append, literals_cons, String.toList_append, String.toList_append,
    ← List.append_assoc]
  exact List.infix_append _ _ _

end Places

section Passes

variable {engine : Engine}

/-- A pass cuts every plain token anew and leaves the others as they are. In this form a pass is a
map over tokens and needs no state. -/
theorem splitPlain_eq_recut (find : List Char → Option Hit) (classify : Classify)
    (tokens : List Token) :
    splitPlain find classify tokens = tokens.flatMap (Token.recut (split find classify)) := by
  refine List.flatMap_congr fun token _ => ?_
  cases token <;> rfl

/-- Passes lose no text, whatever tokens they begin with. Of the engine only soundness is needed. -/
theorem literals_passes (sound : engine.Sound) (alternatives : List (String × Rule))
    (tokens : List Token) :
    Token.literals (passes engine alternatives tokens) = Token.literals tokens := by
  induction alternatives generalizing tokens with
  | nil => rfl
  | cons alternative alternatives inductionHypothesis =>
    obtain ⟨category, rule⟩ := alternative
    have kept := Rule.literals_split category (Rule.search_productive sound rule)
      fun inner _ => lossless sound inner
    have first : passes engine ((category, rule) :: alternatives) tokens =
        passes engine alternatives (rule.pass engine category tokens) := rfl
    rw [first, inductionHypothesis, Rule.pass_eq, splitPlain_eq_recut, literals_recut kept]

/-- What passes make of plain text are parts of it, because the text is not lost and nothing else is
there. -/
theorem literal_infix_of_passes (sound : engine.Sound) {alternatives : List (String × Rule)}
    {fragment : String} {token : Token}
    (member : token ∈ passes engine alternatives [.plain fragment]) :
    token.literal.toList <:+: fragment.toList := by
  have part := Token.literal_infix member
  rw [literals_passes sound] at part
  simpa using part

/-- What passes leave plain is a part of what was plain before. Passes never take a classification
back. -/
theorem plain_of_passes (sound : engine.Sound) {alternatives : List (String × Rule)}
    {tokens : List Token} {fragment : String}
    (member : .plain fragment ∈ passes engine alternatives tokens) :
    ∃ whole, .plain whole ∈ tokens ∧ fragment.toList <:+: whole.toList := by
  rw [passes_flatMap] at member
  obtain ⟨old, among, made⟩ := List.mem_flatMap.mp member
  cases old with
  | plain whole => exact ⟨whole, among, by simpa using literal_infix_of_passes sound made⟩
  | leaf name fallback text =>
    rw [passes_classified engine alternatives rfl] at made
    cases List.mem_singleton.mp made
  | nested name fallback children =>
    rw [passes_classified engine alternatives rfl] at made
    cases List.mem_singleton.mp made

/-- Passes over plain text leave tokens of the grammar's categories only. What was classified before
the passes is not spoken of. -/
theorem Grammar.mem_names_of_passes (sound : engine.Sound) {grammar : Grammar} {fragment : String}
    {token : Token} (among : token ∈ passes engine grammar.alternatives [.plain fragment])
    {category : String} (kind : token.category? = some category) : category ∈ grammar.names := by
  cases passes_made sound (fun _ listed => listed) (plain_made grammar fragment) token among with
  | plain inside => cases kind
  | found listed found =>
    rw [Rule.category?_token] at kind
    cases kind
    exact mem_names_of_listed listed

/-- Passes leave classified tokens in their places. If all that they make of plain ones fails a
test, then the tokens that pass it stay the same. -/
theorem placed_passes (sound : engine.Sound) {alternatives : List (String × Rule)}
    {test : Token → Bool} {tokens : List Token}
    (foreign : ∀ fragment, .plain fragment ∈ tokens →
      ∀ token ∈ passes engine alternatives [.plain fragment], test token = false)
    (offset : Nat) :
    (placed offset (passes engine alternatives tokens)).filter (fun place => test place.2) =
      (placed offset tokens).filter (fun place => test place.2) := by
  induction tokens generalizing offset with
  | nil => rw [passes_nil]
  | cons token tokens inductionHypothesis =>
    have later := inductionHypothesis (fun fragment among => foreign fragment
      (List.mem_cons_of_mem token among)) (offset + token.literal.length)
    have apart : token :: tokens = [token] ++ tokens := rfl
    have whole : Token.literals [token] = token.literal := by
      rw [Token.literals_cons, Token.literals_nil, String.append_empty]
    rw [apart, passes_tokens_append, placed_append, placed_append, literals_passes sound,
      List.filter_append, List.filter_append, whole, later]
    congr 1
    cases token with
    | plain fragment =>
      have failing : ∀ place ∈ placed offset (passes engine alternatives [.plain fragment]),
          ¬test place.2 = true := by
        intro place among
        obtain ⟨_, earlier, behind, parts, _⟩ := mem_placed.mp among
        rw [foreign fragment List.mem_cons_self place.2 (by rw [parts]; simp)]
        exact Bool.false_ne_true
      rw [List.filter_eq_nil_iff.mpr failing]
      rfl
    | leaf category fallback text => rw [passes_classified engine alternatives rfl]
    | nested category fallback children => rw [passes_classified engine alternatives rfl]

end Passes

end TextDecoration
