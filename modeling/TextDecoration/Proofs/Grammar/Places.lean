import TextDecoration.Proofs.Grammar.Losslessness

/-!
# Laws about tokens in their places

A law may tie a token to the place at which it stands in the text. If the scan of every plain token
that obeys it leaves tokens that obey it where they then stand, the law is kept by a rule's pass and
by all passes together: a pass keeps the text of what it splits, so the tokens behind stay in their
places. Nothing is claimed of the tokens inside nested ones, which stand in texts of their own.
-/

namespace TextDecoration

section Parts

variable {text rest : List Char} {offset : Nat}

/-- The first characters of a part stand where the part does, however many are taken. -/
theorem OccursAt.take (here : OccursAt text offset rest) (count : Nat) :
    OccursAt text offset (rest.take count) := by
  obtain ⟨ahead, behind, parts, counted⟩ := here
  refine ⟨ahead, rest.drop count ++ behind, ?_, counted⟩
  rw [← List.append_assoc, List.append_assoc ahead, List.take_append_drop, parts]

/-- What is left of a part without its first characters stands behind them, and may be nothing. -/
theorem OccursAt.drop (here : OccursAt text offset rest) {count : Nat}
    (inside : count ≤ rest.length) : OccursAt text (offset + count) (rest.drop count) := by
  obtain ⟨ahead, behind, parts, counted⟩ := here
  refine ⟨ahead ++ rest.take count, behind, ?_, ?_⟩
  · rw [List.append_assoc ahead, List.take_append_drop, parts]
  · rw [List.length_append, List.length_take, counted, Nat.min_eq_left inside]

/-- A character of a part is one of the text, so far behind where the part begins. A look at a part
is thus a look at the text. -/
theorem OccursAt.getElem? (here : OccursAt text offset rest) {i : Nat} (inside : i < rest.length) :
    text[offset + i]? = rest[i]? := by
  obtain ⟨ahead, behind, rfl, rfl⟩ := here
  rw [List.append_assoc, List.getElem?_append_right (Nat.le_add_right _ _), Nat.add_sub_cancel_left,
    List.getElem?_append_left inside]

end Parts

variable {engine : Engine} {property : Nat → Token → Prop}

/-- A law of tokens in their places that holds of what becomes of every plain token is kept by a
rule's pass. The others stay where they are, since a pass keeps the text. -/
theorem Rule.pass_everyAt (sound : engine.Sound) {category : String} {rule : Rule}
    (kept : ∀ offset fragment, property offset (.plain fragment) →
      EveryAt property offset (split (rule.search engine) (rule.token engine category) fragment))
    {offset : Nat} {tokens : List Token} (every : EveryAt property offset tokens) :
    EveryAt property offset (rule.pass engine category tokens) := by
  rw [Rule.pass_eq]
  induction tokens generalizing offset with
  | nil => trivial
  | cons token tokens inductionHypothesis =>
    obtain ⟨first, others⟩ := every
    have later := inductionHypothesis others
    rw [splitPlain, List.flatMap_cons, ← splitPlain]
    cases token with
    | plain fragment =>
      have same := Rule.literals_split category (Rule.search_productive sound rule)
        (fun inner _ => lossless sound inner) fragment
      refine everyAt_append.mpr ⟨kept offset fragment first, ?_⟩
      rw [same]
      exact later
    | leaf name fallback matched => exact ⟨first, later⟩
    | nested name fallback children => exact ⟨first, later⟩

/-- If all rules of a grammar keep a law of tokens in their places, it holds of the tokens of every
text that obeys it as one plain token. -/
theorem Grammar.everyAt_tokenizeBy (sound : engine.Sound) {grammar : Grammar} {text : String}
    (start : property 0 (.plain text))
    (kept : ∀ category rule, (category, rule) ∈ grammar.alternatives → ∀ offset fragment,
      property offset (.plain fragment) →
        EveryAt property offset
          (split (rule.search engine) (rule.token engine category) fragment)) :
    EveryAt property 0 (Grammar.tokenizeBy engine grammar text) := by
  have through : ∀ alternatives : List (String × Rule),
      (∀ alternative ∈ alternatives, alternative ∈ grammar.alternatives) → ∀ tokens,
        EveryAt property 0 tokens → EveryAt property 0 (passes engine alternatives tokens) := by
    intro alternatives listed
    induction alternatives with
    | nil => exact fun tokens every => every
    | cons alternative alternatives inductionHypothesis =>
      intro tokens every
      have once := Rule.pass_everyAt sound
        (kept alternative.1 alternative.2 (listed _ List.mem_cons_self)) every
      exact inductionHypothesis (fun other among => listed other (List.mem_cons_of_mem _ among)) _
        once
  rw [Grammar.tokenizeBy_eq]
  split
  · trivial
  · exact through grammar.alternatives (fun _ listed => listed) [.plain text] ⟨start, trivial⟩

end TextDecoration
