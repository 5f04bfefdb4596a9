import TextDecoration.Proofs.Grammar.Losslessness

/-!
# No token is empty

Cutting leaves no token without text. What stands before a hit or behind the last one becomes a
token only if there is something, and a hit takes at least one character, which its token keeps
however it is cut once more.
-/

namespace TextDecoration

/-- No token of a sequence has the empty text. What is inside nested tokens is not spoken of. -/
def Filled (tokens : List Token) : Prop := ∀ token ∈ tokens, token.literal ≠ ""

/-- Two filled sequences in a row are filled, as nothing is put between them. -/
theorem Filled.append {first second : List Token} (one : Filled first) (other : Filled second) :
    Filled (first ++ second) := by
  intro token member
  rcases List.mem_append.mp member with among | among
  · exact one token among
  · exact other token among

/-- A plain token is made for a text that is there. For the empty text none is made. -/
theorem plainToken_filled (cs : List Char) : Filled (plainToken cs) := by
  intro token member empty
  cases cs with
  | nil => cases member
  | cons c cs =>
    cases List.mem_singleton.mp member
    simp at empty

/-- A scan leaves no token without text, provided that a token holds the text it was made for. -/
theorem Scan.filled {find : List Char → Option Hit} {classify : Classify} {rest : List Char}
    {tokens : List Token} (productive : Productive find)
    (kept : ∀ matched, (classify matched).literal = matched)
    (scan : Scan find classify rest tokens) : Filled tokens := by
  induction scan with
  | missed nothing => exact plainToken_filled _
  | @found rest hit tokens searched later inductionHypothesis =>
    obtain ⟨filled, inside⟩ := productive rest hit searched
    refine (plainToken_filled _).append ?_
    intro token member
    rcases List.mem_cons.mp member with rfl | among
    · intro empty
      have taken : (slice rest hit.start hit.stop).length = hit.stop - hit.start :=
        length_slice inside
      rw [kept, String.ofList_eq_empty_iff] at empty
      rw [empty, List.length_nil] at taken
      omega
    · exact inductionHypothesis token among

/-- A pass of a sound engine's rule leaves no token without text: every hit takes some, and plain
pieces are only made where some is left. -/
theorem Rule.pass_filled {engine : Engine} (sound : engine.Sound) (category : String) (rule : Rule)
    {tokens : List Token} (filled : Filled tokens) :
    Filled (rule.pass engine category tokens) := by
  rw [Rule.pass_eq, splitPlain]
  intro token member
  obtain ⟨old, among, made⟩ := List.mem_flatMap.mp member
  cases old with
  | plain fragment =>
    have scan := split_scan (Rule.search_productive sound rule) (rule.token engine category)
      fragment
    have kept : ∀ matched, (rule.token engine category matched).literal = matched :=
      Rule.literal_token category fun inner _ => lossless sound inner
    exact scan.filled (Rule.search_productive sound rule) kept token made
  | leaf name fallback text =>
    cases List.mem_singleton.mp made
    exact filled _ among
  | nested name fallback children =>
    cases List.mem_singleton.mp made
    exact filled _ among

/-- Passes of a sound engine leave no token without text. One pass keeps that, and so do all of them
in turn. -/
theorem passes_filled {engine : Engine} (sound : engine.Sound)
    (alternatives : List (String × Rule)) {tokens : List Token} (filled : Filled tokens) :
    Filled (passes engine alternatives tokens) := by
  induction alternatives generalizing tokens with
  | nil => exact filled
  | cons alternative alternatives inductionHypothesis =>
    exact inductionHypothesis (Rule.pass_filled sound alternative.1 alternative.2 filled)

/-- No token of a text is empty, whatever the grammar. The empty text has no tokens at all. -/
theorem tokenizeBy_filled {engine : Engine} (sound : engine.Sound) (grammar : Grammar)
    (text : String) : Filled (Grammar.tokenizeBy engine grammar text) := by
  rw [Grammar.tokenizeBy_eq]
  split
  · intro token member
    cases member
  · next present =>
    apply passes_filled sound
    intro token member empty
    cases List.mem_singleton.mp member
    exact present (String.isEmpty_iff.mpr empty)

end TextDecoration
