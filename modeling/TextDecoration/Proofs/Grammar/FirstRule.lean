import TextDecoration.Proofs.Grammar.Fragments
import TextDecoration.Proofs.Pattern.Preferred
import TextDecoration.Proofs.Text.Spans

/-!
# The rule that is tried first

The rule that a grammar tries first sees the whole text. If a reference tells what the rule finds
first in any text, then its tokens are those of the reference's scan of the text, at the same
offsets. Later rules only cut what is plain, and that keeps the offsets of all that is classified.
So wherever later rules make no token that passes for one of the first rule's, the tokens that do
are exactly those of the scan.

A reference may be read off a pattern's tree if the search needs no retries and every way of the
tree takes some text, the same whatever the groups hold: the first position from which there is a
way, and the end of the preferred one there.
-/

namespace TextDecoration

open Pattern

/-- A reference tells what is found first in any text: no context, and the same stretch. It may be
written without any patterns. -/
def Told (find : List Char → Option Hit) (first : List Char → Option (Nat × Nat)) : Prop :=
  ∀ rest, find rest = (first rest).map fun span => ⟨span.1, span.1, span.2⟩

/-- A reference tells what a rule finds first with the engine of this library. -/
def Rule.Takes (rule : Rule) (first : List Char → Option (Nat × Nat)) : Prop :=
  Told (rule.search Pattern.locate) first

section Search

variable {rule : Rule} (bare : rule.lookbehind = false)
  (direct : rule.pattern.meaning.retries = false)
  (steady : rule.pattern.meaning.node.steady = true)
  (advancing : rule.pattern.meaning.node.advances = true)

include bare direct steady advancing

/-- A rule whose pattern always takes some text finds the first fit, all of it, as long as no
context is left out. There is no empty token to go on behind. -/
theorem Rule.search_of_advances (rest : List Char) : rule.search Pattern.locate rest =
    (rule.pattern.locate rest.toArray 0).map fun fit => ⟨fit.start, fit.start, fit.stop⟩ := by
  rw [Rule.search, Engine.find, Nat.sub_zero, Engine.findWithin]
  cases located : rule.pattern.locate rest.toArray 0 with
  | none => rfl
  | some fit =>
    have start : fit.start ≤ rest.toArray.size :=
      Nat.le_trans (locate_bounds (Nat.zero_le _) located).2.1
        (locate_bounds (Nat.zero_le _) located).2.2
    obtain ⟨_, _, taken⟩ := locate_first direct steady (Nat.zero_le _) located
    obtain ⟨way, among, stop⟩ := List.mem_map.mp (List.mem_of_head? taken)
    have filled : fit.start < fit.stop := stop ▸ Node.lt_of_advances advancing start among
    simp only [Fit.hit, bare, Bool.false_eq_true, if_false, if_pos filled, Option.map_some]

/-- Such a rule takes what a reference tells if the reference reports the first position from which
there is a way, with the end of the preferred one, and reports nothing only where there is none. -/
theorem Rule.takes_of_ends {first : List Char → Option (Nat × Nat)}
    (reported : ∀ rest start stop, first rest = some (start, stop) → start ≤ rest.length ∧
      (∀ earlier < start, rule.pattern.meaning.node.ends rest.toArray earlier = []) ∧
      (rule.pattern.meaning.node.ends rest.toArray start).head? = some stop)
    (missed : ∀ rest, first rest = none → ∀ position ≤ rest.length,
      rule.pattern.meaning.node.ends rest.toArray position = []) : rule.Takes first := by
  intro rest
  rw [Rule.search_of_advances bare direct steady advancing]
  cases located : rule.pattern.locate rest.toArray 0 with
  | none =>
    cases found : first rest with
    | none => rfl
    | some span =>
      obtain ⟨inside, _, taken⟩ := reported rest span.1 span.2 found
      rw [locate_none direct steady located (Nat.zero_le _) (by simpa using inside)] at taken
      cases taken
  | some fit =>
    obtain ⟨_, ordered, within⟩ := locate_bounds (Nat.zero_le _) located
    obtain ⟨_, nothing, taken⟩ := locate_first direct steady (Nat.zero_le _) located
    cases found : first rest with
    | none =>
      have inside : fit.start ≤ rest.length := Nat.le_trans ordered (by simpa using within)
      rw [missed rest found fit.start inside] at taken
      cases taken
    | some span =>
      obtain ⟨_, nothingBefore, takenThere⟩ := reported rest span.1 span.2 found
      have same : fit.start = span.1 := by
        rcases Nat.lt_trichotomy fit.start span.1 with before | same | behind
        · rw [nothingBefore fit.start before] at taken
          cases taken
        · exact same
        · rw [nothing span.1 (Nat.zero_le _) behind] at takenThere
          cases takenThere
      have stop : fit.stop = span.2 := by
        rw [same, takenThere] at taken
        exact (Option.some.inj taken).symm
      simp only [Option.map_some, same, stop]

end Search

/-- A scan whose findings a reference tells places its tokens where the reference finds stretches
one behind the other. -/
theorem Scan.placed {find : List Char → Option Hit} {classify : Classify}
    {first : List Char → Option (Nat × Nat)} (productive : Productive find) (told : Told find first)
    (kept : ∀ matched, (classify matched).literal = matched)
    (kind : ∀ matched, (classify matched).isPlain = false) {text rest : List Char} {offset : Nat}
    (here : text.drop offset = rest) {tokens : List Token}
    (scan : Scan find classify rest tokens) :
    ∃ spans, Text.Spans first offset rest spans ∧ TextDecoration.placed offset tokens =
      spans.map fun span => (span.1, classify (String.ofList (slice text span.1 span.2))) := by
  induction scan generalizing offset with
  | missed nothing =>
    rw [told, Option.map_eq_none_iff] at nothing
    exact ⟨[], Text.Spans.missed nothing, placed_plainToken offset _⟩
  | @found rest hit tokens searched later inductionHypothesis =>
    obtain ⟨filled, inside⟩ := productive rest hit searched
    have reported := searched
    rw [told, Option.map_eq_some_iff] at reported
    obtain ⟨⟨start, stop⟩, found, rfl⟩ := reported
    dsimp only at filled inside inductionHypothesis ⊢
    have behind : text.drop (offset + stop) = rest.drop stop := by rw [← here, List.drop_drop]
    obtain ⟨spans, others, places⟩ := inductionHypothesis behind
    have matched : slice rest start stop = slice text (offset + start) (offset + stop) := by
      rw [← here, slice_drop]
    have ahead : (Token.literals (plainToken (rest.take start))).length = start := by
      rw [literals_plainToken, String.length_ofList, List.length_take]
      omega
    have counted : (classify (String.ofList (slice rest start stop))).literal.length =
        stop - start := by
      rw [kept, String.length_ofList, length_slice inside]
    have reached : offset + start + (stop - start) = offset + stop := by omega
    refine ⟨_, Text.Spans.found found others, ?_⟩
    rw [placed_append, placed_plainToken, List.nil_append, ahead, TextDecoration.placed, kind,
      if_neg Bool.false_ne_true, counted, reached, places, matched]
    rfl

namespace Grammar

variable {grammar : Grammar} {category : String} {rule : Rule}

/-- The rule that is tried first places its tokens where a reference that tells its findings finds
stretches in the text. -/
theorem placed_pass_first {first : List Char → Option (Nat × Nat)} (takes : rule.Takes first)
    (category : String) (text : String) :
    ∃ spans, Text.Spans first 0 text.toList spans ∧
      placed 0 (rule.pass Pattern.locate category [.plain text]) = spans.map fun span =>
        (span.1, rule.token Pattern.locate category
          (String.ofList (slice text.toList span.1 span.2))) := by
  rw [Rule.pass_plain]
  exact (split_scan (Rule.search_productive locate_sound rule) _ text).placed
    (Rule.search_productive locate_sound rule) takes
    (Rule.literal_token category fun inner _ => lossless locate_sound inner)
    (Rule.token_classified Pattern.locate category rule) List.drop_zero

/-- If the tokens of the rule that is tried first pass a test, and all that later rules make of what
it leaves plain fails it, then the tokens of the result that pass are those of the first rule, at
their offsets. -/
theorem placed_tokenize_first {engine : Engine} (sound : engine.Sound)
    {others : List (String × Rule)} (tried : grammar.alternatives = (category, rule) :: others)
    (test : Token → Bool) {text : String}
    (own : ∀ place ∈ placed 0 (rule.pass engine category [.plain text]), test place.2 = true)
    (foreign : ∀ fragment, .plain fragment ∈ rule.pass engine category [.plain text] →
      ∀ token ∈ passes engine others [.plain fragment], test token = false) :
    (placed 0 (Grammar.tokenizeBy engine grammar text)).filter (fun place => test place.2) =
      placed 0 (rule.pass engine category [.plain text]) := by
  rw [tokenizeBy_eq]
  split
  · next empty =>
    rw [String.isEmpty_iff.mp empty, Rule.pass_plain]
    rfl
  · have passed : passes engine grammar.alternatives [.plain text] =
        passes engine others (rule.pass engine category [.plain text]) := by
      rw [tried]
      rfl
    rw [passed, placed_passes sound foreign, List.filter_eq_self.mpr own]

/-- If the first category of a grammar has one rule only, then the tokens of that category are
those of the rule: no category occurs twice, so no later rule makes any. -/
theorem placed_tokenize_category {engine : Engine} (sound : engine.Sound)
    (distinct : grammar.Distinct) {later : List (String × List Rule)}
    (listed : grammar.entries = (category, [rule]) :: later) (text : String) :
    (placed 0 (Grammar.tokenizeBy engine grammar text)).filter
        (fun place => place.2.category? == some category) =
      placed 0 (rule.pass engine category [.plain text]) := by
  have tried : grammar.alternatives = (category, rule) :: alternatives ⟨later⟩ := by
    obtain ⟨entries⟩ := grammar
    cases listed
    exact alternatives_cons category [rule] later
  have fresh : category ∉ Table.names ⟨later⟩ := by
    rw [Table.Distinct, Table.names, listed] at distinct
    exact (List.nodup_cons.mp distinct).1
  refine placed_tokenize_first sound tried (fun token => token.category? == some category)
    (fun place among => ?_) fun fragment _ token among => ?_
  · obtain ⟨classified, earlier, behind, parts, _⟩ := mem_placed.mp among
    obtain ⟨other, kind⟩ := Token.classified_iff.mp classified
    have alone : place.2 ∈ passes engine (alternatives ⟨[(category, [rule])]⟩) [.plain text] := by
      have member : place.2 ∈ rule.pass engine category [.plain text] := by simp [parts]
      exact member
    cases List.mem_singleton.mp (mem_names_of_passes sound alone kind)
    rw [kind, beq_self_eq_true]
  · rw [beq_eq_false_iff_ne]
    exact fun kind => fresh (mem_names_of_passes sound among kind)

end Grammar

end TextDecoration
