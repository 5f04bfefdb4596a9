import TextDecoration.Proofs.Grammar.Parts
import TextDecoration.Proofs.Markdown.Emphasis

/-!
# Bold and italic tokens

Every bold token holds text between two double marks, and every italic token text between two single
ones, in the sense of `Emphasised`, however deeply the token is nested. The grammar nests bold and
italic text in each other, and every copy of a rule keeps its pattern and its lookbehind setting;
that is decided by computation over the listed parts of the grammar. With this setting the first
group is left out, so that the token begins with its mark.
-/

namespace TextDecoration.Builtin.Markdown

open Pattern Text

/-- A text that stands somewhere as emphasised text with marks of a given width. Where it stands is
not told. -/
def IsEmphasised (width : Nat) (literal : String) : Prop :=
  ∃ text origin start close stop mark, Emphasised text width origin start close stop mark ∧
    literal.toList = slice text.toList start stop

/-- Emphasised text begins behind the first group of its fit, or where the fit begins if nothing
stands before it. -/
theorem Emphasised.origin_le {text : Array Char} {width origin start close stop : Nat} {mark : Char}
    (emphasised : Emphasised text width origin start close stop mark) : origin ≤ start := by
  rcases emphasised.before with ⟨same, _⟩ | ⟨behind, _⟩ <;> omega

/-- A pattern that has the tree for emphasis, with marks of a given width, and whose searches retry
and store the group's end. -/
def Emphasises (pattern : Pattern) (width : Nat) : Prop :=
  ∃ mark, Marks width mark ∧ pattern.meaning.node = emphasis mark ∧
    pattern.meaning.retries = true ∧ pattern.meaning.groups = 2

/-- The pattern for bold text takes double marks. It is one of two patterns that are treated alike
from here on. -/
theorem emphasises_bold : Emphasises bold 2 :=
  ⟨doubleMark, marks_doubleMark, node_bold, retries_bold⟩

/-- The pattern for italic text takes single marks, and is treated like the one for bold text. -/
theorem emphasises_italic : Emphasises italic 1 :=
  ⟨singleMark, marks_singleMark, node_italic, retries_italic⟩

/-- What a rule with such a pattern that leaves out its first group finds is the preferred way of
the tree, less its first group. -/
theorem preferred_of_search {rule : Rule} {width : Nat} {rest : List Char} {hit : Hit}
    (emphasises : Emphasises rule.pattern width) (context : rule.lookbehind = true)
    (searched : rule.search Pattern.locate rest = some hit) :
    ∃ mark way, Marks width mark ∧
      ((emphasis mark).ways rest.toArray hit.origin (List.replicate 6 none)).head? = some way ∧
      way.stop = hit.stop ∧ way.slots[3]? = some (some hit.start) := by
  obtain ⟨mark, marks, tree, retries, groups⟩ := emphasises
  obtain ⟨reached, fit, _, _, located, rfl, _⟩ := Engine.find_fit searched
  obtain ⟨stored, preferred, grouped⟩ := locate_way retries located
  have unused : rule.pattern.emptySlots = List.replicate 6 none := by
    rw [Pattern.emptySlots, groups]
  rw [tree, unused] at preferred
  obtain ⟨start, close, c, emphasised, slot⟩ :=
    mem_ways_emphasis marks (List.mem_of_head? preferred)
  have begins : (fit.hit rule.lookbehind).start = start := by
    rw [Pattern.Fit.hit, context, grouped, slot]
    exact Nat.max_eq_left emphasised.origin_le
  rw [← begins] at slot
  exact ⟨mark, ⟨fit.stop, stored⟩, marks, preferred, rfl, slot⟩

/-- What a rule with such a pattern finds is emphasised text, since all ways of the tree take such
text. -/
theorem emphasised_of_search {rule : Rule} {width : Nat} {rest : List Char} {hit : Hit}
    (emphasises : Emphasises rule.pattern width) (context : rule.lookbehind = true)
    (searched : rule.search Pattern.locate rest = some hit) :
    ∃ close mark, Emphasised rest.toArray width hit.origin hit.start close hit.stop mark := by
  obtain ⟨mark, way, marks, preferred, stop, slot⟩ :=
    preferred_of_search emphasises context searched
  obtain ⟨start, close, c, emphasised, same⟩ :=
    mem_ways_emphasis marks (List.mem_of_head? preferred)
  rw [slot] at same
  cases same
  exact ⟨close, c, stop ▸ emphasised⟩

/-- The tokens of a rule with such a pattern hold emphasised text only, whatever text they are found
in. -/
theorem isEmphasised_of_finds {rule : Rule} {width : Nat} {matched : String}
    (emphasises : Emphasises rule.pattern width) (context : rule.lookbehind = true)
    (finds : rule.Finds Pattern.locate matched) : IsEmphasised width matched := by
  obtain ⟨rest, hit, searched, rfl⟩ := finds
  obtain ⟨close, mark, emphasised⟩ := emphasised_of_search emphasises context searched
  refine ⟨rest.toArray, hit.origin, hit.start, close, hit.stop, mark, emphasised, ?_⟩
  rw [String.toList_ofList, List.toList_toArray]

/-- Whether a rule has a pattern with the text of a given one and leaves out its first group, if it
is listed under a given category. -/
def keepsRule (category : String) (pattern : Pattern) (listed : String) (rule : Rule) : Bool :=
  listed != category || (rule.pattern.text == pattern.text && rule.lookbehind)

/-- A rule that passes this check under its own category keeps the pattern and the setting, since
the text of the pattern is one that is read. -/
theorem of_keepsRule {category : String} {pattern : Pattern} {rule : Rule}
    (known : (readMeaning pattern.text.toList).isSome = true)
    (checked : keepsRule category pattern category rule = true) :
    rule.pattern = pattern ∧ rule.lookbehind = true := by
  have kept : rule.pattern.text = pattern.text ∧ rule.lookbehind = true := by
    simpa [keepsRule] using checked
  exact ⟨Pattern.eq_of_text_eq known kept.1, kept.2⟩

/-- All rules under a category, in all parts of the grammar, have a given pattern and leave out its
first group. -/
def Keeps (category : String) (pattern : Pattern) : Prop :=
  ∀ part rule, grammar.Part part → (category, rule) ∈ part.alternatives →
    rule.pattern = pattern ∧ rule.lookbehind = true

/-- Whether a rule under either category of emphasised text keeps its pattern. Rules under other
categories pass. -/
def keepsEmphasis (category : String) (rule : Rule) : Bool :=
  keepsRule "bold" bold category rule && keepsRule "italic" italic category rule

/-- All rules in all parts of the grammar keep the patterns for emphasised text. Parts are many, so
they are checked by evaluation. -/
theorem keepsEmphasis_listed : ((Grammar.parts grammar).all fun part =>
    part.alternatives.all fun alternative => keepsEmphasis alternative.1 alternative.2) = true :=
  rfl

/-- All rules for bold text have the pattern for bold text and leave out its first group. -/
theorem keeps_bold : Keeps "bold" bold := fun _ _ below listed =>
  of_keepsRule (Pattern.isSome_readMeaning_known _)
    (Bool.and_eq_true_iff.mp (below.checked keepsEmphasis_listed listed)).1

/-- All rules for italic text have the pattern for italic text and leave out its first group. -/
theorem keeps_italic : Keeps "italic" italic := fun _ _ below listed =>
  of_keepsRule (Pattern.isSome_readMeaning_known _)
    (Bool.and_eq_true_iff.mp (below.checked keepsEmphasis_listed listed)).2

section Tokens

variable {text : String} {layer : List Token} {token : Token}

/-- Where all rules of a category have the same such pattern, its tokens hold emphasised text, at
any depth. -/
theorem isEmphasised_of_category {category : String} {pattern : Pattern} {width : Nat}
    (keeps : Keeps category pattern) (emphasises : Emphasises pattern width)
    (layered : Layer (grammar.tokenize text) layer) (member : token ∈ layer)
    (own : token.category? = some category) : IsEmphasised width token.literal := by
  obtain ⟨part, rule, below, listed, finds⟩ := layered.finds Pattern.locate_sound member own
  obtain ⟨rfl, context⟩ := keeps part rule below listed
  exact isEmphasised_of_finds emphasises context finds

/-- A bold token holds text between double marks, at any depth. -/
theorem isEmphasised_of_bold (layered : Layer (grammar.tokenize text) layer)
    (member : token ∈ layer) (own : token.category? = some "bold") :
    IsEmphasised 2 token.literal :=
  isEmphasised_of_category keeps_bold emphasises_bold layered member own

/-- An italic token holds text between single marks, at any depth. -/
theorem isEmphasised_of_italic (layered : Layer (grammar.tokenize text) layer)
    (member : token ∈ layer) (own : token.category? = some "italic") :
    IsEmphasised 1 token.literal :=
  isEmphasised_of_category keeps_italic emphasises_italic layered member own

end Tokens

end TextDecoration.Builtin.Markdown
