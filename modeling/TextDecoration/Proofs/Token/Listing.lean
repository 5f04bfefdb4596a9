import TextDecoration.Proofs.Text.LineEnds
import TextDecoration.Proofs.Text.Quoted
import TextDecoration.Token.Listing
import TextDecoration.Unicode.Blank

/-!
# A listing determines the tokens

A listing has a line for each token of the tree. A line says how deep the token lies, and what it
shows; so a listing is a sequence of entries, each with its depth. The proof has three parts: the
lines of a listing are found again in its text, an entry is read off its line, and a sequence of
entries is the tree in preorder, where the depth alone tells children from siblings.

Names have to be told from what stands around them, so a category and an alias must hold no blank,
parenthesis or quotation mark, and they must not be empty. The texts of tokens may be any: they are
quoted. The line of a nested token does not tell whether the token has children; the line behind it
does, by its depth.
-/

namespace TextDecoration.Token

/-- A name that can be told from what stands around it in a listing. Categories and aliases that are
used are of this kind. -/
structure IsName (name : String) : Prop where
  filled : name ≠ ""
  unblank : ∀ c ∈ name.toList, Unicode.isBlank c = false
  unmarked : ∀ c ∈ name.toList, c ≠ '(' ∧ c ≠ ')' ∧ c ≠ '"'

/-- Whether a name is one is told by looking at each of its characters. -/
theorem isName_iff {name : String} : IsName name ↔ name ≠ "" ∧
    (name.toList.all fun c => !Unicode.isBlank c && c ≠ '(' && c ≠ ')' && c ≠ '"') = true := by
  simp only [List.all_eq_true, Bool.and_eq_true, Bool.not_eq_true', decide_eq_true_eq]
  constructor
  · rintro ⟨filled, unblank, unmarked⟩
    refine ⟨filled, fun c inside => ?_⟩
    obtain ⟨notOpening, notClosing, notQuote⟩ := unmarked c inside
    exact ⟨⟨⟨unblank c inside, notOpening⟩, notClosing⟩, notQuote⟩
  · rintro ⟨filled, checked⟩
    refine ⟨filled, fun c inside => (checked c inside).1.1.1, fun c inside => ?_⟩
    obtain ⟨⟨⟨_, notOpening⟩, notClosing⟩, notQuote⟩ := checked c inside
    exact ⟨notOpening, notClosing, notQuote⟩

instance (name : String) : Decidable (IsName name) := decidable_of_iff _ isName_iff.symm

mutual
/-- Categories and aliases that occur in a token at any depth, in the order in which the listing
shows them. -/
def allNames : Token → List String
  | .plain _ => []
  | .leaf category fallback _ => category :: fallback.toList
  | .nested category fallback children => category :: fallback.toList ++ allNamesOf children

/-- Categories and aliases that occur in a sequence of tokens at any depth. -/
def allNamesOf : List Token → List String
  | [] => []
  | token :: tokens => allNames token ++ allNamesOf tokens
end

mutual
/-- Number of tokens of a tree, the token itself included. -/
def count : Token → Nat
  | .plain _ | .leaf _ _ _ => 1
  | .nested _ _ children => 1 + countOf children

/-- Number of tokens of some trees, taken together. -/
def countOf : List Token → Nat
  | [] => 0
  | token :: tokens => count token + countOf tokens
end

/-! ## Entries -/

/-- What a line of a listing shows. It is a line's content without its depth. -/
inductive Shown where
  /-- The text of a plain token, which has nothing else to show. -/
  | plain (text : String)
  /-- A category, an alias, and the text unless the token has children in its place. -/
  | named (category : String) (fallback : Option String) (text : Option String)
  deriving DecidableEq

/-- The line without its indentation, as it is written. -/
def Shown.line : Shown → String
  | .plain text => Text.quote text
  | .named category fallback (some text) => heading category fallback ++ " " ++ Text.quote text
  | .named category fallback none => heading category fallback

/-- The names on a line, from left to right. A plain token has none. -/
def Shown.names : Shown → List String
  | .plain _ => []
  | .named category fallback _ => category :: fallback.toList

mutual
/-- The entries of a token's listing, each with its depth. The token comes first and then its
children, one level further in. -/
def entries (depth : Nat) : Token → List (Nat × Shown)
  | .plain text => [(depth, .plain text)]
  | .leaf category fallback text => [(depth, .named category fallback (some text))]
  | .nested category fallback children =>
    (depth, .named category fallback none) :: entriesOf (depth + 1) children

/-- The entries of a sequence of tokens, which all lie at the same depth. -/
def entriesOf (depth : Nat) : List Token → List (Nat × Shown)
  | [] => []
  | token :: tokens => entries depth token ++ entriesOf depth tokens
end

mutual
/-- The lines of a token are those of its entries, each behind its indentation. With this, lines are
gone from what is to be shown. -/
theorem listingLines_eq (depth : Nat) : ∀ token : Token, token.listingLines depth =
    (entries depth token).map fun entry => indent entry.1 ++ entry.2.line
  | .plain _ => by simp [listingLines, entries, Shown.line]
  | .leaf _ _ _ => by simp [listingLines, entries, Shown.line, String.append_assoc]
  | .nested _ _ children => by
    rw [listingLines, entries, List.map_cons, listingLinesOf_eq (depth + 1) children]
    rfl

/-- The lines of a sequence of tokens are those of its entries. -/
theorem listingLinesOf_eq (depth : Nat) : ∀ tokens : List Token, listingLinesOf depth tokens =
    (entriesOf depth tokens).map fun entry => indent entry.1 ++ entry.2.line
  | [] => by simp [listingLinesOf, entriesOf]
  | token :: tokens => by
    rw [listingLinesOf, entriesOf, List.map_append, listingLines_eq depth token,
      listingLinesOf_eq depth tokens]
end

mutual
/-- A token has as many entries as its tree has tokens, one line for each. -/
theorem length_entries (depth : Nat) : ∀ token : Token, (entries depth token).length = token.count
  | .plain _ => by rw [entries, count]; rfl
  | .leaf _ _ _ => by rw [entries, count]; rfl
  | .nested _ _ children => by
    rw [entries, count, List.length_cons, length_entriesOf (depth + 1) children, Nat.add_comm]

/-- A sequence of tokens has as many entries as its trees have tokens. -/
theorem length_entriesOf (depth : Nat) :
    ∀ tokens : List Token, (entriesOf depth tokens).length = countOf tokens
  | [] => by rw [entriesOf, countOf]; rfl
  | token :: tokens => by
    rw [entriesOf, countOf, List.length_append, length_entries depth token,
      length_entriesOf depth tokens]
end

mutual
/-- The names of a token are those of its entries, in the same order. -/
theorem allNames_eq (depth : Nat) : ∀ token : Token,
    token.allNames = (entries depth token).flatMap fun entry => entry.2.names
  | .plain _ => by simp [allNames, entries, Shown.names]
  | .leaf _ _ _ => by simp [allNames, entries, Shown.names]
  | .nested _ _ children => by
    rw [allNames, entries, List.flatMap_cons, allNamesOf_eq (depth + 1) children]
    rfl

/-- The names of a sequence of tokens are those of its entries. -/
theorem allNamesOf_eq (depth : Nat) : ∀ tokens : List Token,
    allNamesOf tokens = (entriesOf depth tokens).flatMap fun entry => entry.2.names
  | [] => by simp [allNamesOf, entriesOf]
  | token :: tokens => by
    rw [allNamesOf, entriesOf, List.flatMap_append, allNames_eq depth token,
      allNamesOf_eq depth tokens]
end

/-! ## From entries to tokens -/

/-- The first entry of a token lies as deep as the token, and all others lie deeper. -/
theorem entries_eq_cons (depth : Nat) (token : Token) :
    ∃ shown inner, entries depth token = (depth, shown) :: inner := by
  cases token with
  | plain text => exact ⟨_, _, by rw [entries]⟩
  | leaf category fallback text => exact ⟨_, _, by rw [entries]⟩
  | nested category fallback children => exact ⟨_, _, by rw [entries]⟩

/-- The first entry lies less deep, if there is one. This is what tells where the children of a
token end. -/
def Shallow (depth : Nat) (rest : List (Nat × Shown)) : Prop :=
  ∀ entry ∈ rest.head?, entry.1 < depth

/-- What follows the children of a token lies less deep than they do, be it a token beside theirs or
what stands behind. -/
theorem Shallow.behind {depth : Nat} {rest : List (Nat × Shown)} (shallow : Shallow depth rest)
    (tokens : List Token) : Shallow (depth + 1) (entriesOf depth tokens ++ rest) := by
  intro entry first
  cases tokens with
  | nil =>
    rw [entriesOf] at first
    have below := shallow entry first
    omega
  | cons token tokens =>
    obtain ⟨shown, inner, head⟩ := entries_eq_cons depth token
    rw [entriesOf, head] at first
    cases first
    exact Nat.lt_succ_self depth

/-- A token has an entry, and it does not lie less deep than the token. -/
theorem Shallow.ne_cons {depth : Nat} {rest : List (Nat × Shown)} (shallow : Shallow depth rest)
    (token : Token) (tokens : List Token) (other : List (Nat × Shown)) :
    rest ≠ entriesOf depth (token :: tokens) ++ other := by
  rintro rfl
  obtain ⟨shown, inner, head⟩ := entries_eq_cons depth token
  rw [entriesOf, head] at shallow
  exact absurd (shallow (depth, shown) rfl) (Nat.lt_irrefl depth)

mutual
/-- The entries of a token determine the token, whatever no deeper entries follow. -/
theorem entries_append_inj : ∀ (token : Token) {other : Token} {depth : Nat}
    {rest behind : List (Nat × Shown)}, Shallow (depth + 1) rest → Shallow (depth + 1) behind →
      entries depth token ++ rest = entries depth other ++ behind → token = other ∧ rest = behind
  | .plain text, other, depth, rest, behind, _, _, same => by
    cases other <;> simp [entries] at same
    simp [same]
  | .leaf category fallback text, other, depth, rest, behind, _, _, same => by
    cases other <;> simp [entries] at same
    simp [same]
  | .nested category fallback children, other, depth, rest, behind, ends, otherEnds, same => by
    cases other with
    | plain text => simp [entries] at same
    | leaf name otherFallback text => simp [entries] at same
    | nested name otherFallback otherChildren =>
      rw [entries, entries, List.cons_append, List.cons_append, List.cons.injEq] at same
      obtain ⟨shown, inner⟩ := same
      obtain ⟨rfl, follows⟩ := entriesOf_append_inj children ends otherEnds inner
      cases shown
      exact ⟨rfl, follows⟩

/-- The entries of a sequence of tokens determine the tokens, whatever less deep entries follow. -/
theorem entriesOf_append_inj : ∀ (tokens : List Token) {others : List Token} {depth : Nat}
    {rest behind : List (Nat × Shown)}, Shallow depth rest → Shallow depth behind →
      entriesOf depth tokens ++ rest = entriesOf depth others ++ behind →
        tokens = others ∧ rest = behind
  | [], others, depth, rest, behind, ends, _, same => by
    cases others with
    | nil => exact ⟨rfl, same⟩
    | cons other others => exact absurd same (ends.ne_cons other others behind)
  | token :: tokens, others, depth, rest, behind, ends, otherEnds, same => by
    cases others with
    | nil => exact absurd same.symm (otherEnds.ne_cons token tokens rest)
    | cons other others =>
      rw [entriesOf, entriesOf, List.append_assoc, List.append_assoc] at same
      obtain ⟨rfl, later⟩ :=
        entries_append_inj token (ends.behind tokens) (otherEnds.behind others) same
      obtain ⟨rfl, follows⟩ := entriesOf_append_inj tokens ends otherEnds later
      exact ⟨rfl, follows⟩
end

/-- The entries of a sequence of tokens determine the tokens, where nothing follows them. -/
theorem entriesOf_inj {tokens others : List Token}
    (same : entriesOf 0 tokens = entriesOf 0 others) : tokens = others := by
  have ends : Shallow 0 [] := fun entry first => by cases first
  exact (entriesOf_append_inj tokens ends ends (by rw [same])).1

/-! ## From lines to entries -/

/-- The alias of a line in parentheses, behind a blank. Without an alias there is nothing. -/
def aliasChars : Option String → List Char
  | some name => ' ' :: '(' :: name.toList ++ [')']
  | none => []

/-- The quoted text of a line, behind a blank. A token with children has no text on its line. -/
def textChars : Option String → List Char
  | some text => ' ' :: Text.quoteChars text.toList
  | none => []

/-- A line with names is the category, then the alias, then the text. -/
theorem toList_line (category : String) (fallback text : Option String) :
    (Shown.line (.named category fallback text)).toList =
      category.toList ++ (aliasChars fallback ++ textChars text) := by
  cases fallback <;> cases text <;>
    simp [Shown.line, heading, aliasChars, textChars, Text.quote]

/-- The text of a line is read off its quoted form, which no two texts share. -/
theorem textChars_inj {text other : Option String} (same : textChars text = textChars other) :
    text = other := by
  cases text with
  | none =>
    cases other with
    | none => rfl
    | some second => cases same
  | some first =>
    cases other with
    | none => cases same
    | some second =>
      have quoted : Text.quoteChars first.toList ++ [] = Text.quoteChars second.toList ++ [] := by
        rw [(List.cons.inj same).2]
      exact congrArg some (String.toList_injective (Text.quoteChars_append_inj quoted).1)

/-- A quoted text does not begin as an alias does: behind the blank stands a quotation mark, not a
parenthesis. -/
theorem aliasChars_append_ne (name : String) (text otherText : Option String) :
    aliasChars (some name) ++ textChars text ≠ textChars otherText := by
  intro same
  cases otherText with
  | none => cases same
  | some other => exact absurd (List.cons.inj (List.cons.inj same).2).1 (by decide)

/-- The alias and the text of a line can be told apart, if the aliases are names. A closing
parenthesis in an alias could be taken for its end. -/
theorem aliasChars_append_inj {fallback otherFallback text otherText : Option String}
    (named : ∀ name ∈ fallback, IsName name) (otherNamed : ∀ name ∈ otherFallback, IsName name)
    (same : aliasChars fallback ++ textChars text =
      aliasChars otherFallback ++ textChars otherText) :
    fallback = otherFallback ∧ text = otherText := by
  cases fallback with
  | none =>
    cases otherFallback with
    | none => exact ⟨rfl, textChars_inj same⟩
    | some second => exact absurd same.symm (aliasChars_append_ne second otherText text)
  | some first =>
    cases otherFallback with
    | none => exact absurd same (aliasChars_append_ne first text otherText)
    | some second =>
      have unclosed : ∀ {name : String}, IsName name → ∀ c ∈ name.toList, (c != ')') = true :=
        fun isName c inside => bne_iff_ne.mpr (isName.unmarked c inside).2.1
      have closed : ∀ {text : Option String}, ∀ c ∈ (')' :: textChars text).head?,
          (c != ')') = false := by
        rintro text c ⟨⟩
        rfl
      have behind : first.toList ++ ')' :: textChars text =
          second.toList ++ ')' :: textChars otherText := by
        simpa [aliasChars] using same
      obtain ⟨names, rest⟩ := Text.stretch_append_inj (unclosed (named first rfl))
        (unclosed (otherNamed second rfl)) closed closed behind
      rw [String.toList_injective names, textChars_inj (List.cons.inj rest).2]
      exact ⟨rfl, rfl⟩

/-- A name begins with a character that is neither a blank nor a quotation mark. -/
theorem IsName.toList_eq_cons {name : String} (isName : IsName name) :
    ∃ c cs, name.toList = c :: cs ∧ c ≠ ' ' ∧ c ≠ '"' := by
  cases chars : name.toList with
  | nil => exact absurd (String.toList_eq_nil_iff.mp chars) isName.filled
  | cons c cs =>
    have first : c ∈ name.toList := by rw [chars]; exact List.mem_cons_self
    refine ⟨c, cs, rfl, ?_, (isName.unmarked c first).2.2⟩
    rintro rfl
    exact absurd (isName.unblank ' ' first) (by decide)

/-- A line begins with a character that is no blank. It is a quotation mark if and only if the token
is plain. -/
theorem Shown.toList_line_eq_cons {shown : Shown} (named : ∀ name ∈ shown.names, IsName name) :
    ∃ c cs, shown.line.toList = c :: cs ∧ c ≠ ' ' ∧
      (c = '"' ↔ ∃ text, shown = .plain text) := by
  cases shown with
  | plain text =>
    refine ⟨'"', _, by rw [Shown.line, Text.quote, String.toList_ofList]; rfl, by decide, ?_⟩
    exact iff_of_true rfl ⟨text, rfl⟩
  | named category fallback text =>
    obtain ⟨c, cs, chars, unblank, unmarked⟩ := (named category List.mem_cons_self).toList_eq_cons
    refine ⟨c, cs ++ (aliasChars fallback ++ textChars text), ?_, unblank, ?_⟩
    · rw [toList_line, chars, List.cons_append]
    · refine iff_of_false unmarked ?_
      rintro ⟨_, plain⟩
      cases plain

/-- What a line shows is read off the line. Category, alias and text all have marks of their own
around them. -/
theorem Shown.line_inj {shown other : Shown} (named : ∀ name ∈ shown.names, IsName name)
    (otherNamed : ∀ name ∈ other.names, IsName name) (same : shown.line = other.line) :
    shown = other := by
  obtain ⟨c, cs, chars, _, isPlain⟩ := toList_line_eq_cons named
  obtain ⟨d, ds, otherChars, _, otherPlain⟩ := toList_line_eq_cons otherNamed
  have first : c = d := by
    rw [same, otherChars] at chars
    exact (List.cons.inj chars).1.symm
  rw [first] at isPlain
  cases shown with
  | plain text =>
    obtain ⟨otherText, rfl⟩ := otherPlain.mp (isPlain.mpr ⟨text, rfl⟩)
    exact congrArg plain (Option.some.inj (textChars_inj
      (congrArg (' ' :: ·) (String.ofList_injective same))))
  | named category fallback text =>
    cases other with
    | plain otherText =>
      obtain ⟨_, impossible⟩ := isPlain.mp (otherPlain.mpr ⟨otherText, rfl⟩)
      cases impossible
    | named otherCategory otherFallback otherText =>
      have together := congrArg String.toList same
      rw [toList_line, toList_line] at together
      have unblank : ∀ {name : String}, IsName name →
          ∀ c ∈ name.toList, (!Unicode.isBlank c) = true :=
        fun isName c inside => by rw [isName.unblank c inside]; rfl
      have blank : ∀ {fallback text : Option String},
          ∀ c ∈ (aliasChars fallback ++ textChars text).head?, (!Unicode.isBlank c) = false := by
        intro fallback text c first
        cases fallback <;> cases text <;> cases first <;> decide
      obtain ⟨categories, rest⟩ :=
        Text.stretch_append_inj (unblank (named category List.mem_cons_self))
          (unblank (otherNamed otherCategory List.mem_cons_self)) blank blank together
      obtain ⟨rfl, rfl⟩ := aliasChars_append_inj
        (fun name among => named name (List.mem_cons_of_mem _ (Option.mem_toList.mpr among)))
        (fun name among => otherNamed name (List.mem_cons_of_mem _ (Option.mem_toList.mpr among)))
        rest
      rw [String.toList_injective categories]

/-- An entry is read off its line: the blanks before what is shown tell the depth. -/
theorem entry_line_inj {depth otherDepth : Nat} {shown other : Shown}
    (named : ∀ name ∈ shown.names, IsName name) (otherNamed : ∀ name ∈ other.names, IsName name)
    (same : indent depth ++ shown.line = indent otherDepth ++ other.line) :
    depth = otherDepth ∧ shown = other := by
  obtain ⟨c, cs, chars, unblank, _⟩ := Shown.toList_line_eq_cons named
  obtain ⟨d, ds, otherChars, otherUnblank, _⟩ := Shown.toList_line_eq_cons otherNamed
  have together := congrArg String.toList same
  rw [String.toList_append, String.toList_append, indent, indent, String.toList_ofList,
    String.toList_ofList] at together
  have blanks : ∀ {count : Nat}, ∀ c ∈ List.replicate count ' ', (c == ' ') = true :=
    fun c member => beq_iff_eq.mpr (List.eq_of_mem_replicate member)
  obtain ⟨indents, lines⟩ := Text.stretch_append_inj blanks blanks
    (by rw [chars]; simpa using unblank) (by rw [otherChars]; simpa using otherUnblank) together
  have widths := congrArg List.length indents
  rw [List.length_replicate, List.length_replicate] at widths
  exact ⟨by omega, Shown.line_inj named otherNamed (String.toList_injective lines)⟩

/-! ## From a listing to lines -/

/-- A name holds no line feed and no carriage return, as both are blanks. -/
theorem IsName.not_isBreak {name : String} (isName : IsName name) {c : Char}
    (inside : c ∈ name.toList) : c ≠ '\n' ∧ c ≠ '\r' := by
  have unblank := isName.unblank c inside
  constructor
  · rintro rfl
    exact absurd unblank (by decide)
  · rintro rfl
    exact absurd unblank (by decide)

/-- A line holds no line feed and no carriage return, so it is one line also for a reader. -/
theorem Shown.not_isBreak_of_mem_line {shown : Shown} (named : ∀ name ∈ shown.names, IsName name)
    {c : Char} (inside : c ∈ shown.line.toList) : c ≠ '\n' ∧ c ≠ '\r' := by
  cases shown with
  | plain text =>
    rw [line, Text.quote, String.toList_ofList] at inside
    exact Text.not_isBreak_of_mem_quoteChars inside
  | named category fallback text =>
    rw [toList_line, List.mem_append, List.mem_append] at inside
    rcases inside with inCategory | inAlias | inText
    · exact (named category List.mem_cons_self).not_isBreak inCategory
    · cases fallback with
      | none => cases inAlias
      | some name =>
        rw [aliasChars, List.mem_append, List.mem_cons, List.mem_cons,
          List.mem_singleton] at inAlias
        rcases inAlias with (rfl | rfl | inName) | rfl
        · decide
        · decide
        · exact (named name (List.mem_cons_of_mem _ List.mem_cons_self)).not_isBreak inName
        · decide
    · cases text with
      | none => cases inText
      | some text =>
        rcases List.mem_cons.mp inText with rfl | inQuoted
        · decide
        · exact Text.not_isBreak_of_mem_quoteChars inQuoted

/-- The lines of a listing are found again in its text, none of them split and none of them lost. -/
theorem lines_listing {tokens : List Token} (named : ∀ name ∈ allNamesOf tokens, IsName name) :
    Text.lines (listing tokens).toList = (listingLinesOf 0 tokens).map String.toList := by
  have clean : ∀ line ∈ listingLinesOf 0 tokens, ∀ c ∈ line.toList, c ≠ '\n' ∧ c ≠ '\r' := by
    intro line member
    rw [listingLinesOf_eq] at member
    obtain ⟨⟨depth, shown⟩, among, rfl⟩ := List.mem_map.mp member
    intro c inside
    rw [String.toList_append, indent, String.toList_ofList, List.mem_append] at inside
    rcases inside with blank | inLine
    · rw [List.eq_of_mem_replicate blank]
      decide
    · refine Shown.not_isBreak_of_mem_line (fun name onLine => named name ?_) inLine
      rw [allNamesOf_eq 0]
      exact List.mem_flatMap.mpr ⟨(depth, shown), among, onLine⟩
  rw [listing]
  apply Text.lines_join (by decide : Text.LineEnd.feed ≠ .textEnd)
  intro line member
  constructor
  · exact fun feed => (clean line member _ feed).1 rfl
  · exact fun isReturn => (clean line member _ (List.mem_of_getLast? isReturn)).2 rfl

/-- The entries of a listing are read off its lines, one by one. -/
theorem entries_of_lines {entries others : List (Nat × Shown)}
    (named : ∀ entry ∈ entries, ∀ name ∈ entry.2.names, IsName name)
    (otherNamed : ∀ entry ∈ others, ∀ name ∈ entry.2.names, IsName name)
    (same : (entries.map fun entry => indent entry.1 ++ entry.2.line) =
      others.map fun entry => indent entry.1 ++ entry.2.line) : entries = others := by
  induction entries generalizing others with
  | nil => exact (List.map_eq_nil_iff.mp same.symm).symm
  | cons entry entries inductionHypothesis =>
    cases others with
    | nil => cases same
    | cons other others =>
      rw [List.map_cons, List.map_cons, List.cons.injEq] at same
      obtain ⟨depths, contents⟩ := entry_line_inj (named entry List.mem_cons_self)
        (otherNamed other List.mem_cons_self) same.1
      have later := inductionHypothesis
        (fun entry among => named entry (List.mem_cons_of_mem _ among))
        (fun other among => otherNamed other (List.mem_cons_of_mem _ among)) same.2
      rw [Prod.ext depths contents, later]

/-- Two sequences of tokens with the same listing are equal, if categories and aliases are names:
not empty, and without blanks, parentheses and quotation marks. The texts of tokens may be any. A
listing has exactly one line for each token of the tree. -/
theorem listing_determines (tokens others : List Token)
    (named : ∀ name ∈ allNamesOf tokens, IsName name)
    (otherNamed : ∀ name ∈ allNamesOf others, IsName name) :
    (listing tokens = listing others → tokens = others) ∧
      (Text.lines (listing tokens).toList).length = countOf tokens := by
  have onLines : ∀ {tokens : List Token}, (∀ name ∈ allNamesOf tokens, IsName name) →
      ∀ entry ∈ entriesOf 0 tokens, ∀ name ∈ entry.2.names, IsName name := by
    intro tokens named entry among name onLine
    apply named
    rw [allNamesOf_eq 0]
    exact List.mem_flatMap.mpr ⟨entry, among, onLine⟩
  constructor
  · intro same
    have lines : (listingLinesOf 0 tokens).map String.toList =
        (listingLinesOf 0 others).map String.toList := by
      rw [← lines_listing named, ← lines_listing otherNamed, same]
    have same := (List.map_inj_right fun _ _ same => String.toList_injective same).mp lines
    rw [listingLinesOf_eq, listingLinesOf_eq] at same
    exact entriesOf_inj (entries_of_lines (onLines named) (onLines otherNamed) same)
  · rw [lines_listing named, List.length_map, listingLinesOf_eq, List.length_map, length_entriesOf]

/-- A tree with an empty leaf, a nested token without children and a text on two lines. All three
are hard to tell apart by looking at lines. -/
def bushy : List Token :=
  [.nested "bold" (some "strong") [.leaf "mark" none "", .nested "italic" none []],
    .plain "a\n\"e\u0301\""]

/-- The tree is not listed as that in which the nested token without children stands beside the
other one, and its listing has four lines. -/
theorem listing_determines_bushy :
    (∀ name ∈ allNamesOf bushy, IsName name) ∧
      listing bushy ≠ listing
        [.nested "bold" (some "strong") [.leaf "mark" none ""], .nested "italic" none [],
          .plain "a\n\"e\u0301\""] ∧
      (Text.lines (listing bushy).toList).length = 4 := by
  have named : ∀ name ∈ allNamesOf bushy, IsName name := by decide
  obtain ⟨determined, counted⟩ := listing_determines bushy
    [.nested "bold" (some "strong") [.leaf "mark" none ""], .nested "italic" none [],
      .plain "a\n\"e\u0301\""] named (by decide)
  refine ⟨named, fun same => ?_, counted⟩
  simpa [bushy] using determined same

end TextDecoration.Token
