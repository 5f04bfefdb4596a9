import TextDecoration.Text.Quoted
import TextDecoration.Toml.Number

/-!
# A quoted text determines the text

The written form of a character can be told from whatever follows it: behind a backslash the next
character says which form it is, and a code point ends with the closing brace. So characters are
read off a quoted text one by one. The closing quotation mark is no written form, so the text ends
there, and the form of a whole text can be told from what follows it, too. A quoted text stands on
one line.
-/

namespace TextDecoration

/-! ## Stretches -/

/-- Where a stretch of characters with a property ends is told by the first character without it. -/
theorem Text.takeWhile_stretch {holds : Char → Bool} {cs rest : List Char}
    (inside : ∀ c ∈ cs, holds c = true) (ends : ∀ c ∈ rest.head?, holds c = false) :
    (cs ++ rest).takeWhile holds = cs := by
  rw [List.takeWhile_append_of_pos inside]
  cases rest with
  | nil => exact List.append_nil cs
  | cons c rest => rw [List.takeWhile_cons_of_neg (by simp [ends c rfl]), List.append_nil]

/-- Two texts that begin with such stretches are equal only if the stretches are, and what follows
them. -/
theorem Text.stretch_append_inj {holds : Char → Bool} {cs ds rest other : List Char}
    (inside : ∀ c ∈ cs, holds c = true) (otherInside : ∀ d ∈ ds, holds d = true)
    (ends : ∀ c ∈ rest.head?, holds c = false) (otherEnds : ∀ d ∈ other.head?, holds d = false)
    (same : cs ++ rest = ds ++ other) : cs = ds ∧ rest = other := by
  have stretches : cs = ds := by
    rw [← takeWhile_stretch inside ends, same, takeWhile_stretch otherInside otherEnds]
  subst stretches
  exact ⟨rfl, List.append_cancel_left same⟩

/-! ## Hexadecimal digits -/

/-- A hexadecimal digit that is written for a number below sixteen has the number as its value. -/
theorem hexValue?_digitChar {d : Nat} (small : d < 16) :
    hexValue? d.digitChar = some d := by
  have all : ∀ d < 16, hexValue? (Nat.digitChar d) = some d := by decide
  exact all d small

/-- Further digits continue the number that the digits before them write. -/
theorem Toml.ofDigits_concat (base : Nat) (digits : List Char) (c : Char) :
    Toml.ofDigits base (digits ++ [c]) =
      base * Toml.ofDigits base digits + (hexValue? c).getD 0 := by
  rw [Toml.ofDigits, List.foldl_append, Toml.ofDigits, List.foldl_cons, List.foldl_nil]

namespace Text

/-- The hexadecimal digits of a number are those of its sixteenth part and one more. -/
theorem hexDigits_eq (n : Nat) :
    hexDigits n = (if n < 16 then [] else hexDigits (n / 16)) ++ [(n % 16).digitChar] := by
  rw [hexDigits, Nat.toDigits_eq_if (by decide), hexDigits]
  split
  · next small => rw [Nat.mod_eq_of_lt small, List.nil_append]
  · rfl

/-- The hexadecimal digits of a number write that number. Nothing is lost when a code point is
written. -/
theorem ofDigits_hexDigits (n : Nat) : Toml.ofDigits 16 (hexDigits n) = n := by
  induction n using Nat.strongRecOn with
  | ind n inductionHypothesis =>
    have last : hexValue? (n % 16).digitChar = some (n % 16) :=
      hexValue?_digitChar (Nat.mod_lt n (by decide))
    rw [hexDigits_eq, Toml.ofDigits_concat, last, Option.getD_some]
    split
    · next small =>
      rw [Toml.ofDigits, List.foldl_nil]
      omega
    · rw [inductionHypothesis (n / 16) (by omega)]
      omega

/-- What is written for a number in hexadecimal are digits, so the brace behind them ends it. -/
theorem isSome_of_mem_hexDigits {n : Nat} {c : Char} (member : c ∈ hexDigits n) :
    (hexValue? c).isSome = true := by
  induction n using Nat.strongRecOn with
  | ind n inductionHypothesis =>
    rw [hexDigits_eq, List.mem_append, List.mem_singleton] at member
    rcases member with before | rfl
    · split at before
      · cases before
      · exact inductionHypothesis (n / 16) (by omega) before
    · rw [hexValue?_digitChar (Nat.mod_lt n (by decide))]
      rfl

/-! ## Characters -/

/-- What is written behind a backslash, and the text behind it. A code point stands in braces. -/
def escapedChar? : List Char → Option (Char × List Char)
  | 'n' :: rest => some ('\n', rest)
  | 'r' :: rest => some ('\r', rest)
  | 't' :: rest => some ('\t', rest)
  | '0' :: rest => some ('\x00', rest)
  | 'u' :: '\x7b' :: rest =>
    let digits := rest.takeWhile (· ≠ '\x7d')
    some (Char.ofNat (Toml.ofDigits 16 digits), rest.drop (digits.length + 1))
  | c :: rest => some (c, rest)
  | [] => none

/-- The character that is written first inside quotation marks, and the text behind it. -/
def unquotedChar? : List Char → Option (Char × List Char)
  | '\\' :: rest => escapedChar? rest
  | c :: rest => some (c, rest)
  | [] => none

/-- A code point in braces is read back, whatever follows, since the closing brace is no digit. -/
theorem escapedChar?_point (c : Char) (rest : List Char) :
    escapedChar? ('u' :: '\x7b' :: hexDigits c.toNat ++ '\x7d' :: rest) = some (c, rest) := by
  have digits : (hexDigits c.toNat ++ '\x7d' :: rest).takeWhile (· ≠ '\x7d') =
      hexDigits c.toNat := by
    apply takeWhile_stretch
    · intro d member
      refine decide_eq_true ?_
      rintro rfl
      exact absurd (isSome_of_mem_hexDigits member) (by decide)
    · rintro d ⟨⟩
      decide
  simp only [escapedChar?, List.cons_append, digits, ofDigits_hexDigits, Char.ofNat_toNat]
  simp

/-- A character other than a backslash stands for itself, be it a quotation mark. -/
theorem unquotedChar?_cons {c : Char} (other : c ≠ '\\') (rest : List Char) :
    unquotedChar? (c :: rest) = some (c, rest) := by
  rw [unquotedChar?]
  exact other

/-- A character is read back from its written form, whatever follows. The three kinds of form do not
get in each other's way. -/
theorem unquotedChar?_quoteChar (c : Char) (rest : List Char) :
    unquotedChar? (quoteChar c ++ rest) = some (c, rest) := by
  unfold quoteChar
  split
  · next same => rw [same]; rfl
  split
  · next same => rw [same]; rfl
  split
  · next same => rw [same]; rfl
  split
  · next same => rw [same]; rfl
  split
  · next same => rw [same]; rfl
  split
  · next same => rw [same]; rfl
  split
  · next notBackslash _ _ _ _ _ => exact unquotedChar?_cons notBackslash rest
  · have form : ('\\' :: 'u' :: '\x7b' :: hexDigits c.toNat ++ ['\x7d']) ++ rest =
        '\\' :: ('u' :: '\x7b' :: hexDigits c.toNat ++ '\x7d' :: rest) := by simp
    rw [form]
    exact escapedChar?_point c rest

/-- No written form begins with a quotation mark, and none is empty. A quoted text thus ends at the
first such mark that is not escaped. -/
theorem quoteChar_append_ne (c : Char) (rest other : List Char) :
    quoteChar c ++ rest ≠ '"' :: other := by
  intro same
  have read := congrArg unquotedChar? same
  rw [unquotedChar?_quoteChar, unquotedChar?_cons (by decide), Option.some.injEq,
    Prod.mk.injEq] at read
  obtain ⟨rfl, _⟩ := read
  exact absurd (List.cons.inj same).1 (by decide)

/-- The marks and letters of written forms. None of them ends a line. -/
def formMarks : List Char := ['\\', '"', 'n', 'r', 't', '0', 'u', '\x7b', '\x7d']

/-- A written form is made of its marks and digits, if it is not a character that stands for
itself. -/
theorem mem_quoteChar {c d : Char} (member : d ∈ quoteChar c) :
    d ∈ formMarks ∨ (hexValue? d).isSome = true ∨ d = c ∧ c ≠ '\n' ∧ c ≠ '\r' := by
  have point : d ∈ '\\' :: 'u' :: '\x7b' :: hexDigits c.toNat ++ ['\x7d'] →
      d ∈ formMarks ∨ (hexValue? d).isSome = true := by
    rw [List.cons_append, List.cons_append, List.cons_append, List.mem_cons, List.mem_cons,
      List.mem_cons, List.mem_append, List.mem_singleton]
    rintro (rfl | rfl | rfl | digit | rfl)
    · exact Or.inl (by decide)
    · exact Or.inl (by decide)
    · exact Or.inl (by decide)
    · exact Or.inr (isSome_of_mem_hexDigits digit)
    · exact Or.inl (by decide)
  unfold quoteChar at member
  grind [formMarks]

/-- A written form holds no line feed and no carriage return, so it stays on its line. -/
theorem not_isBreak_of_mem_quoteChar {c d : Char} (member : d ∈ quoteChar c) :
    d ≠ '\n' ∧ d ≠ '\r' := by
  rcases mem_quoteChar member with mark | digit | ⟨rfl, other⟩
  · have marks : ∀ d ∈ formMarks, d ≠ '\n' ∧ d ≠ '\r' := by simp [formMarks]
    exact marks d mark
  · constructor
    · rintro rfl
      exact absurd digit (by decide)
    · rintro rfl
      exact absurd digit (by decide)
  · exact other

/-! ## Texts -/

/-- A quoted text holds no line feed and no carriage return, whatever the text is. -/
theorem not_isBreak_of_mem_quoteChars {cs : List Char} {d : Char} (member : d ∈ quoteChars cs) :
    d ≠ '\n' ∧ d ≠ '\r' := by
  rw [quoteChars, List.mem_append, List.mem_cons, List.mem_singleton] at member
  rcases member with (rfl | inside) | rfl
  · decide
  · obtain ⟨c, _, among⟩ := List.mem_flatMap.mp inside
    exact not_isBreak_of_mem_quoteChar among
  · decide

/-- The written form of a text ends where its closing quotation mark stands, and it determines the
text. The induction takes one character at a time off both. -/
theorem quoteChars_append_inj {cs ds rest other : List Char}
    (same : quoteChars cs ++ rest = quoteChars ds ++ other) : cs = ds ∧ rest = other := by
  have inner : cs.flatMap quoteChar ++ '"' :: rest = ds.flatMap quoteChar ++ '"' :: other := by
    simpa [quoteChars] using same
  clear same
  induction cs generalizing ds with
  | nil =>
    cases ds with
    | nil => exact ⟨rfl, (List.cons.inj inner).2⟩
    | cons d ds =>
      rw [List.flatMap_cons, List.append_assoc] at inner
      exact absurd inner.symm (quoteChar_append_ne d _ _)
  | cons c cs inductionHypothesis =>
    cases ds with
    | nil =>
      rw [List.flatMap_cons, List.append_assoc] at inner
      exact absurd inner (quoteChar_append_ne c _ _)
    | cons d ds =>
      rw [List.flatMap_cons, List.flatMap_cons, List.append_assoc, List.append_assoc] at inner
      have read := congrArg unquotedChar? inner
      rw [unquotedChar?_quoteChar, unquotedChar?_quoteChar, Option.some.injEq,
        Prod.mk.injEq] at read
      obtain ⟨rfl, behind⟩ := read
      obtain ⟨rfl, ends⟩ := inductionHypothesis behind
      exact ⟨rfl, ends⟩

end Text

end TextDecoration
