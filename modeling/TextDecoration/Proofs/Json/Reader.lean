import TextDecoration.Json.Value
import TextDecoration.Proofs.Text.Quoted

/-!
# A reader of JSON values

The reader takes any JSON text of the values that are printed here: strings with every escape that
there is, numbers without sign, fraction and exponent, arrays and objects. Blanks may stand between
any two parts, so it knows nothing of the layout of a printed value. What is printed is read back as
the value it was printed for, and the text behind it is left.

Only behind a number does it matter what follows: a further digit would belong to the number. In a
printed value a comma or a line feed follows.
-/

namespace TextDecoration.Json

/-! ## The reader -/

/-- Whether a character may stand between the parts of a value. JSON admits these four and no other
blanks. -/
def isGap (c : Char) : Bool := c = ' ' || c = '\t' || c = '\n' || c = '\r'

/-- The text behind blanks, of which there may be none. -/
def skipGap (cs : List Char) : List Char := cs.dropWhile isGap

/-- The number of four hexadecimal digits, and the text behind them. -/
def codeUnit? : List Char → Option (Nat × List Char)
  | a :: b :: c :: d :: rest => do
    let digits := [← hexValue? a, ← hexValue? b, ← hexValue? c, ← hexValue? d]
    return (digits.foldl (fun unit digit => 16 * unit + digit) 0, rest)
  | _ => none

/-- What stands behind a backslash. A character beyond the first plane takes two code units, the
second one behind a backslash of its own. -/
def escaped? : List Char → Option (Char × List Char)
  | '"' :: rest => some ('"', rest)
  | '\\' :: rest => some ('\\', rest)
  | '/' :: rest => some ('/', rest)
  | 'b' :: rest => some ('\x08', rest)
  | 'f' :: rest => some ('\x0c', rest)
  | 'n' :: rest => some ('\n', rest)
  | 'r' :: rest => some ('\r', rest)
  | 't' :: rest => some ('\t', rest)
  | 'u' :: rest => do
    let (first, rest) ← codeUnit? rest
    if first.isValidChar then return (Char.ofNat first, rest)
    else
      match rest with
      | '\\' :: 'u' :: rest => do
        let (second, rest) ← codeUnit? rest
        if first < 0xdc00 ∧ 0xdc00 ≤ second ∧ second < 0xe000 then
          return (Char.ofNat (0x10000 + 0x400 * (first - 0xd800) + (second - 0xdc00)), rest)
        else none
      | _ => none
  | _ => none

/-- A character of a string. Control characters have to be escaped, all others may stand as they
are. -/
def char? : List Char → Option (Char × List Char)
  | '\\' :: rest => escaped? rest
  | c :: rest => if c.toNat < 32 then none else some (c, rest)
  | [] => none

/-- The characters of a string up to its closing quotation mark; the number bounds them. -/
def text? : Nat → List Char → Option (List Char × List Char)
  | 0, _ => none
  | _ + 1, '"' :: rest => some ([], rest)
  | steps + 1, cs => do
    let (c, rest) ← char? cs
    let (later, rest) ← text? steps rest
    return (c :: later, rest)

/-- A string, from its opening quotation mark to its closing one. -/
def string? (cs : List Char) : Option (String × List Char) :=
  match skipGap cs with
  | '"' :: rest => do
    let (text, rest) ← text? (rest.length + 1) rest
    return (String.ofList text, rest)
  | _ => none

/-- A number, written without needless zeros. Signs, fractions and exponents are left out, as no
value that is printed has them. -/
def number? (cs : List Char) : Option (Nat × List Char) :=
  let digits := cs.takeWhile Char.isDigit
  let n := Nat.ofDigitChars 10 digits 0
  if digits = Nat.toDigits 10 n then some (n, cs.drop digits.length) else none

/-- Parts with commas between them, up to the closing bracket; the number bounds them. -/
def parts? {α : Type} (read : List Char → Option (α × List Char)) (close : Char) :
    Nat → List Char → Option (List α × List Char)
  | 0, _ => none
  | steps + 1, cs => do
    let (part, rest) ← read cs
    match skipGap rest with
    | c :: rest =>
      if c = close then return ([part], rest)
      else if c = ',' then
        let (later, rest) ← parts? read close steps rest
        return (part :: later, rest)
      else none
    | [] => none

/-- What stands behind an opening bracket: parts, or the closing bracket at once. A comma behind the
last part is refused. -/
def bracket? {α : Type} (read : List Char → Option (α × List Char)) (close : Char)
    (cs : List Char) : Option (List α × List Char) :=
  match skipGap cs with
  | c :: rest => if c = close then some ([], rest) else parts? read close (cs.length + 1) cs
  | [] => none

/-- A member of an object: a name, a colon and a value, with blanks where they may stand. -/
def member? (read : List Char → Option (Value × List Char)) (cs : List Char) :
    Option ((String × Value) × List Char) := do
  let (name, rest) ← string? cs
  match skipGap rest with
  | ':' :: rest =>
    let (value, rest) ← read rest
    return ((name, value), rest)
  | _ => none

/-- A value with less than so many levels of arrays and objects. At the last level nothing is read,
so there have to be more levels than the text has characters. -/
def value? : Nat → List Char → Option (Value × List Char)
  | 0, _ => none
  | levels + 1, cs =>
    match skipGap cs with
    | '[' :: rest => (bracket? (value? levels) ']' rest).map fun (elements, rest) =>
      (.array elements, rest)
    | '\x7b' :: rest => (bracket? (member? (value? levels)) '\x7d' rest).map
      fun (members, rest) => (.object members, rest)
    | '"' :: rest => (string? ('"' :: rest)).map fun (text, rest) => (.string text, rest)
    | rest => (number? rest).map fun (n, rest) => (.number n, rest)

/-- The value that a text writes, with nothing but blanks around it. A text with anything else
behind the value writes none. -/
def read? (text : String) : Option Value := do
  let (value, rest) ← value? (text.toList.length + 1) text.toList
  if (skipGap rest).isEmpty then some value else none

/-! ## Blanks -/

/-- Blanks in front of a text do not matter, however many there are. -/
theorem skipGap_append {gap : List Char} (blank : ∀ c ∈ gap, isGap c = true) (cs : List Char) :
    skipGap (gap ++ cs) = skipGap cs := List.dropWhile_append_of_pos blank

/-- A text that does not begin with a blank is left as it is. -/
theorem skipGap_cons {c : Char} (other : isGap c = false) (cs : List Char) :
    skipGap (c :: cs) = c :: cs := List.dropWhile_cons_of_neg (by rw [other]; decide)

/-- A line feed and an indentation are blanks, so the way a value is laid out does not matter to a
reader. -/
theorem isGap_of_mem_newline {depth : Nat} {c : Char} (member : c ∈ (newline depth).toList) :
    isGap c = true := by
  rw [newline, String.toList_ofList, List.mem_cons] at member
  rcases member with rfl | inside
  · decide
  · rw [List.eq_of_mem_replicate inside]
    decide

/-! ## Strings -/

/-- A control character is read back from its code unit. Two digits are zero, as such characters
have small code points. -/
theorem codeUnit?_control {c : Char} (control : c.toNat < 32) (rest : List Char) :
    codeUnit? ('0' :: '0' :: hexDigit (c.toNat / 16) :: hexDigit (c.toNat % 16) :: rest) =
      some (c.toNat, rest) := by
  have zero : hexValue? '0' = some 0 := by decide
  have high : hexValue? (hexDigit (c.toNat / 16)) = some (c.toNat / 16) :=
    hexValue?_digitChar (by omega)
  have low : hexValue? (hexDigit (c.toNat % 16)) = some (c.toNat % 16) :=
    hexValue?_digitChar (by omega)
  have together : 16 * (c.toNat / 16) + c.toNat % 16 = c.toNat := Nat.div_add_mod _ _
  simp [codeUnit?, zero, high, low, together]

/-- A character is read back from its written form, whatever follows. Escapes of one letter, code
units and characters as they are lead to the same. -/
theorem char?_escapeChar (c : Char) (rest : List Char) :
    char? (escapeChar c ++ rest) = some (c, rest) := by
  unfold escapeChar
  split
  · next same => rw [same]; rfl
  split
  · next same => rw [same]; rfl
  split
  · next same => rw [same]; rfl
  split
  · next same => rw [same]; rfl
  split
  · next same => rw [same]; rfl
  split
  · next same => rw [same]; rfl
  split
  · next same => rw [same]; rfl
  split
  · next control =>
    have valid : c.toNat.isValidChar := c.valid
    change escaped? ('u' :: '0' :: '0' :: hexDigit (c.toNat / 16) :: hexDigit (c.toNat % 16) ::
      rest) = some (c, rest)
    simp [escaped?, codeUnit?_control control, valid]
  · next notBackslash _ _ _ _ _ visible =>
    rw [List.singleton_append, char?]
    · exact if_neg visible
    · exact notBackslash

/-- No written form begins with a quotation mark, and none is empty. A string is thus not ended by
its own characters. -/
theorem escapeChar_append_ne (c : Char) (rest other : List Char) :
    escapeChar c ++ rest ≠ '"' :: other := by
  intro same
  have read : char? ('"' :: other) = some ('"', other) := rfl
  rw [← same, char?_escapeChar, Option.some.injEq, Prod.mk.injEq] at read
  obtain ⟨rfl, _⟩ := read
  exact absurd (List.cons.inj same).1 (by decide)

/-- The characters of a string are read back up to the closing quotation mark. The induction is on
the characters. -/
theorem text?_escaped {cs rest : List Char} {steps : Nat} (enough : cs.length < steps) :
    text? steps (cs.flatMap escapeChar ++ '"' :: rest) = some (cs, rest) := by
  induction cs generalizing steps with
  | nil =>
    cases steps with
    | zero => exact absurd enough (Nat.not_lt_zero _)
    | succ steps => rfl
  | cons c cs inductionHypothesis =>
    cases steps with
    | zero => exact absurd enough (Nat.not_lt_zero _)
    | succ steps =>
      rw [List.flatMap_cons, List.append_assoc, text?]
      · rw [char?_escapeChar]
        simp [inductionHypothesis (Nat.lt_of_succ_lt_succ enough)]
      · exact fun other => escapeChar_append_ne c _ other

/-- An escaped text is not shorter than the text, so there are enough steps to read it. -/
theorem length_le_escaped (cs : List Char) : cs.length ≤ (cs.flatMap escapeChar).length := by
  induction cs with
  | nil => exact Nat.le_refl 0
  | cons c cs inductionHypothesis =>
    have filled : 0 < (escapeChar c).length := by
      rw [List.length_pos_iff]
      intro none
      have read := char?_escapeChar c []
      rw [none] at read
      cases read
    rw [List.flatMap_cons, List.length_append, List.length_cons]
    omega

/-- A printed string begins with a quotation mark, then come its characters in their written form,
and the closing mark. -/
theorem toList_string (text : String) :
    (Json.string text).toList = '"' :: (text.toList.flatMap escapeChar ++ ['"']) := by
  rw [Json.string, String.toList_ofList, List.cons_append]

/-- A string is read back, whatever follows. Its end is told by the closing quotation mark. -/
theorem string?_string (text : String) (rest : List Char) :
    string? ((Json.string text).toList ++ rest) = some (text, rest) := by
  have behind : (Json.string text).toList ++ rest =
      '"' :: (text.toList.flatMap escapeChar ++ '"' :: rest) := by
    rw [toList_string]
    simp
  have enough : text.toList.length <
      (text.toList.flatMap escapeChar ++ '"' :: rest).length + 1 := by
    have longer := length_le_escaped text.toList
    rw [List.length_append]
    omega
  rw [behind, string?, skipGap_cons (by decide)]
  simp only [text?_escaped enough, Option.bind_eq_bind, Option.bind_some, String.ofList_toList]
  rfl

/-! ## Numbers -/

/-- A number ends in front of anything but a digit. What follows a number in a printed value is
never one. -/
def EndsNumber (rest : List Char) : Prop := ∀ c ∈ rest.head?, c.isDigit = false

/-- What is written for a number are digits, with no sign before them. -/
theorem isDigit_of_mem_toString {n : Nat} {c : Char} (member : c ∈ (toString n).toList) :
    c.isDigit = true := by
  rw [Nat.toString_eq_repr, Nat.toList_repr] at member
  exact Nat.isDigit_of_mem_toDigits (by decide) (by decide) member

/-- A number is read back where no digit follows. A digit behind it would be read as its own. -/
theorem number?_toString (n : Nat) {rest : List Char} (ends : EndsNumber rest) :
    number? ((toString n).toList ++ rest) = some (n, rest) := by
  have digits : ((toString n).toList ++ rest).takeWhile Char.isDigit = (toString n).toList :=
    Text.takeWhile_stretch (fun c => isDigit_of_mem_toString) ends
  have written : (toString n).toList = Nat.toDigits 10 n := by
    rw [Nat.toString_eq_repr, Nat.toList_repr]
  rw [number?, digits, written, Nat.ofDigitChars_ten_toDigits, ← written]
  simp

/-! ## Brackets -/

section Brackets

variable {α : Type} {read : List Char → Option (α × List Char)} {print : α → String}
  {depth : Nat} {close : Char}

/-- Printed items behind blanks, with commas between them. There is no comma behind the last. -/
def separated (gap : List Char) (print : α → String) : List α → List Char
  | [] => []
  | [item] => gap ++ (print item).toList
  | item :: later => gap ++ (print item).toList ++ ',' :: separated gap print later

/-- A comma stands between two items, right behind the first of them. -/
theorem separated_cons_cons (gap : List Char) (print : α → String) (item next : α)
    (later : List α) : separated gap print (item :: next :: later) =
      gap ++ (print item).toList ++ ',' :: separated gap print (next :: later) := rfl

/-- What is printed of items between brackets: the items on lines of their own, further in, and the
closing bracket on a line that is not. -/
theorem toList_bracketed (left right : String) {items : List α} (some : items ≠ []) :
    (bracketed left right depth (items.map print)).toList =
      left.toList ++ (separated (newline (depth + 1)).toList print items ++
        ((newline depth).toList ++ right.toList)) := by
  have joined : (newline (depth + 1) ++
      String.intercalate ("," ++ newline (depth + 1)) (items.map print)).toList =
        separated (newline (depth + 1)).toList print items := by
    induction items with
    | nil => exact absurd rfl some
    | cons item later inductionHypothesis =>
      cases later with
      | nil =>
        rw [List.map_singleton, String.intercalate_singleton, String.toList_append]
        rfl
      | cons next later =>
        rw [separated_cons_cons, ← inductionHypothesis (List.cons_ne_nil _ _), List.map_cons,
          List.map_cons, String.intercalate_cons_cons]
        simp
  have filled : (items.map print).isEmpty = false := by
    rw [List.isEmpty_map, List.isEmpty_eq_false_iff]
    exact some
  rw [bracketed, filled, ← joined]
  simp

/-- Nothing but digits belongs to a number, so it ends in front of a line's end. -/
theorem endsNumber_newline (depth : Nat) (rest : List Char) :
    EndsNumber ((newline depth).toList ++ rest) := by
  rw [newline, String.toList_ofList]
  rintro c ⟨⟩
  decide

/-- Items that can be read one by one are read up to their closing bracket. -/
theorem parts?_separated {items : List α} (some : items ≠ []) (ends : isGap close = false)
    (notComma : close ≠ ',')
    (reads : ∀ item ∈ items, ∀ rest, EndsNumber rest →
      read ((newline (depth + 1)).toList ++ ((print item).toList ++ rest)) = .some (item, rest))
    {steps : Nat} (enough : (separated (newline (depth + 1)).toList print items).length < steps)
    (rest : List Char) :
    parts? read close steps (separated (newline (depth + 1)).toList print items ++
      ((newline depth).toList ++ close :: rest)) = .some (items, rest) := by
  induction items generalizing steps with
  | nil => exact absurd rfl some
  | cons item later inductionHypothesis =>
    cases steps with
    | zero => exact absurd enough (Nat.not_lt_zero _)
    | succ steps =>
      have readFirst := reads item List.mem_cons_self
      cases later with
      | nil =>
        have last := readFirst _ (endsNumber_newline depth (close :: rest))
        rw [separated, List.append_assoc, parts?, last]
        simp [skipGap_append (fun c => isGap_of_mem_newline), skipGap_cons ends]
      | cons next later =>
        have comma : EndsNumber (',' :: (separated (newline (depth + 1)).toList print
            (next :: later) ++ ((newline depth).toList ++ close :: rest))) := by
          rintro c ⟨⟩
          decide
        have shorter : (separated (newline (depth + 1)).toList print (next :: later)).length <
            steps := by
          rw [separated_cons_cons, List.length_append, List.length_cons] at enough
          omega
        have behind := inductionHypothesis (List.cons_ne_nil _ _)
          (fun item among => reads item (List.mem_cons_of_mem _ among)) shorter
        rw [separated_cons_cons, List.append_assoc, List.append_assoc, List.cons_append, parts?,
          readFirst _ comma]
        simp [skipGap_cons (show isGap ',' = false by decide), Ne.symm notComma, behind]

/-- Separated items begin with the first one, behind blanks, and not with what would close the
bracket. -/
theorem skipGap_separated {items : List α} (some : items ≠ []) (depth : Nat)
    (opens : ∀ item ∈ items, ∃ c cs, (print item).toList = c :: cs ∧ isGap c = false ∧ c ≠ close)
    (behind : List Char) :
    ∃ c cs, skipGap (separated (newline (depth + 1)).toList print items ++ behind) = c :: cs ∧
      c ≠ close := by
  cases items with
  | nil => exact absurd rfl some
  | cons item later =>
    obtain ⟨c, cs, chars, unblank, other⟩ := opens item List.mem_cons_self
    cases later with
    | nil =>
      refine ⟨c, cs ++ behind, ?_, other⟩
      rw [separated, chars, List.append_assoc,
        skipGap_append (fun c => isGap_of_mem_newline), List.cons_append, skipGap_cons unblank]
    | cons next later =>
      refine ⟨c, cs ++ ',' :: (separated (newline (depth + 1)).toList print (next :: later) ++
        behind), ?_, other⟩
      rw [separated_cons_cons, chars, List.append_assoc, List.append_assoc,
        skipGap_append (fun c => isGap_of_mem_newline), List.cons_append, List.cons_append,
        skipGap_cons unblank]

/-- Items in brackets are read back up to the closing one, whatever follows. Without items the
brackets stand next to each other. -/
theorem bracket?_bracketed {items : List α} {left right : String} {first : Char}
    (begins : left.toList = [first]) (closes : right.toList = [close])
    (ends : isGap close = false) (notComma : close ≠ ',')
    (opens : ∀ item ∈ items, ∃ c cs, (print item).toList = c :: cs ∧ isGap c = false ∧ c ≠ close)
    (reads : ∀ item ∈ items, ∀ rest, EndsNumber rest →
      read ((newline (depth + 1)).toList ++ ((print item).toList ++ rest)) = .some (item, rest))
    (rest : List Char) :
    ∃ inside, (bracketed left right depth (items.map print)).toList ++ rest = first :: inside ∧
      bracket? read close inside = some (items, rest) := by
  by_cases none : items = []
  · refine ⟨close :: rest, ?_, ?_⟩
    · simp [none, bracketed, begins, closes]
    · simp [none, bracket?, skipGap_cons ends]
  · refine ⟨separated (newline (depth + 1)).toList print items ++
      ((newline depth).toList ++ close :: rest), ?_, ?_⟩
    · simp [toList_bracketed left right none, begins, closes]
    · obtain ⟨c, cs, starts, other⟩ := skipGap_separated none depth opens
        ((newline depth).toList ++ close :: rest)
      rw [bracket?, starts]
      simp only [if_neg other]
      apply parts?_separated none ends notComma reads
      rw [List.length_append]
      omega

/-- An item is not longer than what is printed between the brackets. The levels that are left
suffice for it. -/
theorem length_lt_bracketed {items : List α} {left right : String} (begins : left.toList ≠ [])
    {item : α} (member : item ∈ items) :
    (print item).toList.length < (bracketed left right depth (items.map print)).toList.length := by
  have within : ∀ (gap : List Char) {items : List α}, item ∈ items →
      (print item).toList.length ≤ (separated gap print items).length := by
    intro gap items member
    induction items with
    | nil => cases member
    | cons other later inductionHypothesis =>
      cases later with
      | nil =>
        cases List.mem_singleton.mp member
        rw [separated, List.length_append]
        omega
      | cons next later =>
        rw [separated_cons_cons, List.length_append, List.length_append, List.length_cons]
        rcases List.mem_cons.mp member with rfl | among
        · omega
        · have shorter := inductionHypothesis among
          omega
  have filled := List.length_pos_iff.mpr begins
  have inside := within (newline (depth + 1)).toList member
  rw [toList_bracketed left right (List.ne_nil_of_mem member), List.length_append,
    List.length_append]
  omega

end Brackets

/-! ## Values -/

/-- The elements are printed one by one, each as a value at the same depth. -/
theorem printElements_eq (depth : Nat) (values : List Value) :
    Value.printElements depth values = values.map (Value.print depth) := by
  induction values with
  | nil => rw [Value.printElements, List.map_nil]
  | cons value values inductionHypothesis =>
    rw [Value.printElements, inductionHypothesis, List.map_cons]

/-- The members are printed one by one, in their order. -/
theorem printMembers_eq (depth : Nat) (members : List (String × Value)) :
    Value.printMembers depth members = members.map (Value.printMember depth) := by
  induction members with
  | nil => rw [Value.printMembers, List.map_nil]
  | cons member members inductionHypothesis =>
    rw [Value.printMembers, inductionHypothesis, List.map_cons]

/-- Blanks in front of a value do not matter, at whatever level it stands. -/
theorem value?_append {gap : List Char} (blank : ∀ c ∈ gap, isGap c = true) (levels : Nat)
    (cs : List Char) : value? levels (gap ++ cs) = value? levels cs := by
  cases levels with
  | zero => rfl
  | succ levels => rw [value?, value?, skipGap_append blank]

/-- What is printed in brackets begins with the opening one, also without parts. -/
theorem toList_bracketed_cons {left right : String} {first : Char} (begins : left.toList = [first])
    (depth : Nat) (parts : List String) :
    ∃ cs, (bracketed left right depth parts).toList = first :: cs := by
  rw [bracketed]
  split <;> simp [begins]

/-- A digit is no blank, so a number is not skipped. -/
theorem isGap_eq_false_of_isDigit {c : Char} (digit : c.isDigit = true) : isGap c = false := by
  have notBlank : ∀ blank : Char, blank.isDigit = false → c ≠ blank := by
    rintro blank notDigit rfl
    exact absurd digit (by simp [notDigit])
  simp [isGap, notBlank ' ' (by decide), notBlank '\t' (by decide), notBlank '\n' (by decide),
    notBlank '\r' (by decide)]

/-- A printed number begins with a digit. In particular it is not empty. -/
theorem toList_toString (n : Nat) : ∃ c cs, (toString n).toList = c :: cs ∧ c.isDigit = true := by
  cases digits : (toString n).toList with
  | nil =>
    rw [Nat.toString_eq_repr, Nat.toList_repr] at digits
    exact absurd digits Nat.toDigits_ne_nil
  | cons c cs =>
    exact ⟨c, cs, rfl, isDigit_of_mem_toString (by rw [digits]; exact List.mem_cons_self)⟩

/-- A printed value begins with a quotation mark, an opening bracket or a digit, so neither with a
blank nor with a closing bracket. -/
theorem toList_print (depth : Nat) (value : Value) :
    ∃ c cs, (value.print depth).toList = c :: cs ∧ isGap c = false ∧ c ≠ ']' := by
  cases value with
  | string text => exact ⟨_, _, by rw [Value.print, toList_string], by decide⟩
  | number n =>
    obtain ⟨c, cs, chars, digit⟩ := toList_toString n
    refine ⟨c, cs, by rw [Value.print, chars], isGap_eq_false_of_isDigit digit, ?_⟩
    rintro rfl
    exact absurd digit (by decide)
  | array elements =>
    rw [Value.print]
    obtain ⟨cs, chars⟩ := toList_bracketed_cons (by decide : "[".toList = ['[']) depth
      (Value.printElements (depth + 1) elements)
    exact ⟨_, cs, chars, by decide⟩
  | object members =>
    rw [Value.print]
    obtain ⟨cs, chars⟩ := toList_bracketed_cons (by decide : "\x7b".toList = ['\x7b']) depth
      (Value.printMembers (depth + 1) members)
    exact ⟨_, cs, chars, by decide⟩

/-- What is printed of a member: its name, a colon and the value behind a blank. -/
theorem toList_printMember (depth : Nat) (member : String × Value) :
    (Value.printMember depth member).toList =
      (Json.string member.1).toList ++ ':' :: ' ' :: (member.2.print depth).toList := by
  obtain ⟨name, value⟩ := member
  rw [Value.printMember]
  simp

/-- A printed member begins with a quotation mark, so neither with a blank nor with what closes an
object. -/
theorem toList_printMember_cons (depth : Nat) (member : String × Value) :
    ∃ c cs, (Value.printMember depth member).toList = c :: cs ∧ isGap c = false ∧ c ≠ '\x7d' := by
  rw [toList_printMember, toList_string]
  exact ⟨_, _, rfl, by decide⟩

/-- Blanks in front of a member do not matter. They are skipped before its name is read. -/
theorem member?_append {gap : List Char} (blank : ∀ c ∈ gap, isGap c = true)
    (read : List Char → Option (Value × List Char)) (cs : List Char) :
    member? read (gap ++ cs) = member? read cs := by
  rw [member?, member?, string?, string?, skipGap_append blank]

/-- A member is read back where its value is. Its name is a string and read back whatever
follows. -/
theorem member?_printMember {read : List Char → Option (Value × List Char)} {depth : Nat}
    (member : String × Value) {rest : List Char}
    (reads : read (' ' :: ((member.2.print depth).toList ++ rest)) = some (member.2, rest)) :
    member? read ((Value.printMember depth member).toList ++ rest) = some (member, rest) := by
  rw [toList_printMember, List.append_assoc, member?, string?_string]
  simp [skipGap_cons (show isGap ':' = false by decide), reads]

/-- A text that begins with a digit is read as a number, since no other value does. -/
theorem value?_digit {levels : Nat} {c : Char} (digit : c.isDigit = true) (cs : List Char) :
    value? (levels + 1) (c :: cs) = (number? (c :: cs)).map fun (n, rest) => (.number n, rest) := by
  rw [value?, skipGap_cons (isGap_eq_false_of_isDigit digit)]
  split
  · next same => cases same; exact absurd digit (by decide)
  · next same => cases same; exact absurd digit (by decide)
  · next same => cases same; exact absurd digit (by decide)
  · rfl

/-- A printed value is read back where a number would end. The induction is on the value, with a
level used up at each bracket. -/
theorem value?_print {levels : Nat} (value : Value) {depth : Nat} {rest : List Char}
    (enough : (value.print depth).toList.length < levels) (ends : EndsNumber rest) :
    value? levels ((value.print depth).toList ++ rest) = some (value, rest) := by
  induction levels generalizing value depth rest with
  | zero => exact absurd enough (Nat.not_lt_zero _)
  | succ levels inductionHypothesis =>
    cases value with
    | string text =>
      have whole := string?_string text rest
      rw [toList_string, List.cons_append] at whole
      rw [Value.print, toList_string, List.cons_append, value?, skipGap_cons (by decide)]
      simp only [whole, Option.map_some]
    | number n =>
      obtain ⟨c, cs, chars, digit⟩ := toList_toString n
      have whole := number?_toString n ends
      rw [chars, List.cons_append] at whole
      rw [Value.print, chars, List.cons_append, value?_digit digit, whole]
      rfl
    | array elements =>
      rw [Value.print, printElements_eq] at enough ⊢
      -- an element is shorter than the whole, so one level less is enough for it
      have reads : ∀ element ∈ elements, ∀ rest, EndsNumber rest →
          value? levels ((newline (depth + 1)).toList ++
            ((element.print (depth + 1)).toList ++ rest)) = some (element, rest) := by
        intro element among rest ends
        have shorter : (element.print (depth + 1)).toList.length <
            (bracketed "[" "]" depth (elements.map (Value.print (depth + 1)))).toList.length :=
          length_lt_bracketed (by decide) among
        rw [value?_append (fun c => isGap_of_mem_newline)]
        exact inductionHypothesis element (by omega) ends
      obtain ⟨inside, chars, behind⟩ := bracket?_bracketed (by decide : "[".toList = ['['])
        (by decide : "]".toList = [']']) (by decide) (by decide)
        (fun element _ => toList_print (depth + 1) element) reads rest
      rw [chars, value?, skipGap_cons (by decide)]
      simp only [behind, Option.map_some]
    | object members =>
      rw [Value.print, printMembers_eq] at enough ⊢
      have reads : ∀ member ∈ members, ∀ rest, EndsNumber rest →
          member? (value? levels) ((newline (depth + 1)).toList ++
            ((Value.printMember (depth + 1) member).toList ++ rest)) = some (member, rest) := by
        intro member among rest ends
        have shorter : (Value.printMember (depth + 1) member).toList.length <
            (bracketed "\x7b" "\x7d" depth
              (members.map (Value.printMember (depth + 1)))).toList.length :=
          length_lt_bracketed (by decide) among
        rw [toList_printMember, List.length_append, List.length_cons, List.length_cons] at shorter
        rw [member?_append (fun c => isGap_of_mem_newline)]
        apply member?_printMember
        rw [← List.singleton_append, value?_append (List.forall_mem_singleton.mpr (by decide))]
        exact inductionHypothesis member.2 (by omega) ends
      obtain ⟨inside, chars, behind⟩ := bracket?_bracketed (by decide : "\x7b".toList = ['\x7b'])
        (by decide : "\x7d".toList = ['\x7d']) (by decide) (by decide)
        (fun member _ => toList_printMember_cons (depth + 1) member) reads rest
      rw [chars, value?, skipGap_cons (by decide)]
      simp only [behind, Option.map_some]

/-- A number ends in front of a blank, and at the end of a text. -/
theorem endsNumber_of_blank {cs : List Char} (blank : ∀ c ∈ cs, isGap c = true) :
    EndsNumber cs := by
  intro c first
  cases digit : c.isDigit with
  | false => rfl
  | true =>
    have gap := blank c (List.mem_of_mem_head? first)
    rw [isGap_eq_false_of_isDigit digit] at gap
    cases gap

/-- A printed value is read back, with blanks behind it or without. Different values are therefore
never printed alike. -/
theorem read?_pretty (value : Value) {behind : String}
    (blank : ∀ c ∈ behind.toList, isGap c = true) :
    read? (value.pretty ++ behind) = some value := by
  have enough : (value.print 0).toList.length < (value.pretty ++ behind).toList.length + 1 := by
    rw [Value.pretty, String.toList_append, List.length_append]
    omega
  have whole := value?_print value enough (endsNumber_of_blank blank)
  have nothing : skipGap behind.toList = [] := by
    have all := skipGap_append blank []
    rwa [List.append_nil] at all
  rw [Value.pretty, String.toList_append] at whole
  rw [read?, Value.pretty, String.toList_append, whole]
  simp [nothing]

end TextDecoration.Json
