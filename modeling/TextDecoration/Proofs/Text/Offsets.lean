import TextDecoration.Text.Offset

/-!
# Bytes and characters

Every character has at least one byte. So in a text the offsets in bytes rise with those in
characters, and each of them leads back to the number of characters before it. An offset behind the
text's last byte leads to none.
-/

namespace TextDecoration.Text

/-- Before the first character there are no bytes, whatever the text. -/
@[simp] theorem byteOffset_zero (cs : List Char) : byteOffset cs 0 = 0 := by
  cases cs <;> rfl

/-- The bytes of a first character come before those of the characters behind it. -/
@[simp] theorem byteOffset_cons (c : Char) (cs : List Char) (count : Nat) :
    byteOffset (c :: cs) (count + 1) = c.utf8Size + byteOffset cs count := rfl

/-- A character more is at least a byte more. Offsets of different characters therefore differ in
bytes too. -/
theorem byteOffset_lt {cs : List Char} {count further : Nat} (ahead : count < further)
    (inside : further ≤ cs.length) : byteOffset cs count < byteOffset cs further := by
  induction cs generalizing count further with
  | nil => cases Nat.lt_of_lt_of_le ahead inside
  | cons c cs inductionHypothesis =>
    cases further with
    | zero => cases ahead
    | succ further =>
      have filled := c.utf8Size_pos
      rw [byteOffset_cons]
      cases count with
      | zero =>
        rw [byteOffset_zero]
        omega
      | succ count =>
        have later := inductionHypothesis (Nat.lt_of_succ_lt_succ ahead)
          (Nat.le_of_succ_le_succ inside)
        rw [byteOffset_cons]
        omega

/-- Inside a text, offsets in bytes are ordered as those in characters are. Behind it all offsets in
bytes are the same. -/
theorem byteOffset_le_iff {cs : List Char} {one other : Nat} (inside : one ≤ cs.length)
    (within : other ≤ cs.length) : byteOffset cs one ≤ byteOffset cs other ↔ one ≤ other := by
  rcases Nat.lt_trichotomy one other with less | same | more
  · exact iff_of_true (Nat.le_of_lt (byteOffset_lt less within)) (Nat.le_of_lt less)
  · exact iff_of_true (Nat.le_of_eq (congrArg _ same)) (Nat.le_of_eq same)
  · exact iff_of_false (Nat.not_le.mpr (byteOffset_lt more inside)) (Nat.not_le.mpr more)

/-- More characters have at least as many bytes, also where the text has no more of them. -/
theorem byteOffset_mono (cs : List Char) {count further : Nat} (ahead : count ≤ further) :
    byteOffset cs count ≤ byteOffset cs further := by
  induction cs generalizing count further with
  | nil => cases count <;> cases further <;> exact Nat.le_refl _
  | cons c cs inductionHypothesis =>
    cases count with
    | zero => exact byteOffset_zero (c :: cs) ▸ Nat.zero_le _
    | succ count =>
      cases further with
      | zero => cases ahead
      | succ further =>
        exact Nat.add_le_add_left (inductionHypothesis (Nat.le_of_succ_le_succ ahead)) _

/-- More characters than the text has have no more bytes than it has. A count that is too large does
no harm. -/
theorem byteOffset_beyond {cs : List Char} {count : Nat} (beyond : cs.length ≤ count) :
    byteOffset cs count = byteOffset cs cs.length := by
  induction cs generalizing count with
  | nil => cases count <;> rfl
  | cons c cs inductionHypothesis =>
    cases count with
    | zero => cases beyond
    | succ count =>
      rw [byteOffset_cons, List.length_cons, byteOffset_cons,
        inductionHypothesis (Nat.le_of_succ_le_succ beyond)]

/-- The larger of two offsets is the larger one in bytes, so comparing may be done in either
unit. -/
theorem max_byteOffset (cs : List Char) (one other : Nat) :
    max (byteOffset cs one) (byteOffset cs other) = byteOffset cs (max one other) := by
  rcases Nat.le_total one other with ahead | behind
  · rw [Nat.max_eq_right ahead, Nat.max_eq_right (byteOffset_mono cs ahead)]
  · rw [Nat.max_eq_left behind, Nat.max_eq_left (byteOffset_mono cs behind)]

/-- Bytes behind the first character's lead on into the characters behind it. -/
theorem charOffset?_cons (c : Char) (cs : List Char) {bytes : Nat} (some : 0 < bytes) :
    charOffset? (c :: cs) bytes =
      if c.utf8Size ≤ bytes then (charOffset? cs (bytes - c.utf8Size)).map (· + 1) else none := by
  cases bytes with
  | zero => cases some
  | succ bytes => rfl

/-- The bytes of the first characters lead back to their number, if the text has as many. -/
theorem charOffset?_byteOffset {cs : List Char} {count : Nat} (inside : count ≤ cs.length) :
    charOffset? cs (byteOffset cs count) = some count := by
  induction cs generalizing count with
  | nil =>
    cases Nat.le_zero.mp inside
    rfl
  | cons c cs inductionHypothesis =>
    cases count with
    | zero => rfl
    | succ count =>
      have filled := c.utf8Size_pos
      have later := inductionHypothesis (Nat.le_of_succ_le_succ inside)
      rw [byteOffset_cons, charOffset?_cons c cs (by omega), if_pos (Nat.le_add_right _ _),
        Nat.add_sub_cancel_left, later, Option.map_some]

/-- Bytes that lead to a number of characters are those of the characters before it. Bytes inside a
character lead nowhere. -/
theorem byteOffset_of_charOffset? {cs : List Char} {bytes count : Nat}
    (leads : charOffset? cs bytes = some count) :
    count ≤ cs.length ∧ byteOffset cs count = bytes := by
  induction cs generalizing bytes count with
  | nil =>
    cases bytes with
    | zero =>
      cases leads
      exact ⟨Nat.le_refl _, rfl⟩
    | succ bytes => cases leads
  | cons c cs inductionHypothesis =>
    rcases Nat.eq_zero_or_pos bytes with rfl | some
    · cases leads
      exact ⟨Nat.zero_le _, byteOffset_zero _⟩
    · rw [charOffset?_cons c cs some] at leads
      split at leads
      · next whole =>
        obtain ⟨behind, further, rfl⟩ := Option.map_eq_some_iff.mp leads
        obtain ⟨inside, same⟩ := inductionHypothesis further
        refine ⟨Nat.succ_le_succ inside, ?_⟩
        rw [byteOffset_cons, same, Nat.add_sub_cancel' whole]
      · cases leads

/-- The bytes that lead to a number of characters are just those of the characters before it. -/
theorem charOffset?_eq_some_iff {cs : List Char} {bytes count : Nat} :
    charOffset? cs bytes = some count ↔ count ≤ cs.length ∧ byteOffset cs count = bytes := by
  constructor
  · exact byteOffset_of_charOffset?
  · rintro ⟨inside, rfl⟩
    exact charOffset?_byteOffset inside

/-- Behind the last byte there is no offset of a character, and no search begins there. -/
theorem charOffset?_beyond {cs : List Char} {bytes : Nat}
    (beyond : byteOffset cs cs.length < bytes) : charOffset? cs bytes = none := by
  rw [Option.eq_none_iff_forall_ne_some]
  intro count leads
  obtain ⟨inside, rfl⟩ := charOffset?_eq_some_iff.mp leads
  exact Nat.not_lt.mpr ((byteOffset_le_iff inside (Nat.le_refl _)).mpr inside) beyond

end TextDecoration.Text
