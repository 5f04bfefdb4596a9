import TextDecoration.Proofs.Text.Offsets
import TextDecoration.Text.Slice

/-!
# Slices by bytes

A text that is kept in its UTF-8 form is sliced by offsets in bytes. A slice is there only if its
offsets are in order, in the text and between characters; it then has the characters between them.
An offset between characters is that of some number of characters, the text's end included.
-/

namespace TextDecoration.Text

/-- Characters between two offsets in bytes, if the offsets are in order, in the text and between
characters. -/
def byteSlice? (cs : List Char) (start stop : Nat) : Option (List Char) :=
  if start ≤ stop then do
    let first ← charOffset? cs start
    let last ← charOffset? cs stop
    return slice cs first last
  else none

/-- A slice is there just if its offsets are those of two numbers of characters in order. It has the
characters between them. -/
theorem byteSlice?_eq_some_iff {cs : List Char} {start stop : Nat} {between : List Char} :
    byteSlice? cs start stop = some between ↔
      ∃ first last, first ≤ last ∧ last ≤ cs.length ∧ byteOffset cs first = start ∧
        byteOffset cs last = stop ∧ slice cs first last = between := by
  constructor
  · intro sliced
    rw [byteSlice?] at sliced
    split at sliced
    · next ordered =>
      obtain ⟨first, begins, further⟩ := Option.bind_eq_some_iff.mp sliced
      obtain ⟨last, ends, cut⟩ := Option.bind_eq_some_iff.mp further
      obtain ⟨before, rfl⟩ := charOffset?_eq_some_iff.mp begins
      obtain ⟨inside, rfl⟩ := charOffset?_eq_some_iff.mp ends
      exact ⟨first, last, (byteOffset_le_iff before inside).mp ordered, inside, rfl, rfl,
        Option.some.inj cut⟩
    · cases sliced
  · rintro ⟨first, last, ordered, inside, rfl, rfl, rfl⟩
    have before : first ≤ cs.length := Nat.le_trans ordered inside
    rw [byteSlice?, if_pos ((byteOffset_le_iff before inside).mpr ordered),
      charOffset?_byteOffset before, charOffset?_byteOffset inside]
    rfl

/-- Between the bytes of two numbers of characters stand the characters between them, and the slice
is there. -/
theorem byteSlice?_byteOffset {cs : List Char} {start stop : Nat} (ordered : start ≤ stop)
    (inside : stop ≤ cs.length) :
    byteSlice? cs (byteOffset cs start) (byteOffset cs stop) = some (slice cs start stop) :=
  byteSlice?_eq_some_iff.mpr ⟨start, stop, ordered, inside, rfl, rfl, rfl⟩

/-- An offset in bytes that stands between characters of a text, or at one of its ends. -/
def IsBoundary (cs : List Char) (bytes : Nat) : Prop :=
  ∃ count, count ≤ cs.length ∧ byteOffset cs count = bytes

/-- The bytes of any number of characters end between characters, also where the text has fewer of
them. -/
theorem isBoundary_byteOffset (cs : List Char) (count : Nat) :
    IsBoundary cs (byteOffset cs count) := by
  rcases Nat.le_total count cs.length with inside | beyond
  · exact ⟨count, inside, rfl⟩
  · exact ⟨cs.length, Nat.le_refl _, (byteOffset_beyond beyond).symm⟩

/-- Number of characters before an offset in bytes that stands between characters. For other offsets
it is zero, which nothing relies on. -/
def countBefore (cs : List Char) (bytes : Nat) : Nat := (charOffset? cs bytes).getD 0

/-- The characters before an offset between characters are in the text and have as many bytes. -/
theorem IsBoundary.countBefore {cs : List Char} {bytes : Nat} (between : IsBoundary cs bytes) :
    countBefore cs bytes ≤ cs.length ∧ byteOffset cs (countBefore cs bytes) = bytes := by
  obtain ⟨count, inside, rfl⟩ := between
  rw [Text.countBefore, charOffset?_byteOffset inside]
  exact ⟨inside, rfl⟩

/-- No offset between characters is behind the text; the last of them is the text's end. -/
theorem IsBoundary.le {cs : List Char} {bytes : Nat} (between : IsBoundary cs bytes) :
    bytes ≤ byteOffset cs cs.length := by
  obtain ⟨count, inside, rfl⟩ := between
  exact byteOffset_mono cs inside

/-- Of two offsets between characters, the larger one is such an offset, as it is one of the two. -/
theorem IsBoundary.max {cs : List Char} {one other : Nat} (first : IsBoundary cs one)
    (second : IsBoundary cs other) : IsBoundary cs (Max.max one other) := by
  obtain ⟨count, inside, rfl⟩ := first
  obtain ⟨further, within, rfl⟩ := second
  exact ⟨Max.max count further, Nat.max_le.mpr ⟨inside, within⟩, (max_byteOffset cs _ _).symm⟩

/-- The bytes of the characters before a place and of the one that stands there are those of one
character more. -/
theorem byteOffset_succ {cs : List Char} {count : Nat} {c : Char} {rest : List Char}
    (stands : cs.drop count = c :: rest) :
    byteOffset cs count + c.utf8Size = byteOffset cs (count + 1) := by
  induction cs generalizing count with
  | nil =>
    rw [List.drop_nil] at stands
    cases stands
  | cons first cs inductionHypothesis =>
    cases count with
    | zero =>
      cases stands
      rw [byteOffset_cons, byteOffset_zero, byteOffset_zero, Nat.zero_add, Nat.add_zero]
    | succ count =>
      rw [byteOffset_cons, byteOffset_cons, Nat.add_assoc, inductionHypothesis stands]

end TextDecoration.Text
