/-!
# Slices

A slice of a text holds the characters from one offset up to another. Offsets behind the text's end
are taken for its end, and a slice that ends before it begins is empty.
-/

namespace TextDecoration

/-- The characters from one offset up to another. It is empty if the second offset is not behind the
first. -/
def slice (cs : List Char) (start stop : Nat) : List Char := (cs.drop start).take (stop - start)

/-- A slice inside the text has as many characters as its offsets are apart. Behind the text's end
it would have fewer. -/
theorem length_slice {cs : List Char} {start stop : Nat} (inside : stop ≤ cs.length) :
    (slice cs start stop).length = stop - start := by
  rw [slice, List.length_take, List.length_drop]
  omega

/-- A slice up to the text's end is all that is left of the text from where it begins. -/
theorem slice_eq_drop (cs : List Char) (start : Nat) :
    slice cs start cs.length = cs.drop start := by
  rw [slice, ← List.length_drop, List.take_length]

/-- A slice of what is left of a text is one of the text, so far behind. This turns the offsets of a
rest into those of the whole. -/
theorem slice_drop (cs : List Char) (offset start stop : Nat) :
    slice (cs.drop offset) start stop = slice cs (offset + start) (offset + stop) := by
  rw [slice, slice, List.drop_drop, Nat.add_sub_add_left]

/-- A slice and what stands behind it make up the rest of the text from where the slice begins, if
it does not end before it begins. -/
theorem slice_append_drop (cs : List Char) {start stop : Nat} (ordered : start ≤ stop) :
    slice cs start stop ++ cs.drop stop = cs.drop start := by
  have behind : (cs.drop start).drop (stop - start) = cs.drop stop := by
    rw [List.drop_drop, Nat.add_sub_cancel' ordered]
  rw [slice, ← behind, List.take_append_drop]

/-- A slice up to some offset and the one from there on make up one slice. Nothing is lost or
doubled at the seam. -/
theorem slice_append (cs : List Char) {start middle stop : Nat} (first : start ≤ middle)
    (second : middle ≤ stop) :
    slice cs start middle ++ slice cs middle stop = slice cs start stop := by
  have counted : stop - start = (middle - start) + (stop - middle) := by omega
  rw [slice, slice, slice, counted, List.take_add, List.drop_drop, Nat.add_sub_cancel' first]

/-- What stands before a slice, the slice and what stands behind it make up the text. The offsets
may lie behind the text's end. -/
theorem take_slice_drop (cs : List Char) {start stop : Nat} (ordered : start ≤ stop) :
    cs.take start ++ slice cs start stop ++ cs.drop stop = cs := by
  rw [List.append_assoc, slice_append_drop cs ordered, List.take_append_drop]

/-- A character of a slice is one of the text, so far behind where the slice begins. It stands
before the slice's end. -/
theorem getElem?_of_slice {cs : List Char} {start stop i : Nat} {c : Char}
    (present : (slice cs start stop)[i]? = some c) :
    start + i < stop ∧ cs[start + i]? = some c := by
  rw [slice, List.getElem?_take, List.getElem?_drop] at present
  split at present
  · next within => exact ⟨by omega, present⟩
  · cases present

end TextDecoration
