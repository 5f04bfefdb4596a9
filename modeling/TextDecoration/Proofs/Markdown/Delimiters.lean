import TextDecoration.Proofs.Markdown.EmphasisedTokens

/-!
# The marks around emphasised text

What stands as emphasised text somewhere is a mark, a body that is not empty, and the same mark
again. So every bold token lies between two equal double marks and every italic one between two
equal single marks, at any depth. The body may begin and end with such marks itself; which of
several ways to part the text is meant is not said here.
-/

namespace TextDecoration.Builtin.Markdown

open Pattern

/-- A text between two equal marks of the listed ones, and not just these marks. The body may hold
marks of its own. -/
def Delimited (marks : List String) (literal : String) : Prop :=
  ∃ mark ∈ marks, ∃ body, body ≠ "" ∧ literal = mark ++ body ++ mark

/-- A slice in which one character stands `width` times is that many of it, and lies in the text. -/
theorem slice_eq_replicate {text : Array Char} {start width : Nat} {c : Char}
    (same : ∀ i < width, text[start + i]? = some c) :
    slice text.toList start (start + width) = List.replicate width c := by
  rw [← extract_eq_replicate same, Array.toList_extract, List.extract_eq_take_drop, slice]

/-- Emphasised text is its mark, its body and its mark, cut out of the text that it stands in. -/
theorem Emphasised.slice_eq {text : Array Char} {width origin start close stop : Nat} {mark : Char}
    (emphasised : Emphasised text width origin start close stop mark) :
    slice text.toList start stop = List.replicate width mark ++
      slice text.toList (start + width) close ++ List.replicate width mark := by
  have filled : start + width ≤ close := Nat.le_of_lt emphasised.filled
  have ordered : start ≤ close := Nat.le_trans (Nat.le_add_right start width) filled
  calc slice text.toList start stop
      = slice text.toList start (close + width) := by rw [emphasised.stop_eq]
    _ = slice text.toList start close ++ slice text.toList close (close + width) :=
        (slice_append text.toList ordered (Nat.le_add_right close width)).symm
    _ = slice text.toList start (start + width) ++ slice text.toList (start + width) close ++
          slice text.toList close (close + width) := by
        rw [slice_append text.toList (Nat.le_add_right start width) filled]
    _ = List.replicate width mark ++ slice text.toList (start + width) close ++
          List.replicate width mark := by
        rw [slice_eq_replicate emphasised.opening, slice_eq_replicate emphasised.closing]

/-- The text of an emphasised token is a mark, a body and the mark, with at least one character in
the body. -/
theorem IsEmphasised.parts {width : Nat} {literal : String} (wide : 0 < width)
    (emphasised : IsEmphasised width literal) :
    ∃ mark body, (mark = '*' ∨ mark = '_') ∧ body ≠ [] ∧
      literal.toList = List.replicate width mark ++ body ++ List.replicate width mark := by
  obtain ⟨text, origin, start, close, stop, mark, stands, cut⟩ := emphasised
  refine ⟨mark, slice text.toList (start + width) close, stands.isMark, ?_,
    cut.trans stands.slice_eq⟩
  have inside : close < text.size :=
    (Array.getElem?_eq_some_iff.mp (stands.closing 0 wide)).1
  have counted : (slice text.toList (start + width) close).length = close - (start + width) :=
    length_slice (Nat.le_of_lt inside)
  have filled := stands.filled
  exact List.ne_nil_of_length_pos (by omega)

/-- An emphasised token lies between two equal marks, both of stars or both of low lines. -/
theorem IsEmphasised.delimited {width : Nat} {literal : String} (wide : 0 < width)
    (emphasised : IsEmphasised width literal) :
    Delimited [String.ofList (List.replicate width '*'), String.ofList (List.replicate width '_')]
      literal := by
  obtain ⟨mark, body, isMark, filled, parts⟩ := emphasised.parts wide
  refine ⟨String.ofList (List.replicate width mark), ?_, String.ofList body, ?_, ?_⟩
  · rcases isMark with rfl | rfl <;> simp
  · intro empty
    exact filled (by simpa using congrArg String.toList empty)
  · rw [← String.ofList_append, ← String.ofList_append, ← parts, String.ofList_toList]

end TextDecoration.Builtin.Markdown
