import TextDecoration.Buffer
import TextDecoration.Proofs.Except

/-!
# Lines hold characters of their text

Cutting a text into lines takes line ends away and adds nothing. So whatever a text is free of, the
lines of a buffer made from it are free of too. Every line feed ends a line, so no line holds one,
and there are as many lines as line feeds, and one more if there is text behind the last of them.
-/

namespace TextDecoration

/-- Every character of a line is one of the text, and none is a line feed. -/
theorem Text.mem_of_mem_lines {cs line : List Char} (member : line ∈ Text.lines cs) {c : Char}
    (inside : c ∈ line) : c ∈ cs ∧ c ≠ '\n' := by
  fun_induction Text.lines cs generalizing line with
  | case1 => cases member
  | case2 cs inductionHypothesis =>
    rcases List.mem_cons.mp member with rfl | later
    · cases inside
    · obtain ⟨among, other⟩ := inductionHypothesis later inside
      exact ⟨List.mem_cons_of_mem _ among, other⟩
  | case3 cs inductionHypothesis =>
    rcases List.mem_cons.mp member with rfl | later
    · cases inside
    · obtain ⟨among, other⟩ := inductionHypothesis later inside
      exact ⟨List.mem_cons_of_mem _ (List.mem_cons_of_mem _ among), other⟩
  | case4 c cs other _ none inductionHypothesis =>
    cases List.mem_singleton.mp member
    cases List.mem_singleton.mp inside
    exact ⟨List.mem_cons_self, other⟩
  | case5 c cs other _ first later parts inductionHypothesis =>
    rw [parts] at inductionHypothesis
    rcases List.mem_cons.mp member with rfl | behind
    · rcases List.mem_cons.mp inside with rfl | rest
      · exact ⟨List.mem_cons_self, other⟩
      · obtain ⟨among, apart⟩ := inductionHypothesis List.mem_cons_self rest
        exact ⟨List.mem_cons_of_mem _ among, apart⟩
    · obtain ⟨among, apart⟩ := inductionHypothesis (List.mem_cons_of_mem _ behind) inside
      exact ⟨List.mem_cons_of_mem _ among, apart⟩

/-- Whether a text ends in the middle of a line. The empty text does not. -/
def Text.endsOpen (cs : List Char) : Bool := cs.getLast?.any (· != '\n')

/-- A text ends as what stands behind its first character does, if anything does. Only the last
character counts. -/
theorem Text.endsOpen_cons {c : Char} {cs : List Char} (filled : cs ≠ []) :
    endsOpen (c :: cs) = endsOpen cs := by
  rw [endsOpen, endsOpen, List.getLast?_cons_of_ne_nil filled]

/-- There are as many lines as line feeds, and one more for text behind the last of them. -/
theorem Text.length_lines (cs : List Char) :
    (lines cs).length = cs.count '\n' + (endsOpen cs).toNat := by
  have afterFeed (cs : List Char) : endsOpen ('\n' :: cs) = endsOpen cs := by
    by_cases empty : cs = []
    · rw [empty]
      rfl
    · exact endsOpen_cons empty
  fun_induction lines cs with
  | case1 => rfl
  | case2 cs inductionHypothesis =>
    rw [List.length_cons, List.count_cons_self, afterFeed, inductionHypothesis]
    omega
  | case3 cs inductionHypothesis =>
    rw [List.length_cons, List.count_cons_of_ne (by decide), List.count_cons_self,
      endsOpen_cons (List.cons_ne_nil _ _), afterFeed, inductionHypothesis]
    omega
  | case4 c cs other _ none inductionHypothesis =>
    obtain rfl : cs = [] := Decidable.byContradiction fun filled => lines_ne_nil filled none
    have noFeed : [c].count '\n' = 0 :=
      List.count_eq_zero.mpr fun inside => other (List.mem_singleton.mp inside).symm
    have opened : endsOpen [c] = true := bne_iff_ne.mpr other
    rw [noFeed, opened]
    rfl
  | case5 c cs other _ first later parts inductionHypothesis =>
    have filled : cs ≠ [] := by
      rintro rfl
      cases parts
    rw [parts] at inductionHypothesis
    rw [List.count_cons_of_ne other, endsOpen_cons filled, ← inductionHypothesis]
    rfl

/-- A buffer's lines do not depend on its name. It is only kept for display. -/
theorem Buffer.lines_ofText (name other text : String) :
    (Buffer.ofText name text).lines = (Buffer.ofText other text).lines := by
  rw [Buffer.ofText, Buffer.ofText]
  split <;> rfl

/-- A buffer read from a file holds the lines of the file's text, which is there if the buffer
is. -/
theorem Buffer.lines_of_ofFile {path : String} {contents : Option ByteArray} {buffer : Buffer}
    (loaded : Buffer.ofFile path contents = .ok buffer) :
    ∃ text, Text.ofFile contents = .ok text ∧
      ∀ name, buffer.lines = (Buffer.ofText name text).lines := by
  obtain ⟨text, read, named⟩ := bind_eq_ok.mp loaded
  cases named
  exact ⟨text, read, fun name => Buffer.lines_ofText _ _ _⟩

/-- Every character of a buffer's line is one of the text that the buffer was made from. Nothing is
put into lines. -/
theorem Buffer.mem_of_mem_lines {name text line : String}
    (member : line ∈ (Buffer.ofText name text).lines) {c : Char} (inside : c ∈ line.toList) :
    c ∈ text.toList := by
  rw [Buffer.ofText] at member
  split at member
  · cases List.mem_singleton.mp member
    cases inside
  · obtain ⟨chars, among, rfl⟩ := List.mem_map.mp member
    rw [String.toList_ofList] at inside
    exact (Text.mem_of_mem_lines among inside).1

end TextDecoration
