import TextDecoration.CommandLine.Invocation
import TextDecoration.Proofs.Document.Ranges
import TextDecoration.Proofs.Text.Lines

/-!
# Line feeds inside lines

A buffer made from a text holds no line feed in any of its lines. Editing takes the text of a line
as it is given, so a line feed in a given text gets into a line, and only in this way. Written out
with a line feed behind each line, such a buffer is read back with one line more for each line feed
inside its lines. So exactly the buffers without any are read back with as many lines.

A carriage return at a line's end is not counted here: it is taken away with the line feed behind
it, but no line with it.
-/

namespace TextDecoration.Buffer

/-- A buffer that some steps make, and the texts that were given to single lines on the way. Texts
that are cut into lines are not among these. -/
inductive Made : List String → Buffer → Prop where
  | empty (name : String) : Made [] (Buffer.empty name)
  | ofText (name text : String) : Made [] (Buffer.ofText name text)
  | ofFile {path : String} {contents : Option ByteArray} {buffer : Buffer}
      (loaded : Buffer.ofFile path contents = .ok buffer) : Made [] buffer
  | setLine {texts : List String} {buffer edited : Buffer} (index : Nat) (text : String)
      (made : Made texts buffer) (replaced : buffer.setLine? index text = some edited) :
      Made (text :: texts) edited
  | insertLine {texts : List String} {buffer : Buffer} (index : Nat) (text : String)
      (made : Made texts buffer) : Made (text :: texts) (buffer.insertLine index text)

/-- Number of line feeds inside the lines. The ends of the lines are not stored and do not count. -/
def innerFeeds (buffer : Buffer) : Nat := (String.join buffer.lines).toList.count '\n'

/-- No line of a text holds a line feed, since the text is cut at every one of them. -/
theorem not_mem_of_mem_ofText {name text line : String}
    (member : line ∈ (ofText name text).lines) : '\n' ∉ line.toList := by
  rw [ofText] at member
  split at member
  · cases List.mem_singleton.mp member
    exact List.not_mem_nil
  · obtain ⟨chars, among, rfl⟩ := List.mem_map.mp member
    rw [String.toList_ofList]
    exact fun inside => (Text.mem_of_mem_lines among inside).2 rfl

/-- A line of a buffer in which a line was replaced is the new one or was there before. The line
that was replaced may still be elsewhere. -/
theorem mem_of_mem_setLine {buffer edited : Buffer} {index : Nat} {text line : String}
    (replaced : buffer.setLine? index text = some edited) (member : line ∈ edited.lines) :
    line = text ∨ line ∈ buffer.lines := by
  rw [setLine?] at replaced
  split at replaced
  · cases replaced
    exact (List.mem_or_eq_of_mem_set member).symm
  · cases replaced

/-- A line of a buffer into which a line was put is the new one or was there before. An index behind
the last line puts it at the end. -/
theorem mem_of_mem_insertLine {buffer : Buffer} {index : Nat} {text line : String}
    (member : line ∈ (buffer.insertLine index text).lines) :
    line = text ∨ line ∈ buffer.lines := by
  rcases List.mem_append.mp member with ahead | behind
  · exact Or.inr (List.mem_of_mem_take ahead)
  · rcases List.mem_cons.mp behind with same | further
    · exact Or.inl same
    · exact Or.inr (List.mem_of_mem_drop further)

/-- A line with a line feed in it was given as it is. Texts that are cut into lines give none, and
each edit brings in the text it is given and no other line. -/
theorem Made.given {texts : List String} {buffer : Buffer} (made : Made texts buffer)
    {line : String} (member : line ∈ buffer.lines) (feed : '\n' ∈ line.toList) : line ∈ texts := by
  induction made with
  | empty name =>
    cases List.mem_singleton.mp member
    cases feed
  | ofText name text => exact absurd feed (not_mem_of_mem_ofText member)
  | ofFile loaded =>
    obtain ⟨text, _, lines⟩ := lines_of_ofFile loaded
    rw [lines ""] at member
    exact absurd feed (not_mem_of_mem_ofText member)
  | setLine index text made replaced inductionHypothesis =>
    rcases mem_of_mem_setLine replaced member with rfl | before
    · exact List.mem_cons_self
    · exact List.mem_cons_of_mem _ (inductionHypothesis before)
  | insertLine index text made inductionHypothesis =>
    rcases mem_of_mem_insertLine member with rfl | before
    · exact List.mem_cons_self
    · exact List.mem_cons_of_mem _ (inductionHypothesis before)

/-- Lines that are written out hold the line feeds inside them and one behind each, the last line
included. -/
theorem count_unlines (lines : List String) : (unlines lines).toList.count '\n' =
    lines.length + (String.join lines).toList.count '\n' := by
  induction lines with
  | nil => rfl
  | cons line later inductionHypothesis =>
    have parts : unlines (line :: later) = line ++ "\n" ++ unlines later := by
      rw [unlines, List.map_cons, String.join_cons, unlines]
    have feed : "\n".toList.count '\n' = 1 := by decide
    rw [parts, String.join_cons, List.length_cons]
    simp only [String.toList_append, List.count_append, inductionHypothesis, feed]
    omega

/-- Lines that are written out end with a line feed, so that no open line is left at the end. -/
theorem endsOpen_unlines (lines : List String) : Text.endsOpen (unlines lines).toList = false := by
  rcases List.eq_nil_or_concat lines with rfl | ⟨ahead, line, rfl⟩
  · rfl
  · simp [unlines, Text.endsOpen]

/-- A buffer that is written out and read back has one line more for each line feed inside its
lines. It may be read back under any name. -/
theorem lineCount_unlines (buffer : Buffer) (name : String) :
    (ofText name (unlines buffer.lines)).lineCount = buffer.lineCount + buffer.innerFeeds := by
  have count : (unlines buffer.lines).toList.count '\n' = buffer.lineCount + buffer.innerFeeds :=
    count_unlines buffer.lines
  have filled : 0 < buffer.lineCount := List.length_pos_iff.mpr buffer.filled
  have present : (unlines buffer.lines).toList ≠ [] := by
    intro none
    rw [none, List.count_nil] at count
    omega
  rw [lineCount, ofText, dif_neg present, List.length_map, Text.length_lines, endsOpen_unlines,
    count]
  rfl

/-- There is no line feed inside the lines exactly if no line holds one: a count of zero is told
line by line. -/
theorem innerFeeds_eq_zero_iff {buffer : Buffer} :
    buffer.innerFeeds = 0 ↔ ∀ line ∈ buffer.lines, '\n' ∉ line.toList := by
  rw [innerFeeds, List.count_eq_zero, String.toList_join, List.mem_flatMap]
  simp

/-- The text nodes of a buffer are as many as its lines, so counting the nodes is counting the
lines. -/
theorem length_textNodes (buffer : Buffer) : buffer.textNodes.length = buffer.lineCount := by
  rw [textNodes_eq, List.length_map, List.length_zipIdx, lineCount]

/-- In every buffer that can be made, a line with a line feed in it is a text that was given to a
line. Written out, with a line feed behind each line, and read back, the buffer has a text node more
for each line feed inside its lines. So it has as many as before exactly if no line holds a line
feed, and if none of the given texts does, then no line does. -/
theorem line_feeds_given (texts : List String) (buffer : Buffer) (made : Made texts buffer) :
    (∀ line ∈ buffer.lines, '\n' ∈ line.toList → line ∈ texts) ∧
      (∀ name, (ofText name (unlines buffer.lines)).textNodes.length =
        buffer.textNodes.length + buffer.innerFeeds) ∧
      (∀ name, (ofText name (unlines buffer.lines)).textNodes.length = buffer.textNodes.length ↔
        ∀ line ∈ buffer.lines, '\n' ∉ line.toList) ∧
      ((∀ text ∈ texts, '\n' ∉ text.toList) → ∀ line ∈ buffer.lines, '\n' ∉ line.toList) := by
  have nodes (name : String) : (ofText name (unlines buffer.lines)).textNodes.length =
      buffer.textNodes.length + buffer.innerFeeds := by
    rw [length_textNodes, length_textNodes, lineCount_unlines]
  refine ⟨fun line member feed => made.given member feed, nodes, fun name => ?_, ?_⟩
  · rw [nodes name, ← innerFeeds_eq_zero_iff]
    omega
  · intro clean line member feed
    exact clean line (made.given member feed) feed

/-- A buffer whose only line was given a text that ends with a line feed. It is a buffer that can be
made, with a line that is none. -/
theorem made_broken : ∃ buffer, Made ["a\n"] buffer ∧ buffer.lines = ["a\n"] ∧
    buffer.innerFeeds = 1 :=
  ⟨_, Made.setLine 0 "a\n" (Made.empty "*scratch*") rfl, rfl, by decide⟩

/-- The buffer whose line was given a line feed is written out and read back with a line more. -/
theorem line_feeds_given_broken : ∃ buffer, Made ["a\n"] buffer ∧
    (ofText "*scratch*" (unlines buffer.lines)).textNodes.length =
      buffer.textNodes.length + 1 := by
  obtain ⟨buffer, made, _, feeds⟩ := made_broken
  obtain ⟨_, nodes, _⟩ := line_feeds_given ["a\n"] buffer made
  refine ⟨buffer, made, ?_⟩
  rw [nodes "*scratch*", feeds]

/-- Not every buffer that can be made is without line feeds in its lines, nor is every one read back
with as many text nodes. One step is enough for both. -/
theorem not_all_single_lines :
    (¬∀ texts buffer, Made texts buffer → ∀ line ∈ buffer.lines, '\n' ∉ line.toList) ∧
      ¬∀ texts buffer, Made texts buffer → ∀ name,
        (ofText name (unlines buffer.lines)).textNodes.length = buffer.textNodes.length := by
  obtain ⟨buffer, made, lines, feeds⟩ := made_broken
  constructor
  · intro single
    exact single _ buffer made "a\n" (by simp [lines]) (by decide)
  · intro same
    have nodes := same _ buffer made "*scratch*"
    rw [length_textNodes, length_textNodes, lineCount_unlines, feeds] at nodes
    omega

end TextDecoration.Buffer
