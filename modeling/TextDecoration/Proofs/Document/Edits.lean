import TextDecoration.Proofs.Document.Ranges

/-!
# Edits are local

Decorating works on every line by itself, so an edit changes the ranges of the line it is made on
and no others. Inserting a line moves the ranges of the lines behind it one line down; in all else
they stay as they are. Replacing a line exchanges one block of ranges for another, and where there
is no such line nothing happens.

This holds of every buffer, however it came about: a buffer is its lines, and nothing is kept of the
edits that led to it. The ranges of some of the lines are told from the others by their paths.
-/

namespace TextDecoration

/-- The same path one line further down. A path's first step is the number of its line, and the
others lead inside the line. -/
def NodePath.down : NodePath → NodePath
  | [] => []
  | line :: inner => (line + 1) :: inner

namespace Range

/-- The same range one line further down. Offsets count from the line's start and so stay as they
are. -/
def down (range : Range) : Range := { range with path := NodePath.down range.path }

/-- Whether a range is on a line whose number passes a test. A range without a line is on none. -/
def onLine (test : Nat → Bool) (range : Range) : Bool := range.path.head?.any test

end Range

namespace Decorator

variable (decorator : Decorator)

/-- The ranges of nodes in a row are those of the first and then those of the others. No node's
ranges depend on another node. -/
theorem decorate_append (first second : List TextNode) :
    decorator.decorate (first ++ second) = decorator.decorate first ++ decorator.decorate second :=
  List.flatMap_append

/-- The ranges of a node one line further down are the same ones, one line further down, as a path
is only handed on. -/
theorem decorateNode_down (path : NodePath) (text : String) :
    decorator.decorateNode (NodePath.down path) text =
      (decorator.decorateNode path text).map Range.down := by
  rw [decorateNode, decorateNode, project, project, projectFrom_eq, projectFrom_eq, List.map_map]
  rfl

/-- The ranges of lines that all begin one line further down are the same ones, one line further
down. The induction is on the lines, node by node. -/
theorem decorate_nodesFrom_succ (index : Nat) (lines : List String) :
    decorator.decorate (Buffer.nodesFrom (index + 1) lines) =
      (decorator.decorate (Buffer.nodesFrom index lines)).map Range.down := by
  induction lines generalizing index with
  | nil => rfl
  | cons text later inductionHypothesis =>
    rw [Buffer.nodesFrom, Buffer.nodesFrom, decorate, decorate, List.flatMap_cons,
      List.flatMap_cons, List.map_append, ← decorateNode_down]
    exact congrArg _ (inductionHypothesis (index + 1))

end Decorator

namespace Buffer

/-- Lines in a row are numbered one after the other. The second part begins where the first part
ends. -/
theorem nodesFrom_append (index : Nat) (first second : List String) :
    nodesFrom index (first ++ second) =
      nodesFrom index first ++ nodesFrom (index + first.length) second := by
  rw [nodesFrom_eq, nodesFrom_eq, nodesFrom_eq, List.zipIdx_append, List.map_append]

/-- A range of some lines in a row is on one of them, so two parts of a document can be told apart
by the numbers of their lines. -/
theorem line_of_mem_decorate {decorator : Decorator} {index : Nat} {lines : List String}
    {range : Range} (among : range ∈ decorator.decorate (nodesFrom index lines)) :
    ∃ line, range.path = [line, 0] ∧ index ≤ line ∧ line < index + lines.length := by
  obtain ⟨node, member, here⟩ := List.mem_flatMap.mp among
  rw [nodesFrom_eq] at member
  obtain ⟨⟨text, line⟩, place, rfl⟩ := List.mem_map.mp member
  obtain ⟨least, most, _⟩ := List.mem_zipIdx place
  exact ⟨line, Decorator.path_of_mem_decorateNode here, least, by omega⟩

section Lines

variable {decorator : Decorator} {index : Nat} {lines : List String} {test : Nat → Bool}

/-- Where all line numbers pass a test, all ranges are on lines that do, and none is left out. -/
theorem filter_onLine_all
    (passed : ∀ line, index ≤ line → line < index + lines.length → test line = true) :
    (decorator.decorate (nodesFrom index lines)).filter (Range.onLine test) =
      decorator.decorate (nodesFrom index lines) := by
  refine List.filter_eq_self.mpr fun range among => ?_
  obtain ⟨line, path, least, most⟩ := line_of_mem_decorate among
  rw [Range.onLine, path]
  exact passed line least most

/-- Where no line number passes a test, no range is on a line that does, and all are left out. -/
theorem filter_onLine_none
    (failed : ∀ line, index ≤ line → line < index + lines.length → test line = false) :
    (decorator.decorate (nodesFrom index lines)).filter (Range.onLine test) = [] := by
  refine List.filter_eq_nil_iff.mpr fun range among => ?_
  obtain ⟨line, path, least, most⟩ := line_of_mem_decorate among
  rw [Range.onLine, path, Bool.not_eq_true]
  exact failed line least most

end Lines

/-- The ranges of a buffer are those of its first lines, then those of the others, wherever the
lines are parted. -/
theorem decorate_split (decorator : Decorator) {buffer : Buffer} {ahead behind : List String}
    (parts : buffer.lines = ahead ++ behind) : decorator.decorate buffer.textNodes =
      decorator.decorate (nodesFrom 0 ahead) ++
        decorator.decorate (nodesFrom ahead.length behind) := by
  rw [textNodes, parts, nodesFrom_append, Nat.zero_add, Decorator.decorate_append]

/-- The ranges of a buffer on the lines whose numbers pass a test, in order. A document's ranges
before and behind an edit are told in this way. -/
def rangesOn (decorator : Decorator) (buffer : Buffer) (test : Nat → Bool) : List Range :=
  (decorator.decorate buffer.textNodes).filter (Range.onLine test)

section Parts

variable (decorator : Decorator) {buffer : Buffer} {ahead behind : List String} {test : Nat → Bool}

/-- The ranges on the first lines, where a test passes for these and for no others, are those of the
first lines decorated alone. -/
theorem rangesOn_ahead (parts : buffer.lines = ahead ++ behind)
    (tells : ∀ line, test line = decide (line < ahead.length)) :
    rangesOn decorator buffer test = decorator.decorate (nodesFrom 0 ahead) := by
  have first : (decorator.decorate (nodesFrom 0 ahead)).filter (Range.onLine test) =
      decorator.decorate (nodesFrom 0 ahead) :=
    filter_onLine_all fun line _ most => by simpa [tells] using most
  have others : (decorator.decorate (nodesFrom ahead.length behind)).filter (Range.onLine test) =
      [] :=
    filter_onLine_none fun line least _ => by simpa [tells] using least
  rw [rangesOn, decorate_split decorator parts, List.filter_append, first, others, List.append_nil]

/-- The ranges on the other lines, where a test passes for these and for none of the first, are
those of the other lines decorated alone. -/
theorem rangesOn_behind (parts : buffer.lines = ahead ++ behind)
    (tells : ∀ line, test line = decide (ahead.length ≤ line)) :
    rangesOn decorator buffer test = decorator.decorate (nodesFrom ahead.length behind) := by
  have first : (decorator.decorate (nodesFrom 0 ahead)).filter (Range.onLine test) = [] :=
    filter_onLine_none fun line _ most => by simp [tells]; omega
  have others : (decorator.decorate (nodesFrom ahead.length behind)).filter (Range.onLine test) =
      decorator.decorate (nodesFrom ahead.length behind) :=
    filter_onLine_all fun line least _ => by simpa [tells] using least
  rw [rangesOn, decorate_split decorator parts, List.filter_append, first, others, List.nil_append]

end Parts

/-- Decorating after a line was inserted gives the ranges of the lines before it, those of the new
line, and those of the lines behind it, moved one line down. -/
theorem decorate_insertLine (decorator : Decorator) (buffer : Buffer) (index : Nat)
    (text : String) :
    decorator.decorate (buffer.insertLine index text).textNodes =
      rangesOn decorator buffer (fun line => line < min index buffer.lineCount) ++
        decorator.decorateNode [min index buffer.lineCount, 0] text ++
        (rangesOn decorator buffer fun line => min index buffer.lineCount ≤ line).map
          Range.down := by
  have parts : buffer.lines = buffer.lines.take index ++ buffer.lines.drop index :=
    (List.take_append_drop index buffer.lines).symm
  have place : (buffer.lines.take index).length = min index buffer.lineCount := List.length_take
  have edited : (buffer.insertLine index text).lines =
      buffer.lines.take index ++ text :: buffer.lines.drop index := rfl
  rw [← place, rangesOn_ahead decorator parts fun line => rfl,
    rangesOn_behind decorator parts fun line => rfl, decorate_split decorator edited,
    nodesFrom, List.append_assoc, ← Decorator.decorate_nodesFrom_succ]
  rfl

/-- A line that is there stands between the lines before it and those behind it, and replacing it
leaves all of these. -/
theorem lines_around {buffer : Buffer} {index : Nat} (present : index < buffer.lineCount) :
    ∃ ahead line behind, buffer.lines = ahead ++ line :: behind ∧ ahead.length = index ∧
      ∀ text, ∃ edited, buffer.setLine? index text = some edited ∧
        edited.lines = ahead ++ text :: behind := by
  have bound : index < buffer.lines.length := present
  refine ⟨buffer.lines.take index, buffer.lines[index], buffer.lines.drop (index + 1), ?_,
    List.length_take_of_le (Nat.le_of_lt bound), fun text => ?_⟩
  · rw [← List.drop_eq_getElem_cons bound, List.take_append_drop]
  · rw [setLine?, if_pos present]
    exact ⟨_, rfl, (List.set_eq_take_append_cons_drop ..).trans (if_pos bound)⟩

/-- Decorating after a line was replaced gives the ranges of the lines before it, those of the new
line, and those of the lines behind it. The ranges of the old line, which stood in the place of
those of the new one, are the only ones that are gone. -/
theorem decorate_setLine (decorator : Decorator) {buffer : Buffer} {index : Nat}
    (present : index < buffer.lineCount) (text : String) :
    decorator.decorate buffer.textNodes =
        rangesOn decorator buffer (fun line => line < index) ++
          (decorator.decorate buffer.textNodes).filter (fun range => range.path = [index, 0]) ++
          rangesOn decorator buffer (fun line => index < line) ∧
      ∃ edited, buffer.setLine? index text = some edited ∧
        decorator.decorate edited.textNodes =
          rangesOn decorator buffer (fun line => line < index) ++
            decorator.decorateNode [index, 0] text ++
            rangesOn decorator buffer (fun line => index < line) := by
  obtain ⟨ahead, line, behind, parts, rfl, edits⟩ := lines_around present
  have through : buffer.lines = (ahead ++ [line]) ++ behind := by
    rw [parts, List.append_assoc]
    rfl
  have before := rangesOn_ahead decorator parts fun line => rfl
  have after : rangesOn decorator buffer (fun line => ahead.length < line) =
      decorator.decorate (nodesFrom (ahead.length + 1) behind) := by
    have tells : ∀ other, decide (ahead.length < other) =
        decide ((ahead ++ [line]).length ≤ other) := by
      intro other
      rw [List.length_append]
      rfl
    rw [rangesOn_behind decorator through tells, List.length_append]
    rfl
  have node : (⟨[ahead.length, 0], line⟩ : TextNode) ∈ buffer.textNodes := by
    rw [textNodes, parts, nodesFrom_append, nodesFrom, Nat.zero_add]
    exact List.mem_append_right _ List.mem_cons_self
  have block := decorator.filter_decorate buffer.textNodes_distinct node
  obtain ⟨edited, made, lines⟩ := edits text
  refine ⟨?_, edited, made, ?_⟩
  · rw [before, block, after, decorate_split decorator parts, nodesFrom, List.append_assoc]
    rfl
  · rw [before, after, decorate_split decorator lines, nodesFrom, List.append_assoc]
    rfl

/-- A buffer has at least one line and shows its lines in order, each under its number. An edit
changes the ranges of the line it is made on: inserting a line moves those of the lines behind it
one line down and leaves the others, replacing a line that is there leaves the ranges of all others,
and replacing one that is not there leaves the buffer, and with it all ranges, as it is. -/
theorem edits_local (decorator : Decorator) (buffer : Buffer) (index : Nat) (text : String) :
    0 < buffer.lineCount ∧
      buffer.textNodes = buffer.lines.zipIdx.map (fun line => ⟨[line.2, 0], line.1⟩) ∧
      decorator.decorate (buffer.insertLine index text).textNodes =
        rangesOn decorator buffer (fun line => line < min index buffer.lineCount) ++
          decorator.decorateNode [min index buffer.lineCount, 0] text ++
          (rangesOn decorator buffer fun line => min index buffer.lineCount ≤ line).map
            Range.down ∧
      (index < buffer.lineCount →
        decorator.decorate buffer.textNodes =
          rangesOn decorator buffer (fun line => line < index) ++
            (decorator.decorate buffer.textNodes).filter (fun range => range.path = [index, 0]) ++
            rangesOn decorator buffer (fun line => index < line) ∧
        ∃ edited, buffer.setLine? index text = some edited ∧
          decorator.decorate edited.textNodes =
            rangesOn decorator buffer (fun line => line < index) ++
              decorator.decorateNode [index, 0] text ++
              rangesOn decorator buffer (fun line => index < line)) ∧
      (buffer.lineCount ≤ index → buffer.setLine? index text = none ∧
        (buffer.setLine? index text).getD buffer = buffer) := by
  refine ⟨List.length_pos_iff.mpr buffer.filled, buffer.textNodes_eq,
    buffer.decorate_insertLine decorator index text,
    fun present => decorate_setLine decorator present text, fun absent => ?_⟩
  have refused : buffer.setLine? index text = none := by
    rw [setLine?, if_neg (Nat.not_lt.mpr absent)]
  exact ⟨refused, by rw [refused, Option.getD_none]⟩

/-- In a text of two lines the second one can be replaced, before the ranges of no further line,
and the tenth cannot. -/
theorem edits_local_two_lines :
    1 < (ofText "doc" "_plain_\nmore").lineCount ∧
      (∃ edited, (ofText "doc" "_plain_\nmore").setLine? 1 "**more**" = some edited ∧
        (Decorator.mk Builtin.Markdown.grammar .nested).decorate edited.textNodes =
          rangesOn ⟨Builtin.Markdown.grammar, .nested⟩ (ofText "doc" "_plain_\nmore")
              (fun line => line < 1) ++
            (Decorator.mk Builtin.Markdown.grammar .nested).decorateNode [1, 0] "**more**" ++
            rangesOn ⟨Builtin.Markdown.grammar, .nested⟩ (ofText "doc" "_plain_\nmore")
              (fun line => 1 < line)) ∧
      (ofText "doc" "_plain_\nmore").lineCount ≤ 9 ∧
      (ofText "doc" "_plain_\nmore").setLine? 9 "**more**" = none := by
  have present : 1 < (ofText "doc" "_plain_\nmore").lineCount := by decide
  have absent : (ofText "doc" "_plain_\nmore").lineCount ≤ 9 := by decide
  have replaced := edits_local ⟨Builtin.Markdown.grammar, .nested⟩ (ofText "doc" "_plain_\nmore") 1
    "**more**"
  have refused := edits_local ⟨Builtin.Markdown.grammar, .nested⟩ (ofText "doc" "_plain_\nmore") 9
    "**more**"
  exact ⟨present, (replaced.2.2.2.1 present).2, absent, (refused.2.2.2.2 absent).1⟩

end Buffer

end TextDecoration
