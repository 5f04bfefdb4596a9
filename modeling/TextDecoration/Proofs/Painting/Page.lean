import TextDecoration.CommandLine.Invocation
import TextDecoration.Proofs.Document.Ranges
import TextDecoration.Proofs.Painting.Display

/-!
# What a painted document shows

A painted document shows its lines one below the other, each in full, with an unstyled line feed
behind it. The style of a character is found in the list of all the document's ranges: it is that
of the range on the character's line that covers it. Painting itself never looks at that list; it
paints each line with the ranges of that line alone.
-/

namespace TextDecoration

/-- What a line's end shows: a line feed without a style, since a style is taken back before the
line ends. -/
def lineEnd : List (Char × Style) := [('\n', {})]

/-- What lines show: each in full and a line feed behind it, where the style of a character depends
on the line's index and the character's offset. -/
def page (style : Nat → Nat → Style) (lines : List String) : List (Char × Style) :=
  lines.zipIdx.flatMap fun line => styled (style line.2) 0 line.1.toList ++ lineEnd

/-- The style of a character by its line and offset, found in a document's list of ranges. Ranges of
other lines are passed over. -/
def Theme.styleOn (theme : Theme) (ranges : List Range) (n offset : Nat) : Style :=
  theme.styleAt (ranges.filter fun range => range.path = [n, 0]) offset

/-- If ranges of one path do not overlap, any range on the line that covers the offset decides. -/
theorem Theme.styleOn_of_mem (theme : Theme) {ranges : List Range}
    (apart : ranges.Pairwise fun earlier later =>
      earlier.path = later.path → earlier.stop ≤ later.start) {range : Range}
    (among : range ∈ ranges) {n offset : Nat} (path : range.path = [n, 0])
    (covered : range.covers offset = true) :
    theme.styleOn ranges n offset = theme.styleFor range.tags.toList range.fallback := by
  have onLine : range ∈ ranges.filter fun range => range.path = [n, 0] :=
    List.mem_filter.mpr ⟨among, decide_eq_true path⟩
  refine theme.styleAt_of_mem ?_ onLine covered
  refine (apart.filter _).imp_of_mem fun here there passed => passed ?_
  rw [of_decide_eq_true (List.mem_filter.mp here).2, of_decide_eq_true (List.mem_filter.mp there).2]

/-- What no range on the line covers is unstyled, whatever ranges there are on other lines. -/
theorem Theme.styleOn_eq_default (theme : Theme) {ranges : List Range} {n offset : Nat}
    (off : ∀ range ∈ ranges, range.path = [n, 0] → range.covers offset = false) :
    theme.styleOn ranges n offset = {} := by
  refine theme.styleAt_eq_default fun range onLine => ?_
  obtain ⟨among, path⟩ := List.mem_filter.mp onLine
  exact off range among (of_decide_eq_true path)

/-- Written texts that show their cells and leave the terminal as it was show them line by line. -/
theorem Terminal.feed_unlines {terminal : Terminal} (outside : terminal.escape = .outside)
    (plain : terminal.pen = {}) {nodes : List TextNode} {write : TextNode → String}
    (cells : TextNode → List (Char × Style))
    (shows : ∀ node ∈ nodes, ∀ terminal : Terminal, terminal.escape = .outside →
      terminal.pen = {} → terminal.feed (write node).toList =
        { terminal with shown := terminal.shown ++ cells node }) :
    terminal.feed (unlines (nodes.map write)).toList =
      { terminal with
        shown := terminal.shown ++ nodes.flatMap fun node => cells node ++ lineEnd } := by
  induction nodes generalizing terminal with
  | nil => simp [unlines, feed]
  | cons node later inductionHypothesis =>
    have line : terminal.feed (write node ++ "\n").toList =
        { terminal with shown := terminal.shown ++ (cells node ++ lineEnd) } := by
      rw [String.toList_append, feed_append, shows node List.mem_cons_self terminal outside plain]
      have lineFeed := feed_text { terminal with shown := terminal.shown ++ cells node } outside
        (by decide : '\x1b' ∉ "\n".toList)
      rw [lineFeed, plain, List.append_assoc]
      rfl
    have parts : unlines ((node :: later).map write) =
        (write node ++ "\n") ++ unlines (later.map write) := by
      rw [unlines, List.map_cons, List.map_cons, String.join_cons, unlines]
    rw [parts, String.toList_append, feed_append, line]
    refine Eq.trans (inductionHypothesis outside plain
      fun other among => shows other (List.mem_cons_of_mem _ among)) ?_
    rw [List.flatMap_cons, List.append_assoc]

/-- A page by its text nodes: what a line shows depends on the ranges with the path of its node
alone. -/
theorem page_styleOn (theme : Theme) (ranges : List Range) (buffer : Buffer) :
    page (theme.styleOn ranges) buffer.lines = buffer.textNodes.flatMap fun node =>
      styled (theme.styleAt (ranges.filter fun range => range.path = node.path)) 0
        node.text.toList ++ lineEnd := by
  rw [buffer.textNodes_eq, List.flatMap_map]
  rfl

/-- A painted document whose lines hold no escape character shows its lines in full, and the
terminal ends in its default state. -/
theorem Terminal.reading_painted (decorator : Decorator) {buffer : Buffer}
    (clean : ∀ line ∈ buffer.lines, '\x1b' ∉ line.toList) :
    Terminal.reading (OutputMode.painted.written decorator buffer) =
      { shown := page (Theme.markdown.styleOn (decorator.decorate buffer.textNodes))
          buffer.lines } := by
  rw [reading, OutputMode.written, page_styleOn, feed_unlines rfl rfl fun node =>
    styled (Theme.markdown.styleAt ((decorator.decorate buffer.textNodes).filter
      fun range => range.path = node.path)) 0 node.text.toList, List.nil_append]
  intro node member terminal outside plain
  have cleanNode : '\x1b' ∉ node.text.toList := by
    rw [buffer.textNodes_eq] at member
    obtain ⟨line, place, rfl⟩ := List.mem_map.mp member
    exact clean line.1 (List.fst_mem_of_mem_zipIdx place)
  rw [decorator.filter_decorate buffer.textNodes_distinct member, feed_paint outside plain _
    cleanNode (decorator.decorateNode_ascending node.path node.text)]

end TextDecoration
