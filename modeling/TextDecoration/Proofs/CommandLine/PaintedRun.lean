import TextDecoration.Proofs.CommandLine.Arguments
import TextDecoration.Proofs.CommandLine.Runs
import TextDecoration.Proofs.Painting.Page
import TextDecoration.Proofs.Range.Json
import TextDecoration.Proofs.Text.Lines

/-!
# What a painted run shows

The output of a painted run, read by a terminal, shows the document's lines and nothing else. The
styles are those of the ranges that a run with the same settings reports as JSON: both runs make the
same decorator and the same document, and only what is written about them differs. The report is
taken at its word, since a reader of JSON recovers the very ranges from it, with their tags,
aliases, offsets and paths.
-/

namespace TextDecoration

/-- A painted run that succeeds on a text without an escape character shows every line of its
document in full, with an unstyled line feed behind it, and leaves the terminal in its default
state. There is a list of ranges that is read from the report of every run with the same settings
and inputs that reports as JSON, and a character is shown in the style of the range in that list
that has the line's path and covers the character's offset, or unstyled if there is none. To add the
option for JSON to the run's own arguments is one way to ask for that list. -/
theorem Invocation.painted_shown {invocation : Invocation} {options : Options} {text : String}
    (asked : Request.ofBytes {} invocation.arguments = .ok (.decorate options))
    (painted : options.mode = .painted) (succeeded : invocation.run.code = 0)
    (read : invocation.text options = .ok text) (clean : '\x1b' ∉ text.toList) :
    ∃ (buffer : Buffer) (ranges : List Range) (style : Nat → Nat → Style),
      invocation.buffer options = .ok buffer ∧
      buffer.lines = (Buffer.ofText buffer.name text).lines ∧
      Request.ofBytes {} (invocation.arguments ++ ["--json".toUTF8]) =
        .ok (.decorate { options with mode := .json }) ∧
      (∀ arguments,
        Request.ofBytes {} arguments = .ok (.decorate { options with mode := .json }) →
          Invocation.run { invocation with arguments } =
              { code := 0, complaint := ""
                output := unlines [(Json.Value.array (ranges.map Range.toJson)).pretty] } ∧
            Range.readJson? (Invocation.run { invocation with arguments }).output =
              some ranges) ∧
      (∀ range ∈ ranges, ∀ n offset, range.path = [n, 0] → range.covers offset = true →
        style n offset = Theme.markdown.styleFor range.tags.toList range.fallback) ∧
      (∀ n offset, (∀ range ∈ ranges, range.path = [n, 0] → range.covers offset = false) →
        style n offset = {}) ∧
      Terminal.reading invocation.run.output = { shown := page style buffer.lines } := by
  obtain ⟨output, result⟩ := Outcome.ofResult_code.mp succeeded
  have written : invocation.decorate options = .ok output := (result_eq_ok_of_asked asked).mp result
  obtain ⟨decorator, buffer, made, loaded, rfl⟩ := decorate_eq_ok.mp written
  have lines : buffer.lines = (Buffer.ofText buffer.name text).lines := buffer_lines read loaded
  have cleanLines : ∀ line ∈ buffer.lines, '\x1b' ∉ line.toList := by
    intro line member present
    rw [lines] at member
    exact clean (Buffer.mem_of_mem_lines member present)
  have apart := decorator.decorate_apart buffer.textNodes_distinct
  have option : Request.ofBytes { options with mode := .painted } ["--json".toUTF8] =
      .ok (.decorate { options with mode := .json }) := Request.ofBytes_texts _ ["--json"]
  have appended : Request.ofBytes {} (invocation.arguments ++ ["--json".toUTF8]) =
      .ok (.decorate { options with mode := .json }) := by
    rw [Request.ofBytes_append asked, ← option, ← painted]
  refine ⟨buffer, decorator.decorate buffer.textNodes,
    Theme.markdown.styleOn (decorator.decorate buffer.textNodes), loaded, lines, appended, ?_,
    fun range among n offset path covered => Theme.markdown.styleOn_of_mem apart among path covered,
    fun n offset off => Theme.markdown.styleOn_eq_default off, ?_⟩
  · intro arguments same
    have decorated : Invocation.decorate { invocation with arguments }
        { options with mode := .json } = .ok (OutputMode.json.written decorator buffer) :=
      decorate_eq_ok.mpr ⟨decorator, buffer, made, loaded, rfl⟩
    have heard : Invocation.request { invocation with arguments } =
        .ok (.decorate { options with mode := .json }) := same
    have reported : Invocation.result { invocation with arguments } =
        .ok (Range.printedJson (decorator.decorate buffer.textNodes)) :=
      (result_eq_ok_of_asked heard).mpr decorated
    rw [run, reported]
    exact ⟨rfl, Range.readJson?_printedJson _⟩
  · rw [run, result, painted]
    exact Terminal.reading_painted decorator cleanLines

/-- A run with two lines on the standard input, without files and settings. The first line is in
italics. -/
def Invocation.ofTwoLines : Invocation :=
  { arguments := [], input := "*a*\nb".toUTF8, file := fun _ => none, alarm := fun _ => "stopped" }

/-- Without arguments, files and settings, and with two lines on the standard input, a run shows
these two lines, in the styles of the ranges that are read from what the option for JSON reports. -/
theorem Invocation.painted_shown_two_lines :
    ∃ (ranges : List Range) (style : Nat → Nat → Style),
      Range.readJson?
          (Invocation.run { ofTwoLines with arguments := ["--json".toUTF8] }).output =
        some ranges ∧
      (∀ range ∈ ranges, ∀ n offset, range.path = [n, 0] → range.covers offset = true →
        style n offset = Theme.markdown.styleFor range.tags.toList range.fallback) ∧
      (∀ n offset, (∀ range ∈ ranges, range.path = [n, 0] → range.covers offset = false) →
        style n offset = {}) ∧
      Terminal.reading ofTwoLines.run.output = { shown := page style ["*a*", "b"] } := by
  have read : ofTwoLines.text {} = .ok "*a*\nb" := Text.ofBytes_toUTF8 "*a*\nb"
  have loaded : ofTwoLines.buffer {} = .ok (Buffer.ofText "*stdin*" "*a*\nb") :=
    bind_eq_ok.mpr ⟨"*a*\nb", read, rfl⟩
  have succeeded : ofTwoLines.run.code = 0 :=
    Outcome.ofResult_code.mpr ⟨_, (result_eq_ok_of_asked rfl).mpr
      (decorate_eq_ok.mpr ⟨{ grammar := Builtin.Markdown.grammar }, _, rfl, loaded, rfl⟩)⟩
  obtain ⟨buffer, ranges, style, _, lines, appended, reported, covered, off, shown⟩ :=
    Invocation.painted_shown rfl rfl succeeded read (by decide)
  have two : buffer.lines = ["*a*", "b"] := by
    rw [lines, Buffer.lines_ofText buffer.name ""]
    decide
  rw [two] at shown
  exact ⟨ranges, style, (reported ["--json".toUTF8] appended).2, covered, off, shown⟩

end TextDecoration
