import TextDecoration.Decorator
import TextDecoration.Text.FileName
import TextDecoration.Text.Lines
import TextDecoration.Text.Utf8

/-!
# Buffers

A buffer is a document of lines, each a paragraph with a single text node: line `n` has the path
`[n, 0]`. A buffer always has a line, be it an empty one.
-/

namespace TextDecoration

/-- Lines of text under a name. There is always at least one line, so an empty buffer is a buffer
with one empty line. -/
structure Buffer where
  /-- Name shown for the buffer. Two buffers may have the same one; nothing is looked up by it. -/
  name : String
  /-- Path of the file that the buffer was read from. A buffer that was made from a text has
  none. -/
  file : Option String := none
  /-- The lines, without their ends. -/
  lines : List String
  /-- There is a line, whatever was edited. -/
  filled : lines ≠ []

namespace Buffer

/-- A buffer with one empty line, which is what a new document looks like before anything is
typed. -/
def empty (name : String) : Buffer := { name, lines := [""], filled := by simp }

/-- A buffer with the lines of a text. The empty text has no lines of its own, and an empty line
stands in for them. -/
def ofText (name text : String) : Buffer :=
  if present : text.toList = [] then empty name
  else
    { name
      lines := (Text.lines text.toList).map String.ofList
      filled := by simpa using Text.lines_ne_nil present }

/-- A buffer with the lines of a file, named after the path's last component. It fails where there
is no file and where the bytes are no text; nothing else about the contents can make it fail. -/
def ofFile (path : String) (contents : Option ByteArray) : Except Error Buffer := do
  let text ← Text.ofFile contents
  let name := match Text.fileName? path with
    | some component => String.ofList component
    | none => "unnamed"
  return { ofText name text with file := some path }

/-- Number of lines, counting the last one whether or not the text it came from ended it. -/
def lineCount (buffer : Buffer) : Nat := buffer.lines.length

/-- The line at an index. Indices count from zero, and behind the last line there is none. -/
def line? (buffer : Buffer) (index : Nat) : Option String := buffer.lines[index]?

/-- Replace a line's text; none if there is no such line. The text is taken as it is, a line feed in
it included, so one line may come to hold what would be read as several. -/
def setLine? (buffer : Buffer) (index : Nat) (text : String) : Option Buffer :=
  if index < buffer.lineCount then
    some { buffer with
      lines := buffer.lines.set index text
      filled := by simpa using buffer.filled }
  else none

/-- Insert a line before an index, or at the end if the index lies behind it. The text is taken as
it is, as `setLine?` takes it. -/
def insertLine (buffer : Buffer) (index : Nat) (text : String) : Buffer :=
  { buffer with
    lines := buffer.lines.take index ++ text :: buffer.lines.drop index
    filled := by simp }

/-- Text nodes of lines that begin at an index. A line's node is the only child of the line, hence
the zero at the end of its path. -/
def nodesFrom (index : Nat) : List String → List TextNode
  | [] => []
  | text :: later => ⟨[index, 0], text⟩ :: nodesFrom (index + 1) later

/-- The text nodes in order, one for each line. A line without characters has a node too. -/
def textNodes (buffer : Buffer) : List TextNode := nodesFrom 0 buffer.lines

end Buffer

end TextDecoration
