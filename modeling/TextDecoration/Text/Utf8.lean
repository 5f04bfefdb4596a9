import TextDecoration.Error

/-!
# Reading text from bytes

Files and the standard input hold bytes. They are read as the UTF-8 form of a text; a file that is
not there and bytes that are no such form cannot be read.
-/

namespace TextDecoration.Text

/-- The text that bytes are the UTF-8 form of. There is one at most, and bytes that are the form of
none are refused as a whole. -/
def ofBytes (bytes : ByteArray) : Except Error String :=
  match String.fromUTF8? bytes with
  | some text => .ok text
  | none => .error (.unreadable .notUtf8)

/-- A text is read from its own UTF-8 form, so nothing is lost by handing it over as bytes. -/
theorem ofBytes_toUTF8 (text : String) : ofBytes text.toUTF8 = .ok text := by
  have decoded : String.fromUTF8? text.toUTF8 = some text := dif_pos text.isValidUTF8
  rw [ofBytes, decoded]

/-- The text of a file, where `none` stands for a file that is not there. The two ways to fail have
faults of their own. -/
def ofFile (contents : Option ByteArray) : Except Error String :=
  match contents with
  | some bytes => ofBytes bytes
  | none => .error (.unreadable .notFound)

end TextDecoration.Text
