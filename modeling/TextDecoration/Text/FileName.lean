/-!
# File names

A path's last component is what stands behind its last slash, disregarding slashes and single dots
at its end; a path that ends in two dots has none. The extension is what stands behind the last
dot of the last component, unless that dot is the component's first character.
-/

namespace TextDecoration.Text

/-- The components of a path, without empty ones and single dots. Double dots stay: what they mean
depends on the file system. -/
def pathComponents (path : String) : List (List Char) :=
  (path.toList.splitOn '/').filter fun component => component ≠ [] && component ≠ ['.']

/-- The last component of a path. A path that ends in two dots, or has no components, has none. -/
def fileName? (path : String) : Option (List Char) :=
  match (pathComponents path).getLast? with
  | some component => if component = ['.', '.'] then none else some component
  | none => none

/-- The extension of a path: what stands behind the last dot of its last component, unless the dot
comes first. Paths are texts here, so an extension is always one. -/
def extension? (path : String) : Option String := do
  let component ← fileName? path
  let behind := component.reverse.takeWhile (· ≠ '.')
  match component.reverse.drop behind.length with
  | _ :: _ :: _ => some (String.ofList behind.reverse)
  | _ => none

/-- The path of a file in a directory. No slash is put behind one that is there, nor behind an empty
path. -/
def pathIn (directory name : String) : String :=
  if directory = "" ∨ directory.toList.getLast? = some '/' then directory ++ name
  else directory ++ "/" ++ name

end TextDecoration.Text
