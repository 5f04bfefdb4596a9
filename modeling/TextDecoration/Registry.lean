import TextDecoration.Builtin.Markdown
import TextDecoration.Error
import TextDecoration.Names
import TextDecoration.Text.FileName
import TextDecoration.Unicode.CaseMap

/-!
# Registry of grammars

A registry knows grammars by name and tells from a file's extension which of them is meant. Case
does not count in extensions. Registering a name again replaces its grammar; an extension belongs
to the language that claimed it last, and a language keeps what it has claimed when its name
is registered again.
-/

namespace TextDecoration

/-- A named grammar and the file extensions that it claims. The extensions may be written in any
case. -/
structure Language where
  name : String
  grammar : Grammar
  extensions : List String := []

/-- Languages by name, and names by extension. The two tables are kept side by side: an extension
may lead to a name that a later language took over. -/
structure Registry where
  languages : Table Language
  /-- The name that each extension, in lower case, belongs to. -/
  extensions : Table String

namespace Registry

/-- The registry without languages, in which nothing is found and no extension is known. -/
def empty : Registry := ⟨Table.empty, Table.empty⟩

/-- The registry with a language added. It replaces one of the same name, but extensions that the
replaced one claimed keep leading to the name. -/
def add (registry : Registry) (language : Language) : Registry where
  languages := registry.languages.put language.name language
  extensions := language.extensions.foldl
    (fun claimed extension => claimed.put (Unicode.toLower extension) language.name)
    registry.extensions

/-- The registry of languages added one after the other, so that of two claims the later one
counts. -/
def ofLanguages (languages : List Language) : Registry := languages.foldl add empty

/-- The languages that are always there: markdown and the markup that it extends. -/
def builtinLanguages : List Language :=
  [{ name := "markup", grammar := Builtin.Markup.grammar
     extensions := ["html", "htm", "xml", "svg"] },
   { name := "markdown", grammar := Builtin.Markdown.grammar
     extensions := ["md", "markdown", "mkd"] }]

/-- The registry of the languages that are always there, with their own extensions. -/
def builtin : Registry := ofLanguages builtinLanguages

/-- Name of the language that a file's extension belongs to, whatever the case of the extension.
Files are texts here; a system's file name may be none, and a path whose extension is no text has no
language. -/
def detect (registry : Registry) (file : String) : Option String := do
  registry.extensions.get? (Unicode.toLower (← Text.extension? file))

/-- The grammar under a name. Names are compared exactly; only extensions are taken in lower
case. -/
def get? (registry : Registry) (name : String) : Option Grammar :=
  (registry.languages.get? name).map Language.grammar

/-- The grammar under a name, or the failure to find it, which names what was looked for. -/
def resolve (registry : Registry) (name : String) : Except Error Grammar :=
  match registry.get? name with
  | some grammar => .ok grammar
  | none => .error (.unknownGrammar name)

/-- Names of all languages, in ascending order and not in the order in which they were added. -/
def names (registry : Registry) : Names := Names.ofList registry.languages.names

end Registry

end TextDecoration
