/-!
# Classes of ASCII characters

A character outside ASCII is in neither of these classes.
-/

namespace TomlEditor.Text

/-- A letter, a digit or an underscore. -/
def isWord (c : Char) : Bool :=
  c.isAlphanum || c == '_'

/-- A space or a tab. -/
def isSpace (c : Char) : Bool :=
  c == ' ' || c == '\t'

end TomlEditor.Text
