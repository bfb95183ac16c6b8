import TomlEditor.Text.Ascii

/-!
# Classes of characters

The rules of the lexer tell only ASCII characters apart. A character outside
ASCII may stand in a comment, in a string and between the brackets of a header,
and is of unknown kind anywhere else.
-/

namespace TomlEditor.Lex

open Text

/-- A character of a bare key. -/
def isBareKey (c : Char) : Bool :=
  isWord c || c == '-' || c == '$'

/-- A character that may stand between a line break and the first token of a line. -/
def isIndent (c : Char) : Bool :=
  isSpace c || c == '\r'

/-- A space, a tab or a character of a line end. -/
def isWhite (c : Char) : Bool :=
  isIndent c || c == '\n'

/-- A character that a comment does not contain. -/
def isLineEnd (c : Char) : Bool :=
  c == '\n' || c == '\r'

/-- A character between the brackets of a table header. -/
def isHeaderName (c : Char) : Bool :=
  c != '[' && c != ']' && c != '\n'

end TomlEditor.Lex
