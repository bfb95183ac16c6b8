import TomlEditor.Highlight.Document
import TomlEditor.Text.Escaped

/-!
# Token dumps

A dump has one row for each token of a text: the number of its line counted
from one, its kind, its place in the line, and its text in quotes, with tabs
between them. How the characters between the quotes are written is a parameter.
-/

namespace TomlEditor.Terminal

open Highlight

variable (write : Char → List Char)

/-- The row of a token. -/
def dumpToken (lineNumber : Nat) (token : Token) : String :=
  lineNumber.repr ++ "\t" ++ token.kind.name ++ "\t" ++ token.span.start.repr ++ ".." ++
    token.span.stop.repr ++ "\t" ++ Text.quoted write token.text ++ "\n"

/-- The rows of some lines, the first of which has the given number. -/
def dumpLines (lineNumber : Nat) : List Line → List String
  | [] => []
  | line :: more => line.tokens.map (dumpToken write lineNumber) ++ dumpLines (lineNumber + 1) more

/-- The rows of a text. -/
def dump (content : String) : String :=
  String.join (dumpLines write 1 (Document.ofText content).lines)

end TomlEditor.Terminal
