import TomlEditor.Highlight.Document
import TomlEditor.Theme.Style

/-!
# Painted texts

A text with the escape sequences that show each token in its style. The
terminal is back to its own style after each token, and so at every line end.
-/

namespace TomlEditor.Terminal

open Highlight Theme

/-- A token in its style. -/
def paintToken (appearance : Appearance) (token : Token) : String :=
  (styleOf token.kind appearance).ansi ++ token.text ++ Style.reset

def paintLine (appearance : Appearance) (line : Line) : String :=
  String.join (line.tokens.map (paintToken appearance))

/-- A text with its tokens in their styles, and a line end after it. -/
def paint (appearance : Appearance) (content : String) : String :=
  Text.joinLines ((Document.ofText content).lines.map (paintLine appearance)) ++ "\n"

end TomlEditor.Terminal
