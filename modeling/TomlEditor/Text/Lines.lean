/-!
# Lines of a text

A text is a sequence of lines with a line feed between neighbours. It has at
least one line: the empty text is one empty line, and a line feed at the end is
followed by an empty line. Only the line feed separates lines; a carriage
return is an ordinary character of its line.
-/

namespace TomlEditor.Text

/-- The lines of a text, without the line feeds between them. -/
def splitLines (text : String) : List String :=
  (text.toList.splitOn '\n').map String.ofList

/-- The text with the given lines. -/
def joinLines (lines : List String) : String :=
  "\n".intercalate lines

end TomlEditor.Text
