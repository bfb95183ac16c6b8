import TomlEditor.Text.CodeRanges

/-!
# Blank characters

The characters with the Unicode property `White_Space`, and the removal of such
characters at the end of a text.
-/

namespace TomlEditor.Text

/-- The ranges of the property, in order. -/
def blankRanges : List CodeRange :=
  [(0x09, 0x0D), (0x20, 0x20), (0x85, 0x85), (0xA0, 0xA0), (0x1680, 0x1680),
   (0x2000, 0x200A), (0x2028, 0x2029), (0x202F, 0x202F), (0x205F, 0x205F),
   (0x3000, 0x3000)]

/-- Whether a character is white space in the sense of Unicode. -/
def isBlank (c : Char) : Bool :=
  inRanges blankRanges c

/-- The text without the blank characters at its end. -/
def trimEnd (text : String) : String :=
  String.ofList (text.toList.reverse.dropWhile isBlank).reverse

end TomlEditor.Text
