/-!
# Ranges of code points

Classes of characters beyond ASCII are given by tables of code point ranges.
-/

namespace TomlEditor.Text

/-- First and last code point of a range. -/
abbrev CodeRange := Nat × Nat

/-- Whether a character lies in one of the ranges. -/
def inRanges (ranges : List CodeRange) (c : Char) : Bool :=
  ranges.any fun (first, last) => first ≤ c.toNat && c.toNat ≤ last

end TomlEditor.Text
