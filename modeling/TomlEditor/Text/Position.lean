import TomlEditor.Text.Bytes

/-!
# Line and column of a byte offset

Parsers report byte offsets into the UTF-8 form of a text, editors show lines
and columns. Both are counted from zero here, and a column counts characters.
An offset inside a character stands for the start of that character, and an
offset past the end stands for the end. The place can be found in one walk over
the characters, or by counting in the part of the text before the offset.
-/

namespace TomlEditor.Text

/-- A place in a text, counted from zero. -/
structure Position where
  line : Nat
  /-- Characters between the start of the line and the place. -/
  column : Nat
deriving DecidableEq, Repr

namespace Position

/-- The place after one more character. -/
def next (place : Position) (c : Char) : Position :=
  if c = '\n' then ⟨place.line + 1, 0⟩ else ⟨place.line, place.column + 1⟩

/-- Walks over the characters that end at or before the byte offset. -/
def advance (place : Position) : List Char → Nat → Position
  | [], _ => place
  | c :: rest, offset =>
    if c.utf8Size ≤ offset then (place.next c).advance rest (offset - c.utf8Size) else place

end Position

/-- The place of a byte offset in a text. -/
def positionAt (text : String) (offset : Nat) : Position :=
  Position.advance ⟨0, 0⟩ text.toList offset

/-! ## Counting -/

/-- Goes back from an offset until it lies between two characters. -/
def backOff? (text : String) : Nat → Option Nat
  | 0 => if IsBoundary text 0 then some 0 else none
  | offset + 1 => if IsBoundary text (offset + 1) then some (offset + 1) else backOff? text offset

/-- The byte offset of the last line feed. -/
def lastFeed? (text : String) : Option Nat :=
  ((bytes text).reverse.findIdx? (onByte (· == '\n'))).map (text.utf8ByteSize - 1 - ·)

/-- The place of a byte offset: the line feeds before it, and the characters behind the last one of
them. There is no result if a part of the text cannot be cut out. -/
def countedPosition? (text : String) (offset : Nat) : Option Position := do
  let stop ← backOff? text (min offset text.utf8ByteSize)
  let before ← cut? text 0 stop
  let lineStart := (lastFeed? before).elim 0 (· + 1)
  let behindFeed ← cut? before lineStart before.utf8ByteSize
  return ⟨before.toList.count '\n', behindFeed.length⟩

end TomlEditor.Text
