import TomlEditor.Lex.Alphabet
import TomlEditor.Lex.Match
import TomlEditor.Text.Bytes

/-!
# Scan positions as byte offsets

A cursor stands at a byte offset of a text and reads the bytes on both sides of
it. Every part that it reads is asked for by offsets and need not be there, so a
reading has no result if an offset is wrong: the outer `Option` of a reading is
for that, and an inner one for a position at which nothing is found.
-/

namespace TomlEditor.Lex.Bytewise

open Text

structure Cursor where
  text : String
  /-- The byte offset of the position. -/
  pos : Nat
  mode : Mode

/-- What is found at a position: adjacent pieces with their lengths in bytes, and how the mode
changes after them. -/
structure Found where
  pieces : List (Token.Kind × Nat)
  shift : Shift
deriving DecidableEq, Repr

/-- One piece, which leaves the mode as it is. -/
def Found.single (kind : Token.Kind) (length : Nat) : Found :=
  ⟨[(kind, length)], .stay⟩

namespace Cursor

/-- The bytes from the position on. -/
def rest? (cursor : Cursor) : Option (List UInt8) :=
  bytesFrom? (bytes cursor.text) cursor.pos

/-- The character at an offset, if it is not the end. -/
def charAt? (cursor : Cursor) (offset : Nat) : Option (Option Char) :=
  (cut? cursor.text offset cursor.text.utf8ByteSize).map (·.toList.head?)

/-- The quote of the string that the position lies in. -/
def quote? (cursor : Cursor) : Option Quote :=
  match cursor.mode with
  | .root => none
  | .string quote => some quote

/-- Whether only indentation lies between the last line feed and the position. -/
def atLineStart? (cursor : Cursor) : Option Bool :=
  (bytesTo? (bytes cursor.text) cursor.pos).map fun before =>
    (before.reverse.takeWhile (onByte (· != '\n'))).all (onByte isIndent)

/-- Whether the byte before the position is one of a word. -/
def afterWord? (cursor : Cursor) : Option Bool :=
  if 0 < cursor.pos then ((bytes cursor.text)[cursor.pos - 1]?).map (onByte isWord) else some false

/-- `length`, unless the bytes of that length touch a word on either side. -/
def bounded? (cursor : Cursor) (length : Nat) : Option (Option Nat) := do
  let before ← cursor.afterWord?
  let after := (bytes cursor.text)[cursor.pos + length]?.any (onByte isWord)
  return if !before && !after then some length else none

end Cursor

end TomlEditor.Lex.Bytewise
