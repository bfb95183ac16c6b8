import TomlEditor.Lex.Mode
import TomlEditor.Token.Kind

/-!
# Matches

A rule that matches covers one or more adjacent pieces of the text ahead, none
of them empty, and says how the mode changes after them.
-/

namespace TomlEditor.Lex

/-- So many characters of the text ahead, as one token. -/
structure Piece where
  kind : Token.Kind
  length : Nat
  length_pos : 0 < length
deriving DecidableEq

/-- A piece of the given length, unless that is zero. Only a part that may be missing has the length
zero: the name of a key, the spaces behind it, white space and the plain text of a string. -/
def Piece.ofLength? (kind : Token.Kind) (length : Nat) : Option Piece :=
  if h : 0 < length then some ⟨kind, length, h⟩ else none

/-- How a match changes the mode. -/
inductive Shift
  | stay
  /-- Opens a string. -/
  | enter (quote : Quote)
  /-- Closes the innermost string. -/
  | leave
deriving DecidableEq, Repr

def Shift.apply : Shift → ModeStack → ModeStack
  | stay, state => state
  | enter quote, state => state.push quote
  | leave, state => state.pop

structure Match where
  first : Piece
  more : List Piece
  shift : Shift
deriving DecidableEq

namespace Match

def pieces (found : Match) : List Piece :=
  found.first :: found.more

/-- The number of characters that a match covers. -/
def length (found : Match) : Nat :=
  found.pieces.foldr (fun piece length => piece.length + length) 0

theorem length_pos (found : Match) : 0 < found.length := by
  have := found.first.length_pos
  simp only [length, pieces, List.foldr_cons]
  omega

/-- A match of one piece, unless it would be empty. -/
def single? (kind : Token.Kind) (length : Nat) (shift : Shift) : Option Match :=
  (Piece.ofLength? kind length).map fun piece => ⟨piece, [], shift⟩

end Match

end TomlEditor.Lex
