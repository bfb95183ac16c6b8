import TomlEditor.Lex.Rule
import TomlEditor.Token.Basic

/-!
# Lexing a text

`lexemes` cuts the text ahead of a position into lexemes, one match after the
other, and gives the state after the last of them. A match covers at least one
character, so the text ahead gets shorter with every step. `tokenize` starts
with nothing behind it and adds the places.
-/

namespace TomlEditor.Lex

/-- A kind with the text that it was given to. -/
structure Lexeme where
  kind : Token.Kind
  text : String
deriving DecidableEq, Repr

/-- Cuts the pieces off the front of a text. -/
def cut : List Piece → List Char → List Lexeme
  | [], _ => []
  | piece :: more, text =>
    ⟨piece.kind, String.ofList (text.take piece.length)⟩ :: cut more (text.drop piece.length)

theorem length_drop_lt (found : Match) {ahead : List Char} (h : ahead ≠ []) :
    (ahead.drop found.length).length < ahead.length := by
  have := found.length_pos
  have := List.length_pos_iff.2 h
  simp only [List.length_drop]
  omega

/-- The lexemes of the text ahead and the state after them. -/
def lexemes (state : ModeStack) (behind : Behind) : List Char → List Lexeme × ModeStack
  | [] => ([], state)
  | c :: rest =>
    let ahead := c :: rest
    let found := scan state.mode behind ahead
    let later := lexemes (found.shift.apply state) (behind.after (ahead.take found.length))
      (ahead.drop found.length)
    (cut found.pieces ahead ++ later.1, later.2)
termination_by ahead => ahead.length
decreasing_by exact length_drop_lt _ (List.cons_ne_nil _ _)

/-- Lexemes with their places, the first one at the given byte offset. -/
def place (offset : Nat) : List Lexeme → List Token
  | [] => []
  | lexeme :: more =>
    let stop := offset + lexeme.text.utf8ByteSize
    ⟨lexeme.kind, lexeme.text, ⟨offset, stop⟩⟩ :: place stop more

end TomlEditor.Lex

namespace TomlEditor

/-- The tokens of a piece of text, and the state to resume from on the next piece. -/
def tokenize (text : String) (state : ModeStack) : List Token × ModeStack :=
  let lexed := Lex.lexemes state .start text.toList
  (Lex.place 0 lexed.1, lexed.2)

/-- The tokens of a whole document. -/
def tokenizeDocument (text : String) : List Token :=
  (tokenize text .root).1

end TomlEditor
