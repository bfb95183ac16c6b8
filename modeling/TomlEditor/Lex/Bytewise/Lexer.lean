import TomlEditor.Lex.Bytewise.Scanner
import TomlEditor.Token.Basic

/-!
# Lexing by byte offsets

A lexer stands at a byte offset of its text and cuts tokens off behind it, each
of the length that a scanner has given. Nothing here keeps a scanner from giving
lengths that reach past the end, end inside a character or are zero. So a step
has no result if a part of the text is not there, and a text has tokens only if
the calls for them come to an end.
-/

namespace TomlEditor.Lex.Bytewise

open Text

structure Lexer where
  text : String
  /-- The byte offset up to which tokens have been made. -/
  pos : Nat
  /-- The state after the tokens made so far. -/
  state : ModeStack
  /-- Tokens made and not yet given out. -/
  queue : List Token

/-- The tokens of adjacent pieces, the first one at the given byte offset. -/
def tokens? (text : String) (offset : Nat) : List (Token.Kind × Nat) → Option (List Token)
  | [] => some []
  | (kind, length) :: more => do
    let part ← cut? text offset (offset + length)
    let later ← tokens? text (offset + length) more
    return ⟨kind, part, ⟨offset, offset + length⟩⟩ :: later

/-- The number of bytes that a find covers. -/
def Found.length (found : Found) : Nat :=
  found.pieces.foldr (fun piece length => piece.2 + length) 0

namespace Lexer

def ofText (text : String) (state : ModeStack) : Lexer :=
  ⟨text, 0, state, []⟩

/-- Makes the tokens of what is found at the offset. -/
def step? (lexer : Lexer) : Option Lexer := do
  let found ← scan? ⟨lexer.text, lexer.pos, lexer.state.mode⟩
  let tokens ← tokens? lexer.text lexer.pos found.pieces
  return { lexer with
    pos := lexer.pos + found.length
    state := found.shift.apply lexer.state
    queue := lexer.queue ++ tokens }

/-- Makes tokens if none is queued and text is left. -/
def fill? (lexer : Lexer) : Option Lexer :=
  if lexer.queue.isEmpty && lexer.pos < lexer.text.utf8ByteSize then lexer.step? else some lexer

/-- The next token, if there is one, and the lexer after it. -/
def next? (lexer : Lexer) : Option (Option Token × Lexer) := do
  let filled ← lexer.fill?
  return (filled.queue.head?, { filled with queue := filled.queue.tail })

/-- The calls give these tokens one by one and then none, and leave the last lexer. Calls that have
no result, or that never give none, give nothing. -/
inductive Gives : Lexer → List Token → Lexer → Prop
  | done {lexer last : Lexer} (h : lexer.next? = some (none, last)) : Gives lexer [] last
  | more {lexer later last : Lexer} {token : Token} {tokens : List Token}
      (h : lexer.next? = some (some token, later)) (hlater : Gives later tokens last) :
      Gives lexer (token :: tokens) last

end Lexer

/-- Lexing a piece of text comes to an end, with these tokens and this state to resume from. -/
def Lexes (text : String) (state : ModeStack) (result : List Token × ModeStack) : Prop :=
  ∃ last, (Lexer.ofText text state).Gives result.1 last ∧ last.state = result.2

end TomlEditor.Lex.Bytewise
