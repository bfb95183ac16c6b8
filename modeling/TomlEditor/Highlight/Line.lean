import TomlEditor.Lex.Tokenize

/-!
# Lexed lines

A line keeps its tokens together with the state it was lexed from and the state
it ended in. Lines lexed one after the other form a chain, each starting in the
state in which the one before it ended. `settle` restores the chain below a
change: it lexes lines anew until it meets one that already starts in the right
state, since from there on nothing can differ.
-/

namespace TomlEditor.Highlight

structure Line where
  /-- The line without its line feed. -/
  text : String
  /-- Tokens with offsets from the start of the line. -/
  tokens : List Token
  /-- The state the line was lexed from. -/
  start : ModeStack
  /-- The state to lex the next line from. -/
  finish : ModeStack
deriving DecidableEq, Repr

/-- A text lexed as a line of its own. -/
def Line.lex (start : ModeStack) (text : String) : Line :=
  let lexed := tokenize text start
  ⟨text, lexed.1, start, lexed.2⟩

/-- The state after some lines that are lexed from the given state. -/
def stateAfter (start : ModeStack) (lines : List Line) : ModeStack :=
  (lines.getLast?.map Line.finish).getD start

/-- Lexes texts as the lines of a chain. -/
def lexChain (start : ModeStack) : List String → List Line
  | [] => []
  | text :: more =>
    let line := Line.lex start text
    line :: lexChain line.finish more

/-- Lines as they are when the first is lexed from the given state, and how many of them had
to be lexed anew. -/
def settle (start : ModeStack) : List Line → List Line × Nat
  | [] => ([], 0)
  | line :: more =>
    if line.start = start then (line :: more, 0)
    else
      let fresh := Line.lex start line.text
      let settled := settle fresh.finish more
      (fresh :: settled.1, settled.2 + 1)

end TomlEditor.Highlight
