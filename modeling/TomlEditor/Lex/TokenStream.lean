import TomlEditor.Lex.Tokenize

/-!
# Tokens on demand

A stream lexes a text no further than the tokens that were asked for. A match
with several pieces is queued as a whole, and the state is then already the one
after the match.
-/

namespace TomlEditor

structure TokenStream where
  /-- The text that no token has been made of. -/
  ahead : List Char
  /-- The byte offset of that text. -/
  offset : Nat
  behind : Lex.Behind
  /-- The state after the tokens made so far. -/
  state : ModeStack
  /-- Tokens made and not yet given out. -/
  queue : List Token
deriving DecidableEq, Repr

namespace TokenStream

def ofText (text : String) (state : ModeStack) : TokenStream :=
  ⟨text.toList, 0, .start, state, []⟩

/-- Makes the tokens of one match. -/
def step (stream : TokenStream) : TokenStream :=
  let found := Lex.scan stream.state.mode stream.behind stream.ahead
  let text := stream.ahead.take found.length
  { ahead := stream.ahead.drop found.length
    offset := stream.offset + (String.ofList text).utf8ByteSize
    behind := stream.behind.after text
    state := found.shift.apply stream.state
    queue := stream.queue ++ Lex.place stream.offset (Lex.cut found.pieces stream.ahead) }

/-- Makes tokens if none is queued and text is left. -/
def fill (stream : TokenStream) : TokenStream :=
  if stream.queue.isEmpty && !stream.ahead.isEmpty then stream.step else stream

/-- The next token, if there is one, and the stream after it. -/
def next (stream : TokenStream) : Option Token × TokenStream :=
  let filled := stream.fill
  (filled.queue.head?, { filled with queue := filled.queue.tail })

/-- The first `count` answers, each with the stream after it. -/
def nextMany : Nat → TokenStream → List (Option Token × TokenStream)
  | 0, _ => []
  | count + 1, stream =>
    let answer := stream.next
    answer :: nextMany count answer.2

end TokenStream

end TomlEditor
