/-!
# Modes of the lexer

A scan position is either at the top level of a document or inside a string.
What is open is kept as a stack, which is also the state handed from one piece
of text to the next: a string left open at the end of a line is still open at
the start of the next one. The top level lies below every open string and is
never left.
-/

namespace TomlEditor

/-- The two characters that open and close strings. -/
inductive Quote
  | single
  | double
deriving DecidableEq, Repr

namespace Quote

def char : Quote → Char
  | single => '\''
  | double => '"'

/-- The quote that a character is. -/
def ofChar? (c : Char) : Option Quote :=
  if c = single.char then some single
  else if c = double.char then some double
  else none

theorem ofChar?_eq_some_iff {c : Char} {quote : Quote} :
    ofChar? c = some quote ↔ c = quote.char := by
  unfold ofChar?
  cases quote <;> split
  · simp_all
  · simp_all
  · next h => simp [h, char]
  · simp_all

end Quote

/-- What a scan position lies in. -/
inductive Mode
  | root
  | string (quote : Quote)
deriving DecidableEq, Repr

namespace Mode

def name : Mode → String
  | root => "root"
  | string .single => "single-quoted"
  | string .double => "double-quoted"

/-- Every mode. -/
def all : List Mode :=
  [root, string .single, string .double]

/-- The mode with the given name. -/
def ofName? (text : String) : Option Mode :=
  all.find? fun mode => mode.name == text

end Mode

/-- The strings that are open, innermost first. -/
structure ModeStack where
  opened : List Quote
deriving DecidableEq, Repr

namespace ModeStack

/-- Nothing is open. -/
def root : ModeStack :=
  ⟨[]⟩

/-- The innermost mode. -/
def mode (state : ModeStack) : Mode :=
  match state.opened with
  | [] => .root
  | quote :: _ => .string quote

/-- Every mode on the stack, outermost first. -/
def modes (state : ModeStack) : List Mode :=
  .root :: (state.opened.map Mode.string).reverse

/-- Opens a string. -/
def push (state : ModeStack) (quote : Quote) : ModeStack :=
  ⟨quote :: state.opened⟩

/-- Closes the innermost string, if one is open. -/
def pop (state : ModeStack) : ModeStack :=
  ⟨state.opened.tail⟩

/-- The top level, with one string open when the mode is that of a string. -/
def ofMode : Mode → ModeStack
  | .root => root
  | .string quote => root.push quote

@[simp] theorem mode_root : root.mode = .root := rfl

@[simp] theorem mode_push (state : ModeStack) (quote : Quote) :
    (state.push quote).mode = .string quote := rfl

@[simp] theorem pop_push (state : ModeStack) (quote : Quote) :
    (state.push quote).pop = state := rfl

@[simp] theorem pop_root : root.pop = root := rfl

@[simp] theorem mode_ofMode (mode : Mode) : (ofMode mode).mode = mode := by
  cases mode <;> rfl

end ModeStack

end TomlEditor
