import TomlEditor.Lex.Alphabet

/-!
# What lies behind a scan position

A rule sees all the text that follows a position, but of the text before it
only two facts: whether the line has had anything but indentation so far, and
whether the last character is one of a word. Both are kept up to date character
by character, so the text before a position is never read again.
-/

namespace TomlEditor.Lex

open Text

structure Behind where
  /-- Only spaces, tabs and carriage returns since the last line feed or the start. -/
  atLineStart : Bool
  /-- The last character is a letter, a digit or an underscore. -/
  afterWord : Bool
deriving DecidableEq, Repr

namespace Behind

/-- Nothing lies behind the start of a text. -/
def start : Behind :=
  ⟨true, false⟩

/-- What lies behind after one more character. -/
def next (behind : Behind) (c : Char) : Behind where
  atLineStart := c == '\n' || (behind.atLineStart && isIndent c)
  afterWord := isWord c

/-- What lies behind after more text. -/
def after (behind : Behind) (text : List Char) : Behind :=
  text.foldl next behind

@[simp] theorem after_nil (behind : Behind) : behind.after [] = behind := rfl

@[simp] theorem after_cons (behind : Behind) (c : Char) (text : List Char) :
    behind.after (c :: text) = (behind.next c).after text := rfl

@[simp] theorem after_append (behind : Behind) (text rest : List Char) :
    behind.after (text ++ rest) = (behind.after text).after rest := by
  simp [after]

end Behind

end TomlEditor.Lex
