import TomlEditor.Lex.Alphabet
import TomlEditor.Lex.Mode
import TomlEditor.Text.Digits

/-!
# Inside strings

A string is text and escapes up to its quote. Line feeds are text here, so a
string goes on until it is closed. The escapes are the same in both kinds of
string.
-/

namespace TomlEditor.Lex

/-- Text of a string: neither its quote nor a backslash. -/
def isStringText (quote : Quote) (c : Char) : Bool :=
  c != quote.char && c != '\\'

def stringTextLength (quote : Quote) (ahead : List Char) : Nat :=
  (ahead.takeWhile (isStringText quote)).length

/-- A character that makes an escape together with the backslash before it. -/
def isEscapeLetter (c : Char) : Bool :=
  ['a', 'b', 'f', 'n', 'r', 't', 'v', '\\', '"', '\''].contains c

/-- The hexadecimal digits ahead, but no more than `limit`. -/
def hexRun (limit : Nat) (ahead : List Char) : Nat :=
  ((ahead.take limit).takeWhile Text.isHexDigit).length

/-- A backslash and a letter; or `\x` with one to four hexadecimal digits, `\u` with four,
`\U` with eight. -/
def escapeLength? : List Char → Option Nat
  | '\\' :: c :: rest =>
    if isEscapeLetter c then some 2
    else if c == 'x' then
      if hexRun 4 rest = 0 then none else some (hexRun 4 rest + 2)
    else if c == 'u' then
      if hexRun 4 rest = 4 then some 6 else none
    else if c == 'U' then
      if hexRun 8 rest = 8 then some 10 else none
    else none
  | _ => none

/-- A backslash, with the character after it unless that ends the line. -/
def invalidEscapeLength? : List Char → Option Nat
  | '\\' :: rest => if rest.head?.any (!isLineEnd ·) then some 2 else some 1
  | _ => none

end TomlEditor.Lex
