import TomlEditor.Lex.Behind
import TomlEditor.Lex.Mode

/-!
# Comments, headers and keys

Headers and keys count only where nothing but indentation lies between the
start of their line and them; the rules see to that. A bracket or a key that is
not continued as its rule asks on the same line is no header and no key.
-/

namespace TomlEditor.Lex

open Text

/-- From a number sign to the end of the line. -/
def commentLength? : List Char → Option Nat
  | '#' :: rest => some ((rest.takeWhile fun c => !isLineEnd c).length + 1)
  | _ => none

/-- A name between brackets. -/
def tableHeaderLength? : List Char → Option Nat
  | '[' :: rest =>
    match rest.dropWhile isHeaderName with
    | ']' :: _ => some ((rest.takeWhile isHeaderName).length + 2)
    | _ => none
  | _ => none

/-- A name between double brackets. -/
def arrayTableHeaderLength? : List Char → Option Nat
  | '[' :: '[' :: rest =>
    match rest.dropWhile isHeaderName with
    | ']' :: ']' :: _ => some ((rest.takeWhile isHeaderName).length + 4)
    | _ => none
  | _ => none

/-- Whether a quoted key with the given quote goes on with a character. -/
def isQuotedKey (quote : Quote) (c : Char) : Bool :=
  c != quote.char && c != '\n'

/-- The name of a key: a text in quotes on one line or a run of bare characters. Zero if none. -/
def keyNameLength : List Char → Nat
  | [] => 0
  | c :: rest =>
    match Quote.ofChar? c with
    | some quote =>
      if (rest.dropWhile (isQuotedKey quote)).head? = some quote.char then
        (rest.takeWhile (isQuotedKey quote)).length + 2
      else 0
    | none => ((c :: rest).takeWhile isBareKey).length

/-- The spaces between the name of a key and the equals sign that must follow them. -/
def keyGapLength? (ahead : List Char) : Option Nat :=
  if (ahead.dropWhile isSpace).head? = some '=' then some (ahead.takeWhile isSpace).length
  else none

end TomlEditor.Lex
