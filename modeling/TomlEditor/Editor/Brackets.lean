/-!
# Brackets, quotes and comments

What an editor needs to know of TOML to close brackets and quotes as they are
typed, to match brackets and to comment lines out.
-/

namespace TomlEditor.Editor

structure Pair where
  opening : Char
  closing : Char
deriving DecidableEq, Repr

/-- How an editor treats a language. -/
structure Language where
  /-- The name under which the language is registered. -/
  name : String
  lineComment : String
  /-- Pairs that are matched with each other. -/
  brackets : List Pair
  /-- Pairs of which the second half is added when the first is typed. -/
  autoClosing : List Pair
  /-- Pairs that are put around a selection when the first half is typed. -/
  surrounding : List Pair
deriving DecidableEq, Repr

namespace Language

/-- The character that is added when another one is typed. -/
def autoClose (language : Language) (typed : Char) : Option Char :=
  (language.autoClosing.find? fun pair => pair.opening == typed).map Pair.closing

/-- Whether a character is half of a pair of brackets. -/
def isBracket (language : Language) (c : Char) : Bool :=
  language.brackets.any fun pair => pair.opening == c || pair.closing == c

end Language

def brackets : List Pair :=
  [⟨'{', '}'⟩, ⟨'[', ']'⟩, ⟨'(', ')'⟩]

def bracketsAndQuotes : List Pair :=
  brackets ++ [⟨'"', '"'⟩, ⟨'\'', '\''⟩]

/-- TOML. -/
def toml : Language where
  name := "toml"
  lineComment := "#"
  brackets := brackets
  autoClosing := bracketsAndQuotes
  surrounding := bracketsAndQuotes

end TomlEditor.Editor
