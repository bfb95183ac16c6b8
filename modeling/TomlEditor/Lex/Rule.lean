import TomlEditor.Lex.Line
import TomlEditor.Lex.Match
import TomlEditor.Lex.Quoted
import TomlEditor.Lex.Scalar

/-!
# The rules of the lexer

There is one ordered list of rules for the top level and one for each kind of
string; the first rule that matches wins. The order matters: double brackets
come before single ones, a date form before the shorter form that it extends,
and floats before integers. Where no rule matches, a run of word characters or
a single character is of unknown kind, so every position has a match.
-/

namespace TomlEditor.Lex

open Text

structure Rule where
  name : String
  /-- The match at a position, from what lies behind it and the text ahead. -/
  scan : Behind → List Char → Option Match

namespace Rule

/-- How a rule is shown in a listing of rules. -/
def description (rule : Rule) : String :=
  "Rule \x7b name: \"" ++ rule.name ++ "\" \x7d"

/-- A rule for values, which leave the mode as it is. -/
def scalar (name : String) (kind : Token.Kind) (length? : Behind → List Char → Option Nat) :
    Rule where
  name := name
  scan behind ahead := (length? behind ahead).bind fun n => Match.single? kind n .stay

/-- A rule that only counts at the start of a line. -/
def header (name : String) (kind : Token.Kind) (length? : List Char → Option Nat) : Rule where
  name := name
  scan behind ahead :=
    if behind.atLineStart then (length? ahead).bind fun n => Match.single? kind n .stay else none

def comment : Rule where
  name := "comment"
  scan _ ahead := (commentLength? ahead).bind fun n => Match.single? .comment n .stay

/-- A key, the spaces after it if there are any, and the equals sign. -/
def key : Rule where
  name := "key"
  scan behind ahead :=
    if behind.atLineStart then
      (Piece.ofLength? .key (keyNameLength ahead)).bind fun name =>
        (keyGapLength? (ahead.drop name.length)).map fun gap =>
          ⟨name, (Piece.ofLength? .whitespace gap).toList ++ [⟨.delimiter, 1, by decide⟩], .stay⟩
    else none

/-- The quote that opens a string. -/
def stringOpen : Rule where
  name := "string"
  scan _ ahead :=
    (ahead.head?.bind Quote.ofChar?).map fun quote =>
      ⟨⟨.stringLiteral, 1, by decide⟩, [], .enter quote⟩

def whitespace : Rule where
  name := "whitespace"
  scan _ ahead := Match.single? .whitespace (ahead.takeWhile isWhite).length .stay

def stringText (quote : Quote) : Rule where
  name := "string-text"
  scan _ ahead := Match.single? .stringLiteral (stringTextLength quote ahead) .stay

def stringEscape : Rule where
  name := "string-escape"
  scan _ ahead := (escapeLength? ahead).bind fun n => Match.single? .stringEscape n .stay

def stringEscapeInvalid : Rule where
  name := "string-escape-invalid"
  scan _ ahead :=
    (invalidEscapeLength? ahead).bind fun n => Match.single? .stringEscapeInvalid n .stay

/-- The quote that closes a string. -/
def stringClose (quote : Quote) : Rule where
  name := "string-close"
  scan _ ahead :=
    if ahead.head? = some quote.char then
      some ⟨⟨.stringLiteral, 1, by decide⟩, [], .leave⟩
    else none

end Rule

/-- The rules of the top level, in the order in which they are tried. -/
def rootRules : List Rule :=
  [.comment,
   .header "array-table-header" .arrayTableHeader arrayTableHeaderLength?,
   .header "table-header" .tableHeader tableHeaderLength?,
   .key,
   .scalar "date-time-tz" .dateTimeTz scanDateTimeTz,
   .scalar "date-time" .dateTime scanDateTime,
   .scalar "date" .date scanDate,
   .scalar "float" .float scanFloat,
   .scalar "integer" .integer scanInteger,
   .scalar "boolean" .boolean scanBoolean,
   .stringOpen,
   .whitespace]

/-- The rules inside a string with the given quote, in the order in which they are tried. -/
def stringRules (quote : Quote) : List Rule :=
  [.stringText quote, .stringEscape, .stringEscapeInvalid, .stringClose quote]

def rulesOf : Mode → List Rule
  | .root => rootRules
  | .string quote => stringRules quote

/-- A run of word characters, or one character. -/
def unknown (ahead : List Char) : Match :=
  ⟨⟨.unknown, max 1 (ahead.takeWhile isWord).length, by omega⟩, [], .stay⟩

/-- The match at a position. -/
def scan (mode : Mode) (behind : Behind) (ahead : List Char) : Match :=
  ((rulesOf mode).findSome? fun rule => rule.scan behind ahead).getD (unknown ahead)

end TomlEditor.Lex
