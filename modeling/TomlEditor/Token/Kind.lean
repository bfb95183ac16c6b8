/-!
# Kinds of tokens

The set is closed: every character of a text lies in exactly one token, and
every token has one of these kinds. `unknown` takes what no other kind does.
-/

namespace TomlEditor.Token

inductive Kind
  | comment
  /-- A table header such as `[name]`. -/
  | tableHeader
  /-- A header of an array of tables such as `[[name]]`. -/
  | arrayTableHeader
  /-- A bare or quoted key to the left of `=`. -/
  | key
  /-- The `=` after a key. -/
  | delimiter
  /-- A run of spaces, tabs and line ends. -/
  | whitespace
  /-- Text of a string, and each of its two quotes. -/
  | stringLiteral
  | stringEscape
  /-- A backslash in a string that starts no escape. -/
  | stringEscapeInvalid
  | boolean
  /-- A decimal integer. -/
  | integer
  /-- A decimal number with a fraction, an exponent or both. -/
  | float
  /-- A date such as `1979-05-27`. -/
  | date
  /-- A date and a time such as `1979-05-27T07:32:00`. -/
  | dateTime
  /-- A date, a time and an offset such as `1979-05-27T07:32:00Z`. -/
  | dateTimeTz
  | unknown
deriving DecidableEq, Repr

namespace Kind

/-- Every kind, in the order in which editors list them. -/
def all : List Kind :=
  [comment, tableHeader, arrayTableHeader, key, delimiter, whitespace, stringLiteral,
   stringEscape, stringEscapeInvalid, boolean, integer, float, date, dateTime, dateTimeTz,
   unknown]

theorem mem_all (kind : Kind) : kind ∈ all := by
  cases kind <;> decide

/-- The short name of a kind. -/
def name : Kind → String
  | comment => "comment"
  | tableHeader => "table-header"
  | arrayTableHeader => "array-table-header"
  | key => "key"
  | delimiter => "delimiter"
  | whitespace => "whitespace"
  | stringLiteral => "string-literal"
  | stringEscape => "string-escape"
  | stringEscapeInvalid => "string-escape-invalid"
  | boolean => "boolean"
  | integer => "integer"
  | float => "float"
  | date => "date"
  | dateTime => "date-time"
  | dateTimeTz => "date-time-tz"
  | unknown => "unknown"

/-- The scope under which an editor binds a style to a kind. -/
def scope : Kind → String
  | comment => "comment.line.number-sign.toml"
  | tableHeader => "entity.name.section.table.toml"
  | arrayTableHeader => "entity.name.section.table.array.toml"
  | key => "key.toml"
  | delimiter => "delimiter.toml"
  | whitespace => "white.toml"
  | stringLiteral => "string.quoted.toml"
  | stringEscape => "string.escape.toml"
  | stringEscapeInvalid => "string.escape.invalid.toml"
  | boolean => "constant.other.boolean.toml"
  | integer => "constant.numeric.integer.toml"
  | float => "constant.numeric.float.toml"
  | date => "constant.other.date.toml"
  | dateTime => "constant.other.datetime.toml"
  | dateTimeTz => "constant.other.datetime-with-timezone.toml"
  | unknown => "source.toml"

/-- The kind with the given short name. -/
def ofName? (text : String) : Option Kind :=
  all.find? fun kind => kind.name == text

end Kind

end TomlEditor.Token
