/-!
# Faults of a TOML document

A fault says what was being read, what would have been right at its place, and
which rule was broken, as far as each of these is known. Its message has one
line for each.
-/

namespace TomlEditor.Toml

/-- What a fault was found in. -/
inductive Subject
  | key
  | tableHeader
  | string
  | basicString
  | literalString
  | multilineBasicString
  | multilineLiteralString
  | escape
  /-- An escape that gives a code point in so many digits. -/
  | codePoint (digits : Nat)
  | array
  | inlineTable
  | integer
  | hexadecimal
  | octal
  | binary
  | float
  | dateTime
  | time
  | timeOffset
deriving DecidableEq, Repr

def Subject.name : Subject → String
  | key => "key"
  | tableHeader => "table header"
  | string => "string"
  | basicString => "basic string"
  | literalString => "literal string"
  | multilineBasicString => "multiline basic string"
  | multilineLiteralString => "multiline literal string"
  | escape => "escape sequence"
  | codePoint digits => "unicode " ++ digits.repr ++ "-digit hex code"
  | array => "array"
  | inlineTable => "inline table"
  | integer => "integer"
  | hexadecimal => "hexadecimal integer"
  | octal => "octal integer"
  | binary => "binary integer"
  | float => "floating-point number"
  | dateTime => "date-time"
  | time => "time"
  | timeOffset => "time offset"

/-- What would have been right. -/
inductive Expected
  | newline
  /-- A text as it is written. -/
  | literal (text : String)
  /-- Something described in words. -/
  | described (text : String)
deriving DecidableEq, Repr

def Expected.name : Expected → String
  | newline => "newline"
  | literal text => "`" ++ text ++ "`"
  | described text => text

/-- The types of values. -/
inductive ValueType
  | string
  | integer
  | float
  | boolean
  | datetime
  | array
  | inlineTable
deriving DecidableEq, Repr

def ValueType.name : ValueType → String
  | string => "string"
  | integer => "integer"
  | float => "float"
  | boolean => "boolean"
  | datetime => "datetime"
  | array => "array"
  | inlineTable => "inline table"

/-- The names from the root of a document to one of its tables. -/
abbrev Path := List String

/-- Names with points between them. -/
def Path.dotted (path : Path) : String :=
  ".".intercalate path

/-- A rule that a document breaks. -/
inductive Reason
  /-- A name has a value already; the table is given where it is known. -/
  | duplicateKey (key : String) (table : Option Path)
  /-- A dotted name goes on after the name of something that is no table. -/
  | notATable (path : Path) (type : ValueType)
  | outOfRange
  | tooLarge
  | tooSmall
  | tooDeep
deriving DecidableEq, Repr

def Reason.message : Reason → String
  | duplicateKey key none => "duplicate key `" ++ key ++ "`"
  | duplicateKey key (some []) => "duplicate key `" ++ key ++ "` in document root"
  | duplicateKey key (some path) => "duplicate key `" ++ key ++ "` in table `" ++ path.dotted ++ "`"
  | notATable path type =>
    "dotted key `" ++ path.dotted ++ "` attempted to extend non-table type (" ++ type.name ++ ")"
  | outOfRange => "value is out of range"
  | tooLarge => "number too large to fit in target type"
  | tooSmall => "number too small to fit in target type"
  | tooDeep => "recursion limit exceeded"

structure Fault where
  subject : Option Subject
  expected : List Expected
  reason : Option Reason
deriving DecidableEq, Repr

namespace Fault

/-- Nothing is known of the fault but its place. -/
def unknown : Fault :=
  ⟨none, [], none⟩

/-- Something of the given kind is not as it should be. -/
def invalid (subject : Subject) : Fault :=
  ⟨some subject, [], none⟩

/-- A rule is broken. -/
def broken (reason : Reason) : Fault :=
  ⟨none, [], some reason⟩

def expecting (fault : Fault) (expected : List Expected) : Fault :=
  { fault with expected := fault.expected ++ expected }

def because (fault : Fault) (reason : Reason) : Fault :=
  { fault with reason := some reason }

/-- The fault as seen from what contains its place: the innermost subject is kept. -/
def within (subject : Subject) (fault : Fault) : Fault :=
  { fault with subject := fault.subject.or (some subject) }

def expectedLine : List Expected → Option String
  | [] => none
  | expected => some ("expected " ++ ", ".intercalate (expected.map Expected.name))

def message (fault : Fault) : String :=
  "\n".intercalate
    ((fault.subject.map fun subject => "invalid " ++ subject.name).toList ++
      (expectedLine fault.expected).toList ++
      (fault.reason.map Reason.message).toList)

end Fault

end TomlEditor.Toml
