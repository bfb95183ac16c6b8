import TomlEditor.Toml.DateTime
import TomlEditor.Toml.Number
import TomlEditor.Toml.Quoted
import TomlEditor.Toml.Tree

/-!
# Values of a TOML document

A value is a string, a number, a date or a time, a boolean, an array or an
inline table. Of a value that was read only its type is kept.
-/

namespace TomlEditor.Toml

/-- What a value that is none is said to have been. -/
def valueExpected : Fault :=
  (Fault.invalid .string).expecting [.literal "\"", .literal "'"]

/-- A word that stands for a value. -/
def word (text : String) (type : ValueType) (isDecided : Bool) : Reader ValueType := fun ahead =>
  if text.toList.isPrefixOf ahead then .ok (type, ahead.drop text.length)
  else if isDecided then stop valueExpected ahead
  else refuse valueExpected ahead

/-- A date, a time or a number. -/
def dateOrNumber : Reader ValueType := fun ahead => do
  match ← dateTime? ahead with
  | some rest => return (.datetime, rest)
  | none => number ahead

/-! ## Arrays -/

/-- An item with the lines around it. -/
def element (item : Reader ValueType) (ahead : List Char) : Except Stop (List Char) := do
  let (_, rest) ← item (← skipLines ahead)
  skipLines rest

/-- The lines up to the closing bracket, which has to come after them. -/
def arrayEnd : Reader ValueType := fun ahead => do
  match ← decided (skipLines ahead) with
  | ']' :: rest => return (.array, rest)
  | rest => stop ((Fault.invalid .array).expecting [.literal "]"]) rest

/-- Items with commas between them, from the text after the opening bracket. A comma after the
last item is allowed. -/
def array (item : Reader ValueType) : Reader ValueType := fun ahead =>
  rounds (fun (isFirst : Bool) ahead =>
    let close := fun ahead => do
      let (type, rest) ← arrayEnd ahead
      return (.done type, rest)
    let separated :=
      if isFirst then some ahead
      else match ahead with
        | ',' :: rest => some rest
        | _ => none
    match separated with
    | none => close ahead
    | some start =>
      match element item start with
      | .ok rest => .ok (.more false, rest)
      | .error halt => if halt.decided then .error halt else close start)
    true ahead

/-! ## Inline tables -/

def keyEnd : Fault :=
  Fault.unknown.expecting [.literal ".", .literal "="]

/-- The text after the equals sign that follows a key. -/
def equals (ahead : List Char) : Except Stop (List Char) :=
  match ahead with
  | '=' :: rest => .ok rest
  | _ => stop keyEnd ahead

/-- A key with the type of its value. -/
structure Assignment where
  path : Path
  type : ValueType
deriving DecidableEq, Repr

/-- A key, an equals sign and a value, with spaces around them. -/
def assignment (item : Reader ValueType) : Reader Assignment := fun ahead => do
  let (path, rest) ← key ahead
  let rest ← equals rest
  let (type, rest) ← decided (item (skipSpace rest))
  return (⟨path, type⟩, skipSpace rest)

/-- Gives a key its value. -/
def Assignment.apply (assignment : Assignment) (scope : Entries.Scope) (entries : Entries) :
    Except Reason Entries :=
  entries.assign scope assignment.type .defined [] assignment.path.dropLast
    (assignment.path.getLast?.getD "")

/-- Assignments with commas between them; a comma that no assignment follows is left. -/
def assignments (item : Reader ValueType) : Reader (List Assignment) := fun ahead =>
  rounds (fun (found : List Assignment) ahead =>
    let separated :=
      if found.isEmpty then some ahead
      else match ahead with
        | ',' :: rest => some rest
        | _ => none
    match separated with
    | none => .ok (.done found, ahead)
    | some start =>
      match assignment item start with
      | .ok (next, rest) => .ok (.more (found ++ [next]), rest)
      | .error halt => if halt.decided then .error halt else .ok (.done found, ahead))
    [] ahead

/-- An inline table, from the text after the opening brace. A key set twice is a fault of the
table as a whole. -/
def inlineTable (item : Reader ValueType) : Reader ValueType := fun ahead => do
  let (found, rest) ← assignments item ahead
  match found.foldlM (fun entries assignment => assignment.apply .inline entries) [] with
  | .error reason => stop (.broken reason) ahead
  | .ok _ =>
    match skipSpace rest with
    | '}' :: rest => return (.inlineTable, rest)
    | rest => stop ((Fault.invalid .inlineTable).expecting [.literal "\x7d"]) rest

/-! ## All values -/

/-- A value, with readers for the arrays and inline tables in it. -/
def valueOf (readArray readTable : Reader ValueType) : Reader ValueType := fun ahead =>
  match ahead with
  | [] => refuse .unknown []
  | c :: rest =>
    match c with
    | '"' | '\'' => do
      let (_, rest) ← anyString ahead
      return (.string, rest)
    | '[' => readArray rest
    | '{' => readTable rest
    | '_' => refuse ((Fault.invalid .integer).expecting leadingDigitExpected) ahead
    | '.' => refuse ((Fault.invalid .float).expecting leadingDigitExpected) ahead
    | 't' => word "true" .boolean true ahead
    | 'f' => word "false" .boolean true ahead
    | 'i' => word "inf" .float false ahead
    | 'n' => word "nan" .float false ahead
    | _ =>
      if c == '+' || c == '-' || c.isDigit then dateOrNumber ahead
      else refuse valueExpected ahead

/-- A value with at most so many arrays and inline tables in each other. -/
def value : Nat → Reader ValueType
  | 0 => fun ahead =>
    valueOf (fun _ => stop (.broken .tooDeep) ahead) (fun _ => stop (.broken .tooDeep) ahead) ahead
  | depth + 1 => valueOf (array (value depth)) (inlineTable (value depth))

end TomlEditor.Toml
