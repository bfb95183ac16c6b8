import TomlEditor.Problem.Failure
import TomlEditor.Toml.Value

/-!
# The check of a TOML document

A document is a sequence of statements: headers, which open tables, and keys
with values, which belong to the table opened last. The check reads them one
after the other and reports the first fault.
-/

namespace TomlEditor.Toml

/-- What the statements so far have defined. -/
structure State where
  root : Entries
  /-- The names of the table that was opened last. -/
  opened : Path

namespace State

def empty : State :=
  ⟨[], []⟩

/-- Gives a key its value in the table that was opened last. -/
def assign (state : State) (assignment : Assignment) : Except Reason State := do
  let root ← state.root.modify (assignment.apply (.table state.opened)) state.opened
  return { state with root := root }

/-- Opens a table. -/
def openTable (state : State) (opening : Option Node → Option Node) (path : Path) :
    Except Reason State := do
  return ⟨← state.root.openAt opening [] path, path⟩

end State

/-- Stops at a statement that breaks a rule. -/
def lawful {α : Type} (place : List Char) : Except Reason α → Except Stop α
  | .ok result => .ok result
  | .error reason => stop (.broken reason) place

/-! ## Statements -/

/-- A key with its value, up to the end of the line. -/
def keyValue (state : State) : Reader State := fun ahead => do
  let (path, rest) ← key ahead
  let rest ← equals rest
  let (type, rest) ← value (depthLimit - 1) (skipSpace rest)
  let rest ← endLine rest
  return (← lawful ahead (state.assign ⟨path, type⟩), rest)

/-- The text after the brackets that close a header. -/
def closing (brackets : String) (ahead : List Char) : Except Stop (List Char) :=
  if brackets.toList.isPrefixOf ahead then .ok (ahead.drop brackets.length)
  else stop (Fault.unknown.expecting [.literal ".", .literal brackets]) ahead

/-- The rest of a header after its opening brackets, up to the end of the line. -/
def headerRest (state : State) (opening : Option Node → Option Node) (brackets : String)
    (place : List Char) : Reader State := fun ahead => do
  let (path, rest) ← key ahead
  let rest ← closing brackets rest
  let rest ← endLine rest
  return (← lawful place (state.openTable opening path), rest)

def header (state : State) : Reader State := fun ahead =>
  within .tableHeader <|
    match ahead with
    | '[' :: '[' :: rest => headerRest state Entries.openArray "]]" ahead rest
    | '[' :: c :: rest => headerRest state Entries.openTable "]" ahead (c :: rest)
    | _ => stop .unknown ahead

/-- One statement, a comment or an empty line. -/
def statement (state : State) : Reader (Round State Unit) := fun ahead =>
  let start := skipSpace ahead
  match start, lineEnd? start with
  | [], _ => .ok (.done (), [])
  | _, some rest => .ok (.more state, rest)
  | '[' :: _, none => do
    let (next, rest) ← header state start
    return (.more next, rest)
  | '#' :: _, none =>
    match skipComment start, lineEnd? (skipComment start) with
    | [], _ => .ok (.done (), [])
    | _, some rest => .ok (.more state, rest)
    | rest, none => stop .unknown rest
  | '\r' :: _, none => stop .unknown start
  | _, none => do
    let (next, rest) ← keyValue state start
    return (.more next, rest)

/-! ## Documents -/

/-- The text after a byte order mark, if it starts with one. -/
def skipByteOrderMark : List Char → List Char
  | '\ufeff' :: rest => rest
  | text => text

/-- The number of bytes of the UTF-8 form of some characters. -/
def byteLength (text : List Char) : Nat :=
  text.foldr (fun c bytes => c.utf8Size + bytes) 0

/-- Checks a document, with a report of the first fault. -/
def check (text : String) : Except Problem.Report Unit :=
  match rounds statement .empty (skipByteOrderMark text.toList) with
  | .ok _ => .ok ()
  | .error halt =>
    .error ⟨halt.fault.message, some (byteLength text.toList - byteLength halt.rest)⟩

/-- Checks a document, with the failure that its first fault amounts to. -/
def validate (text : String) : Except Problem.Failure Unit :=
  (check text).mapError (Problem.Failure.ofReport text)

end TomlEditor.Toml
