import TomlEditor.Text.Blank
import TomlEditor.Text.Position

/-!
# Parse failures

What a check of a document reports when it fails. Only a failure with the name
of a TOML error has a place in the text; for any other the line and the column
say nothing.
-/

namespace TomlEditor.Problem

/-- The name of failures that have a place. -/
def tomlError : String :=
  "TomlError"

/-- A failure with a place, counted from zero. -/
structure Failure where
  name : String
  message : String
  line : Nat
  column : Nat
deriving DecidableEq, Repr

namespace Failure

/-- A failure at a place of the text. -/
def toml (message : String) (line column : Nat) : Failure :=
  ⟨tomlError, message, line, column⟩

/-- A failure without a place. -/
def other (name message : String) : Failure :=
  ⟨name, message, 0, 0⟩

def isPositioned (failure : Failure) : Bool :=
  failure.name == tomlError

def display (failure : Failure) : String :=
  failure.name ++ ": " ++ failure.message

end Failure

/-- What a parser says about a text that it refuses. -/
structure Report where
  message : String
  /-- The byte offset of the fault, if the parser knows it. -/
  offset : Option Nat
deriving DecidableEq, Repr

/-- The failure that a parser's report on a text stands for. -/
def Failure.ofReport (text : String) (report : Report) : Failure :=
  let message := Text.trimEnd report.message
  match report.offset with
  | some offset =>
    let place := Text.positionAt text offset
    .toml message place.line place.column
  | none => .other "Error" message

end TomlEditor.Problem
