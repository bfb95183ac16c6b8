import TomlEditor.Error
import TomlEditor.Problem.Failure

/-!
# Markers

A marker is a message at a range of a text as editors show it, with lines and
columns counted from one. A failure with a place becomes one marker there; a
failure without one cannot be marked.
-/

namespace TomlEditor.Problem

inductive Severity
  | hint
  | info
  | warning
  | error
deriving DecidableEq, Repr

namespace Severity

def all : List Severity :=
  [hint, info, warning, error]

def name : Severity → String
  | hint => "hint"
  | info => "info"
  | warning => "warning"
  | error => "error"

/-- The severity with the given name. -/
def ofName? (text : String) : Option Severity :=
  all.find? fun severity => severity.name == text

/-- The number that editors use for a severity. -/
def code : Severity → Nat
  | hint => 1
  | info => 2
  | warning => 4
  | error => 8

end Severity

/-- A message at a range, counted from one. -/
structure Marker where
  startLine : Nat
  startColumn : Nat
  stopLine : Nat
  stopColumn : Nat
  message : String
  severity : Severity
deriving DecidableEq, Repr

namespace Marker

/-- An error at a place of no width, counted from one. -/
def errorAt (line column : Nat) (message : String) : Marker :=
  ⟨line, column, line, column, message, .error⟩

def display (marker : Marker) : String :=
  marker.startLine.repr ++ ":" ++ marker.startColumn.repr ++ ": " ++ marker.severity.name ++ ": "
    ++ marker.message

end Marker

/-- The markers of a failure. -/
def Failure.markers (failure : Failure) : Except Error (List Marker) :=
  if failure.isPositioned then
    .ok [.errorAt (failure.line + 1) (failure.column + 1) failure.message]
  else .error (.unpositioned failure.name failure.message)

end TomlEditor.Problem
