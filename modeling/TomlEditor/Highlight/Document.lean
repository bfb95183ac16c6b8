import TomlEditor.Error
import TomlEditor.Highlight.Line
import TomlEditor.Text.Lines

/-!
# Documents

A document is the lexed lines of a text, counted from zero. An edit puts new
lines in the place of old ones, lexes them, and then lexes the lines below as
far as the state carried into them has changed. It answers with the range of
lines that were lexed. An edit at a line that the document does not have is
refused.
-/

namespace TomlEditor

/-- A range of lines, the first in and the last out. -/
structure LineRange where
  start : Nat
  stop : Nat
deriving DecidableEq, Repr

structure Document where
  lines : List Highlight.Line
  /-- Counts the texts that the document has had. -/
  revision : Nat
deriving DecidableEq, Repr

namespace Document

open Highlight Text

/-- A new document. -/
def ofText (text : String) : Document :=
  ⟨lexChain .root (splitLines text), 1⟩

/-- The document of the empty text. -/
def empty : Document :=
  ofText ""

def lineCount (document : Document) : Nat :=
  document.lines.length

/-- The lines joined to one text. -/
def text (document : Document) : String :=
  joinLines (document.lines.map Line.text)

/-- The state after the last line. -/
def endState (document : Document) : ModeStack :=
  stateAfter .root document.lines

def line? (document : Document) (index : Nat) : Option Line :=
  document.lines[index]?

/-! ## Edits -/

/-- The document with lines of the given texts between two parts that are left of it. -/
def splice (document : Document) (before : List Line) (texts : List String) (after : List Line) :
    LineRange × Document :=
  let start := stateAfter .root before
  let fresh := lexChain start texts
  let settled := settle (stateAfter start fresh) after
  (⟨before.length, before.length + fresh.length + settled.2⟩,
    ⟨before ++ fresh ++ settled.1, document.revision + 1⟩)

def outOfRange (document : Document) (index : Nat) : Error :=
  .lineOutOfRange index document.lineCount

/-- Replaces the whole text. -/
def setText (document : Document) (text : String) : Document :=
  { ofText text with revision := document.revision + 1 }

/-- Replaces a line by the lines of a text. -/
def replaceLine (document : Document) (index : Nat) (text : String) :
    Except Error (LineRange × Document) :=
  if index < document.lineCount then
    .ok (document.splice (document.lines.take index) (splitLines text)
      (document.lines.drop (index + 1)))
  else .error (document.outOfRange index)

/-- Puts the lines of a text before a line, or after the last line. -/
def insertLine (document : Document) (index : Nat) (text : String) :
    Except Error (LineRange × Document) :=
  if index ≤ document.lineCount then
    .ok (document.splice (document.lines.take index) (splitLines text)
      (document.lines.drop index))
  else .error (document.outOfRange index)

/-- Removes a line. The line that takes its place is lexed anew, or the last one if none does;
instead of the only line an empty one is left. -/
def removeLine (document : Document) (index : Nat) : Except Error (LineRange × Document) :=
  if index < document.lineCount then
    let left := document.lines.eraseIdx index
    let dirty := min index (left.length - 1)
    .ok (document.splice (left.take dirty) [(left[dirty]?.map Line.text).getD ""]
      (left.drop (dirty + 1)))
  else .error (document.outOfRange index)

end Document

/-- A change of a document. -/
inductive Edit
  | setText (text : String)
  | replaceLine (index : Nat) (text : String)
  | insertLine (index : Nat) (text : String)
  | removeLine (index : Nat)
deriving DecidableEq, Repr

namespace Document

/-- Makes a change, with the range of lines that were lexed for it. -/
def edit (document : Document) : Edit → Except Error (LineRange × Document)
  | .setText text =>
    let changed := document.setText text
    .ok (⟨0, changed.lineCount⟩, changed)
  | .replaceLine index text => document.replaceLine index text
  | .insertLine index text => document.insertLine index text
  | .removeLine index => document.removeLine index

/-- Makes a change, or none if it is refused. -/
def editOrKeep (document : Document) (change : Edit) : Document :=
  match document.edit change with
  | .ok (_, changed) => changed
  | .error _ => document

/-- Makes the changes one after the other, without those that are refused. -/
def run (document : Document) (changes : List Edit) : Document :=
  changes.foldl editOrKeep document

end Document

end TomlEditor
