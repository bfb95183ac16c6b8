import TomlEditor.Editor.Validator
import TomlEditor.Highlight.Document
import TomlEditor.Problem.Marker
import TomlEditor.Theme.Style
import TomlEditor.Timing.Debouncer

/-!
# Editing sessions

A session is a document under edit. Every successful edit lexes what it has
changed at once and puts the check of the document off by the wait. Once no
edit has come for that long, a poll runs the check. The markers of the last
check that could be marked stay until the next such check.
-/

namespace TomlEditor.Editor

open Problem Theme Timing

/-- Settings of a session. -/
structure Settings where
  /-- How long no edit may have come before the document is checked. -/
  wait : Nanoseconds
  appearance : Appearance
deriving DecidableEq, Repr

def Settings.standard : Settings :=
  ⟨defaultWait, .dark⟩

structure Session (ν : Type) where
  document : Document
  /-- Holds back the check of the document, named by the revision that asked for it. -/
  scheduler : Debouncer Nat
  validator : ν
  markers : List Marker
  appearance : Appearance

namespace Session

variable {ν : Type}

/-- A session with the empty document. -/
def ofSettings (settings : Settings) (validator : ν) : Session ν where
  document := .empty
  scheduler := .ofWait settings.wait
  validator := validator
  markers := []
  appearance := settings.appearance

/-- Takes over a changed document and puts the check off. -/
def adopt (session : Session ν) (document : Document) : Session ν :=
  { session with
    document := document
    scheduler := (session.scheduler.call document.revision).2 }

/-- Makes a change, with the range of lines that were lexed for it. A change that is refused
leaves the session as it is. -/
def edit (session : Session ν) (change : Edit) : Except Error LineRange × Session ν :=
  match session.document.edit change with
  | .ok (range, document) => (.ok range, session.adopt document)
  | .error reason => (.error reason, session)

def advance (session : Session ν) (time : Nanoseconds) : Session ν :=
  { session with scheduler := session.scheduler.advance time }

def setAppearance (session : Session ν) (appearance : Appearance) : Session ν :=
  { session with appearance := appearance }

/-- The outcome of a check as markers: none if the document is valid. -/
def markersOf (outcome : Except Failure Unit) : Except Error (List Marker) :=
  match outcome with
  | .ok () => .ok []
  | .error failure => failure.markers

/-- Checks the document if that is due. Answers nothing if it is not, and otherwise with the
markers, or with the failure if it cannot be marked; the markers of the session stay as they are
then. -/
def poll [Validator ν] (session : Session ν) :
    Option (Except Error (List Marker)) × Session ν :=
  match session.scheduler.takeDue with
  | (none, _) => (none, session)
  | (some _, scheduler) =>
    let checked := Validator.validate session.validator session.document.text
    let outcome := markersOf checked.1
    (some outcome,
      { session with
        scheduler := scheduler
        validator := checked.2
        markers := outcome.toOption.getD session.markers })

/-- The time until the check of the document is due. -/
def timeUntilDue (session : Session ν) : Option Nanoseconds :=
  session.scheduler.timeUntilDue

/-- Whether a check of the document is held back. -/
def isPending (session : Session ν) : Bool :=
  session.scheduler.isPending

/-- The style of a kind of token in the appearance of the session. -/
def styleOf (session : Session ν) (kind : Token.Kind) : Style :=
  Theme.styleOf kind session.appearance

end Session

/-! ## Runs -/

/-- What can happen to a session. -/
inductive Action
  | edit (change : Edit)
  | advance (time : Nanoseconds)
  | setAppearance (appearance : Appearance)
  | poll
deriving DecidableEq, Repr

/-- What an action answers. -/
inductive Response
  | edited (result : Except Error LineRange)
  | done
  | polled (result : Option (Except Error (List Marker)))

namespace Session

variable {ν : Type} [Validator ν]

def step (session : Session ν) : Action → Response × Session ν
  | .edit change =>
    let edited := session.edit change
    (.edited edited.1, edited.2)
  | .advance time => (.done, session.advance time)
  | .setAppearance appearance => (.done, session.setAppearance appearance)
  | .poll =>
    let polled := session.poll
    (.polled polled.1, polled.2)

/-- The responses to a sequence of actions, and the session after them. -/
def run (session : Session ν) : List Action → List Response × Session ν
  | [] => ([], session)
  | action :: more =>
    let first := session.step action
    let rest := first.2.run more
    (first.1 :: rest.1, rest.2)

end Session

end TomlEditor.Editor
