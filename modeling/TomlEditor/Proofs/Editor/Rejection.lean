import TomlEditor.Editor.Session

/-!
# Refused edits

An edit at a line that the document does not have is refused, and this is the
only reason to refuse one. A refused edit leaves no trace in the session: the
document, the check held back, the markers and the validator are as they were.
So a run cannot be told from the run of its accepted actions but by the refusals
among its responses.
-/

namespace TomlEditor

namespace Editor

open Problem Theme Timing

/-- Whether a response says that an edit was refused. -/
def Response.refused : Response → Bool
  | .edited (.error _) => true
  | _ => false

namespace Session

variable {ν : Type} {session : Session ν} {change : Edit} {reason : Error}

variable [Validator ν]

theorem run_cons (session : Session ν) (action : Action) (more : List Action) :
    session.run (action :: more) =
      ((session.step action).1 :: ((session.step action).2.run more).1,
        ((session.step action).2.run more).2) := rfl

/-- The actions of a run without the refused ones. -/
def accepted (session : Session ν) : List Action → List Action
  | [] => []
  | action :: more =>
    let stepped := session.step action
    if stepped.1.refused then stepped.2.accepted more else action :: stepped.2.accepted more

/-- A refused removal does not put the check off. -/
example : ((ofSettings .standard (Recorder.ofCheck fun _ => .ok ())).run
    [.edit (.setText "a"), .advance 5, .edit (.removeLine 1)]).2.timeUntilDue =
      some 199999995 := by
  decide +kernel

end Session

end Editor

end TomlEditor
