import TomlEditor.Problem.Marker
import TomlEditor.Terminal.Dump
import TomlEditor.Terminal.Painting

/-!
# Handling files

Every file is handled by itself and in order; one that cannot be read or is not
valid does not keep the others from being handled, but the program fails in the
end. What a valid file is, and how a character is written in a dump, is left open
here: both are parameters.
-/

namespace TomlEditor.Terminal

open Problem Theme

/-- What to do with each file. -/
inductive Action
  | tokens
  | check
  | highlight (appearance : Appearance)
deriving DecidableEq, Repr

/-- An action on some files. -/
structure Request where files ::
  action : Action
  names : List String
deriving DecidableEq, Repr

/-- Why a file cannot be read. -/
inductive ReadError
  | missing
  | notUtf8
  | other (message : String)
deriving DecidableEq, Repr

def ReadError.message : ReadError → String
  | missing => "No such file or directory (os error 2)"
  | notUtf8 => "stream did not contain valid UTF-8"
  | other message => message

/-- The text with the given UTF-8 form. -/
def decode (bytes : ByteArray) : Except ReadError String :=
  match String.fromUTF8? bytes with
  | some content => .ok content
  | none => .error .notUtf8

/-- The content of each file by its name. -/
abbrev Directory := String → Except ReadError String

/-- What handling files prints, and whether one of them was at fault. -/
structure Outcome where
  stdout : String
  stderr : String
  failed : Bool
deriving DecidableEq, Repr

namespace Outcome

def nothing : Outcome :=
  ⟨"", "", false⟩

/-- One outcome after another. -/
def append (first second : Outcome) : Outcome where
  stdout := first.stdout ++ second.stdout
  stderr := first.stderr ++ second.stderr
  failed := first.failed || second.failed

instance : Append Outcome :=
  ⟨append⟩

/-- Something was printed on the standard output. -/
def printed (text : String) : Outcome :=
  ⟨text, "", false⟩

/-- Something was reported on the standard error. -/
def reported (text : String) (failed : Bool) : Outcome :=
  ⟨"", text, failed⟩

end Outcome

/-! ## One file -/

/-- Reports whether a file is valid. -/
def reportCheck (name : String) : Except Failure Unit → Outcome
  | .ok () => .reported (name ++ ": valid\n") false
  | .error failure =>
    match failure.markers with
    | .ok markers =>
      .reported (String.join (markers.map fun marker => name ++ ":" ++ marker.display ++ "\n")) true
    | .error error => .reported (name ++ ": " ++ error.message ++ "\n") true

/-- Does what is asked for with the content of a file. -/
def handleContent (write : Char → List Char) (validate : String → Except Failure Unit)
    (action : Action) (name content : String) : Outcome :=
  match action with
  | .tokens => .printed (dump write content)
  | .check => reportCheck name (validate content)
  | .highlight appearance => .printed (paint appearance content)

/-- Does what is asked for with a file. -/
def handleFile (write : Char → List Char) (validate : String → Except Failure Unit)
    (directory : Directory) (action : Action) (name : String) : Outcome :=
  match directory name with
  | .ok content => handleContent write validate action name content
  | .error reason => .reported (name ++ ": " ++ reason.message ++ "\n") true

/-- Does what is asked for with each file. -/
def handleFiles (write : Char → List Char) (validate : String → Except Failure Unit)
    (directory : Directory) (action : Action) : List String → Outcome
  | [] => .nothing
  | name :: more =>
    handleFile write validate directory action name ++
      handleFiles write validate directory action more

/-! ## A whole request -/

/-- What a run of the program leaves behind. -/
structure Exit where
  stdout : String
  stderr : String
  code : Nat
deriving DecidableEq, Repr

def Outcome.exit (outcome : Outcome) : Exit :=
  ⟨outcome.stdout, outcome.stderr, if outcome.failed then 1 else 0⟩

/-- Does what is asked for. -/
def Request.run (write : Char → List Char) (validate : String → Except Failure Unit)
    (directory : Directory) (request : Request) : Exit :=
  (handleFiles write validate directory request.action request.names).exit

end TomlEditor.Terminal
