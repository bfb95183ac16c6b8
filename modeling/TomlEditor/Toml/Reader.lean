import TomlEditor.Text.Ascii
import TomlEditor.Toml.Fault

/-!
# Readers

A reader takes something off the front of the text ahead, or stops at a fault
somewhere in it. A fault is decided if what was read up to it allows no other
reading; a list may end before an item whose fault is not decided.
-/

namespace TomlEditor.Toml

open Text

/-- A fault with its place, given by the text from there on. -/
structure Stop where
  fault : Fault
  rest : List Char
  decided : Bool
deriving DecidableEq, Repr

abbrev Reader (α : Type) := List Char → Except Stop (α × List Char)

/-- Stops at a decided fault. -/
def stop {α : Type} (fault : Fault) (rest : List Char) : Except Stop α :=
  .error ⟨fault, rest, true⟩

/-- Stops at a fault that leaves another reading open. -/
def refuse {α : Type} (fault : Fault) (rest : List Char) : Except Stop α :=
  .error ⟨fault, rest, false⟩

/-- Names what a reading was of, for faults that do not say so. -/
def within {α : Type} (subject : Subject) (reading : Except Stop α) : Except Stop α :=
  reading.mapError fun halt => { halt with fault := halt.fault.within subject }

/-- Makes the fault of a reading a decided one. -/
def decided {α : Type} (reading : Except Stop α) : Except Stop α :=
  reading.mapError fun halt => { halt with decided := true }

/-- What one round of a repetition leads to. -/
inductive Round (σ α : Type)
  | more (state : σ)
  | done (result : α)

/-- Reads rounds until one says that it is the last. Every round but the last has to read
something, or the repetition stops. -/
def rounds {σ α : Type} (round : σ → Reader (Round σ α)) (state : σ) (ahead : List Char) :
    Except Stop (α × List Char) :=
  match round state ahead with
  | .error halt => .error halt
  | .ok (.done result, rest) => .ok (result, rest)
  | .ok (.more next, rest) =>
    if rest.length < ahead.length then rounds round next rest else stop .unknown rest
termination_by ahead.length

/-! ## Characters -/

/-- A letter, a digit, an underscore or a hyphen. -/
def isBareKey (c : Char) : Bool :=
  isWord c || c == '-'

/-- A tab or a character that is not a control character. -/
def isText (c : Char) : Bool :=
  c == '\t' || (' ' ≤ c && c != '\x7f')

def skipSpace (ahead : List Char) : List Char :=
  ahead.dropWhile isSpace

/-- The text after a line end, if one is next. -/
def lineEnd? : List Char → Option (List Char)
  | '\n' :: rest => some rest
  | '\r' :: '\n' :: rest => some rest
  | _ => none

/-- The text after a comment, if one is next. -/
def skipComment : List Char → List Char
  | '#' :: rest => rest.dropWhile isText
  | ahead => ahead

/-- Reads what may follow on the line of a statement: spaces and a comment up to the line end. -/
def endLine (ahead : List Char) : Except Stop (List Char) :=
  let rest := skipComment (skipSpace ahead)
  match rest, lineEnd? rest with
  | [], _ => .ok []
  | _, some next => .ok next
  | _, none => stop (Fault.unknown.expecting [.newline, .literal "#"]) rest

/-- Skips spaces and line ends. -/
def skipWhite : List Char → List Char
  | [] => []
  | c :: rest =>
    if isSpace c || c == '\n' || (c == '\r' && rest.head? = some '\n') then skipWhite rest
    else c :: rest

/-- The text after a line end that has to come next. Where another character stands instead, the
fault lies after it. -/
def newline (ahead : List Char) : Except Stop (List Char) :=
  match lineEnd? ahead with
  | some rest => .ok rest
  | none => refuse .unknown (ahead.drop 1)

/-- Skips spaces, line ends and comments, each of which goes up to a line end. -/
def skipLines (ahead : List Char) : Except Stop (List Char) :=
  Prod.snd <$> rounds (fun () ahead =>
    let start := skipSpace ahead
    match start with
    | '#' :: _ => do return (.more (), ← newline (skipComment start))
    | '\n' :: _ | '\r' :: _ => do return (.more (), ← newline start)
    | _ => .ok (.done (), start)) () ahead

end TomlEditor.Toml
