import TomlEditor.Terminal.Outcome
import TomlEditor.Toml.Check

/-!
# The command line program

Reads the files that the arguments name, and prints what handling them gives.
-/

namespace TomlEditor

open Terminal

/-- Reads a file as text. -/
def readText (name : String) : IO (Except ReadError String) := do
  try
    return decode (← IO.FS.readBinFile name)
  catch error =>
    match error with
    | .noFileOrDirectory .. => return .error .missing
    | other => return .error (.other (toString other))

/-- Reads some files. A name among them stands for what was read of it. -/
def readFiles (names : List String) : IO Directory := do
  let contents ← names.mapM fun name => return (name, ← readText name)
  return fun name => (contents.lookup name).getD (.error .missing)

def runProgram (arguments : List String) : IO UInt32 := do
  let request := Request.ofArguments (← IO.getEnv "SITHRA_TOML_THEME") arguments
  let done := request.run Toml.validate (← readFiles request.names)
  IO.print done.stdout
  IO.eprint done.stderr
  return done.code.toUInt32

end TomlEditor

def main (arguments : List String) : IO UInt32 :=
  TomlEditor.runProgram arguments
