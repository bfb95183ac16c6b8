import TomlEditor.Terminal.Arguments
import TomlEditor.Text.Escaped

/-!
# Outcomes of command lines

A command line that asks for the version or that cannot be used is answered at
once; the others are requests for some files.
-/

namespace TomlEditor.Terminal

open Problem

def versionText : String :=
  "sithra-toml 0.1.0\n"

/-- What is said of arguments that cannot be used. -/
def usageError (reason : String) : Exit :=
  ⟨"", "error: " ++ reason ++ "\n\nFor more information, try '--help'.\n", 2⟩

/-- Does what is asked for. -/
def CommandLine.run (validate : String → Except Failure Unit) (directory : Directory) :
    CommandLine → Exit
  | version => ⟨versionText, "", 0⟩
  | request asked => asked.run Text.escapedChar validate directory
  | refused reason => usageError reason

end TomlEditor.Terminal
