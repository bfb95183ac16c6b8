import TomlEditor.Problem.Failure

/-!
# Validators

A validator checks a whole document. It may keep a state from one check to the
next, such as the list of the texts it was given.
-/

namespace TomlEditor.Editor

open Problem

class Validator (ν : Type) where
  /-- Checks a text, and the validator after the check. -/
  validate : ν → String → Except Failure Unit × ν

/-- A validator that checks each text by itself and writes it down. -/
structure Recorder where
  check : String → Except Failure Unit
  /-- The texts checked so far, in order. -/
  checked : List String

namespace Recorder

/-- A recorder that has not checked a text yet. -/
def ofCheck (check : String → Except Failure Unit) : Recorder :=
  ⟨check, []⟩

instance : Validator Recorder where
  validate recorder text :=
    (recorder.check text, { recorder with checked := recorder.checked ++ [text] })

end Recorder

end TomlEditor.Editor
