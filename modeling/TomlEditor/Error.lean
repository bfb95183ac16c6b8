/-!
# Errors

The reasons for which an operation of the library refuses its input, and their
wording.
-/

namespace TomlEditor

inductive Error
  /-- A check of a document failed for a reason that has no place in its text. -/
  | unpositioned (name message : String)
  /-- A line number outside a document with the given number of lines. -/
  | lineOutOfRange (line count : Nat)
  /-- A text that names no theme mode. -/
  | invalidThemeMode (text : String)
  /-- A text that is no color. -/
  | invalidColor (text : String)
deriving DecidableEq, Repr

def Error.message : Error → String
  | unpositioned name message => name ++ ": " ++ message
  | lineOutOfRange line count =>
    "line " ++ line.repr ++ " out of range, document has " ++ count.repr ++ " line(s)"
  | invalidThemeMode text => "unknown theme mode: " ++ text ++ " (expected `light` or `dark`)"
  | invalidColor text => "invalid color: " ++ text

end TomlEditor
