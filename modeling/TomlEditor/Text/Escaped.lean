import TomlEditor.Text.Digits
import TomlEditor.Text.Unprintable

/-!
# Escaped texts

A text in double quotes on one line, from which it can be read back: quotes,
backslashes and characters that cannot be shown are replaced by escapes.
-/

namespace TomlEditor.Text

/-- A character by its code point. -/
def codeEscape (c : Char) : List Char :=
  ['\\', 'u', '{'] ++ hexDigits c.toNat ++ ['}']

/-- How a character is written between double quotes. -/
def escapedChar (c : Char) : List Char :=
  match c with
  | '\t' => ['\\', 't']
  | '\r' => ['\\', 'r']
  | '\n' => ['\\', 'n']
  | '\x00' => ['\\', '0']
  | '\\' => ['\\', '\\']
  | '"' => ['\\', '"']
  | _ => if isUnprintable c then codeEscape c else [c]

/-- A text between double quotes, with each character as it is written there. -/
def quoted (write : Char → List Char) (text : String) : String :=
  String.ofList ('"' :: text.toList.flatMap write ++ ['"'])

end TomlEditor.Text
