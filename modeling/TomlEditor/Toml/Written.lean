import TomlEditor.Toml.Key

/-!
# Written names

How a name is written where it is reported. Of the forms that a name can have in
a key the plainest is taken that holds it.
-/

namespace TomlEditor.Toml

/-- A character that is no text, in a basic string. It is a control character, so that its code
point has at most two digits. -/
def controlEscape (c : Char) : List Char :=
  ['\\', 'u', '0', '0'] ++ (Text.hexPair (UInt8.ofNat c.toNat)).map Char.toUpper

/-- A character in a basic string. -/
def basicChar (c : Char) : List Char :=
  match c with
  | '\x08' => ['\\', 'b']
  | '\t' => ['\\', 't']
  | '\n' => ['\\', 'n']
  | '\x0c' => ['\\', 'f']
  | '\r' => ['\\', 'r']
  | '"' => ['\\', '"']
  | '\\' => ['\\', '\\']
  | _ => if isText c then [c] else controlEscape c

/-- A name as a basic string. -/
def writtenBasic (name : List Char) : List Char :=
  '"' :: name.flatMap basicChar ++ ['"']

/-- A name as a literal string. -/
def writtenLiteral (name : List Char) : List Char :=
  '\'' :: name ++ ['\'']

/-- A name as it is written: bare if it can be, else in quotes. Double quotes are taken if nothing
but a tab needs an escape in them, or if single quotes cannot hold the name. -/
def writtenName (name : String) : String :=
  let cs := name.toList
  if !cs.isEmpty && cs.all isBareKey then name
  else
    let isPlain := cs.all isText
    let isBasic := isPlain && cs.all fun c => c != '"' && c != '\\'
    let isLiteral := isPlain && cs.all (· != '\'')
    String.ofList (if isLiteral && !isBasic then writtenLiteral cs else writtenBasic cs)

end TomlEditor.Toml
