import TomlEditor.Toml.Quoted

/-!
# Keys of a TOML document

A key is one or more names with points between them. A name is a run of bare
characters or a string on one line. Spaces may stand around the names.
-/

namespace TomlEditor.Toml

/-- No value lies below this many tables, arrays and inline tables. -/
def depthLimit : Nat :=
  80

/-- A name of a key. -/
def keyName : Reader String
  | '"' :: rest => basicString rest
  | '\'' :: rest => literalString rest
  | ahead =>
    match ahead.takeWhile isBareKey with
    | [] => refuse (.invalid .key) ahead
    | name => .ok (String.ofList name, ahead.drop name.length)

/-- Whether a name of a key comes next. -/
def startsKeyName (ahead : List Char) : Bool :=
  ahead.head?.any fun c => isBareKey c || c == '"' || c == '\''

/-- The names of a key. A point that no name follows is left to what comes after the key. -/
def key (ahead : List Char) : Except Stop (Path × List Char) := do
  let (names, rest) ← rounds (fun (names : Path) ahead => do
    let (name, rest) ← keyName (skipSpace ahead)
    let rest := skipSpace rest
    match rest with
    | '.' :: more =>
      if startsKeyName (skipSpace more) then return (.more (names ++ [name]), more)
      else return (.done (names ++ [name]), rest)
    | _ => return (.done (names ++ [name]), rest)) [] ahead
  if names.length < depthLimit then return (names, rest)
  else refuse (.broken .tooDeep) ahead

end TomlEditor.Toml
