import TomlEditor.Text.Digits
import TomlEditor.Toml.Reader

/-!
# Strings of a TOML document

Basic strings have escapes, literal strings have none; both have a form on one
line and a form over several. A reader of a string starts after its opening
quotes and gives the characters that the string stands for.
-/

namespace TomlEditor.Toml

/-! ## Escapes -/

/-- The character with the code point that so many hexadecimal digits give. -/
def codePoint (digits : Nat) : Reader Char := fun ahead =>
  let numeral := (ahead.take digits).takeWhile Text.isHexDigit
  let code := Text.numeralValue 16 numeral
  let fault := Fault.invalid (.codePoint digits)
  if numeral.length < digits then stop fault ahead
  else if code.isValidChar then .ok (Char.ofNat code, ahead.drop digits)
  else stop (fault.because .outOfRange) ahead

/-- What an escape other than one of the known ones would have had to be. -/
def unknownEscape : Fault :=
  (Fault.invalid .escape).expecting
    (["b", "f", "n", "r", "t", "u", "U", "\\", "\""].map Expected.literal)

/-- The character of an escape, from the text after the backslash. A fault in the escape letter
lies after it if that is a single byte. -/
def escape : Reader Char
  | [] => refuse .unknown []
  | c :: rest =>
    match c with
    | 'b' => .ok ('\x08', rest)
    | 'f' => .ok ('\x0c', rest)
    | 'n' => .ok ('\n', rest)
    | 'r' => .ok ('\r', rest)
    | 't' => .ok ('\t', rest)
    | '\\' => .ok ('\\', rest)
    | '"' => .ok ('"', rest)
    | 'u' => codePoint 4 rest
    | 'U' => codePoint 8 rest
    | _ => stop unknownEscape (if c.utf8Size = 1 then rest else c :: rest)

/-! ## Strings on one line -/

/-- Characters are collected last first. -/
abbrev Collected := List Char

def Collected.text (collected : Collected) : String :=
  String.ofList collected.reverse

def basicString (ahead : List Char) : Except Stop (String × List Char) :=
  rounds (fun (collected : Collected) ahead =>
    match ahead with
    | '"' :: rest => .ok (.done collected.text, rest)
    | '\\' :: c :: rest => do
      let (escaped, rest) ← escape (c :: rest)
      return (.more (escaped :: collected), rest)
    | c :: rest =>
      if isText c && c != '\\' then .ok (.more (c :: collected), rest)
      else stop (.invalid .basicString) ahead
    | [] => stop (.invalid .basicString) []) [] ahead

def literalString : Reader String := fun ahead =>
  let content := ahead.takeWhile fun c => isText c && c != '\''
  match ahead.drop content.length with
  | '\'' :: rest => .ok (String.ofList content, rest)
  | rest => stop (.invalid .literalString) rest

/-! ## Strings over several lines -/

/-- The number of quotes next in the text ahead. -/
def quotesAhead (quote : Char) (ahead : List Char) : Nat :=
  (ahead.takeWhile (· == quote)).length

/-- The text after a line end, if one is next, and otherwise all the text. -/
def skipLineEnd (ahead : List Char) : List Char :=
  (lineEnd? ahead).getD ahead

/-- Skips spaces and line ends that hold a line end right after the spaces in front. -/
def skipContinuation? (ahead : List Char) : Option (List Char) :=
  (lineEnd? (skipSpace ahead)).map skipWhite

/-- Reads a string up to three quotes, of which up to two more may stand before them as
characters. One or two quotes elsewhere are characters too if the string can go on after them. -/
def multilineString (quote : Char) (subject : Subject) (goesOn : List Char → Bool)
    (content : Collected → Reader (Round Collected String)) : Reader String := fun ahead =>
  rounds (fun (collected : Collected) ahead =>
    match quotesAhead quote ahead with
    | 0 => content collected ahead
    | count =>
      if 3 ≤ count then
        let extra := min (count - 3) 2
        .ok (.done (Collected.text (List.replicate extra quote ++ collected)),
          ahead.drop (extra + 3))
      else
        let rest := ahead.drop count
        if goesOn rest then .ok (.more (List.replicate count quote ++ collected), rest)
        else stop (.invalid subject) ahead)
    [] (skipLineEnd ahead)

/-- Text, a line end, an escape or a backslash at the end of a line. -/
def multilineBasicContent (collected : Collected) : Reader (Round Collected String) := fun ahead =>
  match ahead with
  | '\\' :: c :: rest =>
    match skipContinuation? (c :: rest) with
    | some rest => .ok (.more collected, rest)
    | none => do
      let (escaped, rest) ← escape (c :: rest)
      return (.more (escaped :: collected), rest)
  | c :: rest =>
    match lineEnd? ahead with
    | some rest => .ok (.more ('\n' :: collected), rest)
    | none =>
      if isText c && c != '\\' then .ok (.more (c :: collected), rest)
      else stop (.invalid .multilineBasicString) ahead
  | [] => stop (.invalid .multilineBasicString) []

/-- Text or a line end. -/
def multilineLiteralContent (collected : Collected) : Reader (Round Collected String) := fun ahead =>
  match ahead, lineEnd? ahead with
  | _, some rest => .ok (.more ('\n' :: collected), rest)
  | c :: rest, none =>
    if isText c then .ok (.more (c :: collected), rest)
    else stop (.invalid .multilineLiteralString) ahead
  | [], none => stop (.invalid .multilineLiteralString) []

/-- Whether text or a line end comes next. -/
def startsLiteralContent (ahead : List Char) : Bool :=
  (lineEnd? ahead).isSome || ahead.head?.any isText

/-- A basic string over several lines goes on after quotes unless the text ends. -/
def multilineBasicString : Reader String :=
  multilineString '"' .multilineBasicString (fun ahead => !ahead.isEmpty) multilineBasicContent

/-- A literal string over several lines goes on after quotes if more of its content comes next. -/
def multilineLiteralString : Reader String :=
  multilineString '\'' .multilineLiteralString startsLiteralContent multilineLiteralContent

/-- Reads a string of any form, from its opening quotes on. -/
def anyString : Reader String
  | '"' :: '"' :: '"' :: rest => multilineBasicString rest
  | '"' :: rest => basicString rest
  | '\'' :: '\'' :: '\'' :: rest => multilineLiteralString rest
  | '\'' :: rest => literalString rest
  | ahead => refuse (.invalid .string) ahead

end TomlEditor.Toml
