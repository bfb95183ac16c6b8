import TomlEditor.Lex.Bytewise.Cursor
import TomlEditor.Lex.Bytewise.Length

/-!
# Scanners

A scanner says what it finds at the position of a cursor. There is one ordered
list of scanners for the top level and one for strings, and what the first one
finds that finds something counts. Where none does, a run of word characters or
a single character is of unknown kind.
-/

namespace TomlEditor.Lex.Bytewise

open Text

abbrev Scanner := Cursor → Option (Option Found)

/-! ## Comments, headers and keys -/

def scanComment : Scanner := fun cursor => do
  let rest ← cursor.rest?
  if isAt (· == '#') rest 0 then
    return some (.single .comment ((rest.findIdx? (onByte isLineEnd)).getD rest.length))
  else return none

def scanArrayTableHeader : Scanner := fun cursor => do
  let rest ← cursor.rest?
  if startsWith "[[" rest then
    if ← cursor.atLineStart? then
      let stop := 2 + (← headerNameLength? rest 2)
      let close ← bytesFrom? rest stop
      return if startsWith "]]" close then some (.single .arrayTableHeader (stop + 2)) else none
    else return none
  else return none

def scanTableHeader : Scanner := fun cursor => do
  let rest ← cursor.rest?
  if isAt (· == '[') rest 0 then
    if ← cursor.atLineStart? then
      let stop := 1 + (← headerNameLength? rest 1)
      return if isAt (· == ']') rest stop then some (.single .tableHeader (stop + 1)) else none
    else return none
  else return none

/-- A key, the spaces after it if there are any, and the equals sign. -/
def scanKey : Scanner := fun cursor => do
  if ← cursor.atLineStart? then
    let rest ← cursor.rest?
    let some name ← keyNameLength? rest | return none
    let some gap ← keyGapLength? rest name | return none
    let space := if 0 < gap then [(.whitespace, gap)] else []
    return some ⟨(.key, name) :: space ++ [(.delimiter, 1)], .stay⟩
  else return none

/-! ## Values -/

/-- A scanner for values of the given length that touch no word. -/
def scanValue (kind : Token.Kind) (length? : List UInt8 → Option (Option Nat)) : Scanner :=
  fun cursor => do
    let some length ← length? (← cursor.rest?) | return none
    return (← cursor.bounded? length).map (Found.single kind)

/-- A date and a time. A fraction glued to a word is left out. -/
def scanDateTime : Scanner := fun cursor => do
  let rest ← cursor.rest?
  let some (time, fraction) ← dateTimeLength? rest | return none
  match ← cursor.bounded? (time + fraction) with
  | some length => return some (.single .dateTime length)
  | none => return (← cursor.bounded? time).map (Found.single .dateTime)

/-! ## Strings and white space -/

/-- The quote that opens a string. -/
def scanStringOpen : Scanner := fun cursor => do
  let rest ← cursor.rest?
  return (rest.head?.bind fun first => Quote.ofChar? (Char.ofUInt8 first)).map fun quote =>
    ⟨[(.stringLiteral, 1)], .enter quote⟩

def scanWhitespace : Scanner := fun cursor => do
  let length := runLength isWhite (← cursor.rest?)
  return if 0 < length then some (.single .whitespace length) else none

def scanStringText : Scanner := fun cursor => do
  let some quote := cursor.quote? | return none
  let length := runLength (isStringText quote) (← cursor.rest?)
  return if 0 < length then some (.single .stringLiteral length) else none

def scanStringEscape : Scanner := fun cursor => do
  let some length ← escapeLength? (← cursor.rest?) | return none
  return some (.single .stringEscape length)

/-- A backslash, with the character after it unless that ends the line. -/
def scanStringEscapeInvalid : Scanner := fun cursor => do
  if isAt (· == '\\') (← cursor.rest?) 0 then
    let next := (← cursor.charAt? (cursor.pos + 1)).filter (!isLineEnd ·)
    return some (.single .stringEscapeInvalid (1 + next.elim 0 Char.utf8Size))
  else return none

/-- The quote that closes a string. -/
def scanStringClose : Scanner := fun cursor => do
  let some quote := cursor.quote? | return none
  return if isAt (· == quote.char) (← cursor.rest?) 0 then
    some ⟨[(.stringLiteral, 1)], .leave⟩
  else none

/-! ## Tables -/

/-- The scanners of the top level, in the order in which they are tried. -/
def rootScanners : List Scanner :=
  [scanComment,
   scanArrayTableHeader,
   scanTableHeader,
   scanKey,
   scanValue .dateTimeTz dateTimeTzLength?,
   scanDateTime,
   scanValue .date fun rest => some (dateLength? rest),
   scanValue .float floatLength?,
   scanValue .integer integerLength?,
   scanValue .boolean fun rest => some (booleanLength? rest),
   scanStringOpen,
   scanWhitespace]

/-- The scanners inside a string, in the order in which they are tried. -/
def stringScanners : List Scanner :=
  [scanStringText, scanStringEscape, scanStringEscapeInvalid, scanStringClose]

def scannersOf : Mode → List Scanner
  | .root => rootScanners
  | .string _ => stringScanners

/-- What the first scanner finds that finds something. -/
def firstFound? (cursor : Cursor) : List Scanner → Option (Option Found)
  | [] => some none
  | scanner :: more => do
    match ← scanner cursor with
    | some found => return some found
    | none => firstFound? cursor more

/-- A run of word characters, or one character. -/
def scanUnknown (cursor : Cursor) : Option Found := do
  let word := runLength isWord (← cursor.rest?)
  if 0 < word then return .single .unknown word
  else return .single .unknown ((← cursor.charAt? cursor.pos).elim 1 Char.utf8Size)

/-- What is found at a position. -/
def scan? (cursor : Cursor) : Option Found := do
  match ← firstFound? cursor (scannersOf cursor.mode) with
  | some found => return found
  | none => scanUnknown cursor

end TomlEditor.Lex.Bytewise
