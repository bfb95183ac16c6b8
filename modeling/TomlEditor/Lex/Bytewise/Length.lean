import TomlEditor.Lex.Line
import TomlEditor.Lex.Quoted
import TomlEditor.Text.Ascii
import TomlEditor.Text.Bytes

/-!
# Lengths in bytes

Each function gives the number of bytes that something takes at the front of the
bytes ahead, by offsets from the first of them. Parts of the bytes are read with
offsets found so far, so a function that reads one has a result only if all the
offsets on its way are in range.
-/

namespace TomlEditor.Lex.Bytewise

open Text

/-- Whether there is a byte of a class at an index. -/
def isAt (p : Char → Bool) (data : List UInt8) (index : Nat) : Bool :=
  data[index]?.any (onByte p)

/-- The number of bytes of a class at the front. -/
def runLength (p : Char → Bool) (data : List UInt8) : Nat :=
  (data.takeWhile (onByte p)).length

/-- Whether the bytes start with a word. -/
def startsWith (word : String) (data : List UInt8) : Bool :=
  (bytes word).isPrefixOf data

/-! ## Headers and keys -/

/-- The length of the name between brackets that starts at an index. -/
def headerNameLength? (data : List UInt8) (start : Nat) : Option Nat :=
  (bytesFrom? data start).map (runLength isHeaderName)

/-- The length of the name of a key: a text in quotes on one line, or a run of bare characters. -/
def keyNameLength? (data : List UInt8) : Option (Option Nat) :=
  match data with
  | [] => return none
  | first :: _ =>
    match Quote.ofChar? (Char.ofUInt8 first) with
    | some quote => do
      let inside ← bytesFrom? data 1
      match inside.findIdx? (onByte fun c => c == quote.char || c == '\n') with
      | none => return none
      | some inner =>
        let last ← data[1 + inner]?
        return if onByte (· == quote.char) last then some (inner + 2) else none
    | none => return if onByte isBareKey first then some (runLength isBareKey data) else none

/-- The spaces between the name of a key, of the given length, and the equals sign behind it. -/
def keyGapLength? (data : List UInt8) (name : Nat) : Option (Option Nat) := do
  let gap := runLength isSpace (← bytesFrom? data name)
  return if isAt (· == '=') data (name + gap) then some gap else none

/-! ## Dates and times -/

/-- Whether there are so many digits from an index on. -/
def digitsAt (data : List UInt8) (start count : Nat) : Bool :=
  start + count ≤ data.length && ((data.drop start).take count).all (onByte Char.isDigit)

/-- `YYYY-MM-DD` -/
def dateLength? (data : List UInt8) : Option Nat :=
  if digitsAt data 0 4 && isAt (· == '-') data 4 && digitsAt data 5 2 && isAt (· == '-') data 7 &&
      digitsAt data 8 2 then
    some 10
  else none

/-- A point and the digits after it, or nothing, at an index. -/
def secondFractionLength? (data : List UInt8) (index : Nat) : Option Nat := do
  if isAt (· == '.') data index then
    let digits := runLength Char.isDigit (← bytesFrom? data (index + 1))
    return if 0 < digits then digits + 1 else 0
  else return 0

/-- `THH:MM:SS` at an index: its length, and the length of a fraction that follows it. -/
def timeLength? (data : List UInt8) (start : Nat) : Option (Option (Nat × Nat)) := do
  if isAt (· == 'T') data start && digitsAt data (start + 1) 2 &&
      isAt (· == ':') data (start + 3) && digitsAt data (start + 4) 2 &&
      isAt (· == ':') data (start + 6) && digitsAt data (start + 7) 2 then
    return some (9, ← secondFractionLength? data (start + 9))
  else return none

/-- `Z`, or `+HH:MM` or `-HH:MM`, at an index. -/
def offsetLength? (data : List UInt8) (start : Nat) : Option Nat :=
  if isAt (· == 'Z') data start then some 1
  else if isAt (fun c => c == '+' || c == '-') data start && digitsAt data (start + 1) 2 &&
      isAt (· == ':') data (start + 3) && digitsAt data (start + 4) 2 then
    some 6
  else none

/-- A date and a time: their length, and the length of a fraction that follows them. -/
def dateTimeLength? (data : List UInt8) : Option (Option (Nat × Nat)) := do
  let some date := dateLength? data | return none
  let some (time, fraction) ← timeLength? data date | return none
  return some (date + time, fraction)

/-- A date, a time and an offset. -/
def dateTimeTzLength? (data : List UInt8) : Option (Option Nat) := do
  let some (time, fraction) ← dateTimeLength? data | return none
  let head := time + fraction
  return (offsetLength? data head).map (head + ·)

/-! ## Numbers and booleans -/

theorem lt_length_of_isAt {p : Char → Bool} {data : List UInt8} {index : Nat}
    (h : isAt p data index = true) : index < data.length := by
  refine Nat.lt_of_not_le fun hle => ?_
  simp [isAt, List.getElem?_eq_none hle] at h

/-- The index behind a run of digits, each with at most one underscore before it. -/
def digitRunEnd (data : List UInt8) (index : Nat) : Nat :=
  if hdigit : isAt Char.isDigit data index then digitRunEnd data (index + 1)
  else if hmark : isAt (· == '_') data index ∧ isAt Char.isDigit data (index + 1) then
    digitRunEnd data (index + 2)
  else index
termination_by data.length - index
decreasing_by
  · have := lt_length_of_isAt hdigit
    omega
  · have := lt_length_of_isAt hmark.1
    omega

def digitRun (data : List UInt8) : Nat :=
  digitRunEnd data 0

/-- A sign or nothing. -/
def signLength (data : List UInt8) (index : Nat) : Nat :=
  if isAt (fun c => c == '+' || c == '-') data index then 1 else 0

/-- Digits without a zero in front of others, with an optional sign. -/
def integerLength? (data : List UInt8) : Option (Option Nat) := do
  let sign := signLength data 0
  if isAt (· == '0') data sign then return some (sign + 1)
  else if isAt Char.isDigit data sign then
    return some (sign + 1 + digitRun (← bytesFrom? data (sign + 1)))
  else return none

/-- A point, a digit and a run of digits, or nothing. -/
def fractionLength? (data : List UInt8) : Option Nat := do
  if isAt (· == '.') data 0 && isAt Char.isDigit data 1 then
    return 2 + digitRun (← bytesFrom? data 2)
  else return 0

/-- `e` or `E`, an optional sign, a digit and a run of digits, or nothing. -/
def exponentLength? (data : List UInt8) : Option Nat := do
  if isAt (fun c => c == 'e' || c == 'E') data 0 then
    let sign := signLength data 1
    if isAt Char.isDigit data (1 + sign) then
      return 2 + sign + digitRun (← bytesFrom? data (2 + sign))
    else return 0
  else return 0

/-- An integer part with a fraction, an exponent or both. -/
def floatLength? (data : List UInt8) : Option (Option Nat) := do
  let some whole ← integerLength? data | return none
  let fraction ← fractionLength? (← bytesFrom? data whole)
  let exponent ← exponentLength? (← bytesFrom? data (whole + fraction))
  return if fraction = 0 ∧ exponent = 0 then none else some (whole + fraction + exponent)

def booleanLength? (data : List UInt8) : Option Nat :=
  if startsWith "true" data then some 4
  else if startsWith "false" data then some 5
  else none

/-! ## Escapes -/

/-- The number of hexadecimal digits at the front, but no more than `limit`. -/
def hexRun (limit : Nat) (data : List UInt8) : Nat :=
  runLength isHexDigit (data.take limit)

/-- A backslash and a letter; or `\x` with one to four hexadecimal digits, `\u` with four,
`\U` with eight. -/
def escapeLength? (data : List UInt8) : Option (Option Nat) := do
  if isAt (· == '\\') data 0 then
    let some next := data[1]? | return none
    let letter := Char.ofUInt8 next
    if isEscapeLetter letter then return some 2
    else if letter = 'x' then
      let digits := hexRun 4 (← bytesFrom? data 2)
      return if digits = 0 then none else some (2 + digits)
    else if letter = 'u' then
      return if hexRun 4 (← bytesFrom? data 2) = 4 then some 6 else none
    else if letter = 'U' then
      return if hexRun 8 (← bytesFrom? data 2) = 8 then some 10 else none
    else return none
  else return none

end TomlEditor.Lex.Bytewise
