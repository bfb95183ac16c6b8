import TomlEditor.Text.Digits
import TomlEditor.Toml.Reader

/-!
# Dates and times of a TOML document

A date starts with four digits and a hyphen, a time with an hour and a colon;
from there on nothing else can be meant. A time may follow a date after a `T`
or a space, and an offset may follow that.
-/

namespace TomlEditor.Toml

/-- The number that exactly so many digits give, and the text after them. -/
def digits? (count : Nat) (ahead : List Char) : Option (Nat × List Char) :=
  let numeral := (ahead.take count).takeWhile Char.isDigit
  if numeral.length = count then some (Text.numeralValue 10 numeral, ahead.drop count) else none

/-- Two digits with a value in a range. -/
def twoDigits (subject : Subject) (least most : Nat) : Reader Nat := fun ahead =>
  match digits? 2 ahead with
  | none => stop (.invalid subject) ahead
  | some (value, rest) =>
    if least ≤ value && value ≤ most then .ok (value, rest)
    else stop ((Fault.invalid subject).because .outOfRange) ahead

/-- The text after a character that has to come next. -/
def separator (subject : Subject) (c : Char) (ahead : List Char) : Except Stop (List Char) :=
  match ahead with
  | d :: rest => if c = d then .ok rest else stop (.invalid subject) ahead
  | [] => stop (.invalid subject) []

def daysOfMonth (year month : Nat) : Nat :=
  if month = 2 then
    if year % 4 = 0 && (year % 100 != 0 || year % 400 = 0) then 29 else 28
  else if [4, 6, 9, 11].contains month then 30
  else 31

/-- The month and the day of a date, with the hyphen between them. -/
def monthAndDay (year : Nat) (ahead : List Char) : Except Stop (List Char) := do
  let (month, rest) ← twoDigits .dateTime 1 12 ahead
  let rest ← separator .dateTime '-' rest
  let (day, after) ← twoDigits .dateTime 1 31 rest
  if day ≤ daysOfMonth year month then return after
  else stop ((Fault.invalid .dateTime).because .outOfRange) rest

/-- The text after the hour and the colon that a time starts with. -/
def hour? (ahead : List Char) : Option (List Char) :=
  match digits? 2 ahead with
  | some (value, ':' :: rest) => if value ≤ 23 then some rest else none
  | _ => none

/-- The text after a point with digits, if that is next, and otherwise all the text. -/
def skipFraction : List Char → List Char
  | '.' :: d :: rest => if d.isDigit then rest.dropWhile Char.isDigit else '.' :: d :: rest
  | ahead => ahead

/-- The rest of a time after its hour. -/
def minuteAndSecond (subject : Subject) (ahead : List Char) : Except Stop (List Char) := do
  let (_, rest) ← twoDigits subject 0 59 ahead
  let rest ← separator subject ':' rest
  let (_, rest) ← twoDigits subject 0 60 rest
  return skipFraction rest

/-- An offset from universal time, if one is next. -/
def skipOffset (ahead : List Char) : Except Stop (List Char) :=
  match ahead with
  | [] => .ok []
  | c :: rest =>
    if c == 'Z' || c == 'z' then .ok rest
    else if c == '+' || c == '-' then do
      let (_, rest) ← twoDigits .timeOffset 0 23 rest
      let rest ← separator .timeOffset ':' rest
      let (_, rest) ← twoDigits .timeOffset 0 59 rest
      return rest
    else .ok ahead

/-- A time after a date, if one is next. -/
def skipTime (ahead : List Char) : Except Stop (List Char) :=
  match ahead with
  | [] => .ok []
  | c :: rest =>
    if c == 'T' || c == 't' || c == ' ' then
      match hour? rest with
      | some rest => minuteAndSecond .dateTime rest >>= skipOffset
      | none => .ok ahead
    else .ok ahead

/-- A date, a time or both; nothing if the text ahead does not start like one of them. -/
def dateTime? (ahead : List Char) : Except Stop (Option (List Char)) :=
  match digits? 4 ahead with
  | some (year, '-' :: rest) => do
    let rest ← monthAndDay year rest
    return some (← skipTime rest)
  | _ =>
    match hour? ahead with
    | some rest => some <$> minuteAndSecond .time rest
    | none => .ok none

end TomlEditor.Toml
