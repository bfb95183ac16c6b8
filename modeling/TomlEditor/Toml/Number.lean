import TomlEditor.Text.Decimal
import TomlEditor.Text.Digits
import TomlEditor.Toml.Reader

/-!
# Numbers of a TOML document

Integers are decimal, hexadecimal, octal or binary and fit 64 bits with a sign.
Floats are decimal, and none is so large that it is infinity. An underscore may
stand between two digits.
-/

namespace TomlEditor.Toml

/-- Digits after the first one. A digit has to follow each underscore. -/
def digitTail (isDigit : Char → Bool) (fault : Fault) : List Char → Except Stop (List Char)
  | [] => .ok []
  | ['_'] => stop fault []
  | '_' :: d :: rest => if isDigit d then digitTail isDigit fault rest else stop fault (d :: rest)
  | c :: rest => if isDigit c then digitTail isDigit fault rest else .ok (c :: rest)

def digitExpected : List Expected :=
  [.described "digit"]

def leadingDigitExpected : List Expected :=
  [.described "leading digit"]

/-- Digits that have to come next, any number of zeros among them. -/
def someDigits (isDigit : Char → Bool) (fault : Fault) (ahead : List Char) :
    Except Stop (List Char) :=
  match ahead with
  | [] => stop fault []
  | c :: rest =>
    if isDigit c then
      digitTail isDigit ⟨fault.subject, digitExpected ++ fault.expected, fault.reason⟩ rest
    else stop fault ahead

def skipSign : List Char → List Char
  | '+' :: rest => rest
  | '-' :: rest => rest
  | ahead => ahead

/-- The digits of a decimal integer, without zeros in front of others. -/
def magnitude (ahead : List Char) : Except Stop (List Char) :=
  match ahead with
  | [] => refuse (.invalid .integer) []
  | c :: rest =>
    if c == '0' then .ok rest
    else if c.isDigit then
      digitTail Char.isDigit ((Fault.invalid .integer).expecting digitExpected) rest
    else refuse (.invalid .integer) ahead

/-- An exponent, if one is next. -/
def skipExponent (ahead : List Char) : Except Stop (List Char) :=
  match ahead with
  | [] => .ok []
  | c :: rest =>
    if c == 'e' || c == 'E' then someDigits Char.isDigit (.invalid .float) (skipSign rest)
    else .ok ahead

/-- The characters read between two texts ahead. -/
def readBetween (ahead rest : List Char) : List Char :=
  ahead.take (ahead.length - rest.length)

/-- An integer of the given value at the given place, if it fits. -/
def fitting (negative : Bool) (value : Nat) (place rest : List Char) : Except Stop (List Char) :=
  if negative then
    if value ≤ Nat.pow 2 63 then .ok rest else stop (.broken .tooSmall) place
  else if value < Nat.pow 2 63 then .ok rest
  else stop (.broken .tooLarge) place

/-- An integer in another base, from the text after its mark. -/
def based (subject : Subject) (base : Nat) (place ahead : List Char) :
    Except Stop (ValueType × List Char) := do
  let isDigit := fun c => (Text.hexValue? c).any (· < base)
  let rest ← someDigits isDigit (.invalid subject) ahead
  let rest ← fitting false (Text.numeralValue base (readBetween ahead rest)) place rest
  return (.integer, rest)

/-- The number that an exponent stands for, from its mark on; none stands for zero. -/
def exponentValue (numeral : List Char) : Int :=
  match numeral.drop 1 with
  | '-' :: digits => -(Text.numeralValue 10 digits : Int)
  | digits => Text.numeralValue 10 digits

/-- The number of digits after the point of a numeral. -/
def decimalPlaces (numeral : List Char) : Nat :=
  ((numeral.dropWhile (· != '.')).filter Char.isDigit).length

/-- The number that a numeral and an exponent without their sign stand for. -/
def decimalValue (numeral exponent : List Char) : Text.Decimal :=
  ⟨Text.numeralValue 10 numeral, exponentValue exponent - decimalPlaces numeral⟩

/-- A float of the given magnitude at the given place. A negative one may be infinite. -/
def finiteFloat (negative : Bool) (magnitude : Text.Decimal) (place rest : List Char) :
    Except Stop (List Char) :=
  if !negative && magnitude.isInfinite then stop (.invalid .float) place else .ok rest

/-- The text after a point and the digits that have to follow it, if a point is next. -/
def skipPlaces (ahead : List Char) : Except Stop (List Char) :=
  match ahead with
  | '.' :: rest => someDigits Char.isDigit ((Fault.invalid .float).expecting digitExpected) rest
  | _ => .ok ahead

/-- A decimal integer or a float, which has a point or an exponent. -/
def decimal : Reader ValueType := fun ahead => do
  let negative := ahead.head? = some '-'
  let unsigned := skipSign ahead
  let whole ← magnitude unsigned
  let places ← skipPlaces whole
  let rest ← skipExponent places
  if rest.length < whole.length then
    let value := decimalValue (readBetween unsigned places) (readBetween places rest)
    return (.float, ← finiteFloat negative value ahead rest)
  else
    let value := Text.numeralValue 10 (readBetween unsigned rest)
    return (.integer, ← fitting negative value ahead rest)

/-- A number that starts with a digit or a sign. -/
def number : Reader ValueType := fun ahead =>
  match ahead with
  | '0' :: 'x' :: rest => based .hexadecimal 16 ahead rest
  | '0' :: 'o' :: rest => based .octal 8 ahead rest
  | '0' :: 'b' :: rest => based .binary 2 ahead rest
  | _ =>
    match skipSign ahead with
    | 'i' :: 'n' :: 'f' :: rest => .ok (.float, rest)
    | 'n' :: 'a' :: 'n' :: rest => .ok (.float, rest)
    | _ => decimal ahead

end TomlEditor.Toml
