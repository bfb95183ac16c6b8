import TomlEditor.Lex.Behind

/-!
# Lengths of dates, numbers and booleans

Each function gives the number of characters that a value takes at the front of
the text ahead. None of them looks at the text behind: `bounded` does so
afterwards for all of them, and a value glued to a word is no value.
-/

namespace TomlEditor.Lex

open Text

/-- `length`, unless the text of that length touches a word on either side. -/
def bounded (behind : Behind) (ahead : List Char) (length : Nat) : Option Nat :=
  if behind.afterWord || (ahead.drop length).head?.any isWord then none else some length

/-! ## Dates and times -/

/-- One place of a date or a time. -/
inductive Slot
  | digit
  | sign
  | mark (c : Char)
deriving DecidableEq, Repr

def Slot.accepts : Slot → Char → Bool
  | digit, c => c.isDigit
  | sign, c => c == '+' || c == '-'
  | mark m, c => c == m

/-- Whether the text ahead starts with one character for each slot. -/
def fits : List Slot → List Char → Bool
  | [], _ => true
  | _ :: _, [] => false
  | slot :: slots, c :: rest => slot.accepts c && fits slots rest

/-- `YYYY-MM-DD` -/
def dateSlots : List Slot :=
  [.digit, .digit, .digit, .digit, .mark '-', .digit, .digit, .mark '-', .digit, .digit]

/-- `THH:MM:SS` -/
def timeSlots : List Slot :=
  [.mark 'T', .digit, .digit, .mark ':', .digit, .digit, .mark ':', .digit, .digit]

/-- `+HH:MM` or `-HH:MM` -/
def offsetSlots : List Slot :=
  [.sign, .digit, .digit, .mark ':', .digit, .digit]

/-- The number of slots, if the text ahead fits them. -/
def slotsLength? (slots : List Slot) (ahead : List Char) : Option Nat :=
  if fits slots ahead then some slots.length else none

def dateLength? (ahead : List Char) : Option Nat :=
  slotsLength? dateSlots ahead

/-- A date and a time, without a fraction of the second. -/
def dateTimeLength? (ahead : List Char) : Option Nat :=
  slotsLength? (dateSlots ++ timeSlots) ahead

/-- A point and the digits after it, or nothing. -/
def secondFractionLength : List Char → Nat
  | '.' :: rest =>
    match (rest.takeWhile Char.isDigit).length with
    | 0 => 0
    | digits + 1 => digits + 2
  | _ => 0

/-- `Z` or a signed offset in hours and minutes. -/
def offsetLength? : List Char → Option Nat
  | 'Z' :: _ => some 1
  | ahead => slotsLength? offsetSlots ahead

/-! ## Numbers -/

/-- Any number of digits, each with at most one underscore before it. -/
def digitRun : List Char → Nat
  | '_' :: d :: rest => if d.isDigit then digitRun rest + 2 else 0
  | d :: rest => if d.isDigit then digitRun rest + 1 else 0
  | [] => 0

def signLength : List Char → Nat
  | '+' :: _ => 1
  | '-' :: _ => 1
  | _ => 0

/-- Digits without a zero in front of others. -/
def magnitudeLength? : List Char → Option Nat
  | [] => none
  | d :: rest =>
    if d == '0' then some 1
    else if d.isDigit then some (digitRun rest + 1)
    else none

/-- A magnitude with an optional sign. -/
def integerLength? (ahead : List Char) : Option Nat :=
  (magnitudeLength? (ahead.drop (signLength ahead))).map (signLength ahead + ·)

/-- A point, a digit and a run of digits, or nothing. -/
def fractionLength : List Char → Nat
  | '.' :: d :: rest => if d.isDigit then digitRun rest + 2 else 0
  | _ => 0

/-- A digit and a run of digits, or nothing. -/
def digitsLength : List Char → Nat
  | d :: rest => if d.isDigit then digitRun rest + 1 else 0
  | [] => 0

/-- `e` or `E`, an optional sign and digits, or nothing. -/
def exponentLength : List Char → Nat
  | [] => 0
  | c :: rest =>
    if c == 'e' || c == 'E' then
      match digitsLength (rest.drop (signLength rest)) with
      | 0 => 0
      | digits + 1 => signLength rest + digits + 2
    else 0

/-- An integer part with a fraction, an exponent or both. -/
def floatLength? (ahead : List Char) : Option Nat :=
  (integerLength? ahead).bind fun whole =>
    let fraction := fractionLength (ahead.drop whole)
    let exponent := exponentLength (ahead.drop (whole + fraction))
    if fraction = 0 && exponent = 0 then none else some (whole + fraction + exponent)

/-! ## Booleans -/

def booleanLength? : List Char → Option Nat
  | 't' :: 'r' :: 'u' :: 'e' :: _ => some 4
  | 'f' :: 'a' :: 'l' :: 's' :: 'e' :: _ => some 5
  | _ => none

/-! ## Values between other text -/

/-- A date and a time with an offset. -/
def scanDateTimeTz (behind : Behind) (ahead : List Char) : Option Nat :=
  (dateTimeLength? ahead).bind fun time =>
    let head := time + secondFractionLength (ahead.drop time)
    (offsetLength? (ahead.drop head)).bind fun offset => bounded behind ahead (head + offset)

/-- A date and a time. A fraction glued to a word is left out. -/
def scanDateTime (behind : Behind) (ahead : List Char) : Option Nat :=
  (dateTimeLength? ahead).bind fun time =>
    (bounded behind ahead (time + secondFractionLength (ahead.drop time))).or
      (bounded behind ahead time)

def scanDate (behind : Behind) (ahead : List Char) : Option Nat :=
  (dateLength? ahead).bind (bounded behind ahead)

def scanFloat (behind : Behind) (ahead : List Char) : Option Nat :=
  (floatLength? ahead).bind (bounded behind ahead)

def scanInteger (behind : Behind) (ahead : List Char) : Option Nat :=
  (integerLength? ahead).bind (bounded behind ahead)

def scanBoolean (behind : Behind) (ahead : List Char) : Option Nat :=
  (booleanLength? ahead).bind (bounded behind ahead)

end TomlEditor.Lex
