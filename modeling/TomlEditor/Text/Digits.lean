/-!
# Digits and numerals

Hexadecimal digits are read in either case and written in lower case. The
digits of a smaller base are the first ones among them.
-/

namespace TomlEditor.Text

/-- The value of a hexadecimal digit. -/
def hexValue? (c : Char) : Option Nat :=
  if '0' ≤ c ∧ c ≤ '9' then some (c.toNat - '0'.toNat)
  else if 'a' ≤ c ∧ c ≤ 'f' then some (c.toNat - 'a'.toNat + 10)
  else if 'A' ≤ c ∧ c ≤ 'F' then some (c.toNat - 'A'.toNat + 10)
  else none

def isHexDigit (c : Char) : Bool :=
  (hexValue? c).isSome

/-- The number that digits of a base stand for. Characters that are no digits are left out. -/
def numeralValue (base : Nat) (numeral : List Char) : Nat :=
  (numeral.filterMap hexValue?).foldl (fun value digit => base * value + digit) 0

/-- The two digits of a byte. -/
def hexPair (byte : UInt8) : List Char :=
  [Nat.digitChar (byte.toNat / 16), Nat.digitChar (byte.toNat % 16)]

/-- The byte with the two given digits. -/
def byteOfHex? (high low : Char) : Option UInt8 :=
  (hexValue? high).bind fun h => (hexValue? low).map fun l => UInt8.ofNat (16 * h + l)

/-- The digits of a number, none of them a leading zero. -/
def hexDigits (n : Nat) : List Char :=
  Nat.toDigits 16 n

end TomlEditor.Text
