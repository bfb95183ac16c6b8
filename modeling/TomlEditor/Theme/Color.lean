import TomlEditor.Error
import TomlEditor.Text.Digits

/-!
# Colors

A color has a red, a green and a blue part of one byte each. It is written as a
number sign and two hexadecimal digits for each part.
-/

namespace TomlEditor.Theme

structure Color where
  red : UInt8
  green : UInt8
  blue : UInt8
deriving DecidableEq, Repr

namespace Color

/-- The written form of a color. -/
def hex (color : Color) : String :=
  String.ofList
    ('#' :: (Text.hexPair color.red ++ Text.hexPair color.green ++ Text.hexPair color.blue))

/-- The color with the given written form, with digits in either case. -/
def parse? (text : String) : Option Color :=
  match text.toList with
  | ['#', r₁, r₀, g₁, g₀, b₁, b₀] => do
    return ⟨← Text.byteOfHex? r₁ r₀, ← Text.byteOfHex? g₁ g₀, ← Text.byteOfHex? b₁ b₀⟩
  | _ => none

def parse (text : String) : Except Error Color :=
  match parse? text with
  | some color => .ok color
  | none => .error (.invalidColor text)

/-- The escape sequence with which a terminal changes to a color. -/
def ansi (color : Color) : String :=
  "\x1b[38;2;" ++ color.red.toNat.repr ++ ";" ++ color.green.toNat.repr ++ ";"
    ++ color.blue.toNat.repr ++ "m"

end Color

end TomlEditor.Theme
