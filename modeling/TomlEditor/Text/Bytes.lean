/-!
# Texts as bytes

The UTF-8 form of a text, and the parts of a text and of its bytes between two
byte offsets. An offset behind the end has no part before or after it, and
neither has one that lies inside a character when the part is to be a text.
-/

namespace TomlEditor.Text

/-- The UTF-8 form of a text. -/
def bytes (text : String) : List UInt8 :=
  text.toByteArray.data.toList

/-- A class of ASCII characters as a class of bytes. -/
def onByte (p : Char → Bool) (b : UInt8) : Bool :=
  p (Char.ofUInt8 b)

/-- The bytes before an offset. -/
def bytesTo? (data : List UInt8) (stop : Nat) : Option (List UInt8) :=
  if stop ≤ data.length then some (data.take stop) else none

/-- The bytes from an offset on. -/
def bytesFrom? (data : List UInt8) (start : Nat) : Option (List UInt8) :=
  if start ≤ data.length then some (data.drop start) else none

/-- Whether a byte offset lies between two characters of a text, or at one of its ends. -/
def IsBoundary (text : String) (offset : Nat) : Prop :=
  (⟨offset⟩ : String.Pos.Raw).IsValid text

instance (text : String) (offset : Nat) : Decidable (IsBoundary text offset) :=
  inferInstanceAs (Decidable ((⟨offset⟩ : String.Pos.Raw).IsValid text))

/-- The part of a text between two byte offsets, neither of which may lie inside a character. -/
def cut? (text : String) (start stop : Nat) : Option String :=
  if start ≤ stop ∧ IsBoundary text start ∧ IsBoundary text stop then
    some (String.Pos.Raw.extract text ⟨start⟩ ⟨stop⟩)
  else none

end TomlEditor.Text
