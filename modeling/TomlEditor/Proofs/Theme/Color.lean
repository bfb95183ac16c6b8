import TomlEditor.Proofs.Text.Digits
import TomlEditor.Proofs.Text.Position
import TomlEditor.Theme.Color

/-!
# The written forms of a color

A color can be written with letters in either case, and is written with small
ones. The texts that are read as colors are just those forms, and what is read
is the color whose red, green and blue are the digits of the numeral in order.

Reading needs no more than the bytes of a text. Once there are six of them behind
the number sign and each is a digit, they can be cut into pairs at fixed offsets:
a character of several bytes, which a cut could hit, is no digit, and neither is
the sign that a numeral could have.
-/

namespace TomlEditor

open Text

namespace Theme.Color

/-! ## Digits of a color -/

/-- A number sign and six hexadecimal digits. -/
def IsHexColor (text : String) : Prop :=
  ∃ digits, text.toList = '#' :: digits ∧ digits.length = 6 ∧ ∀ c ∈ digits, c ∈ hexAlphabet

/-- The number with red, green and blue as its bytes. -/
def code (color : Color) : Nat :=
  256 * (256 * color.red.toNat + color.green.toNat) + color.blue.toNat

/-- A color is read from the digits of its bytes. -/
theorem parse?_eq_some_iff {text : String} {color : Color} :
    parse? text = some color ↔
      ∃ r₁ r₀ g₁ g₀ b₁ b₀, text.toList = ['#', r₁, r₀, g₁, g₀, b₁, b₀] ∧
        byteOfHex? r₁ r₀ = some color.red ∧ byteOfHex? g₁ g₀ = some color.green ∧
          byteOfHex? b₁ b₀ = some color.blue := by
  constructor
  · intro h
    unfold parse? at h
    split at h
    · next r₁ r₀ g₁ g₀ b₁ b₀ htext =>
      obtain ⟨red, hred, hmore⟩ := Option.bind_eq_some_iff.1 h
      obtain ⟨green, hgreen, hlast⟩ := Option.bind_eq_some_iff.1 hmore
      obtain ⟨blue, hblue, hcolor⟩ := Option.bind_eq_some_iff.1 hlast
      obtain rfl := Option.some.inj hcolor
      exact ⟨r₁, r₀, g₁, g₀, b₁, b₀, htext, hred, hgreen, hblue⟩
    · simp at h
  · rintro ⟨r₁, r₀, g₁, g₀, b₁, b₀, htext, hred, hgreen, hblue⟩
    simp [parse?, htext, hred, hgreen, hblue]

theorem exists_parse?_of_isHexColor {text : String} (h : IsHexColor text) :
    ∃ color, parse? text = some color := by
  obtain ⟨digits, htext, hlength, hdigits⟩ := h
  match digits, hlength with
  | [r₁, r₀, g₁, g₀, b₁, b₀], _ =>
    simp only [List.forall_mem_cons] at hdigits
    obtain ⟨hr₁, hr₀, hg₁, hg₀, hb₁, hb₀, -⟩ := hdigits
    obtain ⟨red, hred⟩ := exists_byteOfHex? hr₁ hr₀
    obtain ⟨green, hgreen⟩ := exists_byteOfHex? hg₁ hg₀
    obtain ⟨blue, hblue⟩ := exists_byteOfHex? hb₁ hb₀
    exact ⟨⟨red, green, blue⟩, parse?_eq_some_iff.2
      ⟨r₁, r₀, g₁, g₀, b₁, b₀, htext, hred, hgreen, hblue⟩⟩

section

variable {text : String} {color : Color} (h : parse? text = some color)
include h

theorem isHexColor_of_parse? : IsHexColor text := by
  obtain ⟨r₁, r₀, g₁, g₀, b₁, b₀, htext, hred, hgreen, hblue⟩ := parse?_eq_some_iff.1 h
  obtain ⟨hr₁, hr₀⟩ := mem_hexAlphabet_of_byteOfHex? hred
  obtain ⟨hg₁, hg₀⟩ := mem_hexAlphabet_of_byteOfHex? hgreen
  obtain ⟨hb₁, hb₀⟩ := mem_hexAlphabet_of_byteOfHex? hblue
  refine ⟨[r₁, r₀, g₁, g₀, b₁, b₀], htext, rfl, ?_⟩
  simp [hr₁, hr₀, hg₁, hg₀, hb₁, hb₀]

theorem hex_of_parse? : color.hex = text.toLower := by
  obtain ⟨r₁, r₀, g₁, g₀, b₁, b₀, htext, hred, hgreen, hblue⟩ := parse?_eq_some_iff.1 h
  have hsign : Char.toLower '#' = '#' := by decide
  have hsmall : text.toLower = text.map Char.toLower := rfl
  apply String.toList_injective
  simp [hex, hsmall, htext, hsign, hexPair_of_byteOfHex? hred, hexPair_of_byteOfHex? hgreen,
    hexPair_of_byteOfHex? hblue]

theorem code_of_parse? : numeralValue 16 (text.toList.drop 1) = color.code := by
  obtain ⟨r₁, r₀, g₁, g₀, b₁, b₀, htext, hred, hgreen, hblue⟩ := parse?_eq_some_iff.1 h
  calc numeralValue 16 (text.toList.drop 1)
    _ = numeralValue 16 ([r₁, r₀] ++ [g₁, g₀] ++ [b₁, b₀]) := by rw [htext]; rfl
    _ = 256 * (256 * color.red.toNat + color.green.toNat) + color.blue.toNat := by
        rw [numeralValue_append_pair hblue, numeralValue_append_pair hgreen,
          numeralValue_pair hred]

end

theorem parse?_hex (color : Color) : parse? color.hex = some color :=
  parse?_eq_some_iff.2 ⟨_, _, _, _, _, _, String.toList_ofList, byteOfHex?_digitChar color.red,
    byteOfHex?_digitChar color.green, byteOfHex?_digitChar color.blue⟩

theorem parse_eq_ok_iff {text : String} {color : Color} :
    parse text = .ok color ↔ parse? text = some color := by
  unfold parse
  split
  · next hsome => simp [hsome]
  · next hnone => simp [hnone]

theorem parse_eq_error_iff {text : String} {reason : Error} :
    parse text = .error reason ↔ parse? text = none ∧ reason = .invalidColor text := by
  unfold parse
  split
  · next hsome => simp [hsome]
  · next hnone => simp [hnone, eq_comm]

theorem isSome_parse?_iff {text : String} : (parse? text).isSome = true ↔ IsHexColor text := by
  rw [Option.isSome_iff_exists]
  exact ⟨fun ⟨_, h⟩ => isHexColor_of_parse? h, exists_parse?_of_isHexColor⟩

/-! ## Reading by bytes -/

/-- Digits are cut by their count. -/
theorem cut?_digits (before part behind : List Char)
    (h : ∀ d ∈ before ++ part ++ behind, isHexDigit d = true) :
    cut? (String.ofList (before ++ part ++ behind)) before.length
      (before.length + part.length) = some (String.ofList part) := by
  have hbefore := utf8ByteSize_ofList_digits fun d hd =>
    h d (List.mem_append_left _ (List.mem_append_left _ hd))
  have hpart := utf8ByteSize_ofList_digits fun d hd =>
    h d (List.mem_append_left _ (List.mem_append_right _ hd))
  rw [← hbefore, ← hpart]
  exact cut?_append before part behind

/-- The byte that a numeral stands for. A plus sign may stand in front of the digits. -/
def byteOfNumeral? (numeral : String) : Option UInt8 :=
  let digits := if numeral.toList.head? = some '+' then numeral.toList.tail else numeral.toList
  if digits ≠ [] ∧ digits.all isHexDigit ∧ numeralValue 16 digits < 256 then
    some (.ofNat (numeralValue 16 digits))
  else none

theorem byteOfNumeral?_pair {high low : Char} {byte : UInt8}
    (h : byteOfHex? high low = some byte) :
    byteOfNumeral? (String.ofList [high, low]) = some byte := by
  obtain ⟨hhigh, hlow⟩ := mem_hexAlphabet_of_byteOfHex? h
  have hplus : high ≠ '+' := by
    rintro rfl
    exact absurd hhigh (by decide)
  have hnoSign : ¬[high, low].head? = some '+' := fun hsign => hplus (Option.some.inj hsign)
  have hdigits : [high, low].all isHexDigit = true := by
    simp [isHexDigit_iff.2 hhigh, isHexDigit_iff.2 hlow]
  rw [byteOfNumeral?, String.toList_ofList, if_neg hnoSign, numeralValue_pair h,
    if_pos ⟨List.cons_ne_nil _ _, hdigits, byte.toNat_lt⟩, UInt8.ofNat_toNat]

/-- Reads a color by the bytes of its text: there have to be six behind the number sign, all of
them digits, and each pair is read as a numeral. There is no result if a cut is not possible. -/
def readBytes? (text : String) : Option (Except Error Color) :=
  match text.toList with
  | '#' :: rest =>
    let digits := String.ofList rest
    if digits.utf8ByteSize = 6 ∧ (bytes digits).all isHexByte then do
      let red ← cut? digits 0 2
      let green ← cut? digits 2 4
      let blue ← cut? digits 4 6
      match byteOfNumeral? red, byteOfNumeral? green, byteOfNumeral? blue with
      | some red, some green, some blue => return .ok ⟨red, green, blue⟩
      | _, _, _ => return .error (.invalidColor text)
    else return .error (.invalidColor text)
  | _ => return .error (.invalidColor text)

/-- Six digits are told by the bytes. -/
theorem six_hexBytes_iff {rest : List Char} :
    ((String.ofList rest).utf8ByteSize = 6 ∧ (bytes (String.ofList rest)).all isHexByte = true) ↔
      rest.length = 6 ∧ ∀ c ∈ rest, c ∈ hexAlphabet := by
  have hall : rest.all isHexDigit = true ↔ ∀ c ∈ rest, c ∈ hexAlphabet := by
    simp [isHexDigit_iff]
  rw [all_bytes_isHexByte, hall]
  -- The bytes are counted like the characters only once they are known to be digits.
  refine and_congr_left fun hdigits => ?_
  rw [utf8ByteSize_ofList_digits fun d hd => isHexDigit_iff.2 (hdigits d hd)]

theorem readBytes?_of_parse? {text : String} {color : Color} (h : parse? text = some color) :
    readBytes? text = some (.ok color) := by
  obtain ⟨r₁, r₀, g₁, g₀, b₁, b₀, htext, hred, hgreen, hblue⟩ := parse?_eq_some_iff.1 h
  obtain ⟨digits, hdigits, hsix⟩ := isHexColor_of_parse? h
  obtain rfl := (List.cons.inj (htext.symm.trans hdigits)).2
  have htest := six_hexBytes_iff.2 hsix
  have hall : ∀ d ∈ [r₁, r₀, g₁, g₀, b₁, b₀], isHexDigit d = true := fun d hd =>
    isHexDigit_iff.2 (hsix.2 d hd)
  -- All of the text are digits, so each of the offsets lies between two of them.
  have hfirst : cut? (String.ofList [r₁, r₀, g₁, g₀, b₁, b₀]) 0 2 =
      some (String.ofList [r₁, r₀]) := cut?_digits [] [r₁, r₀] [g₁, g₀, b₁, b₀] hall
  have hsecond : cut? (String.ofList [r₁, r₀, g₁, g₀, b₁, b₀]) 2 4 =
      some (String.ofList [g₁, g₀]) := cut?_digits [r₁, r₀] [g₁, g₀] [b₁, b₀] hall
  have hthird : cut? (String.ofList [r₁, r₀, g₁, g₀, b₁, b₀]) 4 6 =
      some (String.ofList [b₁, b₀]) := cut?_digits [r₁, r₀, g₁, g₀] [b₁, b₀] [] hall
  simp only [readBytes?, htext, if_pos htest, hfirst, hsecond, hthird, Option.bind_eq_bind,
    Option.bind_some, byteOfNumeral?_pair hred, byteOfNumeral?_pair hgreen,
    byteOfNumeral?_pair hblue]
  rfl

theorem readBytes?_of_not_isHexColor {text : String} (h : ¬IsHexColor text) :
    readBytes? text = some (.error (.invalidColor text)) := by
  unfold readBytes?
  split
  · next rest htext =>
    rw [if_neg]
    · rfl
    · intro htest
      exact h ⟨rest, htext, six_hexBytes_iff.1 htest⟩
  · rfl

/-- Cutting never fails, and reading by bytes is reading. -/
theorem readBytes?_eq (text : String) : readBytes? text = some (parse text) := by
  cases hread : parse? text with
  | some color => rw [readBytes?_of_parse? hread, parse_eq_ok_iff.2 hread]
  | none =>
    have hnot : ¬IsHexColor text := by simp [← isSome_parse?_iff, hread]
    rw [readBytes?_of_not_isHexColor hnot, parse_eq_error_iff.2 ⟨hread, rfl⟩]

/-- Six bytes with a sign or with longer characters are refused before they are cut. -/
example : readBytes? "#+12345" = some (.error (.invalidColor "#+12345")) ∧
    readBytes? "#éé12" = some (.error (.invalidColor "#éé12")) :=
  ⟨rfl, rfl⟩

/-! ## Reading and writing -/

/-- **Reading and writing a color are inverse.** The texts that are read are a number sign and six
hexadecimal digits, and every other text is refused as it is. What is read has the number of the
digits, and is written as the text with small letters. What is written is read back. Reading by
bytes gives the same of every text. -/
theorem parse_inverts_hex (text : String) :
    ((∃ color, parse text = .ok color) ↔ IsHexColor text) ∧
      (parse text = .error (.invalidColor text) ↔ ¬IsHexColor text) ∧
      (∀ color, parse text = .ok color →
        color.hex = text.toLower ∧ numeralValue 16 (text.toList.drop 1) = color.code) ∧
      (∀ color : Color, parse color.hex = .ok color) ∧
      readBytes? text = some (parse text) := by
  refine ⟨?_, ?_, ?_, ?_, readBytes?_eq text⟩
  · rw [← isSome_parse?_iff, Option.isSome_iff_exists]
    exact exists_congr fun _ => parse_eq_ok_iff
  · rw [← isSome_parse?_iff, Option.not_isSome_iff_eq_none, parse_eq_error_iff]
    simp
  · intro color hread
    have hcolor := parse_eq_ok_iff.1 hread
    exact ⟨hex_of_parse? hcolor, code_of_parse? hcolor⟩
  · intro color
    exact parse_eq_ok_iff.2 (parse?_hex color)

end Theme.Color

end TomlEditor
