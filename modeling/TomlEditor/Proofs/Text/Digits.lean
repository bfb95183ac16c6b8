import TomlEditor.Proofs.Text.Bytes
import TomlEditor.Text.Digits

/-!
# Hexadecimal digits

A digit stands for a number below sixteen, and of its two forms the small one is
written. Digits are ASCII, so in the bytes of a text they are told like among its
characters. A numeral is read back as the number it was written for, and a pair
of digits is read as a byte and written again with small letters.
-/

namespace TomlEditor.Text

/-! ## Digits -/

/-- The digits, with the letters in both cases. -/
def hexAlphabet : List Char :=
  "0123456789abcdefABCDEF".toList

theorem isHexDigit_of_le {c : Char} (h : 128 ≤ c.toNat) : isHexDigit c = false := by
  have hdigit : ¬('0' ≤ c ∧ c ≤ '9') := fun hc => not_le_of_le h (by decide) hc.2
  have hsmall : ¬('a' ≤ c ∧ c ≤ 'f') := fun hc => not_le_of_le h (by decide) hc.2
  have hlarge : ¬('A' ≤ c ∧ c ≤ 'F') := fun hc => not_le_of_le h (by decide) hc.2
  rw [isHexDigit, hexValue?, if_neg hdigit, if_neg hsmall, if_neg hlarge]
  rfl

theorem isHexDigit_iff {c : Char} : isHexDigit c = true ↔ c ∈ hexAlphabet := by
  constructor
  · intro hc
    have hascii : ∀ n < 128, isHexDigit (Char.ofNat n) = true → Char.ofNat n ∈ hexAlphabet := by
      decide +kernel
    have hlt : c.toNat < 128 := by
      refine Nat.lt_of_not_le fun hle => ?_
      rw [isHexDigit_of_le hle] at hc
      exact absurd hc (by decide)
    rw [← Char.ofNat_toNat c] at hc ⊢
    exact hascii c.toNat hlt hc
  · have hall : hexAlphabet.all isHexDigit = true := by decide
    exact List.all_eq_true.1 hall c

theorem hexValue?_digitChar : ∀ {d : Nat}, d < 16 → hexValue? d.digitChar = some d := by
  decide

theorem exists_hexValue? {c : Char} (h : c ∈ hexAlphabet) : ∃ d, hexValue? c = some d :=
  Option.isSome_iff_exists.1 (isHexDigit_iff.2 h)

theorem mem_hexAlphabet_of_hexValue? {c : Char} {d : Nat} (h : hexValue? c = some d) :
    c ∈ hexAlphabet :=
  isHexDigit_iff.1 (Option.isSome_iff_exists.2 ⟨d, h⟩)

/-- A digit is the one that is written for its value, but for the case of letters. -/
theorem digitChar_of_hexValue? {c : Char} {d : Nat} (h : hexValue? c = some d) :
    d < 16 ∧ d.digitChar = c.toLower := by
  have hall : hexAlphabet.all (fun c =>
      (hexValue? c).all fun d => d < 16 && d.digitChar == c.toLower) = true := by decide
  have hc := List.all_eq_true.1 hall c (mem_hexAlphabet_of_hexValue? h)
  rw [h, Option.all_some, Bool.and_eq_true] at hc
  exact ⟨of_decide_eq_true hc.1, beq_iff_eq.1 hc.2⟩

/-! ## Digits as bytes -/

/-- An ASCII digit in either case. -/
def isHexByte (b : UInt8) : Bool :=
  isHexDigit (Char.ofUInt8 b)

theorem all_bytes_isHexByte (text : List Char) :
    (bytes (String.ofList text)).all isHexByte = text.all isHexDigit := by
  have hchar : ∀ c, (String.utf8EncodeChar c).all isHexByte = isHexDigit c := by
    intro c
    have hbyte : ∀ b ∈ String.utf8EncodeChar c, isHexByte b = isHexDigit c := fun b hb =>
      class_ofUInt8_of_mem (fun _ => isHexDigit_of_le) hb
    cases hdigit : isHexDigit c with
    | true => exact List.all_eq_true.2 fun b hb => (hbyte b hb).trans hdigit
    | false =>
      -- One byte that is no digit is enough, and every character has a byte.
      obtain ⟨b, more, hc⟩ := List.exists_cons_of_ne_nil (String.utf8EncodeChar_ne_nil (c := c))
      have hb : b ∈ String.utf8EncodeChar c := by rw [hc]; exact List.mem_cons_self
      rw [hc, List.all_cons, hbyte b hb, hdigit, Bool.false_and]
  rw [bytes_ofList, List.all_flatMap]
  exact congrArg text.all (funext hchar)

/-- Each digit takes one byte. -/
theorem utf8ByteSize_ofList_digits {digits : List Char} (h : ∀ d ∈ digits, isHexDigit d = true) :
    (String.ofList digits).utf8ByteSize = digits.length := by
  induction digits with
  | nil => rfl
  | cons c digits ih =>
    obtain ⟨hc, hdigits⟩ := List.forall_mem_cons.1 h
    have hsize : c.utf8Size = 1 := by
      have hascii : hexAlphabet.all (·.utf8Size == 1) = true := by decide
      exact beq_iff_eq.1 (List.all_eq_true.1 hascii c (isHexDigit_iff.1 hc))
    rw [String.ofList_cons, String.utf8ByteSize_append, String.utf8ByteSize_singleton, hsize,
      ih hdigits, List.length_cons, Nat.add_comm]

/-! ## Numerals -/

theorem numeralValue_concat {base : Nat} (front : List Char) {c : Char} {d : Nat}
    (h : hexValue? c = some d) :
    numeralValue base (front ++ [c]) = base * numeralValue base front + d := by
  simp [numeralValue, List.filterMap_append, h]

theorem hexDigits_of_le {n : Nat} (h : 16 ≤ n) :
    hexDigits n = hexDigits (n / 16) ++ [(n % 16).digitChar] :=
  Nat.toDigits_of_base_le (by decide) h

theorem hexDigits_of_lt {n : Nat} (h : n < 16) : hexDigits n = [n.digitChar] :=
  Nat.toDigits_of_lt_base h

/-- The digits of a number stand for the number. -/
theorem numeralValue_hexDigits (n : Nat) : numeralValue 16 (hexDigits n) = n := by
  induction n using Nat.strongRecOn with
  | ind n ih =>
    rcases Nat.lt_or_ge n 16 with hlt | hge
    · rw [hexDigits_of_lt hlt, ← List.nil_append [n.digitChar],
        numeralValue_concat [] (hexValue?_digitChar hlt)]
      exact Nat.zero_add n
    · have hdigit := hexValue?_digitChar (Nat.mod_lt n (show 0 < 16 by decide))
      rw [hexDigits_of_le hge, numeralValue_concat _ hdigit,
        ih (n / 16) (Nat.div_lt_self (by omega) (by decide)), Nat.div_add_mod]

theorem isHexDigit_of_mem_hexDigits {n : Nat} {c : Char} (h : c ∈ hexDigits n) :
    isHexDigit c = true := by
  have hdigit : ∀ d < 16, isHexDigit d.digitChar = true := fun d hd => by
    rw [isHexDigit, hexValue?_digitChar hd]
    rfl
  induction n using Nat.strongRecOn with
  | ind n ih =>
    rcases Nat.lt_or_ge n 16 with hlt | hge
    · rw [hexDigits_of_lt hlt] at h
      rw [List.mem_singleton.1 h]
      exact hdigit n hlt
    · rw [hexDigits_of_le hge] at h
      rcases List.mem_append.1 h with hfront | hlast
      · exact ih (n / 16) (Nat.div_lt_self (by omega) (by decide)) hfront
      · rw [List.mem_singleton.1 hlast]
        exact hdigit (n % 16) (Nat.mod_lt n (by decide))

/-! ## Pairs of digits -/

theorem byteOfHex?_eq_some_iff {high low : Char} {byte : UInt8} :
    byteOfHex? high low = some byte ↔
      ∃ h l, hexValue? high = some h ∧ hexValue? low = some l ∧ byte.toNat = 16 * h + l := by
  -- Two values below sixteen fit a byte, so nothing wraps around.
  have hbyte : ∀ {h l}, hexValue? high = some h → hexValue? low = some l →
      (UInt8.ofNat (16 * h + l)).toNat = 16 * h + l := by
    intro h l hhigh hlow
    have hh := (digitChar_of_hexValue? hhigh).1
    have hl := (digitChar_of_hexValue? hlow).1
    rw [UInt8.toNat_ofNat']
    omega
  constructor
  · intro heq
    obtain ⟨h, hhigh, hrest⟩ := Option.bind_eq_some_iff.1 heq
    obtain ⟨l, hlow, rfl⟩ := Option.map_eq_some_iff.1 hrest
    exact ⟨h, l, hhigh, hlow, hbyte hhigh hlow⟩
  · rintro ⟨h, l, hhigh, hlow, hvalue⟩
    rw [byteOfHex?, hhigh, hlow, ← UInt8.ofNat_toNat (x := byte), hvalue]
    rfl

theorem exists_byteOfHex? {high low : Char} (hhigh : high ∈ hexAlphabet)
    (hlow : low ∈ hexAlphabet) : ∃ byte, byteOfHex? high low = some byte := by
  obtain ⟨h, hh⟩ := exists_hexValue? hhigh
  obtain ⟨l, hl⟩ := exists_hexValue? hlow
  exact ⟨.ofNat (16 * h + l), by rw [byteOfHex?, hh, hl]; rfl⟩

section

variable {high low : Char} {byte : UInt8} (h : byteOfHex? high low = some byte)
include h

theorem mem_hexAlphabet_of_byteOfHex? : high ∈ hexAlphabet ∧ low ∈ hexAlphabet := by
  obtain ⟨first, second, hhigh, hlow, -⟩ := byteOfHex?_eq_some_iff.1 h
  exact ⟨mem_hexAlphabet_of_hexValue? hhigh, mem_hexAlphabet_of_hexValue? hlow⟩

/-- A byte is written with the digits that it is read from, but for the case of letters. -/
theorem hexPair_of_byteOfHex? : hexPair byte = [high.toLower, low.toLower] := by
  obtain ⟨first, second, hhigh, hlow, hvalue⟩ := byteOfHex?_eq_some_iff.1 h
  obtain ⟨-, hfirst⟩ := digitChar_of_hexValue? hhigh
  obtain ⟨hlt, hsecond⟩ := digitChar_of_hexValue? hlow
  have hdiv : byte.toNat / 16 = first := by omega
  have hmod : byte.toNat % 16 = second := by omega
  rw [hexPair, hdiv, hmod, hfirst, hsecond]

/-- Behind a numeral two digits add their byte to it. -/
theorem numeralValue_append_pair (front : List Char) :
    numeralValue 16 (front ++ [high, low]) = 256 * numeralValue 16 front + byte.toNat := by
  obtain ⟨first, second, hhigh, hlow, hvalue⟩ := byteOfHex?_eq_some_iff.1 h
  have hpair : front ++ [high, low] = front ++ [high] ++ [low] := by simp
  rw [hpair, numeralValue_concat _ hlow, numeralValue_concat _ hhigh, hvalue]
  omega

theorem numeralValue_pair : numeralValue 16 [high, low] = byte.toNat := by
  have hempty : numeralValue 16 [] = 0 := rfl
  have hpair := numeralValue_append_pair h []
  rwa [List.nil_append, hempty, Nat.mul_zero, Nat.zero_add] at hpair

end

/-- A byte is read back from its two digits. -/
theorem byteOfHex?_digitChar (byte : UInt8) :
    byteOfHex? (byte.toNat / 16).digitChar (byte.toNat % 16).digitChar = some byte := by
  have hbyte := byte.toNat_lt
  have hhigh := hexValue?_digitChar (show byte.toNat / 16 < 16 by omega)
  have hlow := hexValue?_digitChar (Nat.mod_lt byte.toNat (show 0 < 16 by decide))
  exact byteOfHex?_eq_some_iff.2 ⟨_, _, hhigh, hlow, (Nat.div_add_mod byte.toNat 16).symm⟩

end TomlEditor.Text
