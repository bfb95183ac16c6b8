import Mathlib.Data.String.Basic
import TomlEditor.Text.Ascii
import TomlEditor.Text.Bytes

/-!
# Texts as bytes

The UTF-8 form of a text, and the letters, digits and underscores in it. They
are ASCII, and no byte of a longer character is one of them, so whether a word
touches a place can be read off the bytes beside the place.
-/

namespace TomlEditor.Text

/-- Bytes read one by one, each as the character with its number. -/
def byteChars (data : List UInt8) : List Char :=
  data.map Char.ofUInt8

/-- An ASCII letter, digit or underscore. -/
def isWordByte (b : UInt8) : Bool :=
  isWord (Char.ofUInt8 b)

theorem toNat_ofUInt8 (b : UInt8) : (Char.ofUInt8 b).toNat = b.toNat :=
  UInt8.toNat_toUInt32 b

@[simp] theorem byteChars_cons (b : UInt8) (data : List UInt8) :
    byteChars (b :: data) = Char.ofUInt8 b :: byteChars data := rfl

theorem byteChars_append (first second : List UInt8) :
    byteChars (first ++ second) = byteChars first ++ byteChars second :=
  List.map_append

theorem length_byteChars (data : List UInt8) : (byteChars data).length = data.length :=
  List.length_map _

theorem bytes_append (first second : String) :
    bytes (first ++ second) = bytes first ++ bytes second := by
  simp [bytes, String.toByteArray_append]

theorem length_bytes (text : String) : (bytes text).length = text.utf8ByteSize := rfl

theorem bytes_ofList (text : List Char) :
    bytes (String.ofList text) = text.flatMap String.utf8EncodeChar := by
  simp [bytes, List.utf8Encode]

/-- A text whose bytes begin another one begins it as a text. -/
theorem isPrefix_of_bytes {first text : List Char}
    (h : bytes (String.ofList first) <+: bytes (String.ofList text)) : first <+: text := by
  obtain ⟨rest, hrest⟩ := h
  apply List.isPrefix_of_utf8Encode_append_eq_utf8Encode rest.toByteArray
  rw [bytes_ofList, bytes_ofList] at hrest
  rw [List.utf8Encode, List.utf8Encode, ← hrest, List.toByteArray_append']
  rfl

/-- A part of a text is cut out by the bytes in front of it and its own. -/
theorem cut?_append (before part behind : List Char) :
    cut? (String.ofList (before ++ part ++ behind)) (String.ofList before).utf8ByteSize
        ((String.ofList before).utf8ByteSize + (String.ofList part).utf8ByteSize) =
      some (String.ofList part) := by
  have hstart : IsBoundary (String.ofList (before ++ part ++ behind))
      (String.ofList before).utf8ByteSize :=
    String.Pos.Raw.isValid_iff_exists_append.2
      ⟨String.ofList before, String.ofList (part ++ behind), by simp, rfl⟩
  have hstop : IsBoundary (String.ofList (before ++ part ++ behind))
      ((String.ofList before).utf8ByteSize + (String.ofList part).utf8ByteSize) :=
    String.Pos.Raw.isValid_iff_exists_append.2
      ⟨String.ofList (before ++ part), String.ofList behind, String.ofList_append, by
        rw [String.ofList_append, String.rawEndPos, String.utf8ByteSize_append]⟩
  rw [cut?, if_pos ⟨Nat.le_add_right _ _, hstart, hstop⟩]
  simp only [String.utf8ByteSize_ofList]
  rw [String.extract_of_valid]

/-! ## Bytes of words -/

/-- A character is its only byte or has none but bytes outside ASCII. -/
theorem mem_utf8EncodeChar {b : UInt8} {c : Char} (h : b ∈ String.utf8EncodeChar c) :
    (b.toNat = c.toNat ∧ c.toNat < 128) ∨ (128 ≤ b.toNat ∧ 128 ≤ c.toNat) := by
  have hvalue : c.toNat = c.val.toNat := rfl
  rw [hvalue]
  unfold String.utf8EncodeChar at h
  dsimp only at h
  split at h
  · rw [List.mem_singleton.1 h, UInt8.toNat_ofNat']
    omega
  · refine .inr ⟨?_, by omega⟩
    -- Each byte is a remainder with the marks of a first or of a later byte added.
    split at h
    · simp only [List.mem_cons, List.not_mem_nil, or_false] at h
      rcases h with rfl | rfl <;> rw [UInt8.toNat_ofNat'] <;> omega
    · split at h
      · simp only [List.mem_cons, List.not_mem_nil, or_false] at h
        rcases h with rfl | rfl | rfl <;> rw [UInt8.toNat_ofNat'] <;> omega
      · simp only [List.mem_cons, List.not_mem_nil, or_false] at h
        rcases h with rfl | rfl | rfl | rfl <;> rw [UInt8.toNat_ofNat'] <;> omega

/-- No range of ASCII characters goes on outside ASCII. -/
theorem not_le_of_le {c last : Char} (h : 128 ≤ c.toNat) (hlast : last.toNat < 128) :
    ¬c ≤ last := by
  intro hle
  have hnat : c.toNat ≤ last.toNat := hle
  omega

theorem isDigit_of_le {c : Char} (h : 128 ≤ c.toNat) : c.isDigit = false := by
  show (decide (c.val ≥ '0'.val) && decide (c ≤ '9')) = false
  rw [decide_eq_false (not_le_of_le h (by decide)), Bool.and_false]

/-- Outside ASCII there are no letters, digits and underscores. -/
theorem isWord_of_le {c : Char} (h : 128 ≤ c.toNat) : isWord c = false := by
  have hlast : ¬c ≤ 'Z' := not_le_of_le h (by decide)
  have hupper : c.isUpper = false := decide_eq_false fun hle => hlast hle.2
  have hlower : c.isLower = false := by
    show (decide (c.val ≥ 'a'.val) && decide (c ≤ 'z')) = false
    rw [decide_eq_false (not_le_of_le h (by decide)), Bool.and_false]
  have hmark : (c == '_') = false := by
    apply beq_eq_false_iff_ne.2
    rintro rfl
    exact absurd h (by decide)
  show (((c.isUpper || c.isLower) || c.isDigit) || c == '_') = false
  rw [hupper, hlower, isDigit_of_le h, hmark]
  rfl

/-- A class that does not tell characters outside ASCII apart is told by any byte of a
character. -/
theorem class_ofUInt8_of_mem {p : Char → Bool} {beyond : Bool}
    (hp : ∀ c, 128 ≤ c.toNat → p c = beyond) {b : UInt8} {c : Char}
    (h : b ∈ String.utf8EncodeChar c) : p (Char.ofUInt8 b) = p c := by
  rcases mem_utf8EncodeChar h with ⟨hb, -⟩ | ⟨hb, hc⟩
  · rw [Char.toNat_inj.1 ((toNat_ofUInt8 b).trans hb)]
  · rw [hp c hc, hp (Char.ofUInt8 b) ((toNat_ofUInt8 b).symm ▸ hb)]

theorem isWordByte_of_mem {b : UInt8} {c : Char} (h : b ∈ String.utf8EncodeChar c) :
    isWordByte b = isWord c :=
  class_ofUInt8_of_mem (fun _ => isWord_of_le) h

theorem head?_bytes (text : List Char) :
    (bytes (String.ofList text)).head?.any isWordByte = text.head?.any isWord := by
  rw [bytes_ofList]
  cases text with
  | nil => rfl
  | cons c rest =>
    obtain ⟨b, more, hc⟩ := List.exists_cons_of_ne_nil (String.utf8EncodeChar_ne_nil (c := c))
    rw [List.flatMap_cons, hc]
    exact isWordByte_of_mem (by rw [hc]; exact List.mem_cons_self)

theorem getLast?_bytes (text : List Char) :
    (bytes (String.ofList text)).getLast?.any isWordByte = text.getLast?.any isWord := by
  rw [bytes_ofList]
  rcases text.eq_nil_or_concat with rfl | ⟨front, c, rfl⟩
  · rfl
  · have hne := String.utf8EncodeChar_ne_nil (c := c)
    rw [List.concat_eq_append, List.flatMap_append, List.flatMap_singleton, List.getLast?_append,
      List.getLast?_eq_some_getLast hne, Option.some_or, Option.any_some, List.getLast?_concat,
      Option.any_some]
    exact isWordByte_of_mem (List.getLast_mem hne)

end TomlEditor.Text
