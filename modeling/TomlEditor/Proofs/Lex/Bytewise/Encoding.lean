import TomlEditor.Proofs.Lex.ValueEnd

/-!
# Lengths in bytes and in characters

The bytes of a text, read as characters, are the text with some more characters
in place of each one outside ASCII, none of them in ASCII. The lengths of the
lexer do not tell those apart, so on the bytes they are the numbers of bytes
that the lengths on the characters take. For values and escapes this holds
because such a character is foreign to them; in comments, headers and keys the
characters are counted in runs, and a run of characters is a run of bytes.
-/

namespace TomlEditor.Lex

open Text

/-- The bytes of a text, each as the character with its number. -/
def units (text : List Char) : List Char :=
  byteChars (bytes (String.ofList text))

theorem byteChars_bytes (text : List Char) :
    byteChars (bytes (String.ofList text)) = units text := by
  rw [units]

@[simp] theorem units_nil : units [] = [] := rfl

theorem units_cons (c : Char) (rest : List Char) :
    units (c :: rest) = byteChars (String.utf8EncodeChar c) ++ units rest := by
  rw [units, units, bytes_ofList, bytes_ofList, List.flatMap_cons, byteChars_append]

@[simp] theorem units_append (first second : List Char) :
    units (first ++ second) = units first ++ units second := by
  rw [units, String.ofList_append, bytes_append, byteChars_append, byteChars_bytes,
    byteChars_bytes]

theorem length_units (text : List Char) :
    (units text).length = (String.ofList text).utf8ByteSize :=
  length_byteChars _

theorem length_units_singleton (c : Char) : (units [c]).length = c.utf8Size := by
  rw [units_cons, units_nil, List.append_nil, length_byteChars, String.length_utf8EncodeChar]

theorem units_cons_of_ascii {c : Char} (hc : c.toNat < 128) (rest : List Char) :
    units (c :: rest) = c :: units rest := by
  have hone : c.utf8Size = 1 := Char.utf8Size_eq_one_iff.2 (UInt32.le_iff_toNat_le.2 (by
    show c.toNat ≤ 127
    omega))
  obtain ⟨b, hb⟩ := List.length_eq_one_iff.1 ((String.length_utf8EncodeChar c).trans hone)
  rw [units_cons, hb]
  have hsame : Char.ofUInt8 b = c := by
    rcases mem_utf8EncodeChar (hb ▸ List.mem_singleton_self b : b ∈ String.utf8EncodeChar c) with
      ⟨hnat, -⟩ | ⟨-, hle⟩
    · exact Char.toNat_inj.1 ((toNat_ofUInt8 b).trans hnat)
    · omega
  rw [← hsame]
  rfl

/-- A text of ASCII characters has a byte for each. -/
theorem units_eq_self {text : List Char} (h : ∀ c ∈ text, c.toNat < 128) : units text = text := by
  induction text with
  | nil => rfl
  | cons c rest ih =>
    obtain ⟨hc, hrest⟩ := List.forall_mem_cons.1 h
    rw [units_cons_of_ascii hc, ih hrest]

theorem drop_units (text : List Char) (n : Nat) :
    (units text).drop (units (text.take n)).length = units (text.drop n) := by
  rw [← List.take_append_drop n text, units_append, List.take_append_drop, List.drop_left]

theorem units_eq_nil_iff {text : List Char} : units text = [] ↔ text = [] := by
  cases text with
  | nil => simp
  | cons c rest =>
    rw [units_cons, List.append_eq_nil_iff, byteChars, List.map_eq_nil_iff]
    simp [String.utf8EncodeChar_ne_nil]

/-- Some characters take some bytes. -/
theorem length_units_take_pos {text : List Char} {n : Nat} (hn : n ≤ text.length) :
    0 < (units (text.take n)).length ↔ 0 < n := by
  rw [List.length_pos_iff, ne_eq, units_eq_nil_iff, ← ne_eq, ← List.length_pos_iff,
    List.length_take, Nat.min_eq_left hn]

/-! ## Classes -/

/-- A class that does not tell characters outside ASCII apart. -/
def Plain (p : Char → Bool) : Prop :=
  ∃ beyond, ∀ c, 128 ≤ c.toNat → p c = beyond

theorem plain_eq {d : Char} (hd : d.toNat < 128) : Plain (· == d) := by
  refine ⟨false, fun c hc => beq_eq_false_iff_ne.2 ?_⟩
  rintro rfl
  omega

theorem Plain.not {p : Char → Bool} (hp : Plain p) : Plain (!p ·) := by
  obtain ⟨beyond, hbeyond⟩ := hp
  exact ⟨!beyond, fun c hc => by simp only [hbeyond c hc]⟩

theorem Plain.or {p q : Char → Bool} (hp : Plain p) (hq : Plain q) : Plain fun c => p c || q c := by
  obtain ⟨first, hfirst⟩ := hp
  obtain ⟨second, hsecond⟩ := hq
  exact ⟨first || second, fun c hc => by simp only [hfirst c hc, hsecond c hc]⟩

theorem Plain.and {p q : Char → Bool} (hp : Plain p) (hq : Plain q) :
    Plain fun c => p c && q c := by
  obtain ⟨first, hfirst⟩ := hp
  obtain ⟨second, hsecond⟩ := hq
  exact ⟨first && second, fun c hc => by simp only [hfirst c hc, hsecond c hc]⟩

theorem plain_isWord : Plain isWord := ⟨false, fun _ => isWord_of_le⟩

theorem plain_isSpace : Plain isSpace := (plain_eq (by decide)).or (plain_eq (by decide))

theorem plain_isIndent : Plain isIndent := plain_isSpace.or (plain_eq (by decide))

theorem plain_isWhite : Plain isWhite := plain_isIndent.or (plain_eq (by decide))

theorem plain_isLineEnd : Plain isLineEnd := (plain_eq (by decide)).or (plain_eq (by decide))

theorem plain_isBareKey : Plain isBareKey :=
  (plain_isWord.or (plain_eq (by decide))).or (plain_eq (by decide))

theorem plain_isHeaderName : Plain isHeaderName :=
  ((plain_eq (by decide)).not.and (plain_eq (by decide)).not).and (plain_eq (by decide)).not

theorem toNat_char_lt (quote : Quote) : quote.char.toNat < 128 := by
  cases quote <;> decide

theorem plain_isQuote : Plain fun c => (Quote.ofChar? c).isSome := by
  refine ⟨false, fun c hc => Option.isSome_eq_false_iff.2 ?_⟩
  refine Option.isNone_iff_eq_none.2 (Option.eq_none_iff_forall_ne_some.2 fun quote hquote => ?_)
  have hascii := toNat_char_lt quote
  rw [← Quote.ofChar?_eq_some_iff.1 hquote] at hascii
  omega

theorem plain_isQuotedKey (quote : Quote) : Plain (isQuotedKey quote) :=
  (plain_eq (toNat_char_lt quote)).not.and (plain_eq (by decide)).not

theorem plain_isStringText (quote : Quote) : Plain (isStringText quote) :=
  (plain_eq (toNat_char_lt quote)).not.and (plain_eq (by decide)).not

section

variable {p : Char → Bool} (hp : Plain p)
include hp

/-- Each byte of a character is of the class of the character. -/
theorem class_of_mem_byteChars {c u : Char} (h : u ∈ byteChars (String.utf8EncodeChar c)) :
    p u = p c := by
  obtain ⟨b, hb, rfl⟩ := List.mem_map.1 h
  obtain ⟨beyond, hbeyond⟩ := hp
  exact class_ofUInt8_of_mem hbeyond hb

/-- A first character has a first byte. -/
theorem exists_units_cons (c : Char) (rest : List Char) :
    ∃ u more, units (c :: rest) = u :: more ∧ p u = p c := by
  rw [units_cons]
  cases hunits : byteChars (String.utf8EncodeChar c) with
  | nil => exact absurd (List.map_eq_nil_iff.1 hunits) String.utf8EncodeChar_ne_nil
  | cons u more =>
    exact ⟨u, more ++ units rest, rfl, class_of_mem_byteChars hp (by simp [hunits])⟩

theorem any_head?_units (text : List Char) : (units text).head?.any p = text.head?.any p := by
  cases text with
  | nil => rfl
  | cons c rest =>
    obtain ⟨u, more, hunits, hu⟩ := exists_units_cons hp c rest
    rw [hunits, List.head?_cons, List.head?_cons, Option.any_some, Option.any_some, hu]

theorem takeWhile_units (text : List Char) :
    (units text).takeWhile p = units (text.takeWhile p) := by
  induction text with
  | nil => rfl
  | cons c rest ih =>
    cases hc : p c with
    | true =>
      have hall : ∀ u ∈ byteChars (String.utf8EncodeChar c), p u = true := fun u hu =>
        (class_of_mem_byteChars hp hu).trans hc
      rw [List.takeWhile_cons_of_pos hc, units_cons, units_cons, List.takeWhile_append_of_pos hall,
        ih]
    | false =>
      obtain ⟨u, more, hunits, hu⟩ := exists_units_cons hp c rest
      rw [List.takeWhile_cons_of_neg (by simp [hc]), hunits,
        List.takeWhile_cons_of_neg (by simp [hu, hc])]
      rfl

theorem dropWhile_units (text : List Char) :
    (units text).dropWhile p = units (text.dropWhile p) := by
  have hboth : (units text).takeWhile p ++ (units text).dropWhile p =
      (units text).takeWhile p ++ units (text.dropWhile p) := by
    rw [List.takeWhile_append_dropWhile, takeWhile_units hp, ← units_append,
      List.takeWhile_append_dropWhile]
  exact List.append_cancel_left hboth

/-- The bytes of a run. -/
theorem length_takeWhile_units (text : List Char) :
    ((units text).takeWhile p).length = (units (text.take (text.takeWhile p).length)).length := by
  rw [takeWhile_units hp, take_length_takeWhile]

end

/-- A text that does not start with an ASCII character does not do so in bytes. -/
theorem exists_units_cons_of_ne {c d : Char} (hd : d.toNat < 128) (hc : c ≠ d)
    (rest : List Char) : ∃ u more, units (c :: rest) = u :: more ∧ u ≠ d := by
  obtain ⟨u, more, hunits, hu⟩ := exists_units_cons (plain_eq hd) c rest
  refine ⟨u, more, hunits, ?_⟩
  rintro rfl
  rw [beq_self_eq_true] at hu
  exact hc (beq_iff_eq.1 hu.symm)

theorem prefix_units_iff {word : List Char} (hword : ∀ c ∈ word, c.toNat < 128)
    (text : List Char) : word <+: units text ↔ word <+: text := by
  induction word generalizing text with
  | nil => simp
  | cons d word ih =>
    obtain ⟨hd, hmore⟩ := List.forall_mem_cons.1 hword
    cases text with
    | nil => rfl
    | cons c rest =>
      by_cases hc : c = d
      · subst hc
        rw [units_cons_of_ascii hd, List.cons_prefix_cons, List.cons_prefix_cons, ih hmore]
      · obtain ⟨u, more, hunits, hu⟩ := exists_units_cons_of_ne hd hc rest
        rw [hunits, List.cons_prefix_cons, List.cons_prefix_cons]
        exact ⟨fun h => absurd h.1.symm hu, fun h => absurd h.1.symm hc⟩

theorem head?_eq_some_iff_starts {text : List Char} {d : Char} :
    text.head? = some d ↔ [d] <+: text := by
  cases text with
  | nil => simp
  | cons c rest => simp [List.cons_prefix_cons, eq_comm]

theorem head?_units_eq_some {d : Char} (hd : d.toNat < 128) (text : List Char) :
    (units text).head? = some d ↔ text.head? = some d := by
  rw [head?_eq_some_iff_starts, head?_eq_some_iff_starts, prefix_units_iff (by simpa using hd)]

theorem head?_units_bind_ofChar? (text : List Char) :
    (units text).head?.bind Quote.ofChar? = text.head?.bind Quote.ofChar? := by
  cases text with
  | nil => rfl
  | cons c rest =>
    cases hquote : Quote.ofChar? c with
    | some quote =>
      have hascii : c.toNat < 128 := by
        rw [Quote.ofChar?_eq_some_iff.1 hquote]
        exact toNat_char_lt quote
      rw [units_cons_of_ascii hascii]
      rfl
    | none =>
      obtain ⟨u, more, hunits, hu⟩ := exists_units_cons plain_isQuote c rest
      rw [hquote, Option.isSome_none, Option.isSome_eq_false_iff, Option.isNone_iff_eq_none] at hu
      rw [hunits, List.head?_cons, List.head?_cons, Option.bind_some, Option.bind_some, hu, hquote]

/-! ## Lengths -/

/-- A length function that gives on the bytes of a text the number of bytes that the length on its
characters takes. -/
def Encodes (length? : List Char → Option Nat) : Prop :=
  ∀ ahead, length? (units ahead) = (length? ahead).map fun n => (units (ahead.take n)).length

theorem foreign_units {tail : List Char} (h : Foreign tail) : Foreign (units tail) := by
  intro u hu
  cases tail with
  | nil => simp at hu
  | cons c rest =>
    have hplain : Plain isForeign :=
      plain_isLineEnd.or ⟨true, fun c hc => decide_eq_true hc⟩
    have hany := any_head?_units hplain (c :: rest)
    rw [hu, Option.any_some] at hany
    exact hany.trans (h c rfl)

/-- What does not look behind the first foreign character is the same on bytes and characters. -/
theorem encodes_of_append {length? : List Char → Option Nat}
    (happend : ∀ {tail}, Foreign tail → ∀ line, length? (line ++ tail) = length? line)
    (hle : ∀ {ahead n}, length? ahead = some n → n ≤ ahead.length) : Encodes length? := by
  intro ahead
  have hsplit := List.takeWhile_append_dropWhile (p := (!isForeign ·)) (l := ahead)
  generalize hline : ahead.takeWhile (!isForeign ·) = line at hsplit
  generalize htail : ahead.dropWhile (!isForeign ·) = tail at hsplit
  have hforeign : Foreign tail := by
    intro c hc
    have hhead := head?_dropWhile_any (!isForeign ·) ahead
    rw [htail, hc] at hhead
    simpa using hhead
  have hascii : ∀ c ∈ line, c.toNat < 128 := by
    intro c hc
    have hnative := List.all_eq_true.1 (List.all_takeWhile (p := (!isForeign ·)) (l := ahead)) c
      (hline ▸ hc)
    refine Nat.lt_of_not_le fun hle => ?_
    simp [isForeign, hle] at hnative
  rw [← hsplit, units_append, units_eq_self hascii, happend (foreign_units hforeign),
    happend hforeign]
  cases hlength : length? line with
  | none => rfl
  | some n =>
    have hn := hle hlength
    have hpart : units (line.take n) = line.take n :=
      units_eq_self fun c hc => hascii c (List.mem_of_mem_take hc)
    rw [Option.map_some, List.take_append_of_le_length hn, hpart, List.length_take,
      Nat.min_eq_left hn]

theorem encodes_escapeLength? : Encodes escapeLength? :=
  encodes_of_append (fun h line => escapeLength?_append h line) escapeLength?_le

/-- A value between other text, by its length alone. -/
theorem encodes_bind_bounded {length? : List Char → Option Nat} (behind : Behind)
    (happend : ∀ {tail}, Foreign tail → ∀ line, length? (line ++ tail) = length? line)
    (hle : ∀ {ahead n}, length? ahead = some n → n ≤ ahead.length) :
    Encodes fun ahead => (length? ahead).bind (bounded behind ahead) :=
  encodes_of_append (fun h line => bind_bounded_append h line (happend h line) hle behind)
    (bind_bounded_le hle)

theorem encodes_scanDate (behind : Behind) : Encodes (scanDate behind) :=
  encodes_bind_bounded behind (fun h line => slotsLength?_append h line (by decide))
    slotsLength?_le

theorem encodes_scanFloat (behind : Behind) : Encodes (scanFloat behind) :=
  encodes_bind_bounded behind (fun h line => floatLength?_append h line) floatLength?_le

theorem encodes_scanInteger (behind : Behind) : Encodes (scanInteger behind) :=
  encodes_bind_bounded behind (fun h line => integerLength?_append h line) integerLength?_le

theorem encodes_scanBoolean (behind : Behind) : Encodes (scanBoolean behind) :=
  encodes_bind_bounded behind (fun h line => booleanLength?_append h line) booleanLength?_le

theorem encodes_scanDateTimeTz (behind : Behind) : Encodes (scanDateTimeTz behind) :=
  encodes_of_append (fun h line => scanDateTimeTz_append h line behind) scanDateTimeTz_le

theorem encodes_scanDateTime (behind : Behind) : Encodes (scanDateTime behind) :=
  encodes_of_append (fun h line => scanDateTime_append h line behind) scanDateTime_le

/-! ## Comments, headers and keys -/

/-- The bytes of a run with some characters behind it, of which only ASCII ones count. -/
theorem length_units_take_run {p : Char → Bool} (hp : Plain p) (close : List Char)
    {text rest : List Char} (hclose : ∀ c ∈ close, c.toNat < 128)
    (h : text.dropWhile p = close ++ rest) :
    (units (text.take ((text.takeWhile p).length + close.length))).length =
      ((units text).takeWhile p).length + close.length := by
  rw [List.take_add, drop_length_takeWhile, h, List.take_left, take_length_takeWhile,
    units_append, List.length_append, takeWhile_units hp, units_eq_self hclose]

theorem encodes_commentLength? : Encodes commentLength? := by
  intro ahead
  cases ahead with
  | nil => rfl
  | cons c rest =>
    by_cases hc : c = '#'
    · subst hc
      rw [units_cons_of_ascii (by decide), commentLength?_cons, commentLength?_cons, if_pos rfl,
        if_pos rfl, Option.map_some, List.take_succ_cons, units_cons_of_ascii (by decide),
        length_takeWhile_units plain_isLineEnd.not]
      rfl
    · obtain ⟨u, more, hunits, hu⟩ := exists_units_cons_of_ne (by decide) hc rest
      rw [hunits, commentLength?_cons, commentLength?_cons, if_neg hu, if_neg hc]
      rfl

theorem encodes_tableHeaderLength? : Encodes tableHeaderLength? := by
  intro ahead
  cases ahead with
  | nil => rfl
  | cons c rest =>
    by_cases hc : c = '['
    · subst hc
      have hclose := head?_units_eq_some (d := ']') (by decide) (rest.dropWhile isHeaderName)
      rw [← dropWhile_units plain_isHeaderName] at hclose
      rw [units_cons_of_ascii (by decide), tableHeaderLength?_cons, tableHeaderLength?_cons]
      simp only [hclose, true_and]
      split
      · next hclose =>
        obtain ⟨more, hmore⟩ := List.head?_eq_some_iff.1 hclose
        have hrun := length_units_take_run plain_isHeaderName [']'] (by simp) hmore
        rw [Option.map_some, List.take_succ_cons, units_cons_of_ascii (by decide),
          List.length_cons]
        exact congrArg (fun n => some (n + 1)) hrun.symm
      · rfl
    · obtain ⟨u, more, hunits, hu⟩ := exists_units_cons_of_ne (by decide) hc rest
      rw [hunits, tableHeaderLength?_cons, tableHeaderLength?_cons, if_neg fun h => hu h.1,
        if_neg fun h => hc h.1]
      rfl

theorem encodes_arrayTableHeaderLength? : Encodes arrayTableHeaderLength? := by
  intro ahead
  by_cases hopen : ['[', '['] <+: ahead
  · obtain ⟨rest, rfl⟩ := hopen
    have hclose : [']', ']'] <+: units (rest.dropWhile isHeaderName) ↔
        [']', ']'] <+: rest.dropWhile isHeaderName :=
      prefix_units_iff (by simp) _
    rw [← dropWhile_units plain_isHeaderName] at hclose
    rw [units_append, units_eq_self (by simp)]
    simp only [List.cons_append, List.nil_append, arrayTableHeaderLength?_brackets, hclose]
    split
    · next hclose =>
      obtain ⟨more, hmore⟩ := hclose
      have hrun := length_units_take_run plain_isHeaderName [']', ']'] (by simp) hmore.symm
      rw [Option.map_some, List.take_succ_cons, List.take_succ_cons,
        units_cons_of_ascii (by decide), units_cons_of_ascii (by decide), List.length_cons,
        List.length_cons]
      exact congrArg (fun n => some (n + 2)) hrun.symm
    · rfl
  · have hunits := mt (prefix_units_iff (by simp) ahead).1 hopen
    rw [arrayTableHeaderLength?_of_not_brackets hopen,
      arrayTableHeaderLength?_of_not_brackets hunits]
    rfl

theorem encodes_keyGapLength? : Encodes keyGapLength? := by
  intro ahead
  have hsign := head?_units_eq_some (d := '=') (by decide) (ahead.dropWhile isSpace)
  rw [← dropWhile_units plain_isSpace] at hsign
  simp only [keyGapLength?, hsign, length_takeWhile_units plain_isSpace, apply_ite (Option.map _),
    Option.map_some, Option.map_none]

theorem keyNameLength_units (ahead : List Char) :
    keyNameLength (units ahead) = (units (ahead.take (keyNameLength ahead))).length := by
  cases ahead with
  | nil => rfl
  | cons c rest =>
    rw [keyNameLength_cons]
    cases hquote : Quote.ofChar? c with
    | some quote =>
      have hclose := head?_units_eq_some (toNat_char_lt quote)
        (rest.dropWhile (isQuotedKey quote))
      rw [← dropWhile_units (plain_isQuotedKey quote)] at hclose
      have hascii : c.toNat < 128 := by
        rw [Quote.ofChar?_eq_some_iff.1 hquote]
        exact toNat_char_lt quote
      rw [units_cons_of_ascii hascii, keyNameLength_cons, hquote]
      simp only [hclose]
      split
      · next hclose =>
        obtain ⟨more, hmore⟩ := List.head?_eq_some_iff.1 hclose
        have hrun := length_units_take_run (plain_isQuotedKey quote) [quote.char]
          (by simpa using toNat_char_lt quote) hmore
        rw [List.take_succ_cons, units_cons_of_ascii hascii, List.length_cons]
        exact congrArg (· + 1) hrun.symm
      · rfl
    | none =>
      obtain ⟨u, more, hunits, hu⟩ := exists_units_cons plain_isQuote c rest
      rw [hquote, Option.isSome_none, Option.isSome_eq_false_iff, Option.isNone_iff_eq_none] at hu
      rw [hunits, keyNameLength_cons, hu]
      simp only [← hunits]
      exact length_takeWhile_units plain_isBareKey (c :: rest)

end TomlEditor.Lex
