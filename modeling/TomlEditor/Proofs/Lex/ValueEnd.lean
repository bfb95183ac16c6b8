import TomlEditor.Proofs.Lex.FirstCharacter
import TomlEditor.Proofs.Lex.Reach
import TomlEditor.Proofs.Text.Digits

/-!
# Where values and escapes end

Values and escapes are made of ASCII characters, none of them of a line end. All
other characters are foreign to them: the lengths are the same whatever stands
from the first foreign character on, and reach no further than to it.
-/

namespace TomlEditor.Lex

open Text

/-! ## Runs in front of a text -/

section

variable {p : Char → Bool} {tail : List Char}

/-- A test of the next character does not see a text that starts with none of its class. -/
theorem any_head?_append (h : tail.head?.any p = false) (line : List Char) :
    (line ++ tail).head?.any p = line.head?.any p := by
  cases line with
  | cons c line => rfl
  | nil => exact h

theorem takeWhile_append (h : tail.head?.any p = false) (line : List Char) :
    (line ++ tail).takeWhile p = line.takeWhile p := by
  induction line with
  | cons c line ih => simp only [List.cons_append, List.takeWhile_cons, ih]
  | nil =>
    cases tail with
    | nil => rfl
    | cons c rest =>
      have hc : p c = false := h
      simp [hc]

end

/-! ## Foreign characters -/

/-- A character of a line end, or one outside ASCII. -/
def isForeign (c : Char) : Bool :=
  isLineEnd c || decide (128 ≤ c.toNat)

/-- A text that starts with a foreign character, or with none. -/
def Foreign (text : List Char) : Prop :=
  ∀ c, text.head? = some c → isForeign c = true

/-- A class without foreign characters. -/
def Native (p : Char → Bool) : Prop :=
  ∀ c, isForeign c = true → p c = false

theorem isForeign_iff {c : Char} :
    isForeign c = true ↔ (c = '\n' ∨ c = '\r') ∨ 128 ≤ c.toNat := by
  simp [isForeign, isLineEnd]

theorem native_of {p : Char → Bool} (hfeed : p '\n' = false) (hreturn : p '\r' = false)
    (hbeyond : ∀ c, 128 ≤ c.toNat → p c = false) : Native p := by
  intro c hc
  rcases isForeign_iff.1 hc with (rfl | rfl) | hc
  · exact hfeed
  · exact hreturn
  · exact hbeyond c hc

theorem native_isWord : Native isWord := native_of (by decide) (by decide) fun _ => isWord_of_le

theorem native_isDigit : Native Char.isDigit :=
  native_of (by decide) (by decide) fun _ => isDigit_of_le

theorem native_isHexDigit : Native isHexDigit :=
  native_of (by decide) (by decide) fun _ => isHexDigit_of_le

theorem native_eq {d : Char} (hd : isForeign d = false) : Native (· == d) := by
  intro c hc
  exact beq_eq_false_iff_ne.2 (ne_of_class hc hd)

theorem native_isEscapeLetter : Native isEscapeLetter := by
  intro c hc
  have hnative :
      ['a', 'b', 'f', 'n', 'r', 't', 'v', '\\', '"', '\''].all (!isForeign ·) = true := by
    decide
  refine Bool.eq_false_iff.2 fun hletter => ?_
  have hplain := List.all_eq_true.1 hnative c (List.contains_iff_mem.1 hletter)
  rw [hc] at hplain
  exact absurd hplain (by decide)

/-- A slot that takes no foreign character. -/
def Slot.isNative : Slot → Bool
  | mark c => !isForeign c
  | _ => true

theorem Slot.native {slot : Slot} (h : slot.isNative = true) : Native slot.accepts := by
  cases slot with
  | digit => exact native_isDigit
  | sign =>
    intro c hc
    have hplus : (c == '+') = false := native_eq (by decide) c hc
    have hminus : (c == '-') = false := native_eq (by decide) c hc
    simp [Slot.accepts, hplus, hminus]
  | mark d => exact native_eq (by simpa [Slot.isNative] using h)

namespace Foreign

variable {tail : List Char}

theorem not_any (h : Foreign tail) {p : Char → Bool} (hp : Native p) :
    tail.head?.any p = false := by
  cases htail : tail.head? with
  | none => rfl
  | some c => exact hp c (h c htail)

/-- To a function that takes no foreign character, such a text is like none. -/
theorem like_nil (h : Foreign tail) {α : Type} {f : List Char → α}
    (hf : ∀ c rest, isForeign c = true → f (c :: rest) = f []) : f tail = f [] := by
  cases tail with
  | nil => rfl
  | cons c rest => exact hf c rest (h c rfl)

end Foreign

/-! ## Lengths -/

section

variable {tail : List Char} (h : Foreign tail) (line : List Char)

include h

theorem fits_append {slots : List Slot} (hslots : slots.all Slot.isNative = true) :
    fits slots (line ++ tail) = fits slots line := by
  induction slots generalizing line with
  | nil => simp [fits]
  | cons slot slots ih =>
    rw [List.all_cons, Bool.and_eq_true] at hslots
    cases line with
    | cons c line => simp only [List.cons_append, fits, ih line hslots.2]
    | nil =>
      rw [List.nil_append]
      refine h.like_nil fun c rest hc => ?_
      simp [fits, Slot.native hslots.1 c hc]

theorem slotsLength?_append {slots : List Slot} (hslots : slots.all Slot.isNative = true) :
    slotsLength? slots (line ++ tail) = slotsLength? slots line := by
  rw [slotsLength?, slotsLength?, fits_append h line hslots]

theorem secondFractionLength_append :
    secondFractionLength (line ++ tail) = secondFractionLength line := by
  cases line with
  | nil =>
    rw [List.nil_append]
    refine h.like_nil fun c rest hc => ?_
    have hpoint : c ≠ '.' := ne_of_class hc (by decide)
    rw [secondFractionLength_cons, if_neg fun hdigits => hpoint hdigits.1]
    rfl
  | cons c line =>
    rw [List.cons_append, secondFractionLength_cons, secondFractionLength_cons,
      takeWhile_append (h.not_any native_isDigit)]

theorem signLength_append : signLength (line ++ tail) = signLength line := by
  cases line with
  | nil =>
    rw [List.nil_append]
    refine h.like_nil fun c rest hc => ?_
    have hplus : c ≠ '+' := ne_of_class hc (by decide)
    have hminus : c ≠ '-' := ne_of_class hc (by decide)
    rw [signLength_cons, if_neg (not_or.2 ⟨hplus, hminus⟩)]
    rfl
  | cons c line => rw [List.cons_append, signLength_cons, signLength_cons]

/-- A run of digits and one that starts with a digit, each by the other on what follows. -/
theorem digits_append : digitRun (line ++ tail) = digitRun line ∧
    digitsLength (line ++ tail) = digitsLength line := by
  induction line with
  | nil =>
    rw [List.nil_append]
    have hdigits : ∀ c rest, isForeign c = true → digitsLength (c :: rest) = 0 :=
      fun c rest hc => by simp [digitsLength_cons, native_isDigit c hc]
    refine ⟨h.like_nil fun c rest hc => ?_, h.like_nil hdigits⟩
    have hmark : c ≠ '_' := ne_of_class hc (by decide)
    rw [digitRun_cons, if_neg hmark, hdigits c rest hc]
    rfl
  | cons c line ih =>
    obtain ⟨hrun, hdigits⟩ := ih
    have hfirst : digitsLength (c :: line ++ tail) = digitsLength (c :: line) := by
      rw [List.cons_append, digitsLength_cons, digitsLength_cons, hrun]
    refine ⟨?_, hfirst⟩
    rw [List.cons_append, digitRun_cons, digitRun_cons, hdigits, ← List.cons_append, hfirst]

theorem digitRun_append : digitRun (line ++ tail) = digitRun line :=
  (digits_append h line).1

theorem digitsLength_append : digitsLength (line ++ tail) = digitsLength line :=
  (digits_append h line).2

theorem fractionLength_append : fractionLength (line ++ tail) = fractionLength line := by
  cases line with
  | nil =>
    rw [List.nil_append]
    refine h.like_nil fun c rest hc => ?_
    have hpoint : c ≠ '.' := ne_of_class hc (by decide)
    rw [fractionLength_cons, if_neg hpoint]
    rfl
  | cons c line =>
    rw [List.cons_append, fractionLength_cons, fractionLength_cons, digitsLength_append h]

theorem magnitudeLength?_append : magnitudeLength? (line ++ tail) = magnitudeLength? line := by
  cases line with
  | nil =>
    rw [List.nil_append]
    refine h.like_nil fun c rest hc => ?_
    have hzero : c ≠ '0' := ne_of_class hc (by decide)
    simp [magnitudeLength?, hzero, native_isDigit c hc]
  | cons c line =>
    rw [List.cons_append, magnitudeLength?_cons, magnitudeLength?_cons, digitRun_append h]

theorem exponentLength_append : exponentLength (line ++ tail) = exponentLength line := by
  cases line with
  | nil =>
    rw [List.nil_append]
    refine h.like_nil fun c rest hc => ?_
    have hsmall : c ≠ 'e' := ne_of_class hc (by decide)
    have hlarge : c ≠ 'E' := ne_of_class hc (by decide)
    simp [exponentLength, hsmall, hlarge]
  | cons c line =>
    rw [List.cons_append, exponentLength_cons, exponentLength_cons, signLength_append h,
      List.drop_append_of_le_length (signLength_le line), digitsLength_append h]

theorem integerLength?_append : integerLength? (line ++ tail) = integerLength? line := by
  rw [integerLength?, integerLength?, signLength_append h,
    List.drop_append_of_le_length (signLength_le line), magnitudeLength?_append h]

theorem floatLength?_append : floatLength? (line ++ tail) = floatLength? line := by
  rw [floatLength?, floatLength?, integerLength?_append h]
  cases hwhole : integerLength? line with
  | none => rfl
  | some whole =>
    have hle := integerLength?_le hwhole
    have hfraction := fractionLength_le (line.drop whole)
    rw [List.length_drop] at hfraction
    simp only [Option.bind_some]
    rw [List.drop_append_of_le_length hle, fractionLength_append h,
      List.drop_append_of_le_length (by omega), exponentLength_append h]

theorem prefix_append_iff {word : List Char} (hword : word.all (!isForeign ·) = true) :
    word <+: line ++ tail ↔ word <+: line := by
  induction word generalizing line with
  | nil => simp
  | cons c word ih =>
    rw [List.all_cons, Bool.and_eq_true, Bool.not_eq_true'] at hword
    cases line with
    | cons d line =>
      rw [List.cons_append, List.cons_prefix_cons, List.cons_prefix_cons]
      exact and_congr_right fun _ => ih line hword.2
    | nil =>
      rw [List.nil_append]
      refine Iff.of_eq (h.like_nil fun d rest hd => ?_)
      have hcd : c ≠ d := (ne_of_class hd hword.1).symm
      simp [List.cons_prefix_cons, hcd]

theorem booleanLength?_append : booleanLength? (line ++ tail) = booleanLength? line := by
  have htrue : ['t', 'r', 'u', 'e'] <+: line ++ tail ↔ ['t', 'r', 'u', 'e'] <+: line :=
    prefix_append_iff h line (by decide)
  have hfalse : ['f', 'a', 'l', 's', 'e'] <+: line ++ tail ↔ ['f', 'a', 'l', 's', 'e'] <+: line :=
    prefix_append_iff h line (by decide)
  simp only [booleanLength?_eq, htrue, hfalse]

theorem bounded_append {behind : Behind} {length : Nat} (hle : length ≤ line.length) :
    bounded behind (line ++ tail) length = bounded behind line length := by
  rw [bounded, bounded, List.drop_append_of_le_length hle,
    any_head?_append (h.not_any native_isWord)]

theorem hexRun_append (limit : Nat) : hexRun limit (line ++ tail) = hexRun limit line := by
  induction line generalizing limit with
  | nil =>
    cases limit with
    | zero => rfl
    | succ limit =>
      rw [List.nil_append]
      refine h.like_nil fun c rest hc => ?_
      rw [hexRun_succ_cons, native_isHexDigit c hc]
      rfl
  | cons c line ih =>
    cases limit with
    | zero => rfl
    | succ limit => rw [List.cons_append, hexRun_succ_cons, hexRun_succ_cons, ih]

theorem escapeLength?_append : escapeLength? (line ++ tail) = escapeLength? line := by
  cases line with
  | nil =>
    rw [List.nil_append]
    exact h.like_nil fun c rest hc => escapeLength?_of_ne (ne_of_class hc (by decide)) rest
  | cons c line =>
    by_cases hc : c = '\\'
    · subst hc
      cases line with
      | nil =>
        -- No foreign character makes an escape with a backslash.
        refine h.like_nil (f := fun text => escapeLength? ('\\' :: text)) fun d rest hd => ?_
        have hbyte : d ≠ 'x' := ne_of_class hd (by decide)
        have hshort : d ≠ 'u' := ne_of_class hd (by decide)
        have hlong : d ≠ 'U' := ne_of_class hd (by decide)
        simp [escapeLength?, native_isEscapeLetter d hd, hbyte, hshort, hlong]
      | cons d line => simp only [List.cons_append, escapeLength?, hexRun_append h]
    · rw [List.cons_append, escapeLength?_of_ne hc, escapeLength?_of_ne hc]

/-! ## Values between other text -/

theorem bind_bounded_append {length? : List Char → Option Nat}
    (happend : length? (line ++ tail) = length? line)
    (hle : ∀ {n}, length? line = some n → n ≤ line.length) (behind : Behind) :
    (length? (line ++ tail)).bind (bounded behind (line ++ tail)) =
      (length? line).bind (bounded behind line) := by
  rw [happend]
  cases hlength : length? line with
  | none => rfl
  | some n => exact bounded_append h line (hle hlength)

theorem dateTimeLength?_append : dateTimeLength? (line ++ tail) = dateTimeLength? line :=
  slotsLength?_append h line (by decide)

theorem offsetLength?_append : offsetLength? (line ++ tail) = offsetLength? line := by
  have hslots : slotsLength? offsetSlots (line ++ tail) = slotsLength? offsetSlots line :=
    slotsLength?_append h line (by decide)
  cases line with
  | nil =>
    rw [List.nil_append]
    refine h.like_nil fun c rest hc => ?_
    have hzulu : c ≠ 'Z' := ne_of_class hc (by decide)
    have hforeign : Foreign (c :: rest) := fun d hd => Option.some.inj hd ▸ hc
    rw [offsetLength?_cons, if_neg hzulu]
    exact slotsLength?_append hforeign [] (by decide)
  | cons c line =>
    rw [List.cons_append, offsetLength?_cons, offsetLength?_cons, ← List.cons_append, hslots]

theorem scanDateTimeTz_append (behind : Behind) :
    scanDateTimeTz behind (line ++ tail) = scanDateTimeTz behind line := by
  rw [scanDateTimeTz, scanDateTimeTz, dateTimeLength?_append h]
  cases htime : dateTimeLength? line with
  | none => rfl
  | some time =>
    have hhead := dateTime_reach htime
    simp only [Option.bind_some]
    rw [List.drop_append_of_le_length (slotsLength?_le htime), secondFractionLength_append h,
      List.drop_append_of_le_length hhead, offsetLength?_append h]
    cases hoffset : offsetLength?
        (line.drop (time + secondFractionLength (line.drop time))) with
    | none => rfl
    | some offset =>
      have hle := offsetLength?_le hoffset
      rw [List.length_drop] at hle
      exact bounded_append h line (by omega)

theorem scanDateTime_append (behind : Behind) :
    scanDateTime behind (line ++ tail) = scanDateTime behind line := by
  rw [scanDateTime, scanDateTime, dateTimeLength?_append h]
  cases htime : dateTimeLength? line with
  | none => rfl
  | some time =>
    have hhead := dateTime_reach htime
    simp only [Option.bind_some]
    rw [List.drop_append_of_le_length (slotsLength?_le htime), secondFractionLength_append h,
      bounded_append h line hhead, bounded_append h line (slotsLength?_le htime)]

end

end TomlEditor.Lex
