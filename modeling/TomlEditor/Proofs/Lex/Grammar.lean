import Mathlib.Computability.RegularExpressions
import Mathlib.Tactic.IntervalCases
import TomlEditor.Lex.Scalar

/-!
# The grammar of dates, numbers and booleans

The values of a document as regular expressions over characters, and what the
words of the smaller expressions look like.
-/

namespace TomlEditor.Lex

open Text RegularExpression

/-! ## Expressions -/

namespace Grammar

/-- One of some characters. -/
def oneOf (cs : List Char) : RegularExpression Char :=
  cs.foldr (fun c others => char c + others) 0

/-- A part or nothing. -/
def maybe (part : RegularExpression Char) : RegularExpression Char :=
  1 + part

/-- Some parts, one after the other. -/
def inOrder (parts : List (RegularExpression Char)) : RegularExpression Char :=
  parts.foldr (· * ·) 1

/-- A fixed word. -/
def letters (text : List Char) : RegularExpression Char :=
  inOrder (text.map char)

def digit : RegularExpression Char :=
  oneOf ['0', '1', '2', '3', '4', '5', '6', '7', '8', '9']

def sign : RegularExpression Char :=
  oneOf ['+', '-']

/-- `YYYY-MM-DD` -/
def date : RegularExpression Char :=
  inOrder [digit, digit, digit, digit, char '-', digit, digit, char '-', digit, digit]

/-- `THH:MM:SS` -/
def time : RegularExpression Char :=
  inOrder [char 'T', digit, digit, char ':', digit, digit, char ':', digit, digit]

/-- `[.][0-9]+` -/
def secondFraction : RegularExpression Char :=
  char '.' * (digit * digit.star)

/-- `Z|[+-]HH:MM` -/
def offset : RegularExpression Char :=
  char 'Z' + inOrder [sign, digit, digit, char ':', digit, digit]

def dateTime : RegularExpression Char :=
  date * time * maybe secondFraction

def dateTimeTz : RegularExpression Char :=
  dateTime * offset

/-- `(_?[0-9])*` -/
def moreDigits : RegularExpression Char :=
  (maybe (char '_') * digit).star

/-- `[0-9](_?[0-9])*` -/
def digits : RegularExpression Char :=
  digit * moreDigits

/-- `0|[1-9](_?[0-9])*` -/
def magnitude : RegularExpression Char :=
  char '0' + oneOf ['1', '2', '3', '4', '5', '6', '7', '8', '9'] * moreDigits

def integer : RegularExpression Char :=
  maybe sign * magnitude

/-- `[.][0-9](_?[0-9])*` -/
def fraction : RegularExpression Char :=
  char '.' * digits

/-- `[eE][+-]?[0-9](_?[0-9])*` -/
def exponent : RegularExpression Char :=
  oneOf ['e', 'E'] * (maybe sign * digits)

/-- An integer with a fraction, an exponent or both. -/
def float : RegularExpression Char :=
  integer * (fraction + exponent + fraction * exponent)

def boolean : RegularExpression Char :=
  letters ['t', 'r', 'u', 'e'] + letters ['f', 'a', 'l', 's', 'e']

end Grammar

open Grammar

/-! ## Their words -/

section

variable {word : List Char}

theorem mem_char {c : Char} : word ∈ (char c).matches' ↔ word = [c] := by
  rw [matches'_char]
  exact Iff.rfl

theorem mem_oneOf {cs : List Char} : word ∈ (oneOf cs).matches' ↔ ∃ c ∈ cs, word = [c] := by
  induction cs with
  | nil => simp [oneOf]
  | cons c others ih =>
    have hothers : word ∈ (others.foldr (fun c others => char c + others) 0).matches' ↔
        ∃ c ∈ others, word = [c] := ih
    rw [oneOf, List.foldr_cons, matches'_add, Language.mem_add, mem_char, hothers]
    simp

theorem mem_maybe {part : RegularExpression Char} :
    word ∈ (maybe part).matches' ↔ word = [] ∨ word ∈ part.matches' := by
  rw [maybe, matches'_add, matches'_epsilon, Language.mem_add, Language.mem_one]

theorem isDigit_iff {c : Char} :
    c.isDigit = true ↔ c ∈ ['0', '1', '2', '3', '4', '5', '6', '7', '8', '9'] := by
  constructor
  · intro h
    have hrange : 48 ≤ c.toNat ∧ c.toNat ≤ 57 := by
      simpa [Char.isDigit, UInt32.le_iff_toNat_le] using h
    obtain ⟨hlow, hhigh⟩ := hrange
    rw [← Char.ofNat_toNat c]
    interval_cases c.toNat <;> decide
  · intro h
    simp only [List.mem_cons, List.not_mem_nil, or_false] at h
    rcases h with rfl | rfl | rfl | rfl | rfl | rfl | rfl | rfl | rfl | rfl <;> rfl

theorem mem_digit : word ∈ digit.matches' ↔ ∃ c, c.isDigit = true ∧ word = [c] := by
  simp only [digit, mem_oneOf, isDigit_iff]

theorem mem_sign : word ∈ sign.matches' ↔ word = ['+'] ∨ word = ['-'] := by
  simp [sign, mem_oneOf]

theorem matches'_inOrder_cons (part : RegularExpression Char)
    (parts : List (RegularExpression Char)) :
    (inOrder (part :: parts)).matches' = part.matches' * (inOrder parts).matches' := by
  rw [inOrder, List.foldr_cons, matches'_mul]
  rfl

theorem matches'_inOrder_append (first second : List (RegularExpression Char)) :
    (inOrder (first ++ second)).matches' =
      (inOrder first).matches' * (inOrder second).matches' := by
  induction first with
  | nil => simp [inOrder]
  | cons part first ih =>
    rw [List.cons_append, matches'_inOrder_cons, matches'_inOrder_cons, ih, mul_assoc]

theorem mem_letters {text : List Char} : word ∈ (letters text).matches' ↔ word = text := by
  induction text generalizing word with
  | nil => simp [letters, inOrder, Language.mem_one]
  | cons c text ih =>
    rw [letters, List.map_cons, matches'_inOrder_cons, ← letters, Language.mem_mul]
    constructor
    · rintro ⟨first, hfirst, more, hmore, rfl⟩
      rw [mem_char.1 hfirst, ih.1 hmore, List.singleton_append]
    · rintro rfl
      exact ⟨[c], mem_char.2 rfl, text, ih.2 rfl, rfl⟩

/-- A word of a repeated part is empty or starts with a word of the part. -/
theorem cons_mem_star {part : RegularExpression Char} {first : List Char}
    (hfirst : first ∈ part.matches') (hword : word ∈ part.star.matches') :
    first ++ word ∈ part.star.matches' := by
  rw [matches'_star] at hword ⊢
  exact Set.mem_of_mem_of_subset (Language.append_mem_mul hfirst hword)
    (mul_kstar_le_kstar (a := part.matches'))

theorem nil_mem_star (part : RegularExpression Char) : [] ∈ part.star.matches' := by
  rw [matches'_star]
  exact Language.nil_mem_kstar _

end

/-! ## Their characters -/

/-- Whether an expression names only characters of a class. -/
def Grammar.isOver (p : Char → Bool) : RegularExpression Char → Bool
  | .zero => true
  | .epsilon => true
  | .char c => p c
  | .plus first second => isOver p first && isOver p second
  | .comp first second => isOver p first && isOver p second
  | .star part => isOver p part

/-- A word has no other characters than its expression names. -/
theorem all_of_isOver {p : Char → Bool} {part : RegularExpression Char} {word : List Char}
    (hpart : isOver p part = true) (hword : word ∈ part.matches') : ∀ c ∈ word, p c = true := by
  induction part generalizing word with
  | zero => exact absurd hword (Language.notMem_zero word)
  | epsilon =>
    rw [(Language.mem_one word).1 hword]
    simp
  | char d =>
    rw [mem_char.1 hword]
    intro c hc
    rw [List.mem_singleton.1 hc]
    exact hpart
  | plus first second ihfirst ihsecond =>
    obtain ⟨hfirst, hsecond⟩ := Bool.and_eq_true_iff.1 hpart
    rcases (Language.mem_add _ _ _).1 hword with hword | hword
    · exact ihfirst hfirst hword
    · exact ihsecond hsecond hword
  | comp first second ihfirst ihsecond =>
    obtain ⟨hfirst, hsecond⟩ := Bool.and_eq_true_iff.1 hpart
    obtain ⟨front, hfront, back, hback, rfl⟩ := Language.mem_mul.1 hword
    exact List.forall_mem_append.2 ⟨ihfirst hfirst hfront, ihsecond hsecond hback⟩
  | star part ih =>
    obtain ⟨parts, rfl, hparts⟩ := Language.mem_kstar.1 hword
    intro c hc
    obtain ⟨word, hword, hc⟩ := List.mem_flatten.1 hc
    exact ih hpart (hparts word hword) c hc

/-- Whether every word of an expression has a character of a class, as far as the expression shows
it. -/
def Grammar.meets (p : Char → Bool) : RegularExpression Char → Bool
  | .zero => true
  | .epsilon => false
  | .char c => p c
  | .plus first second => meets p first && meets p second
  | .comp first second => meets p first || meets p second
  | .star _ => false

theorem exists_of_meets {p : Char → Bool} {part : RegularExpression Char} {word : List Char}
    (hpart : meets p part = true) (hword : word ∈ part.matches') : ∃ c ∈ word, p c = true := by
  induction part generalizing word with
  | zero => exact absurd hword (Language.notMem_zero word)
  | epsilon => exact Bool.noConfusion hpart
  | char d => exact ⟨d, by simp [mem_char.1 hword], hpart⟩
  | plus first second ihfirst ihsecond =>
    obtain ⟨hfirst, hsecond⟩ := Bool.and_eq_true_iff.1 hpart
    rcases (Language.mem_add _ _ _).1 hword with hword | hword
    · exact ihfirst hfirst hword
    · exact ihsecond hsecond hword
  | comp first second ihfirst ihsecond =>
    obtain ⟨front, hfront, back, hback, rfl⟩ := Language.mem_mul.1 hword
    rcases Bool.or_eq_true_iff.1 hpart with hpart | hpart
    · obtain ⟨c, hc, hclass⟩ := ihfirst hpart hfront
      exact ⟨c, List.mem_append_left _ hc, hclass⟩
    · obtain ⟨c, hc, hclass⟩ := ihsecond hpart hback
      exact ⟨c, List.mem_append_right _ hc, hclass⟩
  | star part => exact Bool.noConfusion hpart

/-! ## Places of dates and times -/

/-- What stands in a place of a date or a time. -/
def Grammar.ofSlot : Slot → RegularExpression Char
  | .digit => digit
  | .sign => sign
  | .mark c => char c

theorem mem_ofSlot {slot : Slot} {word : List Char} :
    word ∈ (ofSlot slot).matches' ↔ ∃ c, slot.accepts c = true ∧ word = [c] := by
  cases slot with
  | digit => exact mem_digit
  | sign =>
    rw [ofSlot, mem_sign]
    simp [Slot.accepts]
  | mark m =>
    rw [ofSlot, mem_char]
    simp [Slot.accepts]

theorem date_eq : date = inOrder (dateSlots.map ofSlot) := rfl

theorem time_eq : time = inOrder (timeSlots.map ofSlot) := rfl

/-- A date and a time are one row of places. -/
theorem matches'_date_mul_time :
    (date * time).matches' =
      (inOrder ((dateSlots ++ timeSlots).map ofSlot)).matches' := by
  rw [List.map_append, matches'_inOrder_append, matches'_mul, date_eq, time_eq]

theorem offset_eq : offset = char 'Z' + inOrder (offsetSlots.map ofSlot) := rfl

/-- The words of digits are the texts that hold nothing else. -/
theorem mem_star_digit {word : List Char} :
    word ∈ digit.star.matches' ↔ ∀ c ∈ word, c.isDigit = true := by
  constructor
  · intro h
    rw [matches'_star, Language.mem_kstar] at h
    obtain ⟨parts, rfl, hparts⟩ := h
    intro c hc
    obtain ⟨part, hpart, hc⟩ := List.mem_flatten.1 hc
    obtain ⟨d, hd, rfl⟩ := mem_digit.1 (hparts part hpart)
    rwa [List.mem_singleton.1 hc]
  · intro h
    induction word with
    | nil => exact nil_mem_star _
    | cons c word ih =>
      exact cons_mem_star (mem_digit.2 ⟨c, h c List.mem_cons_self, rfl⟩)
        (ih fun d hd => h d (List.mem_cons_of_mem _ hd))

theorem mem_secondFraction {word : List Char} :
    word ∈ secondFraction.matches' ↔
      ∃ ds, ds ≠ [] ∧ (∀ c ∈ ds, c.isDigit = true) ∧ word = '.' :: ds := by
  rw [secondFraction, matches'_mul, matches'_mul, Language.mem_mul]
  constructor
  · rintro ⟨point, hpoint, ds, hds, rfl⟩
    obtain ⟨first, hfirst, more, hmore, rfl⟩ := Language.mem_mul.1 hds
    obtain ⟨d, hd, rfl⟩ := mem_digit.1 hfirst
    obtain rfl := mem_char.1 hpoint
    exact ⟨d :: more, List.cons_ne_nil _ _, List.forall_mem_cons.2 ⟨hd, mem_star_digit.1 hmore⟩,
      rfl⟩
  · rintro ⟨ds, hne, hds, rfl⟩
    obtain ⟨d, more, rfl⟩ := List.exists_cons_of_ne_nil hne
    obtain ⟨hd, hmore⟩ := List.forall_mem_cons.1 hds
    exact ⟨['.'], mem_char.2 rfl, d :: more,
      Language.append_mem_mul (mem_digit.2 ⟨d, hd, rfl⟩) (mem_star_digit.2 hmore), rfl⟩

/-! ## Parts of numbers -/

theorem mem_group {word : List Char} :
    word ∈ (maybe (char '_') * digit).matches' ↔
      ∃ d, d.isDigit = true ∧ (word = [d] ∨ word = ['_', d]) := by
  rw [matches'_mul, Language.mem_mul]
  constructor
  · rintro ⟨mark, hmark, last, hlast, rfl⟩
    obtain ⟨d, hd, rfl⟩ := mem_digit.1 hlast
    rcases mem_maybe.1 hmark with rfl | hmark
    · exact ⟨d, hd, .inl rfl⟩
    · exact ⟨d, hd, .inr (by rw [mem_char.1 hmark]; rfl)⟩
  · rintro ⟨d, hd, rfl | rfl⟩
    · exact ⟨[], mem_maybe.2 (.inl rfl), [d], mem_digit.2 ⟨d, hd, rfl⟩, rfl⟩
    · exact ⟨['_'], mem_maybe.2 (.inr (mem_char.2 rfl)), [d], mem_digit.2 ⟨d, hd, rfl⟩, rfl⟩

theorem mem_nonzero {word : List Char} :
    word ∈ (oneOf ['1', '2', '3', '4', '5', '6', '7', '8', '9']).matches' ↔
      ∃ d, d.isDigit = true ∧ d ≠ '0' ∧ word = [d] := by
  rw [mem_oneOf]
  constructor
  · rintro ⟨d, hd, rfl⟩
    refine ⟨d, isDigit_iff.2 (List.mem_cons_of_mem _ hd), ?_, rfl⟩
    rintro rfl
    exact absurd hd (by decide)
  · rintro ⟨d, hd, hzero, rfl⟩
    exact ⟨d, List.mem_of_ne_of_mem hzero (isDigit_iff.1 hd), rfl⟩

theorem mem_mark {word : List Char} :
    word ∈ (oneOf ['e', 'E']).matches' ↔ ∃ c, (c == 'e' || c == 'E') = true ∧ word = [c] := by
  simp [mem_oneOf]

/-- A fraction, an exponent or both. -/
theorem mem_parts {word : List Char} :
    word ∈ (fraction + exponent + fraction * exponent).matches' ↔
      word ∈ fraction.matches' ∨ word ∈ exponent.matches' ∨
        ∃ first ∈ fraction.matches', ∃ last ∈ exponent.matches', first ++ last = word := by
  rw [matches'_add, matches'_add, matches'_mul, Language.mem_add, Language.mem_add,
    Language.mem_mul, or_assoc]

end TomlEditor.Lex
