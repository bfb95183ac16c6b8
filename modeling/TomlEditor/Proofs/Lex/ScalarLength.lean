import TomlEditor.Proofs.Lex.FirstCharacter
import TomlEditor.Proofs.Lex.Grammar
import TomlEditor.Proofs.Lex.Reach

/-!
# Lengths against the grammar

What a length function of the lexer takes is a word of the grammar, and where a
word of the grammar stands the function takes all of it. The functions are
greedy, so the second half needs that what follows cannot go on with the word:
each lemma about a word names the class of characters that must not come next.
-/

namespace TomlEditor.Lex

open Text RegularExpression Grammar

/-! ## Fixed places -/

theorem take_mem_of_fits {slots : List Slot} {ahead : List Char} (h : fits slots ahead = true) :
    ahead.take slots.length ∈ (inOrder (slots.map ofSlot)).matches' := by
  induction slots generalizing ahead with
  | nil => simp [inOrder, Language.mem_one]
  | cons slot slots ih =>
    cases ahead with
    | nil => simp [fits] at h
    | cons c rest =>
      simp only [fits, Bool.and_eq_true] at h
      rw [List.map_cons, matches'_inOrder_cons]
      exact Language.append_mem_mul (mem_ofSlot.2 ⟨c, h.1, rfl⟩) (ih h.2)

theorem fits_of_mem {slots : List Slot} {word : List Char}
    (h : word ∈ (inOrder (slots.map ofSlot)).matches') (rest : List Char) :
    fits slots (word ++ rest) = true ∧ word.length = slots.length := by
  induction slots generalizing word with
  | nil =>
    obtain rfl : word = [] := by simpa [inOrder, Language.mem_one] using h
    exact ⟨rfl, rfl⟩
  | cons slot slots ih =>
    rw [List.map_cons, matches'_inOrder_cons, Language.mem_mul] at h
    obtain ⟨first, hfirst, more, hmore, rfl⟩ := h
    obtain ⟨c, hc, rfl⟩ := mem_ofSlot.1 hfirst
    obtain ⟨hfits, hlength⟩ := ih hmore
    exact ⟨by simp [fits, hc, hfits], by simp [hlength]⟩

theorem slotsLength?_sound {slots : List Slot} {ahead : List Char} {n : Nat}
    (h : slotsLength? slots ahead = some n) :
    ahead.take n ∈ (inOrder (slots.map ofSlot)).matches' := by
  rw [slotsLength?, Option.ite_none_right_eq_some] at h
  obtain ⟨hfits, ⟨⟩⟩ := h
  exact take_mem_of_fits hfits

theorem slotsLength?_of_mem {slots : List Slot} {word : List Char}
    (h : word ∈ (inOrder (slots.map ofSlot)).matches') (rest : List Char) :
    slotsLength? slots (word ++ rest) = some word.length := by
  obtain ⟨hfits, hlength⟩ := fits_of_mem h rest
  rw [slotsLength?, if_pos hfits, hlength]

theorem secondFractionLength_sound (ahead : List Char) :
    ahead.take (secondFractionLength ahead) ∈ (maybe secondFraction).matches' := by
  rw [mem_maybe]
  cases ahead with
  | nil => exact .inl rfl
  | cons c rest =>
    rw [secondFractionLength_cons]
    split
    · next h =>
      obtain ⟨rfl, hne⟩ := h
      refine .inr (mem_secondFraction.2 ⟨rest.takeWhile Char.isDigit, ?_, ?_, ?_⟩)
      · rintro hnil
        exact hne (by rw [hnil]; rfl)
      · exact List.all_eq_true.1 List.all_takeWhile
      · rw [List.take_succ_cons, take_length_takeWhile]
    · exact .inl rfl

theorem secondFractionLength_of_mem {word rest : List Char}
    (hword : word ∈ secondFraction.matches') (hrest : rest.head?.any Char.isDigit = false) :
    secondFractionLength (word ++ rest) = word.length := by
  obtain ⟨ds, hne, hds, rfl⟩ := mem_secondFraction.1 hword
  have hrun : (ds ++ rest).takeWhile Char.isDigit = ds := by
    rw [List.takeWhile_append_of_pos hds]
    cases rest with
    | nil => simp
    | cons c rest =>
      have hc : c.isDigit = false := by simpa using hrest
      simp [hc]
  have hpos := List.length_pos_iff.2 hne
  rw [List.cons_append, secondFractionLength_cons, hrun, if_pos ⟨rfl, by omega⟩, List.length_cons]

theorem secondFractionLength_of_head {rest : List Char} (h : rest.head? ≠ some '.') :
    secondFractionLength rest = 0 := by
  cases rest with
  | nil => rfl
  | cons c rest => rw [secondFractionLength_cons, if_neg fun hc => h (by rw [hc.1]; rfl)]

theorem offsetLength?_sound {ahead : List Char} {n : Nat} (h : offsetLength? ahead = some n) :
    ahead.take n ∈ offset.matches' := by
  rw [offset_eq, matches'_add, Language.mem_add]
  unfold offsetLength? at h
  split at h
  · obtain rfl := Option.some.inj h
    exact .inl (mem_char.2 rfl)
  · exact .inr (slotsLength?_sound h)

/-- An offset starts neither with a digit nor with a point. -/
theorem offsetLength?_of_mem {word : List Char} (hword : word ∈ offset.matches')
    (rest : List Char) :
    offsetLength? (word ++ rest) = some word.length ∧
      ∃ c more, word = c :: more ∧ c.isDigit = false ∧ c ≠ '.' := by
  rw [offset_eq, matches'_add, Language.mem_add] at hword
  rcases hword with hzone | hslots
  · obtain rfl := mem_char.1 hzone
    exact ⟨rfl, 'Z', [], rfl, by decide, by decide⟩
  · have hlength := slotsLength?_of_mem hslots rest
    rw [offsetSlots, List.map_cons, matches'_inOrder_cons, Language.mem_mul] at hslots
    obtain ⟨first, hfirst, more, hmore, rfl⟩ := hslots
    rcases mem_sign.1 hfirst with rfl | rfl
    · exact ⟨hlength, '+', more, rfl, by decide, by decide⟩
    · exact ⟨hlength, '-', more, rfl, by decide, by decide⟩

/-! ## Runs of digits -/

/-- Where no character of a class comes next, none of a smaller class does. -/
theorem head?_any_false {p q : Char → Bool} (hpq : ∀ c, p c = true → q c = true)
    {rest : List Char} (h : rest.head?.any q = false) : rest.head?.any p = false := by
  cases rest with
  | nil => rfl
  | cons c rest =>
    have hc : q c = false := h
    exact Bool.eq_false_iff.2 fun hp => absurd (hpq c hp) (by simp [hc])

theorem isWord_of_isDigit {c : Char} (h : c.isDigit = true) : isWord c = true := by
  simp [isWord, Char.isAlphanum, h]

/-- A digit or an underscore: what may come next in a run of digits. -/
def isRunDigit (c : Char) : Bool :=
  c.isDigit || c == '_'

theorem isWord_of_isRunDigit {c : Char} (h : isRunDigit c = true) : isWord c = true := by
  rcases Bool.or_eq_true_iff.1 h with hdigit | hmark
  · exact isWord_of_isDigit hdigit
  · simp [isWord, hmark]

theorem digitsLength_of_not {rest : List Char} (h : rest.head?.any isRunDigit = false) :
    digitsLength rest = 0 := by
  cases rest with
  | nil => rfl
  | cons c rest =>
    have hc : c.isDigit = false ∧ c ≠ '_' := by simpa [isRunDigit] using h
    rw [digitsLength_cons, hc.1]
    rfl

theorem digitRun_of_not {rest : List Char} (h : rest.head?.any isRunDigit = false) :
    digitRun rest = 0 := by
  cases rest with
  | nil => rfl
  | cons c rest =>
    have hc : c.isDigit = false ∧ c ≠ '_' := by simpa [isRunDigit] using h
    rw [digitRun_cons, if_neg hc.2, digitsLength_of_not h]

theorem digitRun_digit {d : Char} (hd : d.isDigit = true) (rest : List Char) :
    digitRun (d :: rest) = digitRun rest + 1 := by
  have hmark : d ≠ '_' := ne_of_class hd rfl
  rw [digitRun_cons, if_neg hmark, digitsLength_cons, if_pos hd]

theorem digitRun_mark {d : Char} (hd : d.isDigit = true) (rest : List Char) :
    digitRun ('_' :: d :: rest) = digitRun rest + 2 := by
  rw [digitRun, if_pos hd]

theorem take_digitRun_mem (ahead : List Char) :
    ahead.take (digitRun ahead) ∈ moreDigits.matches' := by
  fun_induction digitRun ahead with
  | case1 d rest hd ih => exact cons_mem_star (mem_group.2 ⟨d, hd, .inr rfl⟩) ih
  | case2 => exact nil_mem_star _
  | case3 d rest _ hd ih => exact cons_mem_star (mem_group.2 ⟨d, hd, .inl rfl⟩) ih
  | case4 => exact nil_mem_star _
  | case5 => exact nil_mem_star _

theorem digitRun_of_mem {word rest : List Char} (hword : word ∈ moreDigits.matches')
    (hrest : rest.head?.any isRunDigit = false) : digitRun (word ++ rest) = word.length := by
  rw [moreDigits, matches'_star, Language.mem_kstar] at hword
  obtain ⟨groups, rfl, hgroups⟩ := hword
  induction groups with
  | nil => exact digitRun_of_not hrest
  | cons group groups ih =>
    have hlater := ih fun other hother => hgroups other (List.mem_cons_of_mem _ hother)
    rw [List.flatten_cons, List.append_assoc]
    obtain ⟨d, hd, rfl | rfl⟩ := mem_group.1 (hgroups group List.mem_cons_self)
    · rw [List.singleton_append, digitRun_digit hd, hlater]
      simp
    · rw [List.cons_append, List.singleton_append, digitRun_mark hd, hlater]
      simp

theorem digitsLength_sound {ahead : List Char} (h : digitsLength ahead ≠ 0) :
    ahead.take (digitsLength ahead) ∈ digits.matches' := by
  cases ahead with
  | nil => exact absurd rfl h
  | cons d rest =>
    rw [digitsLength_cons] at h ⊢
    split at h
    · next hd =>
      rw [if_pos hd, digits, matches'_mul, List.take_succ_cons]
      exact Language.append_mem_mul (mem_digit.2 ⟨d, hd, rfl⟩) (take_digitRun_mem rest)
    · exact absurd rfl h

theorem digitsLength_of_mem {word rest : List Char} (hword : word ∈ digits.matches')
    (hrest : rest.head?.any isRunDigit = false) :
    digitsLength (word ++ rest) = word.length ∧ word.head?.any Char.isDigit = true := by
  rw [digits, matches'_mul, Language.mem_mul] at hword
  obtain ⟨first, hfirst, more, hmore, rfl⟩ := hword
  obtain ⟨d, hd, rfl⟩ := mem_digit.1 hfirst
  rw [List.append_assoc, List.singleton_append, digitsLength_cons, if_pos hd,
    digitRun_of_mem hmore hrest]
  exact ⟨by simp, by simpa using hd⟩

/-! ## Integers -/

theorem signLength_of_not {rest : List Char} (h : rest.head?.any Char.isDigit = true) :
    signLength rest = 0 := by
  cases rest with
  | nil => rfl
  | cons c rest =>
    have hc : c.isDigit = true := by simpa using h
    have hplus : c ≠ '+' := ne_of_class hc rfl
    have hminus : c ≠ '-' := ne_of_class hc rfl
    rw [signLength_cons, if_neg (by simp [hplus, hminus])]

theorem take_signLength_mem (ahead : List Char) :
    ahead.take (signLength ahead) ∈ (maybe sign).matches' := by
  rw [mem_maybe, mem_sign]
  unfold signLength
  split
  · exact .inr (.inl rfl)
  · exact .inr (.inr rfl)
  · exact .inl rfl

/-- A sign is one character in front of digits, or it is left out. -/
theorem signLength_of_mem {word rest : List Char} (hword : word ∈ (maybe sign).matches')
    (hrest : rest.head?.any Char.isDigit = true) : signLength (word ++ rest) = word.length := by
  rcases mem_maybe.1 hword with rfl | hsign
  · exact signLength_of_not hrest
  · rcases mem_sign.1 hsign with rfl | rfl
    · rfl
    · rfl

theorem magnitudeLength?_sound {ahead : List Char} {n : Nat}
    (h : magnitudeLength? ahead = some n) : ahead.take n ∈ magnitude.matches' := by
  cases ahead with
  | nil => simp [magnitudeLength?] at h
  | cons d rest =>
    rw [magnitudeLength?_cons] at h
    rw [magnitude, matches'_add, Language.mem_add]
    split at h
    · next hzero =>
      obtain rfl := Option.some.inj h
      exact .inl (mem_char.2 (by rw [eq_of_beq hzero]; rfl))
    · next hzero =>
      obtain ⟨hd, hn⟩ := (Option.ite_none_right_eq_some).1 h
      obtain rfl := Option.some.inj hn
      refine .inr ?_
      rw [matches'_mul, List.take_succ_cons]
      exact Language.append_mem_mul (mem_nonzero.2 ⟨d, hd, by simpa using hzero, rfl⟩)
        (take_digitRun_mem rest)

theorem magnitudeLength?_of_mem {word rest : List Char} (hword : word ∈ magnitude.matches')
    (hrest : rest.head?.any isRunDigit = false) :
    magnitudeLength? (word ++ rest) = some word.length ∧
      (word ++ rest).head?.any Char.isDigit = true := by
  rw [magnitude, matches'_add, Language.mem_add] at hword
  rcases hword with hzero | hmore
  · obtain rfl := mem_char.1 hzero
    exact ⟨rfl, rfl⟩
  · rw [matches'_mul, Language.mem_mul] at hmore
    obtain ⟨first, hfirst, more, hmore, rfl⟩ := hmore
    obtain ⟨d, hd, hzero, rfl⟩ := mem_nonzero.1 hfirst
    rw [List.append_assoc, List.singleton_append, magnitudeLength?_cons,
      if_neg (by simpa using hzero), if_pos hd, digitRun_of_mem hmore hrest]
    exact ⟨by simp, by simpa using hd⟩

theorem integerLength?_sound {ahead : List Char} {n : Nat} (h : integerLength? ahead = some n) :
    ahead.take n ∈ integer.matches' := by
  obtain ⟨length, hlength, rfl⟩ := Option.map_eq_some_iff.1 h
  rw [integer, matches'_mul, List.take_add]
  exact Language.append_mem_mul (take_signLength_mem ahead) (magnitudeLength?_sound hlength)

theorem integerLength?_of_mem {word rest : List Char} (hword : word ∈ integer.matches')
    (hrest : rest.head?.any isRunDigit = false) :
    integerLength? (word ++ rest) = some word.length := by
  rw [integer, matches'_mul, Language.mem_mul] at hword
  obtain ⟨front, hfront, back, hback, rfl⟩ := hword
  obtain ⟨hlength, hdigit⟩ := magnitudeLength?_of_mem hback hrest
  have hsign : signLength (front ++ (back ++ rest)) = front.length :=
    signLength_of_mem hfront hdigit
  rw [List.append_assoc, integerLength?, hsign, List.drop_left, hlength, Option.map_some,
    List.length_append]

/-! ## Floats -/

theorem fractionLength_sound {ahead : List Char} (h : fractionLength ahead ≠ 0) :
    ahead.take (fractionLength ahead) ∈ fraction.matches' := by
  cases ahead with
  | nil => exact absurd rfl h
  | cons c rest =>
    rw [fractionLength_cons] at h ⊢
    split at h
    · next hc =>
      subst hc
      have hdigits : digitsLength rest ≠ 0 := by
        intro hnone
        exact h (by rw [hnone]; rfl)
      rw [if_pos rfl, behindOne, if_neg hdigits, fraction, matches'_mul, List.take_succ_cons]
      exact Language.append_mem_mul (mem_char.2 rfl) (digitsLength_sound hdigits)
    · exact absurd rfl h

theorem fractionLength_of_mem {word rest : List Char} (hword : word ∈ fraction.matches')
    (hrest : rest.head?.any isRunDigit = false) :
    fractionLength (word ++ rest) = word.length ∧ word.head? = some '.' := by
  rw [fraction, matches'_mul, Language.mem_mul] at hword
  obtain ⟨point, hpoint, word, hword, rfl⟩ := hword
  obtain rfl := mem_char.1 hpoint
  obtain ⟨hlength, hdigit⟩ := digitsLength_of_mem hword hrest
  have hne : word.length ≠ 0 := by
    intro hnil
    rw [List.length_eq_zero_iff.1 hnil] at hdigit
    exact absurd hdigit (by decide)
  rw [List.append_assoc, List.singleton_append, fractionLength_cons, if_pos rfl, hlength,
    behindOne, if_neg hne]
  exact ⟨by simp, rfl⟩

theorem exponentLength_sound {ahead : List Char} (h : exponentLength ahead ≠ 0) :
    ahead.take (exponentLength ahead) ∈ exponent.matches' := by
  cases ahead with
  | nil => exact absurd rfl h
  | cons c rest =>
    rw [exponentLength_cons] at h ⊢
    split at h
    · next hc =>
      rw [if_pos hc]
      cases hdigits : digitsLength (rest.drop (signLength rest)) with
      | zero => simp [hdigits] at h
      | succ more =>
        have hsound := digitsLength_sound (by rw [hdigits]; exact Nat.succ_ne_zero more)
        rw [hdigits] at hsound
        simp only
        rw [exponent, matches'_mul, matches'_mul, Nat.add_assoc, ← Nat.add_assoc more 1 1,
          ← Nat.add_assoc (signLength rest), List.take_succ_cons, List.take_add]
        exact Language.append_mem_mul (mem_mark.2 ⟨c, hc, rfl⟩)
          (Language.append_mem_mul (take_signLength_mem rest) hsound)
    · exact absurd rfl h

theorem exponentLength_of_mem {word rest : List Char} (hword : word ∈ exponent.matches')
    (hrest : rest.head?.any isRunDigit = false) :
    exponentLength (word ++ rest) = word.length ∧
      ∃ c more, word = c :: more ∧ isRunDigit c = false ∧ c ≠ '.' := by
  rw [exponent, matches'_mul, matches'_mul, Language.mem_mul] at hword
  obtain ⟨mark, hmark, signed, hsigned, rfl⟩ := hword
  obtain ⟨front, hfront, back, hback, rfl⟩ := Language.mem_mul.1 hsigned
  obtain ⟨c, hc, rfl⟩ := mem_mark.1 hmark
  obtain ⟨hlength, hdigit⟩ := digitsLength_of_mem hback hrest
  have hother : isRunDigit c = false ∧ c ≠ '.' := by
    rcases Bool.or_eq_true_iff.1 hc with hlower | hupper
    · rw [eq_of_beq hlower]
      decide
    · rw [eq_of_beq hupper]
      decide
  refine ⟨?_, c, front ++ back, rfl, hother⟩
  obtain ⟨d, more, rfl⟩ : ∃ d more, back = d :: more := by
    cases back with
    | nil => exact absurd hdigit (by decide)
    | cons d more => exact ⟨d, more, rfl⟩
  have hsign : signLength (front ++ (d :: more ++ rest)) = front.length :=
    signLength_of_mem hfront hdigit
  rw [List.append_assoc, List.append_assoc, List.singleton_append, exponentLength_cons, if_pos hc,
    hsign, List.drop_left, hlength]
  show front.length + more.length + 2 = _
  simp only [List.length_append, List.length_cons, List.length_nil]
  omega

/-- What comes after a word of a float is not one more part of it. -/
theorem fractionLength_of_head {rest : List Char} (h : rest.head? ≠ some '.') :
    fractionLength rest = 0 := by
  cases rest with
  | nil => rfl
  | cons c rest => rw [fractionLength_cons, if_neg (by simpa using h)]

theorem exponentLength_of_not {rest : List Char} (h : rest.head?.any isWord = false) :
    exponentLength rest = 0 := by
  cases rest with
  | nil => rfl
  | cons c rest =>
    have hc : isWord c = false := by simpa using h
    have hlower : 'e' ≠ c := ne_of_class (p := isWord) rfl hc
    have hupper : 'E' ≠ c := ne_of_class (p := isWord) rfl hc
    rw [exponentLength_cons, if_neg (by simp [hlower.symm, hupper.symm])]

/-- The lengths of a fraction and of an exponent behind it, where there is one of the two. -/
theorem parts_sound {ahead : List Char}
    (h : ¬(fractionLength ahead = 0 ∧ exponentLength (ahead.drop (fractionLength ahead)) = 0)) :
    ahead.take (fractionLength ahead + exponentLength (ahead.drop (fractionLength ahead))) ∈
      (fraction + exponent + fraction * exponent).matches' := by
  rw [mem_parts]
  by_cases hfraction : fractionLength ahead = 0
  · rw [hfraction, List.drop_zero] at h
    rw [hfraction, List.drop_zero, Nat.zero_add]
    exact .inr (.inl (exponentLength_sound fun hnone => h ⟨rfl, hnone⟩))
  · have hfirst := fractionLength_sound hfraction
    by_cases hexponent : exponentLength (ahead.drop (fractionLength ahead)) = 0
    · rw [hexponent, Nat.add_zero]
      exact .inl hfirst
    · rw [List.take_add]
      exact .inr (.inr ⟨_, hfirst, _, exponentLength_sound hexponent, rfl⟩)

/-- In front of a word of a float, between other text, the two counts take all of the word. -/
theorem parts_of_mem {word rest : List Char}
    (hword : word ∈ (fraction + exponent + fraction * exponent).matches')
    (hrest : rest.head?.any isWord = false) :
    (word ++ rest).head?.any isRunDigit = false ∧ word ≠ [] ∧
      fractionLength (word ++ rest) +
        exponentLength ((word ++ rest).drop (fractionLength (word ++ rest))) = word.length := by
  have hdigit := head?_any_false (fun _ => isWord_of_isRunDigit) hrest
  rcases mem_parts.1 hword with hfraction | hexponent | ⟨first, hfirst, last, hlast, rfl⟩
  · obtain ⟨hlength, hpoint⟩ := fractionLength_of_mem hfraction hdigit
    refine ⟨?_, ?_, ?_⟩
    · rw [List.head?_append, hpoint]
      rfl
    · rintro rfl
      simp at hpoint
    · rw [hlength, List.drop_left, exponentLength_of_not hrest, Nat.add_zero]
  · obtain ⟨hlength, c, more, rfl, hc, hpoint⟩ := exponentLength_of_mem hexponent hdigit
    have hnone : fractionLength (c :: more ++ rest) = 0 :=
      fractionLength_of_head (by simpa using hpoint)
    refine ⟨by simpa using hc, List.cons_ne_nil _ _, ?_⟩
    rw [hnone, List.drop_zero, Nat.zero_add, hlength]
  · obtain ⟨hlast, c, more, rfl, hc, -⟩ := exponentLength_of_mem hlast hdigit
    have hmark : (c :: more ++ rest).head?.any isRunDigit = false := by simpa using hc
    obtain ⟨hfirst, hpoint⟩ := fractionLength_of_mem hfirst hmark
    rw [List.append_assoc]
    refine ⟨?_, by simp, ?_⟩
    · rw [List.head?_append, hpoint]
      rfl
    · rw [hfirst, List.drop_left, hlast, List.length_append]

theorem floatLength?_sound {ahead : List Char} {n : Nat} (h : floatLength? ahead = some n) :
    ahead.take n ∈ float.matches' := by
  obtain ⟨whole, hwhole, hparts⟩ := Option.bind_eq_some_iff.1 h
  simp only [Bool.and_eq_true, decide_eq_true_eq, Option.ite_none_left_eq_some,
    Option.some.injEq, ← List.drop_drop] at hparts
  obtain ⟨hone, rfl⟩ := hparts
  rw [float, matches'_mul, Nat.add_assoc, List.take_add]
  exact Language.append_mem_mul (integerLength?_sound hwhole) (parts_sound hone)

theorem floatLength?_of_mem {word rest : List Char} (hword : word ∈ float.matches')
    (hrest : rest.head?.any isWord = false) :
    floatLength? (word ++ rest) = some word.length := by
  rw [float, matches'_mul, Language.mem_mul] at hword
  obtain ⟨whole, hwhole, parts, hparts, rfl⟩ := hword
  obtain ⟨hdigit, hne, hlength⟩ := parts_of_mem hparts hrest
  have hpos := List.length_pos_iff.2 hne
  rw [List.append_assoc, floatLength?, integerLength?_of_mem hwhole hdigit, Option.bind_some]
  simp only [← List.drop_drop, List.drop_left]
  rw [if_neg, List.length_append, ← hlength, Nat.add_assoc]
  rw [Bool.and_eq_true, decide_eq_true_eq, decide_eq_true_eq]
  omega

/-! ## Booleans -/

theorem booleanLength?_sound {ahead : List Char} {n : Nat} (h : booleanLength? ahead = some n) :
    ahead.take n ∈ boolean.matches' := by
  rw [boolean, matches'_add, Language.mem_add]
  unfold booleanLength? at h
  split at h
  · obtain rfl := Option.some.inj h
    exact .inl (mem_letters.2 rfl)
  · obtain rfl := Option.some.inj h
    exact .inr (mem_letters.2 rfl)
  · simp at h

theorem booleanLength?_of_mem {word : List Char} (hword : word ∈ boolean.matches')
    (rest : List Char) : booleanLength? (word ++ rest) = some word.length := by
  rw [boolean, matches'_add, Language.mem_add] at hword
  rcases hword with htrue | hfalse
  · obtain rfl := mem_letters.1 htrue
    rfl
  · obtain rfl := mem_letters.1 hfalse
    rfl

end TomlEditor.Lex
