import TomlEditor.Lex.Rule

/-!
# Lengths by the first character

The lengths of the lexer as case distinctions on the character at the scan
position. Numbers come down to one count, that of a digit with a run behind it:
a run is such a count with or without an underscore in front, a fraction is one
behind a point.
-/

namespace TomlEditor.Lex

open Text

/-- Characters on different sides of a class are different. -/
theorem ne_of_class {p : Char → Bool} {c d : Char} (hc : p c = true) (hd : p d = false) :
    c ≠ d := by
  rintro rfl
  rw [hc] at hd
  exact absurd hd (by decide)

/-! ## Comments, headers and keys -/

theorem commentLength?_cons (c : Char) (rest : List Char) :
    commentLength? (c :: rest) =
      if c = '#' then some ((rest.takeWhile fun c => !isLineEnd c).length + 1) else none := by
  by_cases hc : c = '#'
  · subst hc
    rfl
  · simp [commentLength?, hc]

theorem tableHeaderLength?_cons (c : Char) (rest : List Char) :
    tableHeaderLength? (c :: rest) =
      if c = '[' ∧ (rest.dropWhile isHeaderName).head? = some ']' then
        some ((rest.takeWhile isHeaderName).length + 2)
      else none := by
  by_cases hc : c = '['
  · subst hc
    rw [tableHeaderLength?]
    cases hclose : rest.dropWhile isHeaderName with
    | nil => simp
    | cons d more =>
      by_cases hd : d = ']'
      · simp [hd]
      · simp [hd]
  · simp [tableHeaderLength?, hc]

theorem arrayTableHeaderLength?_cons (c : Char) (rest : List Char) :
    arrayTableHeaderLength? (c :: rest) =
      if c = '[' ∧ rest.head? = some '[' ∧
          (rest.tail.dropWhile isHeaderName).take 2 = [']', ']'] then
        some ((rest.tail.takeWhile isHeaderName).length + 4)
      else none := by
  cases rest with
  | nil => simp [arrayTableHeaderLength?]
  | cons d rest =>
    by_cases hcd : c = '[' ∧ d = '['
    · obtain ⟨rfl, rfl⟩ := hcd
      rw [arrayTableHeaderLength?]
      split
      · next hclose => simp [hclose]
      · next hclose =>
        rw [if_neg]
        rintro ⟨-, -, htwo⟩
        have hsplit := List.take_append_drop 2 (rest.dropWhile isHeaderName)
        rw [List.tail_cons] at htwo
        rw [htwo] at hsplit
        exact hclose _ hsplit.symm
    · rw [if_neg]
      · unfold arrayTableHeaderLength?
        split
        · next heq => simp_all
        · rfl
      · rintro ⟨hc, hd, -⟩
        exact hcd ⟨hc, by simpa using hd⟩

theorem arrayTableHeaderLength?_brackets (rest : List Char) :
    arrayTableHeaderLength? ('[' :: '[' :: rest) =
      if [']', ']'] <+: rest.dropWhile isHeaderName then
        some ((rest.takeWhile isHeaderName).length + 4)
      else none := by
  rw [arrayTableHeaderLength?_cons]
  simp only [List.head?_cons, List.tail_cons, true_and, List.prefix_iff_eq_take,
    List.length_cons, List.length_nil, eq_comm]

theorem arrayTableHeaderLength?_of_not_brackets {text : List Char} (h : ¬['[', '['] <+: text) :
    arrayTableHeaderLength? text = none := by
  unfold arrayTableHeaderLength?
  split
  · next rest => exact absurd ⟨rest, rfl⟩ h
  · rfl

theorem keyNameLength_cons (c : Char) (rest : List Char) :
    keyNameLength (c :: rest) =
      match Quote.ofChar? c with
      | some quote =>
        if (rest.dropWhile (isQuotedKey quote)).head? = some quote.char then
          (rest.takeWhile (isQuotedKey quote)).length + 2
        else 0
      | none => ((c :: rest).takeWhile isBareKey).length := rfl

/-! ## Dates and numbers -/

theorem secondFractionLength_cons (c : Char) (rest : List Char) :
    secondFractionLength (c :: rest) =
      if c = '.' ∧ (rest.takeWhile Char.isDigit).length ≠ 0 then
        (rest.takeWhile Char.isDigit).length + 1
      else 0 := by
  by_cases hc : c = '.'
  · subst hc
    rw [secondFractionLength]
    cases (rest.takeWhile Char.isDigit).length with
    | zero => simp
    | succ count => simp
  · simp [secondFractionLength, hc]

theorem offsetLength?_cons (c : Char) (rest : List Char) :
    offsetLength? (c :: rest) =
      if c = 'Z' then some 1 else slotsLength? offsetSlots (c :: rest) := by
  by_cases hc : c = 'Z'
  · subst hc
    rfl
  · simp [offsetLength?, hc]

theorem signLength_cons (c : Char) (rest : List Char) :
    signLength (c :: rest) = if c = '+' ∨ c = '-' then 1 else 0 := by
  by_cases hplus : c = '+'
  · subst hplus
    rfl
  · by_cases hminus : c = '-'
    · subst hminus
      rfl
    · simp [signLength, hplus, hminus]

theorem digitsLength_cons (c : Char) (rest : List Char) :
    digitsLength (c :: rest) = if c.isDigit then digitRun rest + 1 else 0 := rfl

/-- Digits behind one more character, which counts only if there are any. -/
def behindOne (digits : Nat) : Nat :=
  if digits = 0 then 0 else digits + 1

theorem digitRun_cons (c : Char) (rest : List Char) :
    digitRun (c :: rest) =
      if c = '_' then behindOne (digitsLength rest) else digitsLength (c :: rest) := by
  by_cases hc : c = '_'
  · subst hc
    cases rest with
    | nil => rfl
    | cons d rest =>
      rw [digitRun, digitsLength_cons]
      split <;> simp [behindOne]
  · rw [if_neg hc, digitRun, digitsLength_cons]
    exact fun d more hd _ => hc hd

theorem fractionLength_cons (c : Char) (rest : List Char) :
    fractionLength (c :: rest) = if c = '.' then behindOne (digitsLength rest) else 0 := by
  by_cases hc : c = '.'
  · subst hc
    cases rest with
    | nil => rfl
    | cons d rest =>
      rw [fractionLength, digitsLength_cons]
      split <;> simp [behindOne]
  · simp [fractionLength, hc]

theorem magnitudeLength?_cons (c : Char) (rest : List Char) :
    magnitudeLength? (c :: rest) =
      if c == '0' then some 1 else if c.isDigit then some (digitRun rest + 1) else none := rfl

theorem exponentLength_cons (c : Char) (rest : List Char) :
    exponentLength (c :: rest) =
      if c == 'e' || c == 'E' then
        match digitsLength (rest.drop (signLength rest)) with
        | 0 => 0
        | digits + 1 => signLength rest + digits + 2
      else 0 := rfl

/-- The two words that are values. -/
theorem booleanLength?_eq (ahead : List Char) :
    booleanLength? ahead =
      if ['t', 'r', 'u', 'e'] <+: ahead then some 4
      else if ['f', 'a', 'l', 's', 'e'] <+: ahead then some 5
      else none := by
  unfold booleanLength?
  split
  · rw [if_pos ⟨_, rfl⟩]
  · rw [if_neg, if_pos ⟨_, rfl⟩]
    rintro ⟨rest, hrest⟩
    simp at hrest
  · next htrue hfalse =>
    rw [if_neg, if_neg]
    · rintro ⟨rest, hrest⟩
      exact hfalse rest hrest.symm
    · rintro ⟨rest, hrest⟩
      exact htrue rest hrest.symm

/-! ## Escapes -/

theorem invalidEscapeLength?_cons (c : Char) (rest : List Char) :
    invalidEscapeLength? (c :: rest) =
      if c = '\\' then some (if rest.head?.any (!isLineEnd ·) then 2 else 1) else none := by
  by_cases hc : c = '\\'
  · subst hc
    rw [invalidEscapeLength?, if_pos rfl]
    split <;> rfl
  · simp [invalidEscapeLength?, hc]

theorem escapeLength?_of_ne {c : Char} (hc : c ≠ '\\') (rest : List Char) :
    escapeLength? (c :: rest) = none := by
  unfold escapeLength?
  split
  · next heq => exact absurd (List.cons.inj heq).1 hc
  · rfl

theorem hexRun_succ_cons (limit : Nat) (c : Char) (rest : List Char) :
    hexRun (limit + 1) (c :: rest) = if isHexDigit c then hexRun limit rest + 1 else 0 := by
  rw [hexRun, List.take_succ_cons, List.takeWhile_cons]
  split <;> simp [hexRun]

end TomlEditor.Lex
