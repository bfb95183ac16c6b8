import TomlEditor.Theme.Style

/-!
# What a terminal shows

A terminal shows the characters that it is sent, each in the look that is in
force, and an escape sequence shows nothing but changes the look. The sequences
are those for bold characters, for a foreground color and for going back to the
look that the terminal has of its own; anything else is shown as it is.

The sequences of a style are understood wherever they stand, and text without
the escape character is shown as it is.
-/

namespace TomlEditor.Terminal

open Theme

/-! ## Looks -/

/-- How a terminal shows a character. -/
structure Look where
  /-- None is the foreground that the terminal has of its own. -/
  foreground : Option Color
  bold : Bool
deriving DecidableEq, Repr

namespace Look

/-- The look that a terminal has of its own. -/
def plain : Look :=
  ⟨none, false⟩

/-- A style as a look. -/
def ofStyle (style : Style) : Look :=
  ⟨some style.foreground, style.bold⟩

/-- What the numbers of an escape sequence do to a look. -/
def change? (look : Look) : List Nat → Option Look
  | [0] => some plain
  | [1] => some { look with bold := true }
  | [38, 2, red, green, blue] =>
    if red < 256 ∧ green < 256 ∧ blue < 256 then
      some { look with foreground := some ⟨.ofNat red, .ofNat green, .ofNat blue⟩ }
    else none
  | _ => none

end Look

/-! ## Escape sequences -/

def escape : Char :=
  '\x1b'

/-- A character between the bracket and the letter of an escape sequence. -/
def isParameter (c : Char) : Bool :=
  c.isDigit || c == ';'

/-- The number that decimal digits stand for. -/
def number? (digits : List Char) : Option Nat :=
  if digits ≠ [] ∧ digits.all Char.isDigit then some (Nat.ofDigitChars 10 digits 0) else none

/-- The look behind an escape sequence at the front of a text, and the text behind it. -/
def sequence? (look : Look) : List Char → Option (Look × List Char)
  | c :: '[' :: rest =>
    match rest.dropWhile isParameter with
    | 'm' :: more =>
      if c = escape then
        (((rest.takeWhile isParameter).splitOn ';').mapM number?).bind fun numbers =>
          (look.change? numbers).map fun changed => (changed, more)
      else none
    | _ => none
  | _ => none

theorem length_of_sequence? {look changed : Look} {text more : List Char}
    (h : sequence? look text = some (changed, more)) : more.length < text.length := by
  unfold sequence? at h
  split at h
  · next c rest =>
    split at h
    · next later hlater =>
      have hle := (List.dropWhile_suffix isParameter (l := rest)).length_le
      rw [hlater, List.length_cons] at hle
      split at h
      · obtain ⟨numbers, -, hchange⟩ := Option.bind_eq_some_iff.1 h
        obtain ⟨found, -, hmore⟩ := Option.map_eq_some_iff.1 hchange
        obtain rfl := (Prod.mk.inj hmore).2
        simp only [List.length_cons]
        omega
      · simp at h
    · simp at h
  · simp at h

/-- The characters that a terminal shows of a text, each in its look, and the look behind them. -/
def display (look : Look) (text : List Char) : List (Char × Look) × Look :=
  match text with
  | [] => ([], look)
  | c :: rest =>
    match _ : sequence? look (c :: rest) with
    | some (changed, more) => display changed more
    | none =>
      let shown := display look rest
      ((c, look) :: shown.1, shown.2)
termination_by text.length
decreasing_by
  · exact length_of_sequence? ‹_›
  · exact Nat.lt_succ_self _

@[simp] theorem display_nil (look : Look) : display look [] = ([], look) := by
  rw [display]

theorem display_sequence {look changed : Look} {text more : List Char}
    (h : sequence? look text = some (changed, more)) :
    display look text = display changed more := by
  cases text with
  | nil => simp [sequence?] at h
  | cons c rest =>
    rw [display]
    split
    · next found later hfound =>
      rw [h, Option.some.injEq, Prod.mk.injEq] at hfound
      obtain ⟨rfl, rfl⟩ := hfound
      rfl
    · next hnone =>
      rw [h] at hnone
      exact absurd hnone (by simp)

theorem sequence?_of_ne {c : Char} (h : c ≠ escape) (look : Look) (rest : List Char) :
    sequence? look (c :: rest) = none := by
  unfold sequence?
  split
  · next heq =>
    obtain ⟨rfl, -⟩ := List.cons.inj heq
    split
    · rw [if_neg h]
    · rfl
  · rfl

/-- A text without the escape character is shown as it is. -/
theorem display_append {text : List Char} (h : escape ∉ text) (look : Look) (rest : List Char) :
    display look (text ++ rest) =
      (text.map (·, look) ++ (display look rest).1, (display look rest).2) := by
  induction text with
  | nil => rfl
  | cons c text ih =>
    obtain ⟨hc, htext⟩ := not_or.1 (mt List.mem_cons.2 h)
    have hnone := sequence?_of_ne (Ne.symm hc) look (text ++ rest)
    rw [List.cons_append, display]
    split
    · next hsome =>
      rw [hnone] at hsome
      exact absurd hsome (by simp)
    · rw [ih htext]
      rfl

/-! ## The sequences of a style -/

theorem number?_toDigits (n : Nat) : number? (Nat.toDigits 10 n) = some n := by
  have hdigits : (Nat.toDigits 10 n).all Char.isDigit = true := by
    rw [List.all_eq_true]
    intro c hc
    exact Nat.isDigit_of_mem_toDigits (by decide) (by decide) hc
  rw [number?, if_pos ⟨Nat.toDigits_ne_nil, hdigits⟩, Nat.ofDigitChars_ten_toDigits]

/-- Numbers as they stand in an escape sequence. -/
def parameters (numbers : List Nat) : List Char :=
  [';'].intercalate (numbers.map (Nat.toDigits 10))

theorem isParameter_of_mem_toDigits {n : Nat} {c : Char} (h : c ∈ Nat.toDigits 10 n) :
    isParameter c = true := by
  rw [isParameter, Nat.isDigit_of_mem_toDigits (by decide) (by decide) h]
  rfl

theorem isParameter_of_mem_parameters {numbers : List Nat} {c : Char}
    (h : c ∈ parameters numbers) : isParameter c = true := by
  induction numbers with
  | nil => simp [parameters] at h
  | cons n more ih =>
    by_cases hmore : more = []
    · subst hmore
      exact isParameter_of_mem_toDigits (by simpa [parameters] using h)
    · rw [parameters, List.map_cons, List.intercalate_cons_of_ne_nil (by simpa using hmore)] at h
      rcases List.mem_append.1 h with hfirst | hlater
      · rcases List.mem_append.1 hfirst with hdigit | hmark
        · exact isParameter_of_mem_toDigits hdigit
        · rw [List.mem_singleton.1 hmark]
          rfl
      · exact ih hlater

/-- The numbers are read back from between the semicolons. -/
theorem mapM_splitOn_parameters {numbers : List Nat} (h : numbers ≠ []) :
    ((parameters numbers).splitOn ';').mapM number? = some numbers := by
  have hmark : ∀ digits ∈ numbers.map (Nat.toDigits 10), ';' ∉ digits := by
    intro digits hdigits hmem
    obtain ⟨n, -, rfl⟩ := List.mem_map.1 hdigits
    exact absurd (Nat.isDigit_of_mem_toDigits (by decide) (by decide) hmem) (by decide)
  rw [parameters, List.splitOn_intercalate ';' hmark (by simpa using h)]
  clear h hmark
  induction numbers with
  | nil => rfl
  | cons n more ih => simp [List.mapM_cons, number?_toDigits, ih]

/-- A sequence is understood, whatever follows it. -/
theorem sequence?_parameters {numbers : List Nat} (h : numbers ≠ []) (look : Look)
    (rest : List Char) :
    sequence? look (escape :: '[' :: (parameters numbers ++ 'm' :: rest)) =
      (look.change? numbers).map (·, rest) := by
  have hall : ∀ c ∈ parameters numbers, isParameter c = true := fun c =>
    isParameter_of_mem_parameters
  have hend : isParameter 'm' = false := by decide
  have hbody : (parameters numbers ++ 'm' :: rest).takeWhile isParameter = parameters numbers := by
    rw [List.takeWhile_append_of_pos hall, List.takeWhile_cons_of_neg (by simp [hend]),
      List.append_nil]
  have hbehind : (parameters numbers ++ 'm' :: rest).dropWhile isParameter = 'm' :: rest := by
    rw [List.dropWhile_append_of_pos hall, List.dropWhile_cons_of_neg (by simp [hend])]
  simp only [sequence?, hbehind, if_true, hbody, mapM_splitOn_parameters h, Option.bind_some]

theorem display_parameters {numbers : List Nat} (h : numbers ≠ []) {look changed : Look}
    (hchange : look.change? numbers = some changed) (rest : List Char) :
    display look (escape :: '[' :: (parameters numbers ++ 'm' :: rest)) = display changed rest :=
  display_sequence (by rw [sequence?_parameters h, hchange, Option.map_some])

theorem display_reset (look : Look) (rest : List Char) :
    display look (Style.reset.toList ++ rest) = display .plain rest :=
  display_parameters (List.cons_ne_nil 0 []) rfl rest

/-- The numbers of the sequence for a color. -/
theorem toList_ansi_color (color : Color) (rest : List Char) :
    color.ansi.toList ++ rest =
      escape :: '[' :: (parameters
        [38, 2, color.red.toNat, color.green.toNat, color.blue.toNat] ++ 'm' :: rest) := by
  have hforeground : Nat.toDigits 10 38 = ['3', '8'] := by decide
  have hcolor : Nat.toDigits 10 2 = ['2'] := by decide
  simp [Color.ansi, parameters, escape, hforeground, hcolor]

theorem display_color (look : Look) (color : Color) (rest : List Char) :
    display look (color.ansi.toList ++ rest) =
      display { look with foreground := some color } rest := by
  have hchange : look.change? [38, 2, color.red.toNat, color.green.toNat, color.blue.toNat] =
      some { look with foreground := some color } := by
    rw [Look.change?, if_pos ⟨color.red.toNat_lt, color.green.toNat_lt, color.blue.toNat_lt⟩]
    simp
  rw [toList_ansi_color]
  exact display_parameters (List.cons_ne_nil 38 _) hchange rest

theorem display_bold (look : Look) (rest : List Char) :
    display look ("\x1b[1m".toList ++ rest) = display { look with bold := true } rest :=
  display_parameters (List.cons_ne_nil 1 []) rfl rest

/-- The sequences of a style give the plain look that of the style. -/
theorem display_style (style : Style) (rest : List Char) :
    display .plain (style.ansi.toList ++ rest) = display (.ofStyle style) rest := by
  obtain ⟨foreground, bold⟩ := style
  cases bold with
  | false =>
    rw [Style.ansi, if_neg Bool.false_ne_true, display_color]
    rfl
  | true =>
    rw [Style.ansi, if_pos rfl, String.toList_append, List.append_assoc, display_bold,
      display_color]
    rfl

end TomlEditor.Terminal
