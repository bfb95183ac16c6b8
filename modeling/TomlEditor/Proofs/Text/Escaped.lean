import TomlEditor.Proofs.Text.Digits
import TomlEditor.Text.Escaped

/-!
# Reading escaped texts back

An escaped text ends at the first quote that no escape has taken, and the
characters between the quotes can be told from the escapes: a backslash starts
each escape, its letter says which one it is, and the digits of a code point end
at a brace. For that it does not matter which characters are written as they
are, as long as the backslash and the quote are not among them.
-/

namespace TomlEditor.Text

/-! ## Words and what follows them -/

/-- A run of characters without its end mark is told by the first end mark, whatever follows. -/
theorem append_cons_inj {mark : Char} {left right x y : List Char} (hleft : mark ∉ left)
    (hright : mark ∉ right) (h : left ++ mark :: x = right ++ mark :: y) :
    left = right ∧ x = y := by
  induction left generalizing right with
  | nil =>
    cases right with
    | nil => exact ⟨rfl, (List.cons.inj h).2⟩
    | cons d right =>
      rw [(List.cons.inj h).1] at hright
      exact absurd List.mem_cons_self hright
  | cons c left ih =>
    cases right with
    | nil =>
      rw [(List.cons.inj h).1] at hleft
      exact absurd List.mem_cons_self hleft
    | cons d right =>
      obtain ⟨rfl, hrest⟩ := List.cons.inj h
      obtain ⟨rfl, hxy⟩ := ih (not_or.1 (mt List.mem_cons.2 hleft)).2
        (not_or.1 (mt List.mem_cons.2 hright)).2 hrest
      exact ⟨rfl, hxy⟩

/-- A sequence is told from the words of its members if they are told from what follows them, and
what follows the sequence does not start with a word. -/
theorem flatMap_append_inj {α : Type} {write : α → List Char} {x y : List Char}
    (hword : ∀ a b x y, write a ++ x = write b ++ y → a = b ∧ x = y)
    (hx : ∀ a rest, write a ++ rest ≠ x) (hy : ∀ a rest, write a ++ rest ≠ y)
    {members others : List α} (h : members.flatMap write ++ x = others.flatMap write ++ y) :
    members = others ∧ x = y := by
  induction members generalizing others with
  | nil =>
    cases others with
    | nil => exact ⟨rfl, h⟩
    | cons b others =>
      rw [List.flatMap_cons, List.append_assoc] at h
      exact absurd h.symm (hx b _)
  | cons a members ih =>
    cases others with
    | nil =>
      rw [List.flatMap_cons, List.append_assoc] at h
      exact absurd h (hy a _)
    | cons b others =>
      rw [List.flatMap_cons, List.flatMap_cons, List.append_assoc, List.append_assoc] at h
      obtain ⟨rfl, hrest⟩ := hword a b _ _ h
      obtain ⟨rfl, hxy⟩ := ih hrest
      exact ⟨rfl, hxy⟩

theorem hexDigits_append_inj {n m : Nat} {x y : List Char}
    (h : hexDigits n ++ '}' :: x = hexDigits m ++ '}' :: y) : n = m ∧ x = y := by
  have hbrace : ∀ k, '}' ∉ hexDigits k := fun k hmem =>
    absurd (isHexDigit_of_mem_hexDigits hmem) (by decide)
  obtain ⟨hdigits, hxy⟩ := append_cons_inj (hbrace n) (hbrace m) h
  refine ⟨?_, hxy⟩
  rw [← numeralValue_hexDigits n, hdigits, numeralValue_hexDigits]

/-! ## Characters between quotes -/

/-- The characters with an escape of one letter. -/
def shortEscapes : List (Char × Char) :=
  [('\t', 't'), ('\r', 'r'), ('\n', 'n'), ('\x00', '0'), ('\\', '\\'), ('"', '"')]

/-- The words by which a character may be written between quotes. -/
inductive Written (c : Char) : List Char → Prop
  | plain (hslash : c ≠ '\\') (hquote : c ≠ '"') : Written c [c]
  | short {letter : Char} (h : (c, letter) ∈ shortEscapes) : Written c ['\\', letter]
  | code : Written c (codeEscape c)

theorem written_escapedChar (c : Char) : Written c (escapedChar c) := by
  unfold escapedChar
  split
  case h_7 _ _ _ _ hslash hquote =>
    split
    · exact .code
    · exact .plain hslash hquote
  all_goals exact .short (by decide)

theorem short_letter_inj {c d letter : Char} (hc : (c, letter) ∈ shortEscapes)
    (hd : (d, letter) ∈ shortEscapes) : c = d := by
  have htable : ∀ first ∈ shortEscapes, ∀ second ∈ shortEscapes, first.2 = second.2 →
      first.1 = second.1 := by decide
  exact htable _ hc _ hd rfl

theorem short_letter_ne {c : Char} : (c, 'u') ∉ shortEscapes := by
  have htable : ∀ pair ∈ shortEscapes, pair.2 ≠ 'u' := by decide
  exact fun h => htable _ h rfl

/-- The word of a character tells the character and where the word ends. -/
theorem Written.append_inj {c d : Char} {word other x y : List Char} (hword : Written c word)
    (hother : Written d other) (h : word ++ x = other ++ y) : c = d ∧ x = y := by
  cases hword with
  | plain hslash hquote =>
    cases hother with
    | plain => exact List.cons.inj h
    | short => exact absurd (List.cons.inj h).1 hslash
    | code => exact absurd (List.cons.inj h).1 hslash
  | short hc =>
    cases hother with
    | plain hslash => exact absurd (List.cons.inj h).1.symm hslash
    | short hd =>
      obtain ⟨rfl, hxy⟩ := List.cons.inj (List.cons.inj h).2
      exact ⟨short_letter_inj hc hd, hxy⟩
    | code =>
      rw [(List.cons.inj (List.cons.inj h).2).1] at hc
      exact absurd hc short_letter_ne
  | code =>
    cases hother with
    | plain hslash => exact absurd (List.cons.inj h).1.symm hslash
    | short hd =>
      rw [← (List.cons.inj (List.cons.inj h).2).1] at hd
      exact absurd hd short_letter_ne
    | code =>
      simp only [codeEscape, List.append_assoc, List.append_cancel_left_eq,
        List.singleton_append] at h
      obtain ⟨hvalue, hxy⟩ := hexDigits_append_inj h
      exact ⟨Char.toNat_inj.1 hvalue, hxy⟩

/-- No word starts like the quote at the end. -/
theorem Written.head_ne_quote {c : Char} {word x y : List Char} (hword : Written c word) :
    word ++ x ≠ '"' :: y := by
  intro h
  cases hword with
  | plain _ hquote => exact hquote (List.cons.inj h).1
  | short => exact absurd (List.cons.inj h).1 (by decide)
  | code => exact absurd (List.cons.inj h).1 (by decide)

/-! ## Texts between quotes -/

/-- A text between quotes is told by any choice of words for its characters, whatever follows. -/
theorem quoted_append_inj {write : Char → List Char} (hwrite : ∀ c, Written c (write c))
    {text other x y : List Char}
    (h : text.flatMap write ++ '"' :: x = other.flatMap write ++ '"' :: y) :
    text = other ∧ x = y := by
  have hword : ∀ c d x y, write c ++ x = write d ++ y → c = d ∧ x = y := fun c d _ _ =>
    (hwrite c).append_inj (hwrite d)
  have hquote : ∀ behind c rest, write c ++ rest ≠ '"' :: behind := fun _ c _ =>
    (hwrite c).head_ne_quote
  obtain ⟨htext, hxy⟩ := flatMap_append_inj hword (hquote x) (hquote y) h
  exact ⟨htext, (List.cons.inj hxy).2⟩

theorem toList_quoted_append_inj {write : Char → List Char} (hwrite : ∀ c, Written c (write c))
    {text other : String} {x y : List Char}
    (h : (quoted write text).toList ++ x = (quoted write other).toList ++ y) :
    text = other ∧ x = y := by
  simp only [quoted, String.toList_ofList, List.cons_append, List.append_assoc,
    List.nil_append, List.cons.injEq, true_and] at h
  obtain ⟨htext, hxy⟩ := quoted_append_inj hwrite h
  exact ⟨String.toList_injective htext, hxy⟩

end TomlEditor.Text
