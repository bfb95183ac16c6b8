import Mathlib.Data.List.Induction
import Mathlib.Order.Bounds.Basic
import TomlEditor.Proofs.Lex.Resumption

/-!
# Where a string ends

A quote closes its string unless a backslash is in front of it that no other
backslash takes. So a string ends at the first of its quotes with an even number
of backslashes in front, whatever the escapes are otherwise: a piece of a string
holds no such quote, and what lies behind the piece counts its backslashes from
the end of the piece as well as from the start of the string.
-/

namespace TomlEditor.Lex

open Text

/-! ## Backslashes -/

/-- The number of backslashes at the end of the inside of a string. -/
def slashesBefore (inside : List Char) : Nat :=
  (inside.reverse.takeWhile (· == '\\')).length

/-- A quote in the body of a string with backslashes right before it that come in pairs, if there
are any. -/
def FreeQuote (quote : Quote) (body : List Char) (place : Nat) : Prop :=
  body[place]? = some quote.char ∧ slashesBefore (body.take place) % 2 = 0

instance (quote : Quote) (body : List Char) (place : Nat) :
    Decidable (FreeQuote quote body place) :=
  inferInstanceAs (Decidable (_ ∧ _))

theorem FreeQuote.lt_length {quote : Quote} {body : List Char} {place : Nat}
    (h : FreeQuote quote body place) : place < body.length :=
  (List.getElem?_eq_some_iff.1 h.1).1

theorem slashesBefore_concat (inside : List Char) (c : Char) :
    slashesBefore (inside ++ [c]) = if c = '\\' then slashesBefore inside + 1 else 0 := by
  by_cases hc : c = '\\' <;> simp [slashesBefore, hc]

/-- Pairs of backslashes at the end of a part do not count behind it. -/
theorem slashesBefore_append {front : List Char} (h : slashesBefore front % 2 = 0)
    (inside : List Char) :
    slashesBefore (front ++ inside) % 2 = slashesBefore inside % 2 := by
  induction inside using List.reverseRecOn with
  | nil => rw [List.append_nil, h]; rfl
  | append_singleton inside c ih =>
    rw [← List.append_assoc, slashesBefore_concat, slashesBefore_concat]
    split
    · omega
    · rfl

theorem freeQuote_append_iff {quote : Quote} {piece : List Char} {place : Nat}
    (h : place < piece.length) (rest : List Char) :
    FreeQuote quote (piece ++ rest) place ↔ FreeQuote quote piece place := by
  rw [FreeQuote, FreeQuote, List.getElem?_append_left h, List.take_append_of_le_length h.le]

/-! ## Pieces of a string -/

/-- A part of a body that holds no free quote and hides none of those behind it. -/
structure Harmless (quote : Quote) (piece rest : List Char) : Prop where
  inside : ∀ place, ¬FreeQuote quote piece place
  behind : ∀ place,
    FreeQuote quote (piece ++ rest) (piece.length + place) ↔ FreeQuote quote rest place

theorem quote_ne_slash (quote : Quote) : quote.char ≠ '\\' := by
  cases quote <;> decide

theorem harmless_of_even {quote : Quote} {piece : List Char}
    (hinside : ∀ place, ¬FreeQuote quote piece place) (heven : slashesBefore piece % 2 = 0)
    (rest : List Char) : Harmless quote piece rest := by
  refine ⟨hinside, ?_⟩
  intro place
  rw [FreeQuote, FreeQuote, List.getElem?_append_right (Nat.le_add_right _ _),
    Nat.add_sub_cancel_left, List.take_length_add_append, slashesBefore_append heven]

theorem harmless_text {quote : Quote} {piece : List Char}
    (h : ∀ c ∈ piece, isStringText quote c = true) (rest : List Char) :
    Harmless quote piece rest := by
  have htext : ∀ c ∈ piece, c ≠ quote.char ∧ c ≠ '\\' := by
    intro c hc
    simpa [isStringText] using h c hc
  apply harmless_of_even
  · rintro place ⟨hquote, -⟩
    exact (htext _ (List.mem_of_getElem? hquote)).1 rfl
  · rcases piece.eq_nil_or_concat with rfl | ⟨front, c, rfl⟩
    · rfl
    · rw [List.concat_eq_append, slashesBefore_concat, if_neg (htext c (by simp)).2]

theorem harmless_escape {quote : Quote} (c : Char) {digits : List Char}
    (h : ∀ d ∈ digits, isHexDigit d = true) (rest : List Char) :
    Harmless quote ('\\' :: c :: digits) rest := by
  have hquote : isHexDigit quote.char = false := by cases quote <;> decide
  apply harmless_of_even
  · -- The backslash is no quote, it stands alone in front of `c`, and the rest are digits.
    rintro (_ | _ | place) ⟨hchar, heven⟩
    · exact quote_ne_slash quote (by simpa using hchar.symm)
    · simp [slashesBefore] at heven
    · have hmem : quote.char ∈ digits := List.mem_of_getElem? (by simpa using hchar)
      exact absurd (h _ hmem) (by simp [hquote])
  · rcases digits.eq_nil_or_concat with rfl | ⟨front, d, rfl⟩
    · show slashesBefore (['\\'] ++ [c]) % 2 = 0
      rw [slashesBefore_concat]
      split
      · rfl
      · rfl
    · have hd : d ≠ '\\' := ne_of_class (h d (by simp)) (by decide)
      show slashesBefore ('\\' :: c :: front.concat d) % 2 = 0
      rw [List.concat_eq_append, ← List.cons_append, ← List.cons_append, slashesBefore_concat,
        if_neg hd]

/-- A lone backslash at the end of a line or of the text takes nothing, and no quote is next. -/
theorem harmless_slash {quote : Quote} {rest : List Char}
    (h : rest.head?.any (!isLineEnd ·) = false) : Harmless quote ['\\'] rest := by
  refine ⟨?_, ?_⟩
  · rintro (_ | place) ⟨hchar, -⟩
    · exact quote_ne_slash quote (by simpa using hchar.symm)
    · simp at hchar
  · intro place
    cases rest with
    | nil => simp [FreeQuote]
    | cons c rest =>
      have hc : isLineEnd c = true := by simpa using h
      have hquote : c ≠ quote.char := ne_of_class hc (by cases quote <;> decide)
      have hslash : c ≠ '\\' := ne_of_class hc (by decide)
      cases place with
      | zero => simp [FreeQuote, hquote]
      | succ place =>
        -- The end of the line stands between the backslash and any quote.
        have hnone : ∀ front, slashesBefore (front ++ [c]) % 2 = 0 := by
          intro front
          rw [slashesBefore_concat, if_neg hslash]
        have hwhole := slashesBefore_append (hnone ['\\']) (rest.take place)
        have hrest := slashesBefore_append (hnone []) (rest.take place)
        rw [FreeQuote, FreeQuote, Nat.add_comm]
        simp only [List.nil_append, List.cons_append, List.length_singleton,
          List.getElem?_cons_succ, List.take_succ_cons] at hwhole hrest ⊢
        rw [hwhole, hrest]

/-! ## Matches inside a string -/

theorem take_hexRun (limit : Nat) (ahead : List Char) :
    ∀ d ∈ ahead.take (hexRun limit ahead), isHexDigit d = true := by
  have hrun : ahead.take (hexRun limit ahead) = (ahead.take limit).takeWhile isHexDigit :=
    (List.prefix_iff_eq_take.1
      ((List.takeWhile_prefix _).trans (List.take_prefix limit ahead))).symm
  rw [hrun]
  exact List.all_eq_true.1 List.all_takeWhile

/-- An escape is a backslash, a character and hexadecimal digits. -/
theorem take_escapeLength? {ahead : List Char} {n : Nat} (h : escapeLength? ahead = some n) :
    ∃ c digits, ahead.take n = '\\' :: c :: digits ∧ ∀ d ∈ digits, isHexDigit d = true := by
  unfold escapeLength? at h
  split at h
  · next c rest =>
    have hrun : ∃ limit, n = hexRun limit rest + 2 := by
      split at h
      · exact ⟨0, by simpa [hexRun] using h.symm⟩
      · split at h
        · split at h
          · simp at h
          · exact ⟨4, (Option.some.inj h).symm⟩
        · split at h
          · obtain ⟨hfour, hn⟩ := Option.ite_none_right_eq_some.1 h
            exact ⟨4, by rw [hfour]; exact (Option.some.inj hn).symm⟩
          · split at h
            · obtain ⟨height, hn⟩ := Option.ite_none_right_eq_some.1 h
              exact ⟨8, by rw [height]; exact (Option.some.inj hn).symm⟩
            · simp at h
    obtain ⟨limit, rfl⟩ := hrun
    exact ⟨c, rest.take (hexRun limit rest), rfl, take_hexRun limit rest⟩
  · simp at h

/-- What a rule finds inside a string, if not its end, holds no free quote and hides none. -/
theorem stringRule_harmless {quote : Quote} {rule : Rule} (hrule : rule ∈ stringRules quote)
    {behind : Behind} {ahead : List Char} {found : Match}
    (h : rule.scan behind ahead = some found) (hstay : found.shift = .stay) :
    Harmless quote (ahead.take found.length) (ahead.drop found.length) := by
  -- One case for each rule, in the order of `stringRules`.
  simp only [stringRules, List.mem_cons, List.not_mem_nil, or_false] at hrule
  rcases hrule with rfl | rfl | rfl | rfl
  · rw [Match.single?_length h, stringTextLength, take_length_takeWhile]
    exact harmless_text (List.all_eq_true.1 List.all_takeWhile) _
  · obtain ⟨n, hn, hfound⟩ := Option.bind_eq_some_iff.1 h
    obtain ⟨c, digits, hescape, hdigits⟩ := take_escapeLength? hn
    rw [Match.single?_length hfound, hescape]
    exact harmless_escape c hdigits _
  · obtain ⟨n, hn, hfound⟩ := Option.bind_eq_some_iff.1 h
    rw [Match.single?_length hfound]
    cases ahead with
    | nil => simp [invalidEscapeLength?] at hn
    | cons c rest =>
      rw [invalidEscapeLength?_cons, Option.ite_none_right_eq_some, Option.some.injEq] at hn
      obtain ⟨rfl, rfl⟩ := hn
      split
      · next hnext =>
        cases rest with
        | nil => simp at hnext
        | cons d rest =>
          have hdigits : ∀ e ∈ ([] : List Char), isHexDigit e = true := by simp
          exact harmless_escape d hdigits rest
      · next hnext => exact harmless_slash (by simpa using hnext)
  · simp only [Rule.stringClose, Option.ite_none_right_eq_some] at h
    obtain ⟨-, hfound⟩ := h
    obtain rfl := Option.some.inj hfound
    exact absurd hstay (by simp)

theorem scan_harmless (quote : Quote) (behind : Behind) {ahead : List Char} (h : ahead ≠ [])
    (hstay : (scan (.string quote) behind ahead).shift = .stay) :
    let n := (scan (.string quote) behind ahead).length
    Harmless quote (ahead.take n) (ahead.drop n) := by
  rcases scan_cases (.string quote) behind ahead with ⟨rule, hrule, hfound⟩ | ⟨hnone, -⟩
  · exact stringRule_harmless hrule hfound hstay
  · obtain ⟨rule, hrule, hsome⟩ := exists_stringRule quote behind h
    exact absurd (hnone rule hrule) hsome

/-! ## Up to the first free quote -/

/-- A free quote lies behind a harmless part, in the rest. -/
theorem Harmless.exists_add {quote : Quote} {piece rest : List Char}
    (h : Harmless quote piece rest) {place : Nat} (hplace : FreeQuote quote (piece ++ rest) place) :
    ∃ further, place = piece.length + further ∧ FreeQuote quote rest further := by
  by_cases hlt : place < piece.length
  · exact absurd ((freeQuote_append_iff hlt rest).1 hplace) (h.inside place)
  · obtain ⟨further, rfl⟩ := Nat.exists_eq_add_of_le (Nat.le_of_not_lt hlt)
    exact ⟨further, rfl, (h.behind further).1 hplace⟩

/-- The first free quote behind a harmless part is the first one of the rest. -/
theorem Harmless.isLeast {quote : Quote} {piece rest : List Char} (h : Harmless quote piece rest)
    {place : Nat} (hplace : IsLeast {place | FreeQuote quote (piece ++ rest) place} place) :
    ∃ further, place = piece.length + further ∧
      IsLeast {place | FreeQuote quote rest place} further := by
  obtain ⟨further, rfl, hfree⟩ := h.exists_add hplace.1
  refine ⟨further, rfl, hfree, ?_⟩
  intro other hother
  have hle := hplace.2 ((h.behind other).2 hother)
  omega

/-- A lexeme that closes a string. -/
def Lexeme.Closes (lexeme : Lexeme) (quote : Quote) : Prop :=
  lexeme.kind = .stringLiteral ∧ lexeme.text = quote.text

/-- The lexemes of the body of a string. -/
def bodyLexemes (quote : Quote) (body : List Char) : List Lexeme :=
  (lexemes (.ofMode (.string quote)) .start body).1

/-- The first lexeme of the body of a string is its closing quote, or a harmless part of it with
the lexemes of the rest behind it. -/
theorem bodyLexemes_cases (quote : Quote) {body : List Char} (h : body ≠ []) :
    (∃ (found : Match) (lexeme : Lexeme),
        Harmless quote (body.take found.length) (body.drop found.length) ∧
        found.length ≤ body.length ∧ ¬lexeme.Closes quote ∧
        lexeme.text.toList = body.take found.length ∧
        bodyLexemes quote body = lexeme :: bodyLexemes quote (body.drop found.length)) ∨
      ∃ rest, body = quote.char :: rest ∧
        (bodyLexemes quote body).head? = some ⟨.stringLiteral, quote.text⟩ := by
  have hharmless := scan_harmless quote .start h
  have hle := scan_length_le (.string quote) .start h
  rcases scan_string_cases quote .start h with ⟨kind, n, hn, -, htext, hfound⟩ | ⟨rest, rfl, hfound⟩
  · rw [hfound] at hharmless hle
    refine .inl ⟨_, ⟨kind, String.ofList (body.take n)⟩, hharmless rfl, hle, ?_, ?_, ?_⟩
    · rintro ⟨hliteral, hquote⟩
      have hchars := congrArg String.toList hquote
      rw [String.toList_ofList, Quote.text, String.toList_singleton] at hchars
      exact htext hliteral hchars
    · rw [String.toList_ofList]
      rfl
    · rw [bodyLexemes, lexemes_step _ _ h, ModeStack.mode_ofMode, hfound]
      simp only [Shift.apply, bodyLexemes]
      rw [lexemes_string_behind quote _ .start]
      rfl
  · refine .inr ⟨rest, rfl, ?_⟩
    rw [bodyLexemes, lexemes_step _ _ h, ModeStack.mode_ofMode, hfound]
    rfl

/-- Up to its first free quote the body of a string is not closed, and the quote closes it. -/
theorem bodyLexemes_to_freeQuote (quote : Quote) (body : List Char) {place : Nat}
    (hplace : IsLeast {place | FreeQuote quote body place} place) :
    ∃ inner later, bodyLexemes quote body = inner ++ ⟨.stringLiteral, quote.text⟩ :: later ∧
      inner.flatMap (·.text.toList) = body.take place ∧ ∀ lexeme ∈ inner, ¬lexeme.Closes quote := by
  induction body using matchInduction generalizing place with
  | nil => exact absurd hplace.1.1 (by simp)
  | step body h ih =>
    rcases bodyLexemes_cases quote h with
      ⟨found, lexeme, hharmless, hle, hopen, htext, hlexemes⟩ | ⟨rest, rfl, hclose⟩
    · have hlength : (body.take found.length).length = found.length := by
        rw [List.length_take, Nat.min_eq_left hle]
      rw [← List.take_append_drop found.length body] at hplace
      obtain ⟨further, rfl, hleast⟩ := hharmless.isLeast hplace
      obtain ⟨inner, later, hsplit, hinner, hnone⟩ := ih found hleast
      refine ⟨lexeme :: inner, later, ?_, ?_, List.forall_mem_cons.2 ⟨hopen, hnone⟩⟩
      · rw [hlexemes, hsplit, List.cons_append]
      · rw [List.flatMap_cons, htext, hinner, hlength, ← List.take_add]
    · obtain ⟨later, hlater⟩ := List.head?_eq_some_iff.1 hclose
      have hfree : FreeQuote quote (quote.char :: rest) 0 := ⟨rfl, rfl⟩
      obtain rfl : place = 0 := Nat.le_zero.1 (hplace.2 hfree)
      exact ⟨[], later, hlater, rfl, by simp⟩

/-- Without a free quote the body of a string is not closed. -/
theorem bodyLexemes_of_not_freeQuote (quote : Quote) (body : List Char)
    (hnone : ∀ place, ¬FreeQuote quote body place) :
    ∀ lexeme ∈ bodyLexemes quote body, ¬lexeme.Closes quote := by
  induction body using matchInduction with
  | nil => simp [bodyLexemes]
  | step body h ih =>
    rcases bodyLexemes_cases quote h with
      ⟨found, lexeme, hharmless, -, hopen, -, hlexemes⟩ | ⟨rest, rfl, -⟩
    · rw [← List.take_append_drop found.length body] at hnone
      rw [hlexemes, List.forall_mem_cons]
      exact ⟨hopen, ih found fun place hplace => hnone _ ((hharmless.behind place).2 hplace)⟩
    · exact absurd ⟨rfl, rfl⟩ (hnone 0)

/-- Lexemes that do not close a string leave the mode as it is. -/
theorem foldl_afterToken_of_not_closes {quote : Quote} {lexemes : List Lexeme}
    (h : ∀ lexeme ∈ lexemes, ¬lexeme.Closes quote) (offset : Nat) :
    (place offset lexemes).foldl Mode.afterToken (.string quote) = .string quote := by
  induction lexemes generalizing offset with
  | nil => rfl
  | cons lexeme more ih =>
    obtain ⟨hopen, hmore⟩ := List.forall_mem_cons.1 h
    rw [place_cons, List.foldl_cons]
    have hstay : (Mode.string quote).afterToken (placed offset lexeme) = .string quote :=
      if_neg hopen
    rw [hstay]
    exact ih hmore _

theorem foldl_afterToken_take {quote : Quote} {lexemes : List Lexeme}
    (h : ∀ lexeme ∈ lexemes, ¬lexeme.Closes quote) (offset calls : Nat) :
    ((place offset lexemes).take calls).foldl Mode.afterToken (.string quote) = .string quote := by
  rw [take_place]
  apply foldl_afterToken_of_not_closes
  exact fun lexeme hlexeme => h lexeme (List.mem_of_mem_take hlexeme)

end TomlEditor.Lex

namespace TomlEditor.TokenStream

open TomlEditor.Lex

/-! ## Tokens and states behind a place inside a string -/

section

variable {text : String} {mode : Mode} {count : Nat} {quote : Quote}
  (h : ((ofText text (.ofMode mode)).after count).state = .ofMode (.string quote))

include h

theorem state_from (calls : Nat) :
    ((ofText text (.ofMode mode)).after (count + calls)).state =
      .ofMode ((((tokenize text (.ofMode mode)).1.drop count).take calls).foldl Mode.afterToken
        (.string quote)) := by
  have hcount := ((standsIn_ofText text mode).after count).state_eq
  have hcalls := ((standsIn_ofText text mode).after (count + calls)).state_eq
  rw [h, remaining_ofText] at hcount
  have hmode := congrArg ModeStack.mode hcount
  rw [ModeStack.mode_ofMode, ModeStack.mode_ofMode] at hmode
  rw [hcalls, remaining_ofText, List.take_add, List.foldl_append, ← hmode]

/-- What is left of a text inside a string are the lexemes of the rest as the body of a string. -/
theorem tokens_from :
    ∃ before : String,
      text = before ++ String.ofList ((ofText text (.ofMode mode)).after count).ahead ∧
      before.utf8ByteSize = endOf ((tokenize text (.ofMode mode)).1.take count) ∧
      (tokenize text (.ofMode mode)).1.drop count = place before.utf8ByteSize
        (bodyLexemes quote ((ofText text (.ofMode mode)).after count).ahead) := by
  let lexed := (lexemes (.ofMode mode) .start text.toList).1
  let body := ((ofText text (.ofMode mode)).after count).ahead
  have hstring : ((ofText text (.ofMode mode)).after count).state.mode ≠ .root := by
    rw [h, ModeStack.mode_ofMode]
    exact Mode.noConfusion
  obtain ⟨hqueue, hfresh⟩ := (standsIn_ofText text mode).fresh (.inl hstring)
  have hleft := congrArg Prod.fst (remaining_after (ofText text (.ofMode mode)) count)
  rw [remaining_ofText, remaining, hqueue, hfresh, h, List.nil_append] at hleft
  have hdrop : (tokenize text (.ofMode mode)).1.drop count =
      place (byteCount (lexed.take count)) (lexed.drop count) := by
    rw [tokenize, drop_place, Nat.zero_add]
  have hbody : bodyLexemes quote body = lexed.drop count := place_inj (hleft.trans hdrop)
  have hbefore : (String.join ((lexed.take count).map Lexeme.text)).utf8ByteSize =
      byteCount (lexed.take count) := (byteCount_eq _).symm
  refine ⟨String.join ((lexed.take count).map Lexeme.text), ?_, ?_, ?_⟩
  · apply String.toList_injective
    have hrest : (lexed.drop count).flatMap (·.text.toList) = body := by
      rw [← hbody, bodyLexemes, flatMap_lexemes]
    rw [String.toList_append, String.toList_join, List.flatMap_map, String.toList_ofList,
      show ((ofText text (.ofMode mode)).after count).ahead = body from rfl, ← hrest,
      ← List.flatMap_append, List.take_append_drop]
    exact (flatMap_lexemes (.ofMode mode) .start text.toList).symm
  · rw [hbefore, tokenize, take_place, endOf_place]
  · rw [hbefore, hbody, hdrop]

theorem closed_at_freeQuote {start : Nat} {body : List Char}
    (htokens : (tokenize text (.ofMode mode)).1.drop count = place start (bodyLexemes quote body))
    {place : Nat} (hplace : IsLeast {place | FreeQuote quote body place} place) :
    let offset := start + (String.ofList (body.take place)).utf8ByteSize
    ∃ last, count ≤ last ∧
      (tokenize text (.ofMode mode)).1[last]? =
        some ⟨.stringLiteral, quote.text, ⟨offset, offset + 1⟩⟩ ∧
      (∀ calls, count ≤ calls → calls ≤ last →
        ((ofText text (.ofMode mode)).after calls).state = .ofMode (.string quote)) ∧
      ((ofText text (.ofMode mode)).after (last + 1)).state = .root := by
  intro offset
  obtain ⟨inner, later, hsplit, hinner, hopen⟩ := bodyLexemes_to_freeQuote quote _ hplace
  have hlength : (Lex.place start inner).length = inner.length := length_place _ _
  have hoffset : start + byteCount inner = offset :=
    congrArg (start + ·) (byteCount_of_flatMap hinner)
  have hsize : quote.text.utf8ByteSize = 1 := by cases quote <;> rfl
  rw [hsplit, place_append, hoffset, place_cons] at htokens
  refine ⟨count + inner.length, Nat.le_add_right _ _, ?_, ?_, ?_⟩
  · rw [← List.getElem?_drop, htokens, List.getElem?_append_right hlength.le, hlength,
      Nat.sub_self, List.getElem?_cons_zero, placed, hsize]
  · intro calls hcount hlast
    obtain ⟨more, rfl⟩ := Nat.exists_eq_add_of_le hcount
    rw [state_from h, htokens, List.take_append_of_le_length (by omega),
      foldl_afterToken_take hopen]
  · rw [Nat.add_assoc, state_from h, htokens, ← hlength, List.take_length_add_append,
      List.foldl_append, foldl_afterToken_of_not_closes hopen]
    exact congrArg ModeStack.ofMode (if_pos ⟨rfl, rfl⟩)

theorem open_without_freeQuote {start : Nat} {body : List Char}
    (htokens : (tokenize text (.ofMode mode)).1.drop count = place start (bodyLexemes quote body))
    (hnone : ∀ place, ¬FreeQuote quote body place) :
    (∀ calls, count ≤ calls →
        ((ofText text (.ofMode mode)).after calls).state = .ofMode (.string quote)) ∧
      (tokenize text (.ofMode mode)).2 = .ofMode (.string quote) := by
  have hstay : ∀ calls, count ≤ calls →
      ((ofText text (.ofMode mode)).after calls).state = .ofMode (.string quote) := by
    intro calls hcount
    obtain ⟨more, rfl⟩ := Nat.exists_eq_add_of_le hcount
    rw [state_from h, htokens, foldl_afterToken_take (bodyLexemes_of_not_freeQuote quote _ hnone)]
  refine ⟨hstay, ?_⟩
  -- Behind all tokens the state is the one that is handed on.
  let total := (tokenize text (.ofMode mode)).1.length
  have hend := ((standsIn_ofText text mode).after (count + total)).state_eq
  rw [remaining_ofText, List.take_of_length_le (Nat.le_add_left _ _)] at hend
  rw [← hstay (count + total) (Nat.le_add_right _ _)]
  exact (lexemes_follow mode .start text.toList 0).2.trans hend.symm

end

/-- **Where a string ends.** Inside a string, at the start of its body or behind any later token of
it, the first quote with an even number of backslashes in front is a token of its own and closes
the string; the state stays that of the string up to there, and to the end of the text if there is
no such quote. -/
theorem string_ends_at_first_free_quote (text : String) (mode : Mode) (count : Nat) (quote : Quote)
    (hstring : ((ofText text (.ofMode mode)).after count).state = .ofMode (.string quote)) :
    let full := tokenize text (.ofMode mode)
    let state := fun calls => ((ofText text (.ofMode mode)).after calls).state
    let body := ((ofText text (.ofMode mode)).after count).ahead
    ∃ before : String, text = before ++ String.ofList body ∧
      before.utf8ByteSize = endOf (full.1.take count) ∧
      (∀ place, IsLeast {place | FreeQuote quote body place} place →
        let offset := before.utf8ByteSize + (String.ofList (body.take place)).utf8ByteSize
        ∃ last, count ≤ last ∧
          full.1[last]? = some ⟨.stringLiteral, quote.text, ⟨offset, offset + 1⟩⟩ ∧
          (∀ calls, count ≤ calls → calls ≤ last → state calls = .ofMode (.string quote)) ∧
          state (last + 1) = .root) ∧
      ((∀ place, ¬FreeQuote quote body place) →
        (∀ calls, count ≤ calls → state calls = .ofMode (.string quote)) ∧
        full.2 = .ofMode (.string quote)) := by
  intro full state body
  obtain ⟨before, htext, hsize, htokens⟩ := tokens_from hstring
  refine ⟨before, htext, hsize, ?_, ?_⟩
  · exact fun place hplace => closed_at_freeQuote hstring htokens hplace
  · exact fun hnone => open_without_freeQuote hstring htokens hnone

/-- A string with an escaped quote behind an escaped backslash, and a piece of a string that ends
with an escaped quote. -/
theorem escaped_quotes_do_not_end_strings :
    (∃ last, (tokenize "x = \"a\\\\\\\"b\" # c" .root).1[last]? =
        some ⟨.stringLiteral, "\"", ⟨11, 12⟩⟩ ∧
      ((ofText "x = \"a\\\\\\\"b\" # c" .root).after (last + 1)).state = .root) ∧
    (tokenize "it\\'" (.ofMode (.string .single))).2 = .ofMode (.string .single) := by
  constructor
  · let body := "a\\\\\\\"b\" # c".toList
    obtain ⟨before, -, hsize, hclosed, -⟩ :=
      string_ends_at_first_free_quote "x = \"a\\\\\\\"b\" # c" .root 5 .double (by decide +kernel)
    have hbody : ((ofText "x = \"a\\\\\\\"b\" # c" (.ofMode .root)).after 5).ahead = body := by
      decide +kernel
    have hstart : endOf ((tokenize "x = \"a\\\\\\\"b\" # c" (.ofMode .root)).1.take 5) = 5 := by
      decide +kernel
    rw [hbody] at hclosed
    have hleast : IsLeast {place | FreeQuote .double body place} 6 := by
      refine ⟨show FreeQuote .double body 6 by decide +kernel, ?_⟩
      intro place hplace
      have hescaped : ∀ place < 6, ¬FreeQuote .double body place := by decide +kernel
      exact Nat.le_of_not_lt fun hlt => hescaped place hlt hplace
    obtain ⟨last, -, htoken, -, hstate⟩ := hclosed 6 hleast
    rw [hsize, hstart] at htoken
    exact ⟨last, htoken, hstate⟩
  · let body := "it\\'".toList
    obtain ⟨-, -, -, -, hopen⟩ :=
      string_ends_at_first_free_quote "it\\'" (.string .single) 0 .single rfl
    have hescaped : ∀ place < body.length, ¬FreeQuote .single body place := by decide +kernel
    exact (hopen fun place hplace => hescaped place hplace.lt_length hplace).2

end TomlEditor.TokenStream
