import TomlEditor.Proofs.Lex.StringEnd

/-!
# Escapes in strings

Which backslashes of a string start an escape, and how far it goes, is said by a
grammar of escapes: the lexer takes the longest word of it that stands at the
backslash. Only escapes with `x` come in several lengths, and their run of digits
is taken as far as it goes. A backslash without an escape takes the character
after it, unless the line ends there, and all else in a string is text up to the
next backslash or the quote.
-/

namespace TomlEditor.Lex

open Text

/-! ## The grammar -/

/-- The words that are escapes. -/
inductive Escape : List Char → Prop
  | letter {c : Char} (h : c ∈ ['a', 'b', 'f', 'n', 'r', 't', 'v', '\\', '"', '\'']) :
    Escape ['\\', c]
  | byte {digits : List Char} (h : ∀ d ∈ digits, isHexDigit d = true) (hpos : 1 ≤ digits.length)
    (hle : digits.length ≤ 4) : Escape ('\\' :: 'x' :: digits)
  | short {digits : List Char} (h : ∀ d ∈ digits, isHexDigit d = true)
    (hlength : digits.length = 4) : Escape ('\\' :: 'u' :: digits)
  | long {digits : List Char} (h : ∀ d ∈ digits, isHexDigit d = true)
    (hlength : digits.length = 8) : Escape ('\\' :: 'U' :: digits)

/-- The lengths of the escapes that a text starts with. -/
def escapesAt (ahead : List Char) : Set Nat :=
  {n | n ≤ ahead.length ∧ Escape (ahead.take n)}

/-! ## Runs of digits -/

theorem hexRun_le_limit (limit : Nat) (ahead : List Char) : hexRun limit ahead ≤ limit := by
  unfold hexRun
  calc ((ahead.take limit).takeWhile isHexDigit).length
      ≤ (ahead.take limit).length := length_takeWhile_le _ _
    _ ≤ limit := by simp

/-- Digits ahead are all in the run, if they are not too many. -/
theorem le_hexRun {limit : Nat} {digits : List Char} (h : ∀ d ∈ digits, isHexDigit d = true)
    (hle : digits.length ≤ limit) (rest : List Char) :
    digits.length ≤ hexRun limit (digits ++ rest) := by
  unfold hexRun
  rw [List.take_append, List.take_of_length_le hle, List.takeWhile_append_of_pos h]
  simp

theorem length_take_hexRun (limit : Nat) (ahead : List Char) :
    (ahead.take (hexRun limit ahead)).length = hexRun limit ahead := by
  rw [List.length_take, Nat.min_eq_left (hexRun_le limit ahead)]

/-! ## The length of an escape -/

theorem isEscapeLetter_iff {c : Char} :
    isEscapeLetter c = true ↔ c ∈ ['a', 'b', 'f', 'n', 'r', 't', 'v', '\\', '"', '\''] := by
  rw [isEscapeLetter, List.contains_iff_mem]

theorem escapeLength?_letter {c : Char} (h : isEscapeLetter c = true) (rest : List Char) :
    escapeLength? ('\\' :: c :: rest) = some 2 := by
  rw [escapeLength?, if_pos h]

theorem escapeLength?_byte (rest : List Char) :
    escapeLength? ('\\' :: 'x' :: rest) =
      if hexRun 4 rest = 0 then none else some (hexRun 4 rest + 2) := rfl

theorem escapeLength?_short (rest : List Char) :
    escapeLength? ('\\' :: 'u' :: rest) = if hexRun 4 rest = 4 then some 6 else none := rfl

theorem escapeLength?_long (rest : List Char) :
    escapeLength? ('\\' :: 'U' :: rest) = if hexRun 8 rest = 8 then some 10 else none := rfl

theorem exists_slash_of_escapeLength? {ahead : List Char} {n : Nat}
    (h : escapeLength? ahead = some n) : ∃ rest, ahead = '\\' :: rest := by
  unfold escapeLength? at h
  split at h
  · exact ⟨_, rfl⟩
  · exact absurd h (by simp)

/-- What the length function takes is an escape. -/
theorem escapeLength?_sound {ahead : List Char} {n : Nat} (h : escapeLength? ahead = some n) :
    Escape (ahead.take n) := by
  obtain ⟨c, rest, rfl⟩ : ∃ c rest, ahead = '\\' :: c :: rest := by
    unfold escapeLength? at h
    split at h
    · exact ⟨_, _, rfl⟩
    · exact absurd h (by simp)
  by_cases hletter : isEscapeLetter c = true
  · rw [escapeLength?_letter hletter] at h
    obtain rfl := Option.some.inj h
    exact .letter (isEscapeLetter_iff.1 hletter)
  by_cases hx : c = 'x'
  · subst hx
    rw [escapeLength?_byte, Option.ite_none_left_eq_some] at h
    obtain ⟨hrun, hn⟩ := h
    obtain rfl := Option.some.inj hn
    refine .byte (take_hexRun 4 rest) ?_ ?_
    · rw [length_take_hexRun]
      exact Nat.one_le_iff_ne_zero.2 hrun
    · rw [length_take_hexRun]
      exact hexRun_le_limit 4 rest
  by_cases hu : c = 'u'
  · subst hu
    rw [escapeLength?_short, Option.ite_none_right_eq_some] at h
    obtain ⟨hrun, hn⟩ := h
    obtain rfl := Option.some.inj hn
    have hdigits := take_hexRun 4 rest
    have hlength := length_take_hexRun 4 rest
    rw [hrun] at hdigits hlength
    exact .short hdigits hlength
  by_cases hU : c = 'U'
  · subst hU
    rw [escapeLength?_long, Option.ite_none_right_eq_some] at h
    obtain ⟨hrun, hn⟩ := h
    obtain rfl := Option.some.inj hn
    have hdigits := take_hexRun 8 rest
    have hlength := length_take_hexRun 8 rest
    rw [hrun] at hdigits hlength
    exact .long hdigits hlength
  · simp [escapeLength?, hletter, hx, hu, hU] at h

/-- Where an escape stands the length function takes it, or a longer one. -/
theorem escapeLength?_complete {word : List Char} (hword : Escape word) (rest : List Char) :
    ∃ n, escapeLength? (word ++ rest) = some n ∧ word.length ≤ n := by
  cases hword with
  | letter hc =>
    exact ⟨2, escapeLength?_letter (isEscapeLetter_iff.2 hc) rest, Nat.le_refl 2⟩
  | @byte digits hdigits hpos hle =>
    have hrun := le_hexRun hdigits hle rest
    refine ⟨hexRun 4 (digits ++ rest) + 2, ?_, Nat.add_le_add_right hrun 2⟩
    show escapeLength? ('\\' :: 'x' :: (digits ++ rest)) = _
    rw [escapeLength?_byte, if_neg (by omega)]
  | @short digits hdigits hlength =>
    have hrun := le_hexRun hdigits hlength.le rest
    have hlimit := hexRun_le_limit 4 (digits ++ rest)
    refine ⟨6, ?_, by simp [hlength]⟩
    show escapeLength? ('\\' :: 'u' :: (digits ++ rest)) = _
    rw [escapeLength?_short, if_pos (by omega)]
  | @long digits hdigits hlength =>
    have hrun := le_hexRun hdigits hlength.le rest
    have hlimit := hexRun_le_limit 8 (digits ++ rest)
    refine ⟨10, ?_, by simp [hlength]⟩
    show escapeLength? ('\\' :: 'U' :: (digits ++ rest)) = _
    rw [escapeLength?_long, if_pos (by omega)]

/-- An escape at the front of a text is no longer than what the length function takes. -/
theorem exists_of_mem_escapesAt {ahead : List Char} {n : Nat} (h : n ∈ escapesAt ahead) :
    ∃ m, escapeLength? ahead = some m ∧ n ≤ m := by
  obtain ⟨hle, hescape⟩ := h
  have hcomplete := escapeLength?_complete hescape (ahead.drop n)
  rwa [List.take_append_drop, List.length_take, Nat.min_eq_left hle] at hcomplete

/-- **The length function takes the longest escape.** -/
theorem escapeLength?_isGreatest {ahead : List Char} {n : Nat} (h : escapeLength? ahead = some n) :
    IsGreatest (escapesAt ahead) n := by
  refine ⟨⟨escapeLength?_le h, escapeLength?_sound h⟩, ?_⟩
  intro m hm
  obtain ⟨longest, hlongest, hle⟩ := exists_of_mem_escapesAt hm
  rw [h, Option.some.injEq] at hlongest
  exact hlongest ▸ hle

/-! ## Matches inside a string -/

section

variable (quote : Quote) (behind : Behind)

theorem not_isStringText_slash : isStringText quote '\\' = false := by
  simp [isStringText]

theorem stringText_scan_slash (rest : List Char) :
    (Rule.stringText quote).scan behind ('\\' :: rest) = none := by
  simp [Rule.stringText, stringTextLength, not_isStringText_slash, Match.single?, Piece.ofLength?]

/-- The quote of a string closes it. -/
theorem scan_closing (rest : List Char) :
    scan (.string quote) behind (quote.char :: rest) = closing := by
  cases quote <;> rfl

theorem scan_escape {rest : List Char} {n : Nat} (h : escapeLength? ('\\' :: rest) = some n) :
    ∃ hn : 0 < n, scan (.string quote) behind ('\\' :: rest) =
      ⟨⟨.stringEscape, n, hn⟩, [], .stay⟩ := by
  obtain ⟨c, digits, htake, -⟩ := take_escapeLength? h
  have hn : 0 < n := by
    rw [Nat.pos_iff_ne_zero]
    rintro rfl
    exact absurd htake (by simp)
  have hrule : Rule.stringEscape.scan behind ('\\' :: rest) =
      some ⟨⟨.stringEscape, n, hn⟩, [], .stay⟩ := by
    simp only [Rule.stringEscape, h, Option.bind_some]
    exact Match.single?_of_pos hn .stay
  refine ⟨hn, ?_⟩
  simp only [scan, rulesOf, stringRules, List.findSome?_cons, stringText_scan_slash, hrule,
    Option.getD_some]

/-- Without an escape a backslash takes the character behind it, unless that ends the line. -/
theorem scan_no_escape {rest : List Char} (h : escapeLength? ('\\' :: rest) = none) :
    ∃ (n : Nat) (hn : 0 < n), scan (.string quote) behind ('\\' :: rest) =
        ⟨⟨.stringEscapeInvalid, n, hn⟩, [], .stay⟩ ∧
      ('\\' :: rest).take n =
        '\\' :: (rest.head?.filter fun c => c != '\n' && c != '\r').toList := by
  have hescape : Rule.stringEscape.scan behind ('\\' :: rest) = none := by
    simp only [Rule.stringEscape, h, Option.bind_none]
  have hinvalid : ∀ n (hn : 0 < n), invalidEscapeLength? ('\\' :: rest) = some n →
      scan (.string quote) behind ('\\' :: rest) =
        ⟨⟨.stringEscapeInvalid, n, hn⟩, [], .stay⟩ := by
    intro n hn hlength
    have hrule : Rule.stringEscapeInvalid.scan behind ('\\' :: rest) =
        some ⟨⟨.stringEscapeInvalid, n, hn⟩, [], .stay⟩ := by
      simp only [Rule.stringEscapeInvalid, hlength, Option.bind_some]
      exact Match.single?_of_pos hn .stay
    simp only [scan, rulesOf, stringRules, List.findSome?_cons, stringText_scan_slash, hescape,
      hrule, Option.getD_some]
  cases rest with
  | nil => exact ⟨1, Nat.one_pos, hinvalid 1 Nat.one_pos rfl, rfl⟩
  | cons c rest =>
    by_cases hc : isLineEnd c = true
    · refine ⟨1, Nat.one_pos, hinvalid 1 Nat.one_pos (by simp [invalidEscapeLength?, hc]), ?_⟩
      rcases isLineEnd_iff.1 hc with rfl | rfl
      · rfl
      · rfl
    · refine ⟨2, Nat.two_pos, hinvalid 2 Nat.two_pos (by simp [invalidEscapeLength?, hc]), ?_⟩
      obtain ⟨hfeed, hreturn⟩ : c ≠ '\n' ∧ c ≠ '\r' := by
        rw [isLineEnd_iff, not_or] at hc
        exact hc
      simp [Option.filter, hfeed, hreturn]

/-- The first lexeme of a body on which the match is of one piece. -/
theorem head?_bodyLexemes {body : List Char} (hne : body ≠ []) {kind : Token.Kind} {n : Nat}
    {hn : 0 < n} {shift : Shift}
    (h : scan (.string quote) .start body = ⟨⟨kind, n, hn⟩, [], shift⟩) :
    (bodyLexemes quote body).head? = some ⟨kind, String.ofList (body.take n)⟩ := by
  rw [bodyLexemes, lexemes_step _ _ hne, ModeStack.mode_ofMode, h]
  rfl

end

end TomlEditor.Lex

namespace TomlEditor.TokenStream

open TomlEditor.Lex

/-! ## Tokens of a string -/

/-- Behind the first `count` tokens comes one of the given kind on the given characters. -/
def GoesOnWith (tokens : List Token) (count : Nat) (kind : Token.Kind) (text : List Char) : Prop :=
  let start := endOf (tokens.take count)
  tokens[count]? =
    some ⟨kind, String.ofList text, ⟨start, start + (String.ofList text).utf8ByteSize⟩⟩

section

variable {text : String} {mode : Mode} {count : Nat} {quote : Quote} {body : List Char}
  (h : ((ofText text (.ofMode mode)).after count).state = .ofMode (.string quote))
  (hbody : ((ofText text (.ofMode mode)).after count).ahead = body)

include h hbody

theorem getElem?_of_body :
    (tokenize text (.ofMode mode)).1[count]? =
      (bodyLexemes quote body).head?.map
        (placed (endOf ((tokenize text (.ofMode mode)).1.take count))) := by
  obtain ⟨before, -, hsize, htokens⟩ := tokens_from h
  rw [hbody, hsize] at htokens
  rw [← List.head?_drop, htokens]
  cases bodyLexemes quote body <;> rfl

/-- A match of one piece gives the next token. -/
theorem goesOnWith_of_scan {kind : Token.Kind} {n : Nat} {hn : 0 < n} {shift : Shift}
    (hne : body ≠ [])
    (hscan : scan (.string quote) .start body = ⟨⟨kind, n, hn⟩, [], shift⟩) :
    GoesOnWith (tokenize text (.ofMode mode)).1 count kind (body.take n) := by
  rw [GoesOnWith, getElem?_of_body h hbody, head?_bodyLexemes quote hne hscan]
  rfl

end

/-- What comes next at a place inside a string where the lexer stands. -/
structure StringGoesOn (tokens : List Token) (count : Nat) (quote : Quote) (ahead : List Char) :
    Prop where
  /-- Where an escape stands, the longest one is taken. -/
  escape : (∃ n, n ∈ escapesAt ahead) → ∃ n, IsGreatest (escapesAt ahead) n ∧
    GoesOnWith tokens count .stringEscape (ahead.take n)
  /-- Any other backslash takes the character behind it, unless that ends the line. -/
  invalid : ∀ rest, ahead = '\\' :: rest → (∀ n, n ∉ escapesAt ahead) →
    GoesOnWith tokens count .stringEscapeInvalid
      ('\\' :: (rest.head?.filter fun c => c != '\n' && c != '\r').toList)
  /-- Elsewhere there is text up to the next backslash or the quote. -/
  literal : ∀ c rest, ahead = c :: rest → c ≠ '\\' → c ≠ quote.char →
    GoesOnWith tokens count .stringLiteral
      (ahead.takeWhile fun c => c != quote.char && c != '\\')

theorem stringGoesOn {text : String} {mode : Mode} {count : Nat} {quote : Quote}
    {body : List Char}
    (h : ((ofText text (.ofMode mode)).after count).state = .ofMode (.string quote))
    (hbody : ((ofText text (.ofMode mode)).after count).ahead = body) :
    StringGoesOn (tokenize text (.ofMode mode)).1 count quote body := by
  refine ⟨?_, ?_, ?_⟩
  · rintro ⟨m, hm⟩
    obtain ⟨n, hn, -⟩ := exists_of_mem_escapesAt hm
    obtain ⟨rest, rfl⟩ := exists_slash_of_escapeLength? hn
    obtain ⟨hpos, hscan⟩ := scan_escape quote .start hn
    exact ⟨n, escapeLength?_isGreatest hn,
      goesOnWith_of_scan h hbody (List.cons_ne_nil _ _) hscan⟩
  · rintro rest rfl hnone
    have hlength : escapeLength? ('\\' :: rest) = none := by
      cases hfound : escapeLength? ('\\' :: rest) with
      | none => rfl
      | some n => exact absurd (escapeLength?_isGreatest hfound).1 (hnone n)
    obtain ⟨n, hpos, hscan, htake⟩ := scan_no_escape quote .start hlength
    rw [← htake]
    exact goesOnWith_of_scan h hbody (List.cons_ne_nil _ _) hscan
  · rintro c rest rfl hslash hquote
    have hc : isRun (.string quote) c = true := by
      simp [isRun, isStringText, hslash, hquote]
    have hnext := goesOnWith_of_scan h hbody (List.cons_ne_nil _ _) (scan_run hc .start rest)
    rw [take_length_takeWhile] at hnext
    exact hnext

/-- A token that is an escape, good or bad, is found at a backslash. -/
theorem exists_slash_of_escape {text : String} {mode : Mode} {count : Nat} {quote : Quote}
    (h : ((ofText text (.ofMode mode)).after count).state = .ofMode (.string quote))
    {token : Token} (htoken : (tokenize text (.ofMode mode)).1[count]? = some token)
    (hkind : token.kind ≠ .stringLiteral) :
    ∃ rest, ((ofText text (.ofMode mode)).after count).ahead = '\\' :: rest := by
  cases hbody : ((ofText text (.ofMode mode)).after count).ahead with
  | nil =>
    rw [getElem?_of_body h hbody] at htoken
    simp [bodyLexemes] at htoken
  | cons c rest =>
    by_cases hslash : c = '\\'
    · exact ⟨rest, by rw [hslash]⟩
    · -- The quote and the text of a string are literal.
      obtain ⟨chars, hnext⟩ : ∃ chars,
          GoesOnWith (tokenize text (.ofMode mode)).1 count .stringLiteral chars := by
        by_cases hquote : c = quote.char
        · subst hquote
          exact ⟨_, goesOnWith_of_scan h hbody (List.cons_ne_nil _ _) (scan_closing quote .start rest)⟩
        · exact ⟨_, (stringGoesOn h hbody).literal c rest rfl hslash hquote⟩
      rw [GoesOnWith, htoken, Option.some.injEq] at hnext
      rw [hnext] at hkind
      exact absurd rfl hkind

/-- **Escapes are classified by their grammar.** Wherever the lexer stands inside a string, the next
token is told by the text ahead: an escape is taken as long as the grammar allows, a backslash that
starts no escape is taken with the character behind it unless that ends the line, and on any other
character but the quote there is text up to the next backslash or quote. Conversely the tokens that
are escapes, good or bad, are all found at a backslash inside a string. -/
theorem escapes_are_classified (text : String) (mode : Mode) :
    let tokens := (tokenize text (.ofMode mode)).1
    let state := fun calls => ((ofText text (.ofMode mode)).after calls).state
    let ahead := fun calls => ((ofText text (.ofMode mode)).after calls).ahead
    (∀ count quote, state count = .ofMode (.string quote) →
      (∃ before : String, text = before ++ String.ofList (ahead count) ∧
        before.utf8ByteSize = endOf (tokens.take count)) ∧
      StringGoesOn tokens count quote (ahead count)) ∧
    ∀ count token, tokens[count]? = some token →
      token.kind = .stringEscape ∨ token.kind = .stringEscapeInvalid →
        ∃ quote rest, state count = .ofMode (.string quote) ∧ ahead count = '\\' :: rest := by
  intro tokens state ahead
  refine ⟨?_, ?_⟩
  · intro count quote hstring
    obtain ⟨before, htext, hsize, -⟩ := tokens_from hstring
    exact ⟨⟨before, htext, hsize⟩, stringGoesOn hstring rfl⟩
  · intro count token htoken hkind
    have hstate := ((standsIn_ofText text mode).after count).state_eq
    have hadmits := (lexemes_follow mode .start text.toList 0).1.admits htoken
    rw [remaining_ofText] at hstate
    cases hmode : (tokens.take count).foldl Mode.afterToken mode with
    | root =>
      -- No escape can stand at the top level.
      have hroot : Mode.root.Admits token := hmode ▸ hadmits
      rcases hkind with hescape | hinvalid
      · exact absurd hescape hroot.1
      · exact absurd hinvalid hroot.2.1
    | string quote =>
      have hstring : state count = .ofMode (.string quote) := hstate.trans (congrArg _ hmode)
      have hliteral : token.kind ≠ .stringLiteral := by
        rcases hkind with hescape | hinvalid
        · simp [hescape]
        · simp [hinvalid]
      obtain ⟨rest, hahead⟩ := exists_slash_of_escape hstring htoken hliteral
      exact ⟨quote, rest, hstring, hahead⟩

/-- Too few digits behind `u`: the backslash takes the `u`, and the digits are text. -/
example : (tokenize "\\x41f02\\u12g\\" (.ofMode (.string .double))).1.map
    (fun token => (token.kind, token.text)) =
      [(.stringEscape, "\\x41f0"), (.stringLiteral, "2"), (.stringEscapeInvalid, "\\u"),
        (.stringLiteral, "12g"), (.stringEscapeInvalid, "\\")] := by
  decide +kernel

end TomlEditor.TokenStream
