import TomlEditor.Proofs.Lex.CarriageReturn
import TomlEditor.Proofs.Lex.Heads
import TomlEditor.Proofs.Lex.Resumption
import TomlEditor.Proofs.Lex.Scalars

/-!
# No token ends too early

At the top level a match ends beside a word, or its last character is of no word:
values are bounded, keys end with their equals sign, comments with their line, and
the fallback takes all of a word. Whether the text behind a place ends in the
middle of a word therefore depends on the last match alone, and no place that the
lexer reaches lies inside a word. With that no value can be of unknown kind,
because the rule for it would have matched. Runs end where their class ends, so
two tokens of one kind only lie side by side where a quote is between them.
-/

namespace TomlEditor.Lex

open Text

/-! ## Ends of matches -/

/-- A word goes on from one text into the next. -/
def SplitsWord (front rest : List Char) : Prop :=
  front.getLast?.any isWord = true ∧ rest.head?.any isWord = true

theorem not_splitsWord_of_last {front rest : List Char} {c : Char}
    (hlast : front.getLast? = some c) (hc : isWord c = false) : ¬SplitsWord front rest := by
  rintro ⟨hfront, -⟩
  rw [hlast, Option.any_some, hc] at hfront
  exact absurd hfront (by decide)

theorem not_splitsWord_of_next {front rest : List Char}
    (hrest : rest.head?.any isWord = false) : ¬SplitsWord front rest := by
  rintro ⟨-, hnext⟩
  rw [hrest] at hnext
  exact absurd hnext (by decide)

/-- The last character of what a match covers, from the characters before it. -/
theorem getLast?_take (front : List Char) (c : Char) (rest : List Char) :
    ((front ++ c :: rest).take (front.length + 1)).getLast? = some c := by
  have hfront : (front ++ c :: rest).take (front.length + 1) = front ++ [c] := by
    rw [List.take_append, List.take_of_length_le (Nat.le_succ _)]
    simp
  rw [hfront, List.getLast?_concat]

theorem isWord_quote (quote : Quote) : isWord quote.char = false := by
  cases quote <;> decide

/-- A value ends beside no word. -/
theorem Scalar.rule_ends (scalar : Scalar) {behind : Behind} {ahead : List Char} {found : Match}
    (h : scalar.rule.scan behind ahead = some found) :
    (ahead.drop found.length).head?.any isWord = false := by
  obtain ⟨kind, hscan⟩ := scalar.rule_scan behind ahead
  rw [hscan] at h
  obtain ⟨n, hn, hfound⟩ := Option.bind_eq_some_iff.1 h
  obtain ⟨length, -, hbounded⟩ := List.exists_of_findSome?_eq_some hn
  obtain ⟨rfl, -, hafter⟩ := bounded_eq_some_iff.1 hbounded
  rw [Match.single?_length hfound]
  exact hafter

theorem Rule.header_ends {name : String} {kind : Token.Kind} {length? : List Char → Option Nat}
    {behind : Behind} {ahead : List Char} {found : Match}
    (hclose : ∀ {n}, length? ahead = some n → (ahead.take n).getLast? = some ']')
    (h : (Rule.header name kind length?).scan behind ahead = some found) :
    ¬SplitsWord (ahead.take found.length) (ahead.drop found.length) := by
  obtain ⟨n, hn, hfound⟩ := Option.bind_eq_some_iff.1 (Rule.header_eq_some h)
  rw [Match.single?_length hfound]
  exact not_splitsWord_of_last (hclose hn) (by decide)

theorem comment_ends {behind : Behind} {ahead : List Char} {found : Match}
    (h : Rule.comment.scan behind ahead = some found) :
    (ahead.drop found.length).head?.any isWord = false := by
  obtain ⟨n, hn, hfound⟩ := Option.bind_eq_some_iff.1 h
  rw [Match.single?_length hfound]
  cases ahead with
  | nil => simp [commentLength?] at hn
  | cons c rest =>
    rw [commentLength?_cons, Option.ite_none_right_eq_some, Option.some.injEq] at hn
    obtain ⟨-, rfl⟩ := hn
    rw [List.drop_succ_cons, drop_length_takeWhile]
    apply head?_any_false _ (head?_dropWhile_any (fun c => !isLineEnd c) rest)
    intro c hc
    have hne : isLineEnd c ≠ true := by
      intro hend
      rcases isLineEnd_iff.1 hend with rfl | rfl
      · exact absurd hc (by decide)
      · exact absurd hc (by decide)
    simpa using hne

theorem key_ends {behind : Behind} {ahead : List Char} {found : Match}
    (h : Rule.key.scan behind ahead = some found) :
    (ahead.take found.length).getLast? = some '=' := by
  obtain ⟨-, name, gap, rest, hname, -, rfl, rfl⟩ := exists_key h
  have hlength : (keyMatch name gap hname.length_pos).length = (name ++ gap).length + 1 := by
    rw [← covered_pieces, keyMatch, Match.pieces, covered_cons, covered_append, covered_ofLength?,
      List.length_append, Nat.add_assoc]
    rfl
  rw [hlength, ← List.append_assoc]
  exact getLast?_take _ _ _

/-- The fallback takes all of a word, or one character that is of no word. -/
theorem unknown_cases {ahead : List Char} (h : ahead ≠ []) :
    (∃ word rest, ahead = word ++ rest ∧ word ≠ [] ∧ (∀ c ∈ word, isWord c = true) ∧
        rest.head?.any isWord = false ∧ (unknown ahead).length = word.length) ∨
      ∃ c rest, ahead = c :: rest ∧ isWord c = false ∧ (unknown ahead).length = 1 := by
  obtain ⟨c, rest, rfl⟩ := List.exists_cons_of_ne_nil h
  by_cases hc : isWord c = true
  · left
    obtain ⟨word, hsplit, hword, hrun⟩ := exists_run (Eq.refl ((c :: rest).dropWhile isWord))
    have hpos : 0 < word.length := hrun ▸ run_pos hc rest
    refine ⟨word, _, hsplit, List.ne_nil_of_length_pos hpos, hword, head?_dropWhile_any _ _, ?_⟩
    rw [unknown_length, hrun]
    omega
  · rw [Bool.not_eq_true] at hc
    refine .inr ⟨c, rest, rfl, hc, ?_⟩
    rw [unknown_length]
    simp [hc]

/-- What a rule of the top level finds does not end in a word. -/
theorem rootRule_ends {rule : Rule} (hrule : rule ∈ rootRules) {behind : Behind}
    {ahead : List Char} {found : Match} (h : rule.scan behind ahead = some found) :
    ¬SplitsWord (ahead.take found.length) (ahead.drop found.length) := by
  -- One case for each rule, in the order of `rootRules`.
  simp only [rootRules, List.mem_cons, List.not_mem_nil, or_false] at hrule
  rcases hrule with rfl | rfl | rfl | rfl | rfl | rfl | rfl | rfl | rfl | rfl | rfl | rfl
  · exact not_splitsWord_of_next (comment_ends h)
  · apply Rule.header_ends _ h
    intro n hn
    obtain ⟨name, rest, rfl, -, rfl⟩ := exists_header_of_arrayTableHeaderLength? hn
    simpa using getLast?_take ('[' :: '[' :: (name ++ [']'])) ']' rest
  · apply Rule.header_ends _ h
    intro n hn
    obtain ⟨name, rest, rfl, -, rfl⟩ := exists_header_of_tableHeaderLength? hn
    exact getLast?_take ('[' :: name) ']' rest
  · exact not_splitsWord_of_last (key_ends h) (by decide)
  · exact not_splitsWord_of_next (Scalar.dateTimeTz.rule_ends h)
  · exact not_splitsWord_of_next (Scalar.dateTime.rule_ends h)
  · exact not_splitsWord_of_next (Scalar.date.rule_ends h)
  · exact not_splitsWord_of_next (Scalar.float.rule_ends h)
  · exact not_splitsWord_of_next (Scalar.integer.rule_ends h)
  · exact not_splitsWord_of_next (Scalar.boolean.rule_ends h)
  · obtain ⟨quote, hquote, rfl⟩ := Option.map_eq_some_iff.1 h
    obtain ⟨c, hc, hchar⟩ := Option.bind_eq_some_iff.1 hquote
    obtain ⟨rest, rfl⟩ := List.head?_eq_some_iff.1 hc
    obtain rfl := Quote.ofChar?_eq_some_iff.1 hchar
    exact not_splitsWord_of_last (getLast?_take [] quote.char rest) (isWord_quote quote)
  · rw [Match.single?_length h, take_length_takeWhile]
    cases hlast : (ahead.takeWhile isWhite).getLast? with
    | none => exact fun hsplits => absurd hsplits.1 (by simp [hlast])
    | some c =>
      have hwhite := List.all_eq_true.1 List.all_takeWhile c (List.mem_of_getLast? hlast)
      exact not_splitsWord_of_last hlast (not_of_isWhite (by decide) hwhite)

theorem scan_root_ends (behind : Behind) {ahead : List Char} (h : ahead ≠ []) :
    ¬SplitsWord (ahead.take (scan .root behind ahead).length)
      (ahead.drop (scan .root behind ahead).length) := by
  rcases scan_cases .root behind ahead with ⟨rule, hrule, hfound⟩ | ⟨-, hfound⟩
  · exact rootRule_ends hrule hfound
  · rw [hfound]
    rcases unknown_cases h with ⟨word, rest, rfl, -, -, hrest, hlength⟩ | ⟨c, rest, rfl, hc, hlength⟩
    · rw [hlength, List.drop_left]
      exact not_splitsWord_of_next hrest
    · rw [hlength]
      exact not_splitsWord_of_last (getLast?_take [] c rest) hc

/-! ## Places between words -/

section

variable {start mode : Mode} {text ahead : List Char} {before : List Lexeme}

/-- The last character behind a match is the last one that it covers. -/
theorem getLast?_charsOf_cut {found : Match} (hne : ahead ≠ []) (hle : found.length ≤ ahead.length)
    (before : List Lexeme) :
    (charsOf (before ++ cut found.pieces ahead)).getLast? =
      (ahead.take found.length).getLast? := by
  have htake : ahead.take found.length ≠ [] := by
    rw [ne_eq, List.take_eq_nil_iff, not_or]
    exact ⟨Nat.ne_of_gt found.length_pos, hne⟩
  rw [charsOf_append, charsOf_cut hle, List.getLast?_append,
    List.getLast?_eq_some_getLast htake, Option.some_or]

/-- **No place at the top level lies inside a word.** It is the last match that sees to it. -/
theorem Reached.between_words (h : Reached start text .root before ahead) :
    ¬SplitsWord (charsOf before) ahead := by
  cases h with
  | start =>
    rintro ⟨hlast, -⟩
    exact absurd hlast (by simp)
  | @step mode _ before ahead found h hne hfound hnext =>
    have hle : found.length ≤ ahead.length := hfound ▸ scan_length_le mode _ hne
    rw [SplitsWord, getLast?_charsOf_cut hne hle]
    subst hfound
    cases mode with
    | root => exact scan_root_ends _ hne
    | string quote =>
      -- The top level is only reached by the quote that closes the string.
      rcases scan_string_cases quote (behindOf before) hne with ⟨kind, n, hn, -, -, hscan⟩ |
        ⟨rest, rfl, hscan⟩
      · rw [hscan] at hnext
        exact absurd (congrArg ModeStack.mode hnext) (by simp [Shift.apply])
      · rw [hscan]
        exact not_splitsWord_of_last (getLast?_take [] quote.char rest) (isWord_quote quote)

/-- A run ends where its class ends. -/
theorem Reached.run_ended (h : Reached start text mode before ahead) {lexeme : Lexeme}
    (hlast : lexeme ∈ before.getLast?) (hon : mode.goesOn lexeme.kind lexeme.text = true) :
    ahead.head?.any (isRun mode) = false := by
  cases h with
  | start => simp at hlast
  | @step last _ before ahead found h hne hfound hnext =>
    obtain ⟨c, rest, rfl⟩ := List.exists_cons_of_ne_nil hne
    subst hfound
    have hcut : cut (scan last (behindOf before) (c :: rest)).pieces (c :: rest) ≠ [] := by
      simp [Match.pieces, cut]
    rw [List.getLast?_append, List.getLast?_eq_some_getLast hcut, Option.some_or,
      ← List.getLast?_eq_some_getLast hcut] at hlast
    by_cases hc : isRun last c = true
    · rw [scan_run hc] at hnext ⊢
      obtain rfl : last = mode := by
        have hsame := congrArg ModeStack.mode hnext
        rwa [Shift.apply, ModeStack.mode_ofMode, ModeStack.mode_ofMode] at hsame
      have hdrop := drop_length_takeWhile (isRun last) (c :: rest)
      simp only [Match.length, Match.pieces, List.foldr_cons, List.foldr_nil, Nat.add_zero, hdrop]
      exact head?_dropWhile_any (isRun last) (c :: rest)
    · rw [Bool.not_eq_true] at hc
      rw [goesOn_scan hc hnext lexeme hlast] at hon
      exact absurd hon (by decide)

end

/-- Where no run goes on, a match that stays in the mode is none. -/
theorem scan_first_ne {mode : Mode} {c : Char} (hc : isRun mode c = false) {behind : Behind}
    {rest : List Char} (hshift : (scan mode behind (c :: rest)).shift = .stay) :
    (scan mode behind (c :: rest)).first.kind ≠ runKind mode := by
  by_cases hmore : (scan mode behind (c :: rest)).more = []
  · have hlast := lastKind_ne_runKind hc hshift
    rwa [Match.lastKind, hmore] at hlast
  · obtain ⟨rfl, hkey⟩ := scan_key_of_more (List.cons_ne_nil c rest) hmore
    obtain ⟨-, name, gap, tail, hname, -, -, hfound⟩ := exists_key hkey
    rw [hfound]
    exact Token.Kind.noConfusion

/-- Where a value stands free its rule matches. -/
theorem Scalar.not_standsFree {scalar : Scalar} {behind : Behind} {ahead : List Char}
    (h : scalar.rule.scan behind ahead = none) (n : Nat) :
    ¬StandsFree scalar.grammar.matches' behind ahead n := by
  have hcandidates := scalar.isCandidates ahead
  obtain ⟨kind, hscan⟩ := scalar.rule_scan behind ahead
  rw [hscan] at h
  apply hcandidates.findSome?_eq_none_iff.1
  cases hfirst : (scalar.lengths ahead).findSome? (bounded behind ahead) with
  | none => rfl
  | some length =>
    rw [hfirst, Option.bind_some, Match.single?_of_pos (scalar.pos_of_findSome? hfirst)] at h
    exact absurd h (by simp)

/-- Every value has a letter or a digit in it. -/
theorem Scalar.exists_isWord (scalar : Scalar) {word : List Char}
    (h : word ∈ scalar.grammar.matches') : ∃ c ∈ word, isWord c = true := by
  have hmeets : Grammar.meets isWord scalar.grammar = true := by
    cases scalar <;> decide
  exact exists_of_meets hmeets h

/-! ## Lexemes of a text -/

section

variable {start : Mode} {text : List Char} {before after : List Lexeme}

/-- The mode behind some lexemes at the start of a text. -/
def modeBehind (start : Mode) (before : List Lexeme) : Mode :=
  (place 0 before).foldl Mode.afterToken start

theorem modeBehind_concat (start : Mode) (before : List Lexeme) (lexeme : Lexeme) :
    modeBehind start (before ++ [lexeme]) =
      (modeBehind start before).afterToken (placed (byteCount before) lexeme) := by
  simp [modeBehind, place_append]

/-- At the top level no lexeme ends inside a word. -/
theorem not_splitsWord_of_root
    (hsplit : (lexemes (.ofMode start) .start text).1 = before ++ after)
    (hroot : modeBehind start before = .root) : ¬SplitsWord (charsOf before) (charsOf after) := by
  cases after with
  | nil => exact not_splitsWord_of_next rfl
  | cons lexeme after =>
    rcases match_or_key hsplit with ⟨mode, ahead, hreached, -, -⟩ | ⟨c, gap, name, hc, rfl, -⟩ | rfl
    · obtain rfl : mode = .root := hreached.mode_eq.symm.trans hroot
      have hahead : ahead = charsOf (lexeme :: after) := by
        have htext := charsOf_lexemes (.ofMode start) .start text
        rw [hsplit, charsOf_append, ← hreached.text_eq, List.append_cancel_left_eq] at htext
        exact htext.symm
      rw [← hahead]
      exact hreached.between_words
    · apply not_splitsWord_of_next
      rw [charsOf_cons, String.toList_ofList]
      rcases hc with rfl | rfl
      · rfl
      · rfl
    · exact not_splitsWord_of_next rfl

/-- The white space of a text is not cut in two. -/
theorem not_whitespace_twice {first second : Lexeme}
    (hsplit : (lexemes (.ofMode start) .start text).1 = before ++ first :: second :: after) :
    ¬(first.kind = .whitespace ∧ second.kind = .whitespace) := by
  rintro ⟨hfirst, hsecond⟩
  rw [List.append_cons] at hsplit
  rcases match_or_key hsplit with ⟨mode, ahead, hreached, hne, rfl⟩ |
    ⟨c, gap, name, -, -, hlast, hname⟩ | rfl
  · cases mode with
    | string quote =>
      have hstring := scan_string_kind quote (behindOf (before ++ [first])) hne
      rw [Match.head_kind] at hsecond
      rw [hsecond] at hstring
      exact absurd hstring (by decide)
    | root =>
      obtain ⟨c, rest, rfl⟩ := List.exists_cons_of_ne_nil hne
      have hended : isRun .root c = false :=
        hreached.run_ended (by simp) (beq_iff_eq.2 hfirst)
      rcases scan_root_cases (behindOf (before ++ [first])) (c :: rest) with
        ⟨hstay, -⟩ | ⟨quote, tail, -, hopening⟩
      · exact scan_first_ne hended hstay hsecond
      · rw [hopening] at hsecond
        exact Token.Kind.noConfusion hsecond
  · -- The blanks of a key come right behind its name.
    rw [List.getLast?_concat, Option.some.injEq] at hlast
    rw [hlast, hname] at hfirst
    exact Token.Kind.noConfusion hfirst
  · exact Token.Kind.noConfusion hsecond

/-- A quote that opens a string, or closes the one that it opened. -/
def OpensOrCloses (mode next : Mode) (text : String) : Prop :=
  ∃ quote : Quote, text = quote.text ∧
    ((mode = .root ∧ next = .string quote) ∨ (mode = .string quote ∧ next = .root))

/-- The text of a string is not cut in two. -/
theorem opensOrCloses_of_literals {first second : Lexeme}
    (hsplit : (lexemes (.ofMode start) .start text).1 = before ++ first :: second :: after)
    (hfirst : first.kind = .stringLiteral) (hsecond : second.kind = .stringLiteral) :
    OpensOrCloses (modeBehind start before) (modeBehind start (before ++ [first])) first.text ∨
      OpensOrCloses (modeBehind start (before ++ [first]))
        (modeBehind start (before ++ [first, second])) second.text := by
  rw [List.append_cons] at hsplit
  have hnext := modeBehind_concat start (before ++ [first]) second
  rw [List.append_assoc, List.singleton_append] at hnext
  obtain ⟨mode, ahead, hreached, hne, rfl⟩ :=
    exists_match hsplit (by simp [hsecond]) (by simp [hsecond])
  have hmode : modeBehind start (before ++ [first]) = mode := hreached.mode_eq
  rw [hnext, hmode]
  cases mode with
  | root =>
    -- At the top level only a quote is literal, and it opens a string.
    right
    rcases scan_root_cases (behindOf (before ++ [first])) ahead with
      ⟨-, hpieces⟩ | ⟨quote, rest, rfl, hopening⟩
    · have hother := hpieces _ List.mem_cons_self
      rw [Match.head_kind] at hsecond
      rw [hsecond] at hother
      exact absurd hother (by decide)
    · rw [hopening]
      exact ⟨quote, rfl, .inl ⟨rfl, Mode.afterToken_root_quote rfl rfl⟩⟩
  | string quote =>
    by_cases htext : first.text = quote.text
    · -- Text of the string is never just its quote, so the first one opened the string.
      left
      refine ⟨quote, htext, .inl ⟨?_, rfl⟩⟩
      rw [modeBehind_concat] at hmode
      cases hbefore : modeBehind start before with
      | root => rfl
      | string opened =>
        rw [hbefore] at hmode
        by_cases hclose : first.text = opened.text
        · rw [Mode.afterToken_string_quote hfirst hclose] at hmode
          exact Mode.noConfusion hmode
        · have hstay : (Mode.string opened).afterToken (placed (byteCount before) first) =
              .string opened := if_neg fun h => hclose h.2
          rw [hstay, Mode.string.injEq] at hmode
          exact absurd (hmode ▸ htext) hclose
    · right
      obtain ⟨c, tail, rfl⟩ := List.exists_cons_of_ne_nil hne
      have hon : (Mode.string quote).goesOn first.kind first.text = true := by
        simp [Mode.goesOn, hfirst, htext]
      have hended : isRun (.string quote) c = false := hreached.run_ended (by simp) hon
      rcases scan_string_cases quote (behindOf (before ++ [first])) hne with
        ⟨kind, n, hn, -, -, hscan⟩ | ⟨rest, hahead, hscan⟩
      · exact absurd hsecond (scan_first_ne hended (by rw [hscan]))
      · rw [hscan, hahead]
        exact ⟨quote, rfl, .inr ⟨rfl, Mode.afterToken_string_quote rfl rfl⟩⟩

/-- No value is of unknown kind. -/
theorem not_mem_grammar_of_unknown {lexeme : Lexeme}
    (hsplit : (lexemes (.ofMode start) .start text).1 = before ++ lexeme :: after)
    (hunknown : lexeme.kind = .unknown) (scalar : Scalar) :
    lexeme.text.toList ∉ scalar.grammar.matches' := by
  intro hmem
  have hother : lexeme.kind.isOfString = false := by rw [hunknown]; rfl
  obtain ⟨ahead, hreached, hne, rfl⟩ :=
    exists_root_match hsplit hother (by simp [hunknown]) (by simp [hunknown])
  rcases scan_cases .root (behindOf before) ahead with ⟨rule, hrule, hfound⟩ | ⟨hnone, hfound⟩
  · exact rootRule_ne_unknown hrule hfound hunknown
  · have hlength : (unknown ahead).first.length = (unknown ahead).length :=
      (unknown_length ahead).symm
    rw [hfound, Match.head, String.toList_ofList, hlength] at hmem
    rcases unknown_cases hne with ⟨word, rest, rfl, hword, hclass, hrest, hlength⟩ |
      ⟨c, rest, rfl, hc, hlength⟩
    · -- A word at a place between words stands free.
      have hbefore : (behindOf before).afterWord = false := by
        rw [behindOf, afterWord_after, Bool.eq_false_iff]
        intro hlast
        obtain ⟨c, more, rfl⟩ := List.exists_cons_of_ne_nil hword
        exact hreached.between_words ⟨hlast, hclass c List.mem_cons_self⟩
      rw [hlength] at hmem
      refine Scalar.not_standsFree (hnone scalar.rule scalar.rule_mem) word.length ?_
      refine ⟨by simp, hmem, hbefore, ?_⟩
      rwa [List.drop_left]
    · obtain ⟨d, hd, hword⟩ := scalar.exists_isWord hmem
      rw [hlength] at hd
      obtain rfl : d = c := by simpa using hd
      rw [hc] at hword
      exact absurd hword (by decide)

end

end TomlEditor.Lex

namespace TomlEditor.TokenStream

open TomlEditor.Lex Text

/-! ## Tokens of a text -/

/-- What holds of tokens that are as long as they can be, with the states that a stream is in after
so many of them. -/
structure Munches (text : String) (tokens : List Token) (state : Nat → ModeStack) : Prop where
  /-- At the top level the bytes on both sides of the end of a token are not both of a word. -/
  words : ∀ count, state count = .root →
    let cut := endOf (tokens.take count)
    ¬(((bytes text).take cut).getLast?.any isWordByte = true ∧
      ((bytes text).drop cut).head?.any isWordByte = true)
  /-- White space is not cut in two. -/
  blanks : ∀ (place : Nat) (first second : Token), tokens[place]? = some first →
    tokens[place + 1]? = some second → ¬(first.kind = .whitespace ∧ second.kind = .whitespace)
  /-- Where two literals of strings lie side by side, one of them is a quote that opens or closes
  a string. -/
  literals : ∀ (place : Nat) (first second : Token), tokens[place]? = some first →
    tokens[place + 1]? = some second → first.kind = .stringLiteral →
    second.kind = .stringLiteral →
      OpensOrCloses (state place).mode (state (place + 1)).mode first.text ∨
        OpensOrCloses (state (place + 1)).mode (state (place + 2)).mode second.text
  /-- No date, number or boolean is of unknown kind. -/
  values : ∀ token ∈ tokens, token.kind = .unknown →
    ∀ scalar : Scalar, token.text.toList ∉ scalar.grammar.matches'

/-- The bytes on both sides of a cut between lexemes. -/
theorem bytes_of_cut {text : String} {before after : List Lexeme}
    (h : charsOf before ++ charsOf after = text.toList) :
    (bytes text).take (byteCount before) = bytes (String.ofList (charsOf before)) ∧
      (bytes text).drop (byteCount before) = bytes (String.ofList (charsOf after)) := by
  have hsplit : bytes text =
      bytes (String.ofList (charsOf before)) ++ bytes (String.ofList (charsOf after)) := by
    rw [← bytes_append, ← String.ofList_append, h, String.ofList_toList]
  rw [hsplit, byteCount_eq_charsOf, ← length_bytes]
  exact ⟨List.take_left, List.drop_left⟩

theorem drop_of_getElem? {α : Type} {items : List α} {place : Nat} {item : α}
    (h : items[place]? = some item) : items.drop place = item :: items.drop (place + 1) := by
  obtain ⟨hlt, rfl⟩ := List.getElem?_eq_some_iff.1 h
  exact List.drop_eq_getElem_cons hlt

/-- A list taken apart at two items side by side. -/
theorem eq_append_of_getElem? {α : Type} {items : List α} {place : Nat} {first second : α}
    (hfirst : items[place]? = some first) (hsecond : items[place + 1]? = some second) :
    items = items.take place ++ first :: second :: items.drop (place + 2) := by
  rw [← drop_of_getElem? hsecond, ← drop_of_getElem? hfirst, List.take_append_drop]

/-- **Tokens are as long as they can be.** In a text lexed from any mode no token at the top level
ends inside a word, white space and the text of strings are not cut in two, and no date, number or
boolean is left unknown. -/
theorem tokens_munch (text : String) (mode : Mode) :
    Munches text (tokenize text (.ofMode mode)).1
      fun calls => ((ofText text (.ofMode mode)).after calls).state := by
  let lexed := (lexemes (.ofMode mode) .start text.toList).1
  have hstate : ∀ calls, ((ofText text (.ofMode mode)).after calls).state =
      .ofMode (modeBehind mode (lexed.take calls)) := by
    intro calls
    have hafter := ((standsIn_ofText text mode).after calls).state_eq
    rwa [remaining_ofText, tokenize, take_place] at hafter
  constructor
  · intro count hroot cut
    have hcut : cut = byteCount (lexed.take count) := by
      show endOf _ = _
      rw [tokenize, take_place, endOf_place]
    rw [hstate] at hroot
    have hmode := congrArg ModeStack.mode hroot
    rw [ModeStack.mode_ofMode, ModeStack.mode_root] at hmode
    have hsplit : lexed = lexed.take count ++ lexed.drop count :=
      (List.take_append_drop count lexed).symm
    have hchars : charsOf (lexed.take count) ++ charsOf (lexed.drop count) = text.toList := by
      rw [← charsOf_append, ← hsplit]
      exact charsOf_lexemes _ _ _
    obtain ⟨htake, hdrop⟩ := bytes_of_cut hchars
    rw [hcut, htake, hdrop, getLast?_bytes, head?_bytes]
    exact not_splitsWord_of_root hsplit hmode
  · intro count first second hfirst hsecond
    rw [tokenize, getElem?_place] at hfirst hsecond
    obtain ⟨one, hone, rfl⟩ := Option.map_eq_some_iff.1 hfirst
    obtain ⟨two, htwo, rfl⟩ := Option.map_eq_some_iff.1 hsecond
    exact not_whitespace_twice (eq_append_of_getElem? hone htwo)
  · intro count first second hfirst hsecond hfirstLiteral hsecondLiteral
    rw [tokenize, getElem?_place] at hfirst hsecond
    obtain ⟨one, hone, rfl⟩ := Option.map_eq_some_iff.1 hfirst
    obtain ⟨two, htwo, rfl⟩ := Option.map_eq_some_iff.1 hsecond
    have hnext : lexed.take (count + 1) = lexed.take count ++ [one] := by
      rw [List.take_add_one, hone, Option.toList_some]
    have hlast : lexed.take (count + 2) = lexed.take count ++ [one, two] := by
      rw [List.take_add_one, htwo, hnext, Option.toList_some, List.append_assoc]
      rfl
    simp only [hstate, ModeStack.mode_ofMode, hnext, hlast]
    exact opensOrCloses_of_literals (eq_append_of_getElem? hone htwo) hfirstLiteral
      hsecondLiteral
  · intro token htoken hunknown
    obtain ⟨before, lexeme, after, hsplit, rfl⟩ := mem_place htoken
    exact not_mem_grammar_of_unknown hsplit hunknown

/-- A number glued to a word is unknown as a whole, and a second point ends a float. -/
example :
    (tokenize "1x 1.5.2 'a'\"b\"" .root).1.map (fun token => (token.kind, token.text)) =
      [(.unknown, "1x"), (.whitespace, " "), (.float, "1.5"), (.unknown, "."), (.integer, "2"),
        (.whitespace, " "), (.stringLiteral, "'"), (.stringLiteral, "a"), (.stringLiteral, "'"),
        (.stringLiteral, "\""), (.stringLiteral, "b"), (.stringLiteral, "\"")] := by
  decide +kernel

end TomlEditor.TokenStream
