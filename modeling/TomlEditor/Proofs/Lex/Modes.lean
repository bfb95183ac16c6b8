import TomlEditor.Proofs.Lex.ByLine
import TomlEditor.Proofs.Lex.Tiling

/-!
# Tokens and modes

A token tells by its kind and its text what it does to the mode. At the top
level only a quote counts, and it opens a string; inside a string only the quote
of that string counts, and it closes the string. The state of the lexer is
therefore a fold over the tokens. This needs that the rules of a string match
everywhere, so that nothing in it is of unknown kind, and that its text never
consists of just the quote.
-/

namespace TomlEditor

/-! ## What tokens do to a mode -/

/-- The kinds of tokens that strings are made of. -/
def Token.Kind.isOfString : Token.Kind → Bool
  | .stringLiteral | .stringEscape | .stringEscapeInvalid => true
  | _ => false

theorem Token.Kind.isOfString_iff {kind : Token.Kind} :
    kind.isOfString = true ↔
      kind = .stringLiteral ∨ kind = .stringEscape ∨ kind = .stringEscapeInvalid := by
  cases kind <;> simp [isOfString]

/-- The text of a token that is just a quote. -/
def Quote.text (quote : Quote) : String :=
  String.singleton quote.char

theorem Quote.text_single_ne_double : single.text ≠ double.text := by
  decide

namespace Mode

/-- The mode behind a token: a quote opens a string at the top level, and closes the string that
was opened with it. -/
def afterToken : Mode → Token → Mode
  | .root, token =>
    if token.kind = .stringLiteral ∧ token.text = Quote.single.text then .string .single
    else if token.kind = .stringLiteral ∧ token.text = Quote.double.text then .string .double
    else .root
  | .string quote, token =>
    if token.kind = .stringLiteral ∧ token.text = quote.text then .root else .string quote

/-- At the top level a quote opens its string. -/
theorem afterToken_root_quote {token : Token} {quote : Quote} (hkind : token.kind = .stringLiteral)
    (htext : token.text = quote.text) : Mode.root.afterToken token = .string quote := by
  cases quote with
  | single => simp [afterToken, hkind, htext]
  | double => simp [afterToken, hkind, htext, Quote.text_single_ne_double.symm]

/-- Inside a string its quote closes it. -/
theorem afterToken_string_quote {token : Token} {quote : Quote}
    (hkind : token.kind = .stringLiteral) (htext : token.text = quote.text) :
    (Mode.string quote).afterToken token = .root :=
  if_pos ⟨hkind, htext⟩

/-- The tokens that can stand in a mode: inside a string only what strings are made of, and at the
top level no more of that than a single quote. -/
def Admits : Mode → Token → Prop
  | .root, token =>
    token.kind ≠ .stringEscape ∧ token.kind ≠ .stringEscapeInvalid ∧
      (token.kind = .stringLiteral → ∃ quote : Quote, token.text = quote.text)
  | .string _, token =>
    token.kind = .stringLiteral ∨ token.kind = .stringEscape ∨ token.kind = .stringEscapeInvalid

/-- Tokens of which each can stand in the mode behind the ones before it. -/
def Fits : Mode → List Token → Prop
  | _, [] => True
  | mode, token :: more => mode.Admits token ∧ (mode.afterToken token).Fits more

theorem fits_append {mode : Mode} {first second : List Token} :
    mode.Fits (first ++ second) ↔
      mode.Fits first ∧ (first.foldl afterToken mode).Fits second := by
  induction first generalizing mode with
  | nil => simp [Fits]
  | cons token more ih => simp only [List.cons_append, Fits, ih, List.foldl_cons, and_assoc]

theorem Fits.admits {mode : Mode} {tokens : List Token} (h : mode.Fits tokens) {place : Nat}
    {token : Token} (htoken : tokens[place]? = some token) :
    ((tokens.take place).foldl afterToken mode).Admits token := by
  induction tokens generalizing mode place with
  | nil => simp at htoken
  | cons first more ih =>
    cases place with
    | zero =>
      rw [List.getElem?_cons_zero, Option.some.injEq] at htoken
      exact htoken ▸ h.1
    | succ place => exact ih h.2 (by simpa using htoken)

theorem afterToken_of_not_isOfString {token : Token} (h : token.kind.isOfString = false)
    (mode : Mode) : mode.afterToken token = mode := by
  have hkind : token.kind ≠ .stringLiteral := by
    intro hkind
    rw [hkind] at h
    exact absurd h (by decide)
  cases mode with
  | root => simp [afterToken, hkind]
  | string quote => simp [afterToken, hkind]

theorem foldl_afterToken_of_not_isOfString {tokens : List Token}
    (h : ∀ token ∈ tokens, token.kind.isOfString = false) (mode : Mode) :
    tokens.foldl afterToken mode = mode := by
  induction tokens with
  | nil => rfl
  | cons token more ih =>
    rw [List.foldl_cons, afterToken_of_not_isOfString (h token List.mem_cons_self)]
    exact ih fun other hother => h other (List.mem_cons_of_mem _ hother)

theorem admits_root_of_not_isOfString {token : Token} (h : token.kind.isOfString = false) :
    Admits .root token := by
  rw [Bool.eq_false_iff, ne_eq, Token.Kind.isOfString_iff, not_or, not_or] at h
  obtain ⟨hliteral, hescape, hinvalid⟩ := h
  exact ⟨hescape, hinvalid, fun hkind => absurd hkind hliteral⟩

theorem fits_root_of_not_isOfString {tokens : List Token}
    (h : ∀ token ∈ tokens, token.kind.isOfString = false) : Fits .root tokens := by
  induction tokens with
  | nil => trivial
  | cons token more ih =>
    have htoken := h token List.mem_cons_self
    refine ⟨admits_root_of_not_isOfString htoken, ?_⟩
    rw [afterToken_of_not_isOfString htoken]
    exact ih fun other hother => h other (List.mem_cons_of_mem _ hother)

end Mode

namespace Lex

/-! ## Matches at the top level -/

/-- The match of a quote at the top level. -/
def opening (quote : Quote) : Match :=
  ⟨⟨.stringLiteral, 1, Nat.one_pos⟩, [], .enter quote⟩

/-- The match of the quote that a string was opened with. -/
def closing : Match :=
  ⟨⟨.stringLiteral, 1, Nat.one_pos⟩, [], .leave⟩

theorem bind_single?_eq_some {length? : Option Nat} {kind : Token.Kind} {found : Match}
    (h : (length?.bind fun n => Match.single? kind n .stay) = some found) :
    ∃ (n : Nat) (hn : 0 < n), found = ⟨⟨kind, n, hn⟩, [], .stay⟩ := by
  obtain ⟨n, -, hfound⟩ := Option.bind_eq_some_iff.1 h
  obtain ⟨hn, rfl⟩ := Match.single?_eq_some hfound
  exact ⟨n, hn, rfl⟩

theorem Rule.header_eq_some {name : String} {kind : Token.Kind}
    {length? : List Char → Option Nat} {behind : Behind} {ahead : List Char} {found : Match}
    (h : (Rule.header name kind length?).scan behind ahead = some found) :
    ((length? ahead).bind fun n => Match.single? kind n .stay) = some found := by
  simp only [Rule.header] at h
  split at h
  · exact h
  · simp at h

/-- A rule of the top level opens a string, finds a key, or finds one piece that leaves the mode
as it is and is not made for strings. -/
theorem rootRule_cases {rule : Rule} (hrule : rule ∈ rootRules) {behind : Behind}
    {ahead : List Char} {found : Match} (h : rule.scan behind ahead = some found) :
    (∃ (kind : Token.Kind) (n : Nat) (hn : 0 < n), kind.isOfString = false ∧
        found = ⟨⟨kind, n, hn⟩, [], .stay⟩) ∨
      rule = .key ∨
      ∃ quote rest, ahead = quote.char :: rest ∧ found = opening quote := by
  have hsingle : ∀ {length? : Option Nat} {kind : Token.Kind}, kind.isOfString = false →
      (length?.bind fun n => Match.single? kind n .stay) = some found →
      ∃ (kind : Token.Kind) (n : Nat) (hn : 0 < n), kind.isOfString = false ∧
        found = ⟨⟨kind, n, hn⟩, [], .stay⟩ := by
    intro length? kind hkind hfound
    obtain ⟨n, hn, hfound⟩ := bind_single?_eq_some hfound
    exact ⟨kind, n, hn, hkind, hfound⟩
  -- One case for each rule, in the order of `rootRules`.
  simp only [rootRules, List.mem_cons, List.not_mem_nil, or_false] at hrule
  rcases hrule with rfl | rfl | rfl | rfl | rfl | rfl | rfl | rfl | rfl | rfl | rfl | rfl
  · exact .inl (hsingle rfl h)
  · exact .inl (hsingle rfl (Rule.header_eq_some h))
  · exact .inl (hsingle rfl (Rule.header_eq_some h))
  · exact .inr (.inl rfl)
  · exact .inl (hsingle rfl h)
  · exact .inl (hsingle rfl h)
  · exact .inl (hsingle rfl h)
  · exact .inl (hsingle rfl h)
  · exact .inl (hsingle rfl h)
  · exact .inl (hsingle rfl h)
  · obtain ⟨quote, hquote, rfl⟩ := Option.map_eq_some_iff.1 h
    obtain ⟨c, hc, hchar⟩ := Option.bind_eq_some_iff.1 hquote
    obtain ⟨rest, rfl⟩ := List.head?_eq_some_iff.1 hc
    rw [Quote.ofChar?_eq_some_iff.1 hchar]
    exact .inr (.inr ⟨quote, rest, rfl, rfl⟩)
  · obtain ⟨hn, hfound⟩ := Match.single?_eq_some h
    exact .inl ⟨.whitespace, _, hn, rfl, hfound⟩

/-- A key, the spaces behind it and its equals sign leave the mode as it is. -/
theorem Rule.key_pieces {behind : Behind} {ahead : List Char} {found : Match}
    (h : Rule.key.scan behind ahead = some found) :
    found.shift = .stay ∧ ∀ piece ∈ found.pieces, piece.kind.isOfString = false := by
  simp only [Rule.key] at h
  split at h
  · obtain ⟨name, hname, hafter⟩ := Option.bind_eq_some_iff.1 h
    obtain ⟨gap, -, rfl⟩ := Option.map_eq_some_iff.1 hafter
    obtain ⟨hpos, rfl⟩ := Piece.ofLength?_eq_some hname
    refine ⟨rfl, fun piece hpiece => ?_⟩
    simp only [Match.pieces, List.mem_cons, List.mem_append, Option.mem_toList,
      List.not_mem_nil, or_false] at hpiece
    rcases hpiece with rfl | hspace | rfl
    · rfl
    · obtain ⟨hpos, rfl⟩ := Piece.ofLength?_eq_some hspace
      rfl
    · rfl
  · simp at h

/-- A key does not reach over the end of its line. -/
theorem Rule.key_feedless {behind : Behind} {ahead : List Char} {found : Match}
    (h : Rule.key.scan behind ahead = some found) :
    ∀ lexeme ∈ cut found.pieces ahead, '\n' ∉ lexeme.text.toList := by
  obtain ⟨line, tail, rfl, hline, htail⟩ := exists_line ahead
  rw [Rule.local_key behind line htail.lineTail] at h
  have hle : covered found.pieces ≤ line.length := Rule.key_le h
  rw [cut_append hle]
  exact fun lexeme hlexeme => (cut_feedless hline hle lexeme hlexeme).2

/-- At the top level a match opens a string, or it leaves the mode as it is and has nothing that
strings are made of. -/
theorem scan_root_cases (behind : Behind) (ahead : List Char) :
    ((scan .root behind ahead).shift = .stay ∧
        ∀ piece ∈ (scan .root behind ahead).pieces, piece.kind.isOfString = false) ∨
      ∃ quote rest, ahead = quote.char :: rest ∧ scan .root behind ahead = opening quote := by
  rcases scan_cases .root behind ahead with ⟨rule, hrule, hfound⟩ | ⟨-, hfound⟩
  · rcases rootRule_cases hrule hfound with ⟨kind, n, hn, hkind, hsingle⟩ | rfl | hopening
    · rw [hsingle]
      exact .inl ⟨rfl, by simp [Match.pieces, hkind]⟩
    · exact .inl (Rule.key_pieces hfound)
    · exact .inr hopening
  · rw [hfound]
    exact .inl ⟨rfl, by simp [Match.pieces, unknown, Token.Kind.isOfString]⟩

/-! ## Matches inside strings -/

/-- A rule of a string closes it, or finds one piece that is not just the quote. -/
theorem stringRule_cases {quote : Quote} {rule : Rule} (hrule : rule ∈ stringRules quote)
    {behind : Behind} {ahead : List Char} {found : Match}
    (h : rule.scan behind ahead = some found) :
    (∃ (kind : Token.Kind) (n : Nat) (hn : 0 < n), kind.isOfString = true ∧
        (kind = .stringLiteral → ahead.take n ≠ [quote.char]) ∧
        found = ⟨⟨kind, n, hn⟩, [], .stay⟩) ∨
      ∃ rest, ahead = quote.char :: rest ∧ found = closing := by
  simp only [stringRules, List.mem_cons, List.not_mem_nil, or_false] at hrule
  rcases hrule with rfl | rfl | rfl | rfl
  · obtain ⟨hn, rfl⟩ := Match.single?_eq_some h
    refine .inl ⟨_, _, hn, rfl, fun _ hquote => ?_, rfl⟩
    -- The run starts with a character of the text of the string, which the quote is not.
    have hmem : quote.char ∈ ahead.takeWhile (isStringText quote) := by
      rw [List.prefix_iff_eq_take.1 (List.takeWhile_prefix (isStringText quote))]
      exact hquote ▸ List.mem_cons_self
    have htext := List.all_eq_true.1 List.all_takeWhile _ hmem
    simp [isStringText] at htext
  · obtain ⟨n, hn, rfl⟩ := bind_single?_eq_some h
    exact .inl ⟨_, n, hn, rfl, by simp, rfl⟩
  · obtain ⟨n, hn, rfl⟩ := bind_single?_eq_some h
    exact .inl ⟨_, n, hn, rfl, by simp, rfl⟩
  · simp only [Rule.stringClose] at h
    split at h
    · next hclose =>
      obtain ⟨rest, rfl⟩ := List.head?_eq_some_iff.1 hclose
      exact .inr ⟨rest, rfl, (Option.some.inj h).symm⟩
    · simp at h

/-- Inside a string some rule matches on every character. -/
theorem exists_stringRule (quote : Quote) (behind : Behind) {ahead : List Char}
    (h : ahead ≠ []) : ∃ rule ∈ stringRules quote, rule.scan behind ahead ≠ none := by
  obtain ⟨c, rest, rfl⟩ := List.exists_cons_of_ne_nil h
  by_cases htext : isStringText quote c = true
  · refine ⟨.stringText quote, by simp [stringRules], ?_⟩
    have hrun : 0 < stringTextLength quote (c :: rest) := run_pos htext rest
    simp [Rule.stringText, Match.single?_of_pos hrun]
  · by_cases hquote : c = quote.char
    · exact ⟨.stringClose quote, by simp [stringRules], by simp [Rule.stringClose, hquote]⟩
    · -- The only character left is the backslash.
      have hslash : c = '\\' := by
        simpa [isStringText, hquote] using htext
      refine ⟨.stringEscapeInvalid, by simp [stringRules], ?_⟩
      simp only [Rule.stringEscapeInvalid, invalidEscapeLength?_cons, if_pos hslash]
      split <;> simp [Match.single?, Piece.ofLength?]

/-- Inside a string a match closes the string, or it is one piece that is not just the quote. -/
theorem scan_string_cases (quote : Quote) (behind : Behind) {ahead : List Char}
    (h : ahead ≠ []) :
    (∃ (kind : Token.Kind) (n : Nat) (hn : 0 < n), kind.isOfString = true ∧
        (kind = .stringLiteral → ahead.take n ≠ [quote.char]) ∧
        scan (.string quote) behind ahead = ⟨⟨kind, n, hn⟩, [], .stay⟩) ∨
      ∃ rest, ahead = quote.char :: rest ∧ scan (.string quote) behind ahead = closing := by
  rcases scan_cases (.string quote) behind ahead with ⟨rule, hrule, hfound⟩ | ⟨hnone, -⟩
  · exact stringRule_cases hrule hfound
  · obtain ⟨rule, hrule, hsome⟩ := exists_stringRule quote behind h
    exact absurd (hnone rule hrule) hsome

/-! ## Groups -/

/-- Only a key is a match of several pieces. -/
theorem scan_key_of_more {mode : Mode} {behind : Behind} {ahead : List Char} (h : ahead ≠ [])
    (hmore : (scan mode behind ahead).more ≠ []) :
    mode = .root ∧ Rule.key.scan behind ahead = some (scan mode behind ahead) := by
  cases mode with
  | string quote =>
    rcases scan_string_cases quote behind h with ⟨kind, n, hn, -, -, hfound⟩ | ⟨rest, -, hfound⟩
    · exact absurd (congrArg Match.more hfound) hmore
    · exact absurd (congrArg Match.more hfound) hmore
  | root =>
    refine ⟨rfl, ?_⟩
    rcases scan_cases .root behind ahead with ⟨rule, hrule, hfound⟩ | ⟨-, hfound⟩
    · rcases rootRule_cases hrule hfound with ⟨kind, n, hn, -, hone⟩ | rfl | ⟨quote, rest, -, hone⟩
      · exact absurd (congrArg Match.more hone) hmore
      · exact hfound
      · exact absurd (congrArg Match.more hone) hmore
    · exact absurd (congrArg Match.more hfound) hmore

/-! ## The mode behind a match -/

theorem map_kind_cut (pieces : List Piece) (text : List Char) :
    (cut pieces text).map Lexeme.kind = pieces.map Piece.kind := by
  induction pieces generalizing text with
  | nil => rfl
  | cons piece more ih => simp [cut, ih]

theorem map_kind_place (offset : Nat) (lexemes : List Lexeme) :
    (place offset lexemes).map Token.kind = lexemes.map Lexeme.kind := by
  induction lexemes generalizing offset with
  | nil => rfl
  | cons lexeme more ih => simp [ih, placed]

/-- Tokens of pieces that are not made for strings are not either. -/
theorem place_cut_not_isOfString {pieces : List Piece}
    (h : ∀ piece ∈ pieces, piece.kind.isOfString = false) (offset : Nat) (text : List Char) :
    ∀ token ∈ place offset (cut pieces text), token.kind.isOfString = false := by
  intro token htoken
  have hkind : token.kind ∈ pieces.map Piece.kind := by
    rw [← map_kind_cut pieces text, ← map_kind_place offset]
    exact List.mem_map_of_mem htoken
  obtain ⟨piece, hpiece, hsame⟩ := List.mem_map.1 hkind
  rw [← hsame]
  exact h piece hpiece

/-- In a mode, the tokens of a match can stand where they stand, and the fold over them is the mode
behind the match. -/
def Match.Follows (found : Match) (mode : Mode) (ahead : List Char) (offset : Nat) : Prop :=
  mode.Fits (place offset (cut found.pieces ahead)) ∧
    found.shift.apply (.ofMode mode) =
      .ofMode ((place offset (cut found.pieces ahead)).foldl Mode.afterToken mode)

theorem opening_follows (quote : Quote) (rest : List Char) (offset : Nat) :
    (opening quote).Follows .root (quote.char :: rest) offset := by
  have htokens : place offset (cut (opening quote).pieces (quote.char :: rest)) =
      [placed offset ⟨.stringLiteral, quote.text⟩] := rfl
  have hmode : Mode.root.afterToken (placed offset ⟨.stringLiteral, quote.text⟩) =
      .string quote := Mode.afterToken_root_quote rfl rfl
  rw [Match.Follows, htokens]
  refine ⟨⟨⟨by simp [placed], by simp [placed], fun _ => ⟨quote, rfl⟩⟩, trivial⟩, ?_⟩
  exact congrArg ModeStack.ofMode hmode.symm

theorem closing_follows (quote : Quote) (rest : List Char) (offset : Nat) :
    closing.Follows (.string quote) (quote.char :: rest) offset := by
  have htokens : place offset (cut closing.pieces (quote.char :: rest)) =
      [placed offset ⟨.stringLiteral, quote.text⟩] := rfl
  have hmode : (Mode.string quote).afterToken (placed offset ⟨.stringLiteral, quote.text⟩) =
      .root := Mode.afterToken_string_quote rfl rfl
  rw [Match.Follows, htokens]
  refine ⟨⟨.inl rfl, trivial⟩, ?_⟩
  exact congrArg ModeStack.ofMode hmode.symm

/-- Pieces that are not made for strings fit the top level and stay there. -/
theorem Match.follows_root {found : Match} (hshift : found.shift = .stay)
    (hpieces : ∀ piece ∈ found.pieces, piece.kind.isOfString = false) (ahead : List Char)
    (offset : Nat) : found.Follows .root ahead offset := by
  have htokens := place_cut_not_isOfString hpieces offset ahead
  refine ⟨Mode.fits_root_of_not_isOfString htokens, ?_⟩
  rw [Mode.foldl_afterToken_of_not_isOfString htokens, hshift]
  rfl

/-- A piece of a string that is not just its quote stays in the string. -/
theorem Match.follows_string {quote : Quote} {kind : Token.Kind} {n : Nat} (hn : 0 < n)
    {ahead : List Char} (hkind : kind.isOfString = true)
    (htext : kind = .stringLiteral → ahead.take n ≠ [quote.char]) (offset : Nat) :
    Match.Follows ⟨⟨kind, n, hn⟩, [], .stay⟩ (.string quote) ahead offset := by
  refine ⟨⟨Token.Kind.isOfString_iff.1 hkind, trivial⟩, ?_⟩
  have hstay : ¬(kind = .stringLiteral ∧ String.ofList (ahead.take n) = quote.text) := by
    rintro ⟨hliteral, hquote⟩
    apply htext hliteral
    rw [← String.toList_ofList (l := ahead.take n), hquote, Quote.text, String.toList_singleton]
  simp [Match.pieces, cut, placed, Mode.afterToken, hstay, Shift.apply]

/-- **Every match follows its tokens.** -/
theorem scan_follows (mode : Mode) (behind : Behind) {ahead : List Char} (h : ahead ≠ [])
    (offset : Nat) : (scan mode behind ahead).Follows mode ahead offset := by
  cases mode with
  | root =>
    rcases scan_root_cases behind ahead with ⟨hshift, hpieces⟩ | ⟨quote, rest, rfl, hfound⟩
    · exact Match.follows_root hshift hpieces ahead offset
    · exact hfound ▸ opening_follows quote rest offset
  | string quote =>
    rcases scan_string_cases quote behind h with ⟨kind, n, hn, hkind, htext, hfound⟩ |
      ⟨rest, rfl, hfound⟩
    · exact hfound ▸ Match.follows_string hn hkind htext offset
    · exact hfound ▸ closing_follows quote rest offset

/-- **The state is a fold over the tokens.** All tokens of a text can stand where they stand, and
the fold over them is the state behind the text. -/
theorem lexemes_follow (mode : Mode) (behind : Behind) (ahead : List Char) (offset : Nat) :
    mode.Fits (place offset (lexemes (.ofMode mode) behind ahead).1) ∧
      (lexemes (.ofMode mode) behind ahead).2 =
        .ofMode ((place offset (lexemes (.ofMode mode) behind ahead).1).foldl
          Mode.afterToken mode) := by
  induction ahead using matchInduction generalizing mode behind offset with
  | nil => simp [Mode.Fits]
  | step ahead h ih =>
    obtain ⟨hfits, hstate⟩ := scan_follows mode behind h offset
    rw [lexemes_step _ _ h]
    simp only [ModeStack.mode_ofMode, hstate, place_append, List.foldl_append]
    obtain ⟨hlater, hlast⟩ := ih (scan mode behind ahead) _ _ _
    exact ⟨Mode.fits_append.2 ⟨hfits, hlater⟩, hlast⟩

end Lex

end TomlEditor
