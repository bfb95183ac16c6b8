import TomlEditor.Proofs.Lex.Reached

/-!
# Heads of lines

Behind its indentation a line may start with a comment, a header or a key, and
what it starts with can be told by the characters there alone. The four rules are
tried in order, but no text starts with two of these heads: a header of a table
has no second bracket where that of an array has one, and the first character
tells the rest apart. Where a line is indented by anything else but white space,
for example by the end of a string, it has no header and no key.
-/

namespace TomlEditor.Lex

open Text

/-! ## What a line starts with -/

/-- The names of keys: some bare characters, or a text in quotes. -/
inductive KeyName : List Char → Prop
  | bare {name : List Char} (hne : name ≠ [])
    (h : ∀ c ∈ name, c.isAlphanum = true ∨ c = '_' ∨ c = '-' ∨ c = '$') : KeyName name
  | quoted {quote : Quote} {inner : List Char} (h : quote.char ∉ inner) :
    KeyName (quote.char :: (inner ++ [quote.char]))

/-- A key, the blanks behind it if there are any, and the equals sign. -/
def keyLexemes (name gap : List Char) : List Lexeme :=
  ⟨.key, String.ofList name⟩ :: (part .whitespace gap ++ [⟨.delimiter, "="⟩])

/-- The kinds that are told by the head of a line, the texts that start with such a head, and the
lexemes of the head. -/
inductive Head : Token.Kind → List Char → List Lexeme → Prop
  | comment (rest : List Char) :
    Head .comment ('#' :: rest)
      [⟨.comment, String.ofList ('#' :: rest.takeWhile (· != '\r'))⟩]
  | arrayTable {name : List Char} (h : ∀ c ∈ name, c ≠ '[' ∧ c ≠ ']') (rest : List Char) :
    Head .arrayTableHeader ('[' :: '[' :: (name ++ ']' :: ']' :: rest))
      [⟨.arrayTableHeader, String.ofList ('[' :: '[' :: (name ++ [']', ']']))⟩]
  | table {name : List Char} (h : ∀ c ∈ name, c ≠ '[' ∧ c ≠ ']') (rest : List Char) :
    Head .tableHeader ('[' :: (name ++ ']' :: rest))
      [⟨.tableHeader, String.ofList ('[' :: (name ++ [']']))⟩]
  | key {name gap : List Char} (hname : KeyName name) (hgap : ∀ c ∈ gap, c = ' ' ∨ c = '\t')
    (rest : List Char) : Head .key (name ++ (gap ++ '=' :: rest)) (keyLexemes name gap)

/-- The kinds of heads. -/
def isHead : Token.Kind → Bool
  | .comment | .arrayTableHeader | .tableHeader | .key => true
  | _ => false

/-! ## Headers -/

section

variable {ahead name : List Char} {n : Nat}

theorem tableHeaderLength?_header (h : ∀ c ∈ name, isHeaderName c = true) (rest : List Char) :
    tableHeaderLength? ('[' :: (name ++ ']' :: rest)) = some (name.length + 2) := by
  have hclose : (']' :: rest).head?.any isHeaderName = false := rfl
  rw [tableHeaderLength?_cons, dropWhile_run h hclose, takeWhile_run h hclose, if_pos ⟨rfl, rfl⟩]

theorem exists_header_of_tableHeaderLength? (h : tableHeaderLength? ahead = some n) :
    ∃ name rest, ahead = '[' :: (name ++ ']' :: rest) ∧ (∀ c ∈ name, isHeaderName c = true) ∧
      n = name.length + 2 := by
  cases ahead with
  | nil => simp [tableHeaderLength?] at h
  | cons c rest =>
    rw [tableHeaderLength?_cons, Option.ite_none_right_eq_some] at h
    obtain ⟨⟨rfl, hclose⟩, hn⟩ := h
    obtain ⟨tail, htail⟩ := List.head?_eq_some_iff.1 hclose
    obtain ⟨name, rfl, hname, hrun⟩ := exists_run htail
    rw [hrun] at hn
    exact ⟨name, tail, rfl, hname, (Option.some.inj hn).symm⟩

theorem arrayTableHeaderLength?_header (h : ∀ c ∈ name, isHeaderName c = true)
    (rest : List Char) :
    arrayTableHeaderLength? ('[' :: '[' :: (name ++ ']' :: ']' :: rest)) =
      some (name.length + 4) := by
  have hclose : (']' :: ']' :: rest).head?.any isHeaderName = false := rfl
  rw [arrayTableHeaderLength?_cons, List.tail_cons, dropWhile_run h hclose,
    takeWhile_run h hclose, if_pos ⟨rfl, rfl, rfl⟩]

theorem exists_header_of_arrayTableHeaderLength? (h : arrayTableHeaderLength? ahead = some n) :
    ∃ name rest, ahead = '[' :: '[' :: (name ++ ']' :: ']' :: rest) ∧
      (∀ c ∈ name, isHeaderName c = true) ∧ n = name.length + 4 := by
  cases ahead with
  | nil => simp [arrayTableHeaderLength?] at h
  | cons c rest =>
    rw [arrayTableHeaderLength?_cons, Option.ite_none_right_eq_some] at h
    obtain ⟨⟨rfl, hopen, hclose⟩, hn⟩ := h
    obtain ⟨rest, rfl⟩ := List.head?_eq_some_iff.1 hopen
    rw [List.tail_cons] at hclose hn
    have htail := List.take_append_drop 2 (rest.dropWhile isHeaderName)
    rw [hclose] at htail
    obtain ⟨name, hrest, hname, hrun⟩ := exists_run htail.symm
    rw [hrun] at hn
    exact ⟨name, _, congrArg _ (congrArg _ hrest), hname, (Option.some.inj hn).symm⟩

/-- A header of a table has no second bracket where that of an array has one. -/
theorem arrayTableHeaderLength?_table (h : ∀ c ∈ name, isHeaderName c = true)
    (rest : List Char) :
    arrayTableHeaderLength? ('[' :: (name ++ ']' :: rest)) = none := by
  rw [arrayTableHeaderLength?_cons, if_neg]
  rintro ⟨-, hopen, -⟩
  cases name with
  | nil => simp at hopen
  | cons c name =>
    obtain rfl : c = '[' := by simpa using hopen
    exact absurd (h '[' List.mem_cons_self) (by decide)

end

/-! ## Keys -/

section

variable {name gap rest : List Char}

theorem isBareKey_iff {c : Char} :
    isBareKey c = true ↔ c.isAlphanum = true ∨ c = '_' ∨ c = '-' ∨ c = '$' := by
  simp [isBareKey, isWord, or_assoc]

theorem isSpace_iff {c : Char} : isSpace c = true ↔ c = ' ' ∨ c = '\t' := by
  simp [isSpace]

theorem isBareKey_quote (quote : Quote) : isBareKey quote.char = false := by
  cases quote <;> decide

/-- The name of a key on one line is as long as the lexer takes it, in front of a character that
is not bare. -/
theorem keyNameLength_name (h : KeyName name) (hline : '\n' ∉ name)
    (hrest : rest.head?.any isBareKey = false) : keyNameLength (name ++ rest) = name.length := by
  cases h with
  | bare hne hbare =>
    have hrun : ∀ c ∈ name, isBareKey c = true := fun c hc => isBareKey_iff.2 (hbare c hc)
    obtain ⟨c, more, rfl⟩ := List.exists_cons_of_ne_nil hne
    have hquote : Quote.ofChar? c = none := by
      rw [Option.eq_none_iff_forall_ne_some]
      intro quote hquote
      have hc := hrun c List.mem_cons_self
      rw [Quote.ofChar?_eq_some_iff.1 hquote, isBareKey_quote] at hc
      exact absurd hc (by decide)
    rw [List.cons_append, keyNameLength_cons, hquote]
    exact congrArg List.length (takeWhile_run hrun hrest)
  | @quoted quote inner hquote =>
    have hrun : ∀ c ∈ inner, isQuotedKey quote c = true := by
      intro c hc
      have hne : c ≠ quote.char := fun heq => hquote (heq ▸ hc)
      have hfeed : c ≠ '\n' := fun heq => hline (heq ▸ by simp [hc])
      simp [isQuotedKey, hne, hfeed]
    have hclose : (quote.char :: rest).head?.any (isQuotedKey quote) = false := by
      simp [isQuotedKey]
    rw [List.cons_append, List.append_assoc, List.singleton_append, keyNameLength_cons,
      Quote.ofChar?_eq_some_iff.2 rfl]
    simp [takeWhile_run hrun hclose, dropWhile_run hrun hclose]

/-- What the lexer takes for the name of a key is one. -/
theorem exists_name_of_keyNameLength {ahead : List Char} (h : 0 < keyNameLength ahead) :
    ∃ name rest, ahead = name ++ rest ∧ KeyName name ∧ keyNameLength ahead = name.length := by
  cases ahead with
  | nil => exact absurd h (by decide)
  | cons c rest =>
    rw [keyNameLength_cons] at h ⊢
    cases hquote : Quote.ofChar? c with
    | some quote =>
      obtain rfl := Quote.ofChar?_eq_some_iff.1 hquote
      simp only [hquote] at h ⊢
      by_cases hclose : (rest.dropWhile (isQuotedKey quote)).head? = some quote.char
      · obtain ⟨tail, htail⟩ := List.head?_eq_some_iff.1 hclose
        obtain ⟨inner, rfl, hinner, hrun⟩ := exists_run htail
        have hmem : quote.char ∉ inner := by
          intro hmem
          have hquoted := hinner _ hmem
          simp [isQuotedKey] at hquoted
        refine ⟨quote.char :: (inner ++ [quote.char]), tail, by simp, .quoted hmem, ?_⟩
        rw [if_pos hclose, hrun]
        simp
      · rw [if_neg hclose] at h
        exact absurd h (Nat.lt_irrefl 0)
    | none =>
      simp only [hquote] at h ⊢
      obtain ⟨name, hname, hbare, hrun⟩ := exists_run (Eq.refl ((c :: rest).dropWhile isBareKey))
      rw [hrun] at h ⊢
      refine ⟨name, _, hname, .bare (List.ne_nil_of_length_pos h) ?_, rfl⟩
      exact fun d hd => isBareKey_iff.1 (hbare d hd)

theorem keyGapLength?_gap (h : ∀ c ∈ gap, c = ' ' ∨ c = '\t') (rest : List Char) :
    keyGapLength? (gap ++ '=' :: rest) = some gap.length := by
  have hrun : ∀ c ∈ gap, isSpace c = true := fun c hc => isSpace_iff.2 (h c hc)
  have hclose : ('=' :: rest).head?.any isSpace = false := rfl
  rw [keyGapLength?, dropWhile_run hrun hclose, takeWhile_run hrun hclose, List.head?_cons,
    if_pos rfl]

theorem exists_gap_of_keyGapLength? {ahead : List Char} {n : Nat}
    (h : keyGapLength? ahead = some n) :
    ∃ gap rest, ahead = gap ++ '=' :: rest ∧ (∀ c ∈ gap, c = ' ' ∨ c = '\t') ∧
      n = gap.length := by
  obtain ⟨hsign, rfl⟩ := keyGapLength?_eq_some h
  obtain ⟨tail, htail⟩ := List.head?_eq_some_iff.1 hsign
  obtain ⟨gap, rfl, hgap, hrun⟩ := exists_run htail
  exact ⟨gap, tail, rfl, fun c hc => isSpace_iff.1 (hgap c hc), congrArg List.length hrun⟩

theorem KeyName.length_pos (h : KeyName name) : 0 < name.length := by
  cases h with
  | bare hne => exact List.length_pos_iff.2 hne
  | quoted => exact Nat.succ_pos _

/-- The match of a key with the given name and blanks. -/
def keyMatch (name gap : List Char) (hpos : 0 < name.length) : Match :=
  ⟨⟨.key, name.length, hpos⟩,
    (Piece.ofLength? .whitespace gap.length).toList ++ [⟨.delimiter, 1, Nat.one_pos⟩], .stay⟩

theorem cut_keyMatch (hpos : 0 < name.length) (gap rest : List Char) :
    cut (keyMatch name gap hpos).pieces (name ++ (gap ++ '=' :: rest)) = keyLexemes name gap := by
  rw [keyMatch, Match.pieces, cut, List.take_left, List.drop_left, keyLexemes]
  cases gap with
  | nil => rfl
  | cons c gap => simp [Piece.ofLength?, cut, part_of_ne_nil]

/-- At the start of a line the rule for keys matches a key. -/
theorem key_scan {behind : Behind} (hbehind : behind.atLineStart = true) (hname : KeyName name)
    (hline : '\n' ∉ name) (hgap : ∀ c ∈ gap, c = ' ' ∨ c = '\t') (rest : List Char) :
    Rule.key.scan behind (name ++ (gap ++ '=' :: rest)) =
      some (keyMatch name gap hname.length_pos) := by
  have hrest : (gap ++ '=' :: rest).head?.any isBareKey = false := by
    cases gap with
    | nil => rfl
    | cons c gap => rcases hgap c List.mem_cons_self with rfl | rfl <;> rfl
  have hlength := keyNameLength_name hname hline hrest
  simp only [Rule.key, hbehind, if_pos, hlength, Piece.ofLength?, dif_pos hname.length_pos,
    Option.bind_some, List.drop_left, keyGapLength?_gap hgap, Option.map_some, keyMatch]

/-- The rule for keys matches only keys, and only at the start of a line. -/
theorem exists_key {behind : Behind} {ahead : List Char} {found : Match}
    (h : Rule.key.scan behind ahead = some found) :
    behind.atLineStart = true ∧
      ∃ (name gap rest : List Char) (hname : KeyName name), (∀ c ∈ gap, c = ' ' ∨ c = '\t') ∧
        ahead = name ++ (gap ++ '=' :: rest) ∧ found = keyMatch name gap hname.length_pos := by
  simp only [Rule.key, Option.ite_none_right_eq_some] at h
  obtain ⟨hbehind, h⟩ := h
  obtain ⟨piece, hpiece, hafter⟩ := Option.bind_eq_some_iff.1 h
  obtain ⟨hpos, rfl⟩ := Piece.ofLength?_eq_some hpiece
  obtain ⟨n, hn, rfl⟩ := Option.map_eq_some_iff.1 hafter
  obtain ⟨name, tail, rfl, hname, hlength⟩ := exists_name_of_keyNameLength hpos
  simp only [hlength, List.drop_left] at hn ⊢
  obtain ⟨gap, rest, rfl, hgap, rfl⟩ := exists_gap_of_keyGapLength? hn
  exact ⟨hbehind, name, gap, rest, hname, hgap, rfl, rfl⟩

end

/-! ## Matches -/

/-- The first piece of a match tells the rules for heads by its kind. A rule finds nothing of
unknown kind. -/
theorem rootRule_first {rule : Rule} (hrule : rule ∈ rootRules) {behind : Behind}
    {ahead : List Char} {found : Match} (h : rule.scan behind ahead = some found) :
    (rule = .comment ∧ found.first.kind = .comment) ∨
      (rule = .header "array-table-header" .arrayTableHeader arrayTableHeaderLength? ∧
        found.first.kind = .arrayTableHeader) ∨
      (rule = .header "table-header" .tableHeader tableHeaderLength? ∧
        found.first.kind = .tableHeader) ∨
      (rule = .key ∧ found.first.kind = .key) ∨
      (isHead found.first.kind = false ∧ found.first.kind ≠ .unknown) := by
  have hsingle : ∀ {length? : Option Nat} {kind : Token.Kind},
      (length?.bind fun n => Match.single? kind n .stay) = some found →
      found.first.kind = kind := by
    intro length? kind hfound
    obtain ⟨n, hn, rfl⟩ := bind_single?_eq_some hfound
    rfl
  have hother : ∀ {length? : Option Nat} {kind : Token.Kind}, isHead kind = false →
      kind ≠ .unknown → (length?.bind fun n => Match.single? kind n .stay) = some found →
      isHead found.first.kind = false ∧ found.first.kind ≠ .unknown := by
    intro length? kind hhead hunknown hfound
    rw [hsingle hfound]
    exact ⟨hhead, hunknown⟩
  -- One case for each rule, in the order of `rootRules`.
  simp only [rootRules, List.mem_cons, List.not_mem_nil, or_false] at hrule
  rcases hrule with rfl | rfl | rfl | rfl | rfl | rfl | rfl | rfl | rfl | rfl | rfl | rfl
  · exact .inl ⟨rfl, hsingle h⟩
  · exact .inr (.inl ⟨rfl, hsingle (Rule.header_eq_some h)⟩)
  · exact .inr (.inr (.inl ⟨rfl, hsingle (Rule.header_eq_some h)⟩))
  · refine .inr (.inr (.inr (.inl ⟨rfl, ?_⟩)))
    obtain ⟨-, name, gap, rest, hname, -, -, rfl⟩ := exists_key h
    rfl
  · exact .inr (.inr (.inr (.inr (hother rfl (by decide) h))))
  · exact .inr (.inr (.inr (.inr (hother rfl (by decide) h))))
  · exact .inr (.inr (.inr (.inr (hother rfl (by decide) h))))
  · exact .inr (.inr (.inr (.inr (hother rfl (by decide) h))))
  · exact .inr (.inr (.inr (.inr (hother rfl (by decide) h))))
  · exact .inr (.inr (.inr (.inr (hother rfl (by decide) h))))
  · obtain ⟨quote, -, rfl⟩ := Option.map_eq_some_iff.1 h
    exact .inr (.inr (.inr (.inr ⟨rfl, Token.Kind.noConfusion⟩)))
  · obtain ⟨hn, rfl⟩ := Match.single?_eq_some h
    exact .inr (.inr (.inr (.inr ⟨rfl, Token.Kind.noConfusion⟩)))

/-- A match with the kind of a head is that of the rule for the head. -/
theorem rootRule_of_isHead {rule : Rule} (hrule : rule ∈ rootRules) {behind : Behind}
    {ahead : List Char} {found : Match} (h : rule.scan behind ahead = some found)
    (hkind : isHead found.first.kind = true) :
    (rule = .comment ∧ found.first.kind = .comment) ∨
      (rule = .header "array-table-header" .arrayTableHeader arrayTableHeaderLength? ∧
        found.first.kind = .arrayTableHeader) ∨
      (rule = .header "table-header" .tableHeader tableHeaderLength? ∧
        found.first.kind = .tableHeader) ∨
      (rule = .key ∧ found.first.kind = .key) := by
  rcases rootRule_first hrule h with hcomment | harray | htable | hkey | ⟨hother, -⟩
  · exact .inl hcomment
  · exact .inr (.inl harray)
  · exact .inr (.inr (.inl htable))
  · exact .inr (.inr (.inr hkey))
  · rw [hother] at hkind
    exact Bool.noConfusion hkind

/-- Only where no rule matches is anything of unknown kind. -/
theorem rootRule_ne_unknown {rule : Rule} (hrule : rule ∈ rootRules) {behind : Behind}
    {ahead : List Char} {found : Match} (h : rule.scan behind ahead = some found) :
    found.first.kind ≠ .unknown := by
  rcases rootRule_first hrule h with ⟨-, hkind⟩ | ⟨-, hkind⟩ | ⟨-, hkind⟩ | ⟨-, hkind⟩ | ⟨-, hkind⟩
  · simp [hkind]
  · simp [hkind]
  · simp [hkind]
  · simp [hkind]
  · exact hkind

/-! ## Lexemes of a text -/

/-- Strings are made of their own kinds. -/
theorem scan_string_kind (quote : Quote) (behind : Behind) {ahead : List Char} (h : ahead ≠ []) :
    (scan (.string quote) behind ahead).first.kind.isOfString = true := by
  rcases scan_string_cases quote behind h with ⟨kind, n, hn, hstring, -, hscan⟩ | ⟨rest, -, hscan⟩
  · rw [hscan]
    exact hstring
  · rw [hscan]
    rfl

/-- Behind the name of a key there are its blanks, if there are any, and the equals sign. -/
theorem keyLexemes_cases {name gap : List Char} {head lexeme : Lexeme} {inner more : List Lexeme}
    (h : keyLexemes name gap = head :: inner ++ lexeme :: more) :
    (gap ≠ [] ∧ lexeme = ⟨.whitespace, String.ofList gap⟩ ∧ inner = [] ∧ head.kind = .key) ∨
      lexeme = ⟨.delimiter, "="⟩ := by
  rw [keyLexemes, List.cons_append] at h
  obtain ⟨rfl, hrest⟩ := List.cons.inj h
  cases gap with
  | nil =>
    have hmem : lexeme ∈ part .whitespace [] ++ [⟨.delimiter, "="⟩] := by
      rw [hrest]
      simp
    exact .inr (List.mem_singleton.1 hmem)
  | cons c gap =>
    rw [part_of_ne_nil (List.cons_ne_nil _ _), List.singleton_append] at hrest
    cases inner with
    | nil => exact .inl ⟨List.cons_ne_nil _ _, (List.cons.inj hrest).1.symm, rfl, rfl⟩
    | cons blank inner =>
      obtain ⟨-, hsign⟩ := List.cons.inj hrest
      have hmem : lexeme ∈ [(⟨.delimiter, "="⟩ : Lexeme)] := by
        rw [hsign]
        simp
      exact .inr (List.mem_singleton.1 hmem)

section

variable {start : Mode} {text : List Char} {before after : List Lexeme} {lexeme : Lexeme}
  (hsplit : (lexemes (.ofMode start) .start text).1 = before ++ lexeme :: after)

include hsplit

/-- A lexeme of a text is the first one of a match, the blanks behind the name of a key, or the
equals sign behind them. -/
theorem match_or_key :
    (∃ mode ahead, Reached start text mode before ahead ∧ ahead ≠ [] ∧
        (scan mode (behindOf before) ahead).head ahead = lexeme) ∨
      (∃ c gap name, (c = ' ' ∨ c = '\t') ∧ lexeme = ⟨.whitespace, String.ofList (c :: gap)⟩ ∧
        before.getLast? = some name ∧ name.kind = .key) ∨
      lexeme = ⟨.delimiter, "="⟩ := by
  rcases lexeme_cases hsplit with hmatch |
    ⟨front, ahead, found, head, inner, more, -, hkey, hcut, rfl⟩
  · exact .inl hmatch
  · obtain ⟨-, name, gap, rest, hname, hgap, rfl, rfl⟩ := exists_key hkey
    rw [cut_keyMatch] at hcut
    rcases keyLexemes_cases hcut with ⟨hne, hlexeme, rfl, hhead⟩ | hsign
    · obtain ⟨c, gap, rfl⟩ := List.exists_cons_of_ne_nil hne
      exact .inr (.inl ⟨c, gap, head, hgap c List.mem_cons_self, hlexeme, by simp, hhead⟩)
    · exact .inr (.inr hsign)

/-- All lexemes but blanks and equals signs are the first of a match. -/
theorem exists_match (hblank : lexeme.kind ≠ .whitespace) (hsign : lexeme.kind ≠ .delimiter) :
    ∃ mode ahead, Reached start text mode before ahead ∧ ahead ≠ [] ∧
      (scan mode (behindOf before) ahead).head ahead = lexeme := by
  rcases match_or_key hsplit with hmatch | ⟨c, gap, name, -, rfl, -⟩ | rfl
  · exact hmatch
  · exact absurd rfl hblank
  · exact absurd rfl hsign

/-- If they are not of a string either, the match is at the top level. -/
theorem exists_root_match (hkind : lexeme.kind.isOfString = false)
    (hblank : lexeme.kind ≠ .whitespace) (hsign : lexeme.kind ≠ .delimiter) :
    ∃ ahead, Reached start text .root before ahead ∧ ahead ≠ [] ∧
      (scan .root (behindOf before) ahead).head ahead = lexeme := by
  obtain ⟨mode, ahead, hreached, hne, rfl⟩ := exists_match hsplit hblank hsign
  cases mode with
  | root => exact ⟨ahead, hreached, hne, rfl⟩
  | string quote =>
    have hstring := scan_string_kind quote (behindOf before) hne
    exact absurd (hstring.symm.trans hkind) (by decide)

end

/-! ## Heads and their matches -/

/-- Headers and keys are only found at the start of a line. -/
theorem atLineStart_of_scan {behind : Behind} {ahead : List Char}
    (hkind : isHead (scan .root behind ahead).first.kind = true)
    (hcomment : (scan .root behind ahead).first.kind ≠ .comment) : behind.atLineStart = true := by
  have hheader : ∀ {name : String} {kind : Token.Kind} {length? : List Char → Option Nat}
      {found : Match}, (Rule.header name kind length?).scan behind ahead = some found →
      behind.atLineStart = true := by
    intro name kind length? found h
    rw [Rule.header, Option.ite_none_right_eq_some] at h
    exact h.1
  rcases scan_cases .root behind ahead with ⟨rule, hrule, hfound⟩ | ⟨-, hfound⟩
  · rcases rootRule_of_isHead hrule hfound hkind with ⟨-, hcom⟩ | ⟨rfl, -⟩ | ⟨rfl, -⟩ | ⟨rfl, -⟩
    · exact absurd hcom hcomment
    · exact hheader hfound
    · exact hheader hfound
    · exact (exists_key hfound).1
  · rw [hfound] at hkind
    exact Bool.noConfusion hkind

section

variable {behind : Behind} (name : String) (kind : Token.Kind)
  {length? : List Char → Option Nat} {ahead : List Char}

theorem comment_scan_of_ne {c : Char} (hc : c ≠ '#') (rest : List Char) :
    Rule.comment.scan behind (c :: rest) = none := by
  simp [Rule.comment, commentLength?_cons, hc]

theorem header_scan_of_none (h : length? ahead = none) :
    (Rule.header name kind length?).scan behind ahead = none := by
  simp [Rule.header, h]

theorem header_scan {n : Nat} (hbehind : behind.atLineStart = true) (h : length? ahead = some n)
    (hn : 0 < n) : (Rule.header name kind length?).scan behind ahead =
      some ⟨⟨kind, n, hn⟩, [], .stay⟩ := by
  simp only [Rule.header, hbehind, if_pos, h, Option.bind_some, Match.single?_of_pos hn]

end

theorem isHeaderName_of_line {name ahead : List Char} (h : ∀ c ∈ name, c ≠ '[' ∧ c ≠ ']')
    (hsub : ∀ c ∈ name, c ∈ ahead) (hline : '\n' ∉ ahead) :
    ∀ c ∈ name, isHeaderName c = true := by
  intro c hc
  have hfeed : c ≠ '\n' := fun heq => hline (heq ▸ hsub c hc)
  simp [isHeaderName, h c hc, hfeed]

/-- On one line a comment ends at the first carriage return. -/
theorem takeWhile_comment {rest : List Char} (hline : '\n' ∉ rest) :
    (rest.takeWhile fun c => !isLineEnd c) = rest.takeWhile (· != '\r') := by
  induction rest with
  | nil => rfl
  | cons c rest ih =>
    rw [List.mem_cons, not_or] at hline
    have hc : (!isLineEnd c) = (c != '\r') := by
      have hfeed : c ≠ '\n' := Ne.symm hline.1
      simp [isLineEnd, hfeed, bne]
    rw [List.takeWhile_cons, List.takeWhile_cons, hc, ih hline.2]

/-- The name of a key starts with a character that starts neither a comment nor a header. -/
theorem KeyName.exists_cons {name : List Char} (h : KeyName name) :
    ∃ c more, name = c :: more ∧ c ≠ '#' ∧ c ≠ '[' := by
  cases h with
  | bare hne hbare =>
    obtain ⟨c, more, rfl⟩ := List.exists_cons_of_ne_nil hne
    have hc : isBareKey c = true := isBareKey_iff.2 (hbare c List.mem_cons_self)
    exact ⟨c, more, rfl, ne_of_class hc (by decide), ne_of_class hc (by decide)⟩
  | @quoted quote inner => exact ⟨_, _, rfl, by cases quote <;> decide, by cases quote <;> decide⟩

/-- A head is found at the start of a line, whatever the later rules would find. -/
theorem scan_head {kind : Token.Kind} {rest : List Char} {found : List Lexeme}
    (h : Head kind rest found) (hline : '\n' ∉ rest) {behind : Behind}
    (hbehind : behind.atLineStart = true) :
    cut (scan .root behind rest).pieces rest = found := by
  cases h with
  | comment rest =>
    have hscan : Rule.comment.scan behind ('#' :: rest) = some
        ⟨⟨.comment, (rest.takeWhile (· != '\r')).length + 1, Nat.succ_pos _⟩, [], .stay⟩ := by
      rw [← takeWhile_comment fun hmem => hline (List.mem_cons_of_mem _ hmem)]
      rfl
    simp only [scan, rulesOf, rootRules, List.findSome?_cons, hscan, Option.getD_some,
      Match.pieces, cut]
    rw [List.take_succ_cons, take_length_takeWhile]
  | @arrayTable name h rest =>
    have hname := isHeaderName_of_line h (by simp +contextual) hline
    have hscan := header_scan "array-table-header" .arrayTableHeader hbehind
      (arrayTableHeaderLength?_header hname rest) (Nat.succ_pos _)
    simp only [scan, rulesOf, rootRules, List.findSome?_cons, hscan, Option.getD_some,
      comment_scan_of_ne (c := '[') (by decide), Match.pieces, cut]
    simp [List.take_append, List.take_of_length_le]
  | @table name h rest =>
    have hname := isHeaderName_of_line h (by simp +contextual) hline
    have hscan := header_scan "table-header" .tableHeader hbehind
      (tableHeaderLength?_header hname rest) (Nat.succ_pos _)
    simp only [scan, rulesOf, rootRules, List.findSome?_cons, hscan, Option.getD_some,
      comment_scan_of_ne (c := '[') (by decide),
      header_scan_of_none _ _ (arrayTableHeaderLength?_table hname rest), Match.pieces, cut]
    simp [List.take_append, List.take_of_length_le]
  | @key name gap hname hgap rest =>
    have hscan := key_scan hbehind hname (fun hmem => hline (List.mem_append_left _ hmem)) hgap
      rest
    have hcut := cut_keyMatch hname.length_pos gap rest
    obtain ⟨c, more, rfl, hcomment, hbracket⟩ := hname.exists_cons
    rw [List.cons_append] at hscan hcut ⊢
    have harray : arrayTableHeaderLength? (c :: (more ++ (gap ++ '=' :: rest))) = none := by
      rw [arrayTableHeaderLength?_cons, if_neg fun h => hbracket h.1]
    have htable : tableHeaderLength? (c :: (more ++ (gap ++ '=' :: rest))) = none := by
      rw [tableHeaderLength?_cons, if_neg fun h => hbracket h.1]
    simp only [scan, rulesOf, rootRules, List.findSome?_cons, hscan, Option.getD_some,
      comment_scan_of_ne hcomment, header_scan_of_none _ _ harray,
      header_scan_of_none _ _ htable]
    exact hcut

theorem ne_brackets_of_isHeaderName {name : List Char} (h : ∀ c ∈ name, isHeaderName c = true) :
    ∀ c ∈ name, c ≠ '[' ∧ c ≠ ']' := by
  intro c hc
  exact ⟨ne_of_class (h c hc) (by decide), ne_of_class (h c hc) (by decide)⟩

/-- A match with the kind of a head is found only where such a head stands. -/
theorem exists_head {rest : List Char} {behind : Behind}
    (hkind : isHead (scan .root behind rest).first.kind = true) :
    ∃ found, Head (scan .root behind rest).first.kind rest found := by
  rcases scan_cases .root behind rest with ⟨rule, hrule, hscan⟩ | ⟨-, hscan⟩
  · rcases rootRule_of_isHead hrule hscan hkind with ⟨rfl, hsame⟩ | ⟨rfl, hsame⟩ | ⟨rfl, hsame⟩ |
      ⟨rfl, hsame⟩
    · rw [hsame]
      obtain ⟨n, hn, -⟩ := Option.bind_eq_some_iff.1 hscan
      cases rest with
      | nil => simp [commentLength?] at hn
      | cons c rest =>
        rw [commentLength?_cons, Option.ite_none_right_eq_some] at hn
        obtain ⟨rfl, -⟩ := hn
        exact ⟨_, .comment rest⟩
    · rw [hsame]
      obtain ⟨n, hn, -⟩ := Option.bind_eq_some_iff.1 (Rule.header_eq_some hscan)
      obtain ⟨name, tail, rfl, hname, -⟩ := exists_header_of_arrayTableHeaderLength? hn
      exact ⟨_, .arrayTable (ne_brackets_of_isHeaderName hname) tail⟩
    · rw [hsame]
      obtain ⟨n, hn, -⟩ := Option.bind_eq_some_iff.1 (Rule.header_eq_some hscan)
      obtain ⟨name, tail, rfl, hname, -⟩ := exists_header_of_tableHeaderLength? hn
      exact ⟨_, .table (ne_brackets_of_isHeaderName hname) tail⟩
    · rw [hsame]
      obtain ⟨-, name, gap, tail, hname, hgap, rfl, -⟩ := exists_key hscan
      exact ⟨_, .key hname hgap tail⟩
  · rw [hscan] at hkind
    exact Bool.noConfusion hkind

/-- The lexemes of a head start with one of its kind. -/
theorem Head.exists_cons {kind : Token.Kind} {rest : List Char} {found : List Lexeme}
    (h : Head kind rest found) :
    rest ≠ [] ∧ ∃ text more, found = ⟨kind, text⟩ :: more := by
  cases h with
  | comment => exact ⟨List.cons_ne_nil _ _, _, _, rfl⟩
  | arrayTable => exact ⟨List.cons_ne_nil _ _, _, _, rfl⟩
  | table => exact ⟨List.cons_ne_nil _ _, _, _, rfl⟩
  | key hname =>
    obtain ⟨c, more, rfl, -⟩ := hname.exists_cons
    exact ⟨List.cons_ne_nil _ _, _, _, rfl⟩

/-! ## The start of a line -/

/-- Behind indentation it is as at the start of a text. -/
theorem start_after_indent {indent : List Char} (h : ∀ c ∈ indent, isIndent c = true) :
    Behind.start.after indent = .start :=
  start_after_white fun c hc => by simp [isWhite, h c hc]

/-- At the start of a line only spaces, tabs and carriage returns lie behind the last line feed. -/
theorem exists_indent {text : List Char} (h : (Behind.start.after text).atLineStart = true) :
    ∃ above indent, text = above ++ indent ∧ (above = [] ∨ above.getLast? = some '\n') ∧
      ∀ c ∈ indent, isIndent c = true := by
  induction text using List.reverseRecOn with
  | nil => exact ⟨[], [], rfl, .inl rfl, by simp⟩
  | append_singleton text c ih =>
    rw [Behind.after_append, Behind.after_cons, Behind.after_nil, Behind.next, Bool.or_eq_true,
      Bool.and_eq_true, beq_iff_eq] at h
    rcases h with rfl | ⟨hstart, hc⟩
    · exact ⟨text ++ ['\n'], [], by simp, .inr (by simp), by simp⟩
    · obtain ⟨above, indent, rfl, habove, hindent⟩ := ih hstart
      refine ⟨above, indent ++ [c], List.append_assoc _ _ _, habove, ?_⟩
      simpa [or_imp, forall_and] using ⟨hindent, hc⟩

theorem isIndent_iff {c : Char} : isIndent c = true ↔ c = ' ' ∨ c = '\t' ∨ c = '\r' := by
  simp [isIndent, isSpace, or_assoc]

/-- The lexemes of a line are its indentation and those of what follows. -/
theorem lexemes_indented {line : List Char} (hline : '\n' ∉ line) :
    (lexemes .root .start line).1 =
      part .whitespace (line.takeWhile isIndent) ++
        (lexemes .root .start (line.dropWhile isIndent)).1 := by
  have hindent : ∀ c ∈ line.takeWhile isIndent, isIndent c = true :=
    List.all_eq_true.1 List.all_takeWhile
  have hrun : ∀ c ∈ line.takeWhile isIndent, isRun ModeStack.root.mode c = true := by
    intro c hc
    show isWhite c = true
    simp [isWhite, hindent c hc]
  have hlater : (line.dropWhile isIndent).head?.any (isRun ModeStack.root.mode) = false := by
    have hhead := head?_dropWhile_any isIndent line
    cases hrest : line.dropWhile isIndent with
    | nil => rfl
    | cons c rest =>
      have hmem : c ∈ line := (List.dropWhile_sublist isIndent).mem (by simp [hrest])
      have hfeed : c ≠ '\n' := fun heq => hline (heq ▸ hmem)
      rw [hrest] at hhead
      have hc : isIndent c = false := hhead
      show isWhite c = false
      simp [isWhite, hc, hfeed]
  have hlexed := lexemes_run hrun hlater .start
  rw [List.takeWhile_append_dropWhile, start_after_indent hindent] at hlexed
  exact congrArg Prod.fst hlexed

/-- What holds of the tokens of a line behind its indentation: they are told by the text there. -/
structure ToldByHead (rest : List Char) (offset : Nat) (later : List Token) : Prop where
  /-- The first token is a comment, a header or a key exactly where the head of one stands. -/
  kind_iff : ∀ kind, isHead kind = true →
    ((∃ head, later.head? = some head ∧ head.kind = kind) ↔ ∃ found, Head kind rest found)
  /-- The tokens of the head are the first ones. -/
  starts : ∀ kind found, Head kind rest found → ∃ more, later = place offset found ++ more

theorem toldByHead {rest : List Char} (hline : '\n' ∉ rest) (offset : Nat) :
    ToldByHead rest offset (place offset (lexemes .root .start rest).1) := by
  have hstarts : ∀ kind found, Head kind rest found →
      ∃ more, place offset (lexemes .root .start rest).1 = place offset found ++ more := by
    intro kind found hfound
    have hcut := scan_head hfound hline (rfl : Behind.start.atLineStart = true)
    rw [lexemes_step _ _ hfound.exists_cons.1]
    simp only [ModeStack.mode_root, hcut, place_append]
    exact ⟨_, rfl⟩
  refine ⟨?_, hstarts⟩
  intro kind hkind
  constructor
  · rintro ⟨head, hhead, rfl⟩
    have hne : rest ≠ [] := by
      rintro rfl
      simp at hhead
    rw [lexemes_step _ _ hne] at hhead
    simp only [ModeStack.mode_root, Match.pieces, cut, List.cons_append, place_cons,
      List.head?_cons, Option.some.injEq] at hhead
    obtain rfl := hhead
    exact exists_head hkind
  · rintro ⟨found, hfound⟩
    obtain ⟨more, hmore⟩ := hstarts kind found hfound
    obtain ⟨-, text, others, rfl⟩ := hfound.exists_cons
    rw [hmore]
    exact ⟨_, rfl, rfl⟩

/-- A lexeme that is a header or a key stands at the start of its line. -/
theorem atLineStart_of_lexeme {start : Mode} {text : List Char} {before after : List Lexeme}
    {lexeme : Lexeme}
    (hsplit : (lexemes (.ofMode start) .start text).1 = before ++ lexeme :: after)
    (hkind : isHead lexeme.kind = true) (hcomment : lexeme.kind ≠ .comment) :
    (behindOf before).atLineStart = true := by
  have hother : lexeme.kind.isOfString = false ∧ lexeme.kind ≠ .whitespace ∧
      lexeme.kind ≠ .delimiter := by
    cases hlexeme : lexeme.kind <;> simp_all [isHead, Token.Kind.isOfString]
  obtain ⟨ahead, -, -, rfl⟩ := exists_root_match hsplit hother.1 hother.2.1 hother.2.2
  exact atLineStart_of_scan hkind hcomment

/-- **What a line starts with.** The first token of a line that is not its indentation is told by
the text behind the indentation: it is a comment, a header or a key exactly where the head of one
stands there, and the head is cut as it stands. In every text, from any mode, headers and keys
have nothing but spaces, tabs and carriage returns before them on their line. -/
theorem heads_of_lines :
    (∀ line : String, '\n' ∉ line.toList →
      let indent := line.toList.takeWhile fun c => c == ' ' || c == '\t' || c == '\r'
      let rest := line.toList.dropWhile fun c => c == ' ' || c == '\t' || c == '\r'
      ∃ later, (tokenize line .root).1 = place 0 (part .whitespace indent) ++ later ∧
        ToldByHead rest (String.ofList indent).utf8ByteSize later) ∧
    ∀ (text : String) (mode : Mode), ∀ token ∈ (tokenize text (.ofMode mode)).1,
      token.kind = .key ∨ token.kind = .tableHeader ∨ token.kind = .arrayTableHeader →
        ∃ above indent below : String, text = above ++ indent ++ token.text ++ below ∧
          token.span.start = (above ++ indent).utf8ByteSize ∧
          (above = "" ∨ above.toList.getLast? = some '\n') ∧
          ∀ c ∈ indent.toList, c = ' ' ∨ c = '\t' ∨ c = '\r' := by
  constructor
  · intro line hline indent rest
    have hrest : '\n' ∉ rest := fun hmem => hline ((List.dropWhile_sublist _).mem hmem)
    have hbytes : byteCount (part .whitespace indent) = (String.ofList indent).utf8ByteSize := by
      by_cases hnil : indent = []
      · rw [hnil]
        rfl
      · rw [part_of_ne_nil hnil]
        rfl
    refine ⟨_, ?_, toldByHead hrest _⟩
    rw [tokenize, lexemes_indented hline, place_append, ← hbytes, Nat.zero_add]
    rfl
  · intro text mode token htoken hkind
    obtain ⟨before, lexeme, after, hsplit, rfl⟩ := mem_place htoken
    have hhead : isHead lexeme.kind = true ∧ lexeme.kind ≠ .comment := by
      simp only [placed] at hkind
      rcases hkind with hkey | htable | harray
      · simp [hkey, isHead]
      · simp [htable, isHead]
      · simp [harray, isHead]
    obtain ⟨above, indent, hchars, habove, hindent⟩ :=
      exists_indent (atLineStart_of_lexeme hsplit hhead.1 hhead.2)
    refine ⟨String.ofList above, String.ofList indent, String.ofList (charsOf after), ?_, ?_, ?_, ?_⟩
    · apply String.toList_injective
      have htext := charsOf_lexemes (.ofMode mode) .start text.toList
      rw [hsplit, charsOf_append, charsOf_cons, hchars] at htext
      simp [placed, ← htext]
    · rw [← String.ofList_append, ← hchars, ← byteCount_eq_charsOf]
      exact Nat.zero_add _
    · rcases habove with rfl | hlast
      · exact .inl rfl
      · exact .inr (by simpa using hlast)
    · intro c hc
      rw [String.toList_ofList] at hc
      exact isIndent_iff.1 (hindent c hc)

/-- A key in quotes with an equals sign in it, and a bracket that is not closed twice. -/
example :
    (tokenize "\t'a=' =1" .root).1.map (fun token => (token.kind, token.text)) =
        [(.whitespace, "\t"), (.key, "'a='"), (.whitespace, " "), (.delimiter, "="),
          (.integer, "1")] ∧
      (tokenize "[[a]" .root).1.head?.map Token.kind = some .unknown := by
  decide +kernel

end TomlEditor.Lex
