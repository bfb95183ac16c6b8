import TomlEditor.Proofs.Lex.FirstCharacter
import TomlEditor.Proofs.Lex.Tiling

/-!
# The two quotes exchanged

The lexer tells the two quotes apart only where it compares one with the quote
that a key or a string was opened with; everywhere else a quote is a quote. So
when the two are exchanged in a text, and in the strings that are open before
it, every rule finds the same match, with the other quote in the place of the
one that opens a string. From match to match both runs then stay exchanged.
-/

namespace TomlEditor

/-! ## Exchanging quotes -/

/-- The other of the two quotes. -/
def Quote.other : Quote → Quote
  | single => double
  | double => single

@[simp] theorem Quote.other_other (quote : Quote) : quote.other.other = quote := by
  cases quote <;> rfl

/-- The state with the other quote in the place of each that opened a string. -/
def ModeStack.swap (state : ModeStack) : ModeStack :=
  ⟨state.opened.map Quote.other⟩

def Mode.swap : Mode → Mode
  | root => root
  | string quote => string quote.other

namespace Text

/-- The other quote in the place of a quote. -/
def swapQuote (c : Char) : Char :=
  if c = '\'' then '"' else if c = '"' then '\'' else c

/-- A text with its quotes exchanged. -/
def swapQuotes (text : String) : String :=
  String.ofList (text.toList.map swapQuote)

theorem swapQuote_cases (c : Char) :
    (c = '\'' ∧ swapQuote c = '"') ∨ (c = '"' ∧ swapQuote c = '\'') ∨ swapQuote c = c := by
  unfold swapQuote
  by_cases hsingle : c = '\''
  · exact .inl ⟨hsingle, if_pos hsingle⟩
  · by_cases hdouble : c = '"'
    · exact .inr (.inl ⟨hdouble, by rw [if_neg hsingle, if_pos hdouble]⟩)
    · exact .inr (.inr (by rw [if_neg hsingle, if_neg hdouble]))

theorem swapQuote_swapQuote (c : Char) : swapQuote (swapQuote c) = c := by
  rcases swapQuote_cases c with ⟨rfl, -⟩ | ⟨rfl, -⟩ | h
  · rfl
  · rfl
  · rw [h, h]

theorem swapQuote_char (quote : Quote) : swapQuote quote.char = quote.other.char := by
  cases quote <;> rfl

/-- A character comes from the one that it is exchanged with. -/
theorem swapQuote_eq_iff {c d : Char} : swapQuote c = d ↔ c = swapQuote d := by
  constructor
  · rintro rfl
    exact (swapQuote_swapQuote c).symm
  · rintro rfl
    exact swapQuote_swapQuote d

/-- A character is exchanged with a quote if it is the other one. -/
theorem swapQuote_eq_char_iff {c : Char} {quote : Quote} :
    swapQuote c = quote.other.char ↔ c = quote.char := by
  rw [swapQuote_eq_iff, swapQuote_char, Quote.other_other]

theorem map_swapQuote_eq_iff {text word : List Char} :
    text.map swapQuote = word ↔ text = word.map swapQuote := by
  constructor
  · rintro rfl
    simp [Function.comp_def, swapQuote_swapQuote]
  · rintro rfl
    simp [Function.comp_def, swapQuote_swapQuote]

theorem utf8Size_swapQuote (c : Char) : (swapQuote c).utf8Size = c.utf8Size := by
  rcases swapQuote_cases c with ⟨rfl, h⟩ | ⟨rfl, h⟩ | h
  · rfl
  · rfl
  · rw [h]

/-- Both quotes are one byte long. -/
theorem utf8ByteSize_swapQuotes (text : String) :
    (swapQuotes text).utf8ByteSize = text.utf8ByteSize := by
  obtain ⟨chars, rfl⟩ : ∃ chars, text = String.ofList chars := ⟨text.toList, by simp⟩
  rw [swapQuotes, String.toList_ofList]
  induction chars with
  | nil => rfl
  | cons c chars ih =>
    rw [List.map_cons, ← List.singleton_append, String.ofList_append, String.utf8ByteSize_append,
      ih, ← List.singleton_append (x := c), String.ofList_append, String.utf8ByteSize_append]
    show (String.singleton (swapQuote c)).utf8ByteSize + _ = (String.singleton c).utf8ByteSize + _
    rw [String.utf8ByteSize_singleton, String.utf8ByteSize_singleton, utf8Size_swapQuote]

end Text

/-- A token with its quotes exchanged. -/
def Token.swap (token : Token) : Token :=
  { token with text := Text.swapQuotes token.text }

namespace Lex

open Text

/-! ## Classes of characters -/

/-- A class that does not tell the two quotes apart. -/
def Blind (p : Char → Bool) : Prop :=
  ∀ c, p (swapQuote c) = p c

theorem blind_of {p : Char → Bool} (h : p '\'' = p '"') : Blind p := by
  intro c
  rcases swapQuote_cases c with ⟨rfl, hc⟩ | ⟨rfl, hc⟩ | hc
  · rw [hc, h]
  · rw [hc, h]
  · rw [hc]

theorem blind_isWord : Blind isWord := blind_of (by decide)

theorem blind_isBareKey : Blind isBareKey := blind_of (by decide)

theorem blind_isSpace : Blind isSpace := blind_of (by decide)

theorem blind_isIndent : Blind isIndent := blind_of (by decide)

theorem blind_isWhite : Blind isWhite := blind_of (by decide)

theorem blind_isHeaderName : Blind isHeaderName := blind_of (by decide)

theorem blind_isDigit : Blind Char.isDigit := blind_of (by decide)

theorem blind_isHexDigit : Blind isHexDigit := blind_of (by decide)

theorem blind_isEscapeLetter : Blind isEscapeLetter := blind_of (by decide)

theorem blind_notLineEnd : Blind fun c => !isLineEnd c := blind_of (by decide)

/-- Inside a string the classes of the quotes are exchanged with them. -/
theorem isStringText_swapQuote (quote : Quote) (c : Char) :
    isStringText quote.other (swapQuote c) = isStringText quote c := by
  have hslash : swapQuote c = '\\' ↔ c = '\\' := swapQuote_eq_iff
  rw [Bool.eq_iff_iff]
  simp [isStringText, swapQuote_eq_char_iff, hslash]

theorem isQuotedKey_swapQuote (quote : Quote) (c : Char) :
    isQuotedKey quote.other (swapQuote c) = isQuotedKey quote c := by
  have hfeed : swapQuote c = '\n' ↔ c = '\n' := swapQuote_eq_iff
  rw [Bool.eq_iff_iff]
  simp [isQuotedKey, swapQuote_eq_char_iff, hfeed]

theorem ofChar?_swapQuote (c : Char) :
    Quote.ofChar? (swapQuote c) = (Quote.ofChar? c).map Quote.other := by
  ext quote
  rw [Quote.ofChar?_eq_some_iff, Option.map_eq_some_iff, swapQuote_eq_iff, swapQuote_char]
  constructor
  · intro h
    exact ⟨quote.other, Quote.ofChar?_eq_some_iff.2 h, quote.other_other⟩
  · rintro ⟨found, hfound, rfl⟩
    rw [Quote.other_other]
    exact Quote.ofChar?_eq_some_iff.1 hfound

section

variable {p q : Char → Bool} (text : List Char)

theorem takeWhile_swap (h : ∀ c, q (swapQuote c) = p c) :
    (text.map swapQuote).takeWhile q = (text.takeWhile p).map swapQuote := by
  rw [List.takeWhile_map, show q ∘ swapQuote = p from funext h]

theorem dropWhile_swap (h : ∀ c, q (swapQuote c) = p c) :
    (text.map swapQuote).dropWhile q = (text.dropWhile p).map swapQuote := by
  rw [List.dropWhile_map, show q ∘ swapQuote = p from funext h]

theorem length_takeWhile_swap (h : ∀ c, q (swapQuote c) = p c) :
    ((text.map swapQuote).takeWhile q).length = (text.takeWhile p).length := by
  rw [takeWhile_swap text h, List.length_map]

theorem any_head?_swap (h : Blind p) : (text.map swapQuote).head?.any p = text.head?.any p := by
  rw [List.head?_map, Option.any_map]
  exact congrArg (Option.any · text.head?) (funext h)

theorem head?_swap {d : Char} :
    (text.map swapQuote).head? = some d ↔ text.head? = some (swapQuote d) := by
  cases text with
  | nil => simp
  | cons c rest => simp [swapQuote_eq_iff]

end

/-! ## Lengths -/

section

variable (ahead : List Char)

theorem commentLength?_swap : commentLength? (ahead.map swapQuote) = commentLength? ahead := by
  cases ahead with
  | nil => rfl
  | cons c rest =>
    have hsign : swapQuote c = '#' ↔ c = '#' := swapQuote_eq_iff
    have hrun : ((rest.map swapQuote).takeWhile fun c => !isLineEnd c).length =
        (rest.takeWhile fun c => !isLineEnd c).length := length_takeWhile_swap rest blind_notLineEnd
    simp only [List.map_cons, commentLength?_cons, hsign, hrun]

theorem tableHeaderLength?_swap :
    tableHeaderLength? (ahead.map swapQuote) = tableHeaderLength? ahead := by
  cases ahead with
  | nil => rfl
  | cons c rest =>
    have hopen : swapQuote c = '[' ↔ c = '[' := swapQuote_eq_iff
    have hclose : ((rest.map swapQuote).dropWhile isHeaderName).head? = some ']' ↔
        (rest.dropWhile isHeaderName).head? = some ']' := by
      rw [dropWhile_swap rest blind_isHeaderName]
      exact head?_swap _
    simp only [List.map_cons, tableHeaderLength?_cons, hopen, hclose,
      length_takeWhile_swap rest blind_isHeaderName]

theorem arrayTableHeaderLength?_swap :
    arrayTableHeaderLength? (ahead.map swapQuote) = arrayTableHeaderLength? ahead := by
  cases ahead with
  | nil => rfl
  | cons c rest =>
    have hopen : swapQuote c = '[' ↔ c = '[' := swapQuote_eq_iff
    have hsecond : (rest.map swapQuote).head? = some '[' ↔ rest.head? = some '[' := head?_swap rest
    have hclose : ((rest.map swapQuote).tail.dropWhile isHeaderName).take 2 = [']', ']'] ↔
        (rest.tail.dropWhile isHeaderName).take 2 = [']', ']'] := by
      rw [← List.map_tail, dropWhile_swap _ blind_isHeaderName, ← List.map_take]
      exact map_swapQuote_eq_iff
    simp only [List.map_cons, arrayTableHeaderLength?_cons, hopen, hsecond, hclose]
    rw [← List.map_tail, length_takeWhile_swap _ blind_isHeaderName]

theorem keyNameLength_swap : keyNameLength (ahead.map swapQuote) = keyNameLength ahead := by
  cases ahead with
  | nil => rfl
  | cons c rest =>
    rw [List.map_cons, keyNameLength_cons, keyNameLength_cons, ofChar?_swapQuote]
    cases Quote.ofChar? c with
    | none => exact length_takeWhile_swap (c :: rest) blind_isBareKey
    | some quote =>
      -- The key ends at the other quote, which stands where this one stood.
      have hclose : ((rest.map swapQuote).dropWhile (isQuotedKey quote.other)).head? =
          some quote.other.char ↔ (rest.dropWhile (isQuotedKey quote)).head? = some quote.char := by
        rw [dropWhile_swap rest (isQuotedKey_swapQuote quote), head?_swap, swapQuote_char,
          Quote.other_other]
      simp only [Option.map_some, hclose, length_takeWhile_swap rest (isQuotedKey_swapQuote quote)]

theorem keyGapLength?_swap : keyGapLength? (ahead.map swapQuote) = keyGapLength? ahead := by
  have hsign : ((ahead.map swapQuote).dropWhile isSpace).head? = some '=' ↔
      (ahead.dropWhile isSpace).head? = some '=' := by
    rw [dropWhile_swap ahead blind_isSpace]
    exact head?_swap _
  unfold keyGapLength?
  simp only [hsign, length_takeWhile_swap ahead blind_isSpace]

theorem fits_swap {slots : List Slot} (h : ∀ slot ∈ slots, Blind slot.accepts) :
    fits slots (ahead.map swapQuote) = fits slots ahead := by
  induction slots generalizing ahead with
  | nil => simp [fits]
  | cons slot slots ih =>
    obtain ⟨hslot, hslots⟩ := List.forall_mem_cons.1 h
    cases ahead with
    | nil => rfl
    | cons c rest => rw [List.map_cons, fits, fits, hslot c, ih rest hslots]

/-- Slots of dates and times take no quotes. -/
theorem slotsLength?_swap {slots : List Slot}
    (h : ∀ slot ∈ slots, slot.accepts '\'' = slot.accepts '"') :
    slotsLength? slots (ahead.map swapQuote) = slotsLength? slots ahead := by
  rw [slotsLength?, slotsLength?, fits_swap ahead fun slot hslot => blind_of (h slot hslot)]

theorem dateTimeLength?_swap : dateTimeLength? (ahead.map swapQuote) = dateTimeLength? ahead :=
  slotsLength?_swap ahead (by decide)

theorem secondFractionLength_swap :
    secondFractionLength (ahead.map swapQuote) = secondFractionLength ahead := by
  cases ahead with
  | nil => rfl
  | cons c rest =>
    have hpoint : swapQuote c = '.' ↔ c = '.' := swapQuote_eq_iff
    simp only [List.map_cons, secondFractionLength_cons, hpoint,
      length_takeWhile_swap rest blind_isDigit]

theorem offsetLength?_swap : offsetLength? (ahead.map swapQuote) = offsetLength? ahead := by
  cases ahead with
  | nil => rfl
  | cons c rest =>
    have hzulu : swapQuote c = 'Z' ↔ c = 'Z' := swapQuote_eq_iff
    have hslots : slotsLength? offsetSlots ((c :: rest).map swapQuote) =
        slotsLength? offsetSlots (c :: rest) := slotsLength?_swap _ (by decide)
    rw [List.map_cons] at hslots ⊢
    simp only [offsetLength?_cons, hzulu, hslots]

theorem signLength_swap : signLength (ahead.map swapQuote) = signLength ahead := by
  cases ahead with
  | nil => rfl
  | cons c rest =>
    have hplus : swapQuote c = '+' ↔ c = '+' := swapQuote_eq_iff
    have hminus : swapQuote c = '-' ↔ c = '-' := swapQuote_eq_iff
    simp only [List.map_cons, signLength_cons, hplus, hminus]

/-- A run of digits and one that starts with a digit, each by the other on what follows. -/
theorem digits_swap : digitRun (ahead.map swapQuote) = digitRun ahead ∧
    digitsLength (ahead.map swapQuote) = digitsLength ahead := by
  induction ahead with
  | nil => exact ⟨rfl, rfl⟩
  | cons c rest ih =>
    obtain ⟨hrun, hdigits⟩ := ih
    have hunder : swapQuote c = '_' ↔ c = '_' := swapQuote_eq_iff
    have hfirst : digitsLength (swapQuote c :: rest.map swapQuote) = digitsLength (c :: rest) := by
      simp only [digitsLength_cons, blind_isDigit c, hrun]
    refine ⟨?_, hfirst⟩
    simp only [List.map_cons, digitRun_cons, hunder, hdigits, hfirst]

theorem digitRun_swap : digitRun (ahead.map swapQuote) = digitRun ahead :=
  (digits_swap ahead).1

theorem digitsLength_swap : digitsLength (ahead.map swapQuote) = digitsLength ahead :=
  (digits_swap ahead).2

theorem magnitudeLength?_swap :
    magnitudeLength? (ahead.map swapQuote) = magnitudeLength? ahead := by
  cases ahead with
  | nil => rfl
  | cons c rest =>
    have hzero : swapQuote c = '0' ↔ c = '0' := swapQuote_eq_iff
    simp only [List.map_cons, magnitudeLength?_cons, beq_iff_eq, hzero, blind_isDigit c,
      digitRun_swap]

theorem integerLength?_swap : integerLength? (ahead.map swapQuote) = integerLength? ahead := by
  rw [integerLength?, integerLength?, signLength_swap, ← List.map_drop, magnitudeLength?_swap]

theorem fractionLength_swap : fractionLength (ahead.map swapQuote) = fractionLength ahead := by
  cases ahead with
  | nil => rfl
  | cons c rest =>
    have hpoint : swapQuote c = '.' ↔ c = '.' := swapQuote_eq_iff
    simp only [List.map_cons, fractionLength_cons, hpoint, digitsLength_swap]

theorem exponentLength_swap : exponentLength (ahead.map swapQuote) = exponentLength ahead := by
  cases ahead with
  | nil => rfl
  | cons c rest =>
    have hsmall : swapQuote c = 'e' ↔ c = 'e' := swapQuote_eq_iff
    have hlarge : swapQuote c = 'E' ↔ c = 'E' := swapQuote_eq_iff
    simp only [List.map_cons, exponentLength_cons, Bool.or_eq_true, beq_iff_eq, hsmall, hlarge,
      signLength_swap]
    rw [← List.map_drop, digitsLength_swap]

theorem floatLength?_swap : floatLength? (ahead.map swapQuote) = floatLength? ahead := by
  simp only [floatLength?, integerLength?_swap, ← List.map_drop, fractionLength_swap,
    exponentLength_swap]

theorem prefix_swap_iff {word : List Char} (h : word.map swapQuote = word) :
    word <+: ahead.map swapQuote ↔ word <+: ahead := by
  have hback : (ahead.map swapQuote).map swapQuote = ahead := map_swapQuote_eq_iff.2 rfl
  constructor
  · intro hprefix
    have hswapped := hprefix.map swapQuote
    rwa [h, hback] at hswapped
  · intro hprefix
    have hswapped := hprefix.map swapQuote
    rwa [h] at hswapped

theorem booleanLength?_swap : booleanLength? (ahead.map swapQuote) = booleanLength? ahead := by
  have htrue : ['t', 'r', 'u', 'e'] <+: ahead.map swapQuote ↔ ['t', 'r', 'u', 'e'] <+: ahead :=
    prefix_swap_iff ahead rfl
  have hfalse : ['f', 'a', 'l', 's', 'e'] <+: ahead.map swapQuote ↔
      ['f', 'a', 'l', 's', 'e'] <+: ahead := prefix_swap_iff ahead rfl
  simp only [booleanLength?_eq, htrue, hfalse]

theorem bounded_swap (behind : Behind) (length : Nat) :
    bounded behind (ahead.map swapQuote) length = bounded behind ahead length := by
  rw [bounded, bounded, ← List.map_drop, any_head?_swap _ blind_isWord]

theorem hexRun_swap (limit : Nat) : hexRun limit (ahead.map swapQuote) = hexRun limit ahead := by
  rw [hexRun, hexRun, ← List.map_take, length_takeWhile_swap _ blind_isHexDigit]

theorem escapeLength?_swap : escapeLength? (ahead.map swapQuote) = escapeLength? ahead := by
  cases ahead with
  | nil => rfl
  | cons c rest =>
    by_cases hc : c = '\\'
    · subst hc
      cases rest with
      | nil => rfl
      | cons d rest =>
        have hbyte : swapQuote d = 'x' ↔ d = 'x' := swapQuote_eq_iff
        have hshort : swapQuote d = 'u' ↔ d = 'u' := swapQuote_eq_iff
        have hlong : swapQuote d = 'U' ↔ d = 'U' := swapQuote_eq_iff
        show escapeLength? ('\\' :: swapQuote d :: rest.map swapQuote) = _
        simp only [escapeLength?, blind_isEscapeLetter d, beq_iff_eq, hbyte, hshort, hlong,
          hexRun_swap]
    · have hslash : swapQuote c ≠ '\\' := fun h => hc (swapQuote_eq_iff.1 h)
      rw [List.map_cons, escapeLength?_of_ne hslash, escapeLength?_of_ne hc]

theorem invalidEscapeLength?_swap :
    invalidEscapeLength? (ahead.map swapQuote) = invalidEscapeLength? ahead := by
  cases ahead with
  | nil => rfl
  | cons c rest =>
    have hslash : swapQuote c = '\\' ↔ c = '\\' := swapQuote_eq_iff
    simp only [List.map_cons, invalidEscapeLength?_cons, hslash,
      any_head?_swap rest blind_notLineEnd]

theorem stringTextLength_swap (quote : Quote) :
    stringTextLength quote.other (ahead.map swapQuote) = stringTextLength quote ahead :=
  length_takeWhile_swap ahead (isStringText_swapQuote quote)

/-! ## Values between other text -/

variable (behind : Behind)

theorem scanDateTimeTz_swap :
    scanDateTimeTz behind (ahead.map swapQuote) = scanDateTimeTz behind ahead := by
  simp only [scanDateTimeTz, dateTimeLength?_swap, ← List.map_drop, secondFractionLength_swap,
    offsetLength?_swap, bounded_swap]

theorem scanDateTime_swap :
    scanDateTime behind (ahead.map swapQuote) = scanDateTime behind ahead := by
  simp only [scanDateTime, dateTimeLength?_swap, ← List.map_drop, secondFractionLength_swap,
    bounded_swap]

theorem bind_bounded_swap {length? : List Char → Option Nat}
    (h : length? (ahead.map swapQuote) = length? ahead) :
    (length? (ahead.map swapQuote)).bind (bounded behind (ahead.map swapQuote)) =
      (length? ahead).bind (bounded behind ahead) := by
  rw [h]
  exact congrArg _ (funext fun length => bounded_swap ahead behind length)

end

/-! ## Rules -/

/-- The other quote in the place of one that opens a string. -/
def Shift.swap : Shift → Shift
  | stay => stay
  | enter quote => enter quote.other
  | leave => leave

def Match.swap (found : Match) : Match :=
  { found with shift := found.shift.swap }

theorem Shift.apply_swap (shift : Shift) (state : ModeStack) :
    shift.swap.apply state.swap = (shift.apply state).swap := by
  cases shift with
  | stay => rfl
  | enter quote => rfl
  | leave =>
    show (⟨(state.opened.map Quote.other).tail⟩ : ModeStack) = ⟨state.opened.tail.map Quote.other⟩
    rw [List.map_tail]

theorem single?_swap (kind : Token.Kind) (n : Nat) :
    (Match.single? kind n .stay).map Match.swap = Match.single? kind n .stay := by
  unfold Match.single?
  rw [Option.map_map]
  rfl

theorem bind_single?_swap (length? : Option Nat) (kind : Token.Kind) :
    (length?.bind fun n => Match.single? kind n .stay).map Match.swap =
      length?.bind fun n => Match.single? kind n .stay := by
  cases length? with
  | none => rfl
  | some n => exact single?_swap kind n

namespace Rule

/-- On a text with its quotes exchanged the other rule finds what this one finds on the text. -/
def Mirrors (rule other : Rule) : Prop :=
  ∀ behind ahead, other.scan behind (ahead.map swapQuote) = (rule.scan behind ahead).map Match.swap

theorem mirrors_comment : comment.Mirrors comment := by
  intro behind ahead
  simp only [comment, commentLength?_swap, bind_single?_swap]

theorem mirrors_header {name : String} {kind : Token.Kind} {length? : List Char → Option Nat}
    (h : ∀ ahead, length? (ahead.map swapQuote) = length? ahead) :
    (header name kind length?).Mirrors (header name kind length?) := by
  intro behind ahead
  simp only [header, h]
  by_cases hstart : behind.atLineStart = true
  · rw [if_pos hstart, bind_single?_swap]
  · rw [if_neg hstart]
    rfl

theorem mirrors_key : key.Mirrors key := by
  intro behind ahead
  simp only [key, keyNameLength_swap, ← List.map_drop, keyGapLength?_swap]
  by_cases hstart : behind.atLineStart = true
  · rw [if_pos hstart, Option.map_bind]
    refine congrArg _ (funext fun name => ?_)
    show _ = Option.map Match.swap _
    rw [Option.map_map]
    rfl
  · rw [if_neg hstart]
    rfl

theorem mirrors_scalar {name : String} {kind : Token.Kind}
    {length? : Behind → List Char → Option Nat}
    (h : ∀ ahead behind, length? behind (ahead.map swapQuote) = length? behind ahead) :
    (scalar name kind length?).Mirrors (scalar name kind length?) := by
  intro behind ahead
  simp only [scalar, h, bind_single?_swap]

theorem mirrors_stringOpen : stringOpen.Mirrors stringOpen := by
  intro behind ahead
  cases ahead with
  | nil => rfl
  | cons c rest =>
    simp only [stringOpen, List.map_cons, List.head?_cons, Option.bind_some, ofChar?_swapQuote,
      Option.map_map]
    rfl

theorem mirrors_whitespace : whitespace.Mirrors whitespace := by
  intro behind ahead
  simp only [whitespace, length_takeWhile_swap ahead blind_isWhite, single?_swap]

theorem mirrors_stringText (quote : Quote) :
    (stringText quote).Mirrors (stringText quote.other) := by
  intro behind ahead
  simp only [stringText, stringTextLength_swap, single?_swap]

theorem mirrors_stringEscape : stringEscape.Mirrors stringEscape := by
  intro behind ahead
  simp only [stringEscape, escapeLength?_swap, bind_single?_swap]

theorem mirrors_stringEscapeInvalid : stringEscapeInvalid.Mirrors stringEscapeInvalid := by
  intro behind ahead
  simp only [stringEscapeInvalid, invalidEscapeLength?_swap, bind_single?_swap]

theorem mirrors_stringClose (quote : Quote) :
    (stringClose quote).Mirrors (stringClose quote.other) := by
  intro behind ahead
  have hclose : (ahead.map swapQuote).head? = some quote.other.char ↔
      ahead.head? = some quote.char := by
    rw [head?_swap, swapQuote_char, Quote.other_other]
  simp only [stringClose, hclose]
  split <;> rfl

end Rule

/-- The rules of a mode, one by one, on exchanged texts. -/
theorem mirrors_rules (mode : Mode) :
    List.Forall₂ Rule.Mirrors (rulesOf mode) (rulesOf mode.swap) := by
  cases mode with
  | root =>
    exact
      .cons Rule.mirrors_comment <|
      .cons (Rule.mirrors_header arrayTableHeaderLength?_swap) <|
      .cons (Rule.mirrors_header tableHeaderLength?_swap) <|
      .cons Rule.mirrors_key <|
      .cons (Rule.mirrors_scalar scanDateTimeTz_swap) <|
      .cons (Rule.mirrors_scalar scanDateTime_swap) <|
      .cons (Rule.mirrors_scalar fun ahead behind =>
        bind_bounded_swap ahead behind (slotsLength?_swap ahead (by decide))) <|
      .cons (Rule.mirrors_scalar fun ahead behind =>
        bind_bounded_swap ahead behind (floatLength?_swap ahead)) <|
      .cons (Rule.mirrors_scalar fun ahead behind =>
        bind_bounded_swap ahead behind (integerLength?_swap ahead)) <|
      .cons (Rule.mirrors_scalar fun ahead behind =>
        bind_bounded_swap ahead behind (booleanLength?_swap ahead)) <|
      .cons Rule.mirrors_stringOpen <|
      .cons Rule.mirrors_whitespace .nil
  | string quote =>
    exact
      .cons (Rule.mirrors_stringText quote) <|
      .cons Rule.mirrors_stringEscape <|
      .cons Rule.mirrors_stringEscapeInvalid <|
      .cons (Rule.mirrors_stringClose quote) .nil

theorem findSome?_mirrors {rules others : List Rule} (h : List.Forall₂ Rule.Mirrors rules others)
    (behind : Behind) (ahead : List Char) :
    (others.findSome? fun rule => rule.scan behind (ahead.map swapQuote)) =
      (rules.findSome? fun rule => rule.scan behind ahead).map Match.swap := by
  induction h with
  | nil => rfl
  | @cons rule other rules others hrule _ ih =>
    rw [List.findSome?_cons, List.findSome?_cons, hrule behind ahead, ih]
    cases rule.scan behind ahead <;> rfl

theorem unknown_swap (ahead : List Char) :
    unknown (ahead.map swapQuote) = (unknown ahead).swap := by
  unfold unknown
  simp only [length_takeWhile_swap ahead blind_isWord]
  rfl

theorem scan_swap (mode : Mode) (behind : Behind) (ahead : List Char) :
    scan mode.swap behind (ahead.map swapQuote) = (scan mode behind ahead).swap := by
  unfold scan
  rw [findSome?_mirrors (mirrors_rules mode), unknown_swap]
  cases (rulesOf mode).findSome? fun rule => rule.scan behind ahead <;> rfl

/-! ## Texts -/

/-- A lexeme with its quotes exchanged. -/
def Lexeme.swap (lexeme : Lexeme) : Lexeme :=
  { lexeme with text := swapQuotes lexeme.text }

theorem Behind.after_swap (behind : Behind) (text : List Char) :
    behind.after (text.map swapQuote) = behind.after text := by
  induction text generalizing behind with
  | nil => rfl
  | cons c text ih =>
    have hfeed : (swapQuote c == '\n') = (c == '\n') := blind_of (p := (· == '\n')) (by decide) c
    have hnext : behind.next (swapQuote c) = behind.next c := by
      unfold Behind.next
      rw [hfeed, blind_isIndent c, blind_isWord c]
    rw [List.map_cons, Behind.after_cons, Behind.after_cons, hnext, ih]

theorem cut_swap (pieces : List Piece) (text : List Char) :
    cut pieces (text.map swapQuote) = (cut pieces text).map Lexeme.swap := by
  induction pieces generalizing text with
  | nil => rfl
  | cons piece more ih =>
    rw [cut, cut, List.map_cons, ← List.map_drop, ih, ← List.map_take, Lexeme.swap, swapQuotes,
      String.toList_ofList]

theorem mode_swap (state : ModeStack) : state.swap.mode = state.mode.swap := by
  obtain ⟨opened⟩ := state
  cases opened <;> rfl

theorem lexemes_swap (state : ModeStack) (behind : Behind) (ahead : List Char) :
    lexemes state.swap behind (ahead.map swapQuote) =
      ((lexemes state behind ahead).1.map Lexeme.swap, (lexemes state behind ahead).2.swap) := by
  induction ahead using matchInduction generalizing state behind with
  | nil => rw [List.map_nil, lexemes_nil, lexemes_nil, List.map_nil]
  | step ahead h ih =>
    have hmap : ahead.map swapQuote ≠ [] := by simpa using h
    rw [lexemes_step _ _ hmap, lexemes_step _ _ h, mode_swap, scan_swap]
    generalize scan state.mode behind ahead = found
    -- The exchanged match covers as many characters and leaves the exchanged state.
    show (cut found.pieces (ahead.map swapQuote) ++
        (lexemes (found.shift.swap.apply state.swap)
          (behind.after ((ahead.map swapQuote).take found.length))
          ((ahead.map swapQuote).drop found.length)).1,
      (lexemes (found.shift.swap.apply state.swap)
          (behind.after ((ahead.map swapQuote).take found.length))
          ((ahead.map swapQuote).drop found.length)).2) = _
    rw [cut_swap, Shift.apply_swap, ← List.map_take, ← List.map_drop, Behind.after_swap, ih,
      ← List.map_append]

theorem place_swap (offset : Nat) (lexemes : List Lexeme) :
    place offset (lexemes.map Lexeme.swap) = (place offset lexemes).map Token.swap := by
  induction lexemes generalizing offset with
  | nil => rfl
  | cons lexeme more ih =>
    have hbytes : lexeme.swap.text.utf8ByteSize = lexeme.text.utf8ByteSize :=
      utf8ByteSize_swapQuotes lexeme.text
    have hplaced : placed offset lexeme.swap = (placed offset lexeme).swap := by
      unfold placed Token.swap
      rw [hbytes]
      rfl
    rw [List.map_cons, place_cons, place_cons, List.map_cons, hplaced, hbytes, ih]

end Lex

open TomlEditor.Lex

/-- **The two quotes are interchangeable.** When single and double quotes are exchanged in a text
and in the state it is lexed from, the tokens have the same kinds and places, their texts are the
old ones with the quotes exchanged, and so is the state behind them. -/
theorem tokenize_swapQuotes (text : String) (state : ModeStack) :
    tokenize (Text.swapQuotes text) state.swap =
      ((tokenize text state).1.map Token.swap, (tokenize text state).2.swap) := by
  unfold tokenize
  rw [Text.swapQuotes, String.toList_ofList, lexemes_swap]
  exact congrArg (·, _) (place_swap 0 _)

/-- The other quote inside a string is text before and after the exchange. -/
example : tokenize "'a\"' = \"\\'b" .root =
      ((tokenize "\"a'\" = '\\\"b" .root).1.map Token.swap,
        (ModeStack.ofMode (.string .single)).swap) := by
  decide +kernel

end TomlEditor
