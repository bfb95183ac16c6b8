import TomlEditor.Proofs.Lex.Stream

/-!
# Resuming between two tokens

The rules of the top level look behind, so a text cannot be cut between any two
tokens and the second part be lexed on its own. It can be cut inside a string,
where the rules do not look behind and the quote that ends the string hides what
was before it, and behind a line feed, where what lies behind is the same as at
the start of a text.
-/

namespace TomlEditor

/-- A token at the same text, so many bytes further left. -/
def Token.shiftLeft (token : Token) (bytes : Nat) : Token :=
  { token with span := ⟨token.span.start - bytes, token.span.stop - bytes⟩ }

/-- The byte offset behind the last of some tokens. -/
def endOf (tokens : List Token) : Nat :=
  (tokens.getLast?.map (·.span.stop)).getD 0

/-- The last of some tokens ends with a line feed. -/
def EndsLine (tokens : List Token) : Prop :=
  ∃ token, tokens.getLast? = some token ∧ token.text.toList.getLast? = some '\n'

namespace Lex

/-! ## Places -/

theorem place_inj {first second : List Lexeme} {offset other : Nat}
    (h : place offset first = place other second) : first = second := by
  induction first generalizing second offset other with
  | nil =>
    cases second with
    | nil => rfl
    | cons lexeme more => simp at h
  | cons lexeme more ih =>
    cases second with
    | nil => simp at h
    | cons found later =>
      rw [place_cons, place_cons, List.cons.injEq] at h
      obtain ⟨hplaced, hmore⟩ := h
      obtain ⟨kind, text⟩ := lexeme
      obtain ⟨other, written⟩ := found
      simp only [placed, Token.mk.injEq] at hplaced
      obtain ⟨rfl, rfl, -⟩ := hplaced
      rw [ih hmore]

theorem take_place (offset : Nat) (lexemes : List Lexeme) (count : Nat) :
    (place offset lexemes).take count = place offset (lexemes.take count) := by
  induction lexemes generalizing offset count with
  | nil => simp
  | cons lexeme more ih =>
    cases count with
    | zero => rfl
    | succ count => simp [ih]

theorem drop_place (offset : Nat) (lexemes : List Lexeme) (count : Nat) :
    (place offset lexemes).drop count =
      place (offset + byteCount (lexemes.take count)) (lexemes.drop count) := by
  induction lexemes generalizing offset count with
  | nil => simp
  | cons lexeme more ih =>
    cases count with
    | zero => rfl
    | succ count => simp [ih, Nat.add_assoc]

theorem endOf_place (lexemes : List Lexeme) : endOf (place 0 lexemes) = byteCount lexemes := by
  rcases List.eq_nil_or_concat lexemes with rfl | ⟨before, lexeme, rfl⟩
  · rfl
  · simp [endOf, place_append, placed, byteCount_eq, String.utf8ByteSize_append]

theorem map_shiftLeft_place (bytes offset : Nat) (lexemes : List Lexeme) :
    (place (bytes + offset) lexemes).map (·.shiftLeft bytes) = place offset lexemes := by
  induction lexemes generalizing offset with
  | nil => rfl
  | cons lexeme more ih =>
    rw [place_cons, place_cons, List.map_cons, Nat.add_assoc, ih]
    simp [Token.shiftLeft, placed, Nat.add_assoc]

theorem le_start_of_mem_place {offset : Nat} {lexemes : List Lexeme} {token : Token}
    (h : token ∈ place offset lexemes) : offset ≤ token.span.start := by
  obtain ⟨before, lexeme, after, -, rfl⟩ := mem_place h
  exact Nat.le_add_right _ _

/-! ## What lies behind -/

/-- Inside a string the rules do not look behind. -/
theorem scan_string_behind (quote : Quote) (behind other : Behind) (ahead : List Char) :
    scan (.string quote) behind ahead = scan (.string quote) other ahead := rfl

/-- A quote hides what lies behind it. -/
theorem Behind.next_quote (quote : Quote) (behind : Behind) :
    behind.next quote.char = ⟨false, false⟩ := by
  cases quote <;> simp [Behind.next, Quote.char, isIndent, Text.isSpace, Text.isWord]

/-- Behind a line feed it is as at the start of a text. -/
theorem Behind.after_of_feed {text : List Char} (h : text.getLast? = some '\n')
    (behind : Behind) : behind.after text = .start := by
  obtain ⟨before, rfl⟩ := List.getLast?_eq_some_iff.1 h
  rw [Behind.after_append, Behind.after_cons, Behind.after_nil, Behind.next_feed]

/-- A text inside a string is lexed the same whatever lies behind it: up to the quote that closes
the string no rule looks behind, and the quote hides the rest. -/
theorem lexemes_string_behind (quote : Quote) (behind other : Behind) (ahead : List Char) :
    lexemes (.ofMode (.string quote)) behind ahead =
      lexemes (.ofMode (.string quote)) other ahead := by
  induction ahead using matchInduction generalizing behind other with
  | nil => rw [lexemes_nil, lexemes_nil]
  | step ahead h ih =>
    rw [lexemes_step _ behind h, lexemes_step _ other h, ModeStack.mode_ofMode,
      scan_string_behind quote other behind]
    rcases scan_string_cases quote behind h with ⟨kind, n, hn, -, -, hfound⟩ | ⟨rest, rfl, hfound⟩
    · rw [hfound]
      simp only [Shift.apply]
      rw [ih _ _ (other.after _)]
    · rw [hfound]
      simp [closing, Match.length, Match.pieces, Behind.next_quote]

end Lex

namespace TokenStream

open TomlEditor.Lex

/-! ## Where a stream can be resumed -/

/-- A token that ends with a line feed is the last one queued, and behind it the stream is as at the
start of a text. -/
theorem StandsIn.next_feed {stream : TokenStream} {mode : Mode} (h : stream.StandsIn mode)
    {token : Token} (htoken : stream.next.1 = some token)
    (hfeed : token.text.toList.getLast? = some '\n') :
    stream.next.2.queue = [] ∧ stream.next.2.behind = .start := by
  have hmem : '\n' ∈ token.text.toList := List.mem_of_getLast? hfeed
  rcases next_cases stream with ⟨first, more, hqueue, hnext⟩ |
    ⟨hempty, hahead, first, more, hqueue, hnext⟩ | ⟨-, -, hnext⟩
  · rw [hnext] at htoken
    obtain rfl : first = token := Option.some.inj htoken
    exact absurd hmem (h.feedless first (by simp [hqueue]))
  · rw [hnext] at htoken ⊢
    obtain rfl : first = token := Option.some.inj htoken
    rcases h.step_cases hempty hahead with ⟨only, honly, -, hbehind⟩ | ⟨-, hstands⟩
    · obtain ⟨rfl, rfl⟩ := List.cons.inj (honly.symm.trans hqueue)
      exact ⟨rfl, hbehind.trans (Behind.after_of_feed hfeed stream.behind)⟩
    · exact absurd hmem (hstands.feedless first (by simp [hqueue]))
  · rw [hnext] at htoken
    simp at htoken

theorem next_of_eq_none {stream : TokenStream} (h : stream.next.1 = none) :
    stream.next.2 = stream := by
  rcases next_cases stream with ⟨token, more, -, hnext⟩ | ⟨-, -, token, more, -, hnext⟩ |
    ⟨-, -, hnext⟩
  · rw [hnext] at h
    simp at h
  · rw [hnext] at h
    simp at h
  · rw [hnext]

theorem StandsIn.after_feed {stream : TokenStream} {mode : Mode} (h : stream.StandsIn mode)
    {calls : Nat} (hfeed : EndsLine (stream.remaining.1.take calls)) :
    (stream.after calls).queue = [] ∧ (stream.after calls).behind = .start := by
  induction calls with
  | zero =>
    obtain ⟨token, hlast, -⟩ := hfeed
    simp at hlast
  | succ calls ih =>
    have hnext := next_after stream calls
    rw [List.take_add_one] at hfeed
    rw [after_succ]
    cases htoken : stream.remaining.1[calls]? with
    | none =>
      -- The last token was given out before, and the stream has not changed since.
      rw [htoken] at hnext hfeed
      rw [next_of_eq_none hnext]
      exact ih (by simpa using hfeed)
    | some token =>
      rw [htoken] at hnext hfeed
      obtain ⟨last, hlast, hfeed⟩ := hfeed
      obtain rfl : token = last := by simpa using hlast
      exact (h.after calls).next_feed hnext hfeed

/-- A stream inside a string, or behind a token that ends with a line feed, has nothing queued, and
what lies behind it may as well be the start of a text. -/
theorem StandsIn.fresh {stream : TokenStream} {mode : Mode} (h : stream.StandsIn mode)
    {calls : Nat} (hcut : (stream.after calls).state.mode ≠ .root ∨
      EndsLine (stream.remaining.1.take calls)) :
    (stream.after calls).queue = [] ∧
      lexemes (stream.after calls).state (stream.after calls).behind (stream.after calls).ahead =
        lexemes (stream.after calls).state .start (stream.after calls).ahead := by
  have hstands := h.after calls
  rcases hcut with hstring | hfeed
  · rw [hstands.state_eq, ModeStack.mode_ofMode] at hstring
    refine ⟨Classical.not_not.1 fun hqueue => hstring (hstands.root hqueue), ?_⟩
    rw [hstands.state_eq]
    cases hmode : (stream.remaining.1.take calls).foldl Mode.afterToken mode with
    | root => exact absurd hmode hstring
    | string quote => exact lexemes_string_behind quote _ _ _
  · obtain ⟨hqueue, hbehind⟩ := h.after_feed hfeed
    exact ⟨hqueue, by rw [hbehind]⟩

/-- **Resuming between two tokens.** Behind a token inside a string, and behind one that ends with a
line feed, the rest of a text lexed on its own from the state reached gives the tokens that are left
of the whole text, each as far further left as the cut is, and ends in the same state. -/
theorem tokenize_resumed (text : String) (mode : Mode) (count : Nat)
    (hcut : ((ofText text (.ofMode mode)).after count).state.mode ≠ .root ∨
      EndsLine ((tokenize text (.ofMode mode)).1.take count)) :
    let full := tokenize text (.ofMode mode)
    let state := ((ofText text (.ofMode mode)).after count).state
    let cut := endOf (full.1.take count)
    ∃ before rest : String, text = before ++ rest ∧ before.utf8ByteSize = cut ∧
      (tokenize rest state).1 = (full.1.drop count).map (·.shiftLeft cut) ∧
      (∀ token ∈ full.1.drop count, cut ≤ token.span.start) ∧
      (tokenize rest state).2 = full.2 := by
  intro full state cut
  let lexed := (lexemes (.ofMode mode) .start text.toList).1
  let ahead := ((ofText text (.ofMode mode)).after count).ahead
  obtain ⟨hqueue, hfresh⟩ := (standsIn_ofText text mode).fresh hcut
  have hleft := remaining_after (ofText text (.ofMode mode)) count
  rw [remaining_ofText, remaining, hqueue, hfresh] at hleft
  obtain ⟨htokens, hlast⟩ := Prod.mk.inj hleft
  have hdrop : full.1.drop count = place cut (lexed.drop count) := by
    simp only [cut, full, tokenize, take_place, endOf_place, drop_place, Nat.zero_add]
    rfl
  have hrest : (lexemes state .start ahead).1 = lexed.drop count :=
    place_inj (htokens.trans hdrop)
  have htokenize : tokenize (String.ofList ahead) state =
      (place 0 (lexed.drop count), full.2) := by
    rw [tokenize, String.toList_ofList, hrest]
    exact congrArg (Prod.mk _) hlast
  refine ⟨String.join ((lexed.take count).map Lexeme.text), String.ofList ahead, ?_, ?_, ?_, ?_, ?_⟩
  · apply String.toList_injective
    have hahead : ahead = (lexed.drop count).flatMap (·.text.toList) := by
      rw [← hrest, flatMap_lexemes]
    rw [String.toList_append, String.toList_join, String.toList_ofList, List.flatMap_map, hahead,
      ← List.flatMap_append, List.take_append_drop]
    exact (flatMap_lexemes (.ofMode mode) .start text.toList).symm
  · rw [← byteCount_eq, ← endOf_place, ← take_place]
    rfl
  · rw [htokenize, hdrop]
    exact (map_shiftLeft_place cut 0 _).symm
  · intro token htoken
    rw [hdrop] at htoken
    exact le_start_of_mem_place htoken
  · rw [htokenize]

/-- A text cut inside a string that goes on over a line, and cut behind the line that a comment
ends. -/
theorem tokenize_resumed_in_string_and_behind_line :
    let text := "x = 'a\nb' # c\ny = 1"
    (∃ before rest : String, text = before ++ rest ∧ before.utf8ByteSize = 8 ∧
      (tokenize rest (.ofMode (.string .single))).1 =
        ((tokenize text .root).1.drop 6).map (·.shiftLeft 8)) ∧
    ∃ before rest : String, text = before ++ rest ∧ before.utf8ByteSize = 14 ∧
      (tokenize rest .root).1 = ((tokenize text .root).1.drop 10).map (·.shiftLeft 14) := by
  intro text
  constructor
  · have hstate : ((ofText text (.ofMode .root)).after 6).state = .ofMode (.string .single) := by
      decide +kernel
    have hcut : endOf ((tokenize text (.ofMode .root)).1.take 6) = 8 := by decide +kernel
    obtain ⟨before, rest, htext, hsize, htokens, -⟩ :=
      tokenize_resumed text .root 6 (.inl (by rw [hstate]; decide))
    rw [hcut] at hsize htokens
    rw [hstate] at htokens
    exact ⟨before, rest, htext, hsize, htokens⟩
  · have hstate : ((ofText text (.ofMode .root)).after 10).state = .root := by decide +kernel
    have hcut : endOf ((tokenize text (.ofMode .root)).1.take 10) = 14 := by decide +kernel
    have hline : EndsLine ((tokenize text (.ofMode .root)).1.take 10) :=
      ⟨⟨.whitespace, "\n", ⟨13, 14⟩⟩, by decide +kernel, by decide +kernel⟩
    obtain ⟨before, rest, htext, hsize, htokens, -⟩ :=
      tokenize_resumed text .root 10 (.inr hline)
    rw [hcut] at hsize htokens
    rw [hstate] at htokens
    exact ⟨before, rest, htext, hsize, htokens⟩

end TokenStream

end TomlEditor
