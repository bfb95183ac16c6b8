import Mathlib.Data.List.TakeWhile
import TomlEditor.Proofs.Lex.Modes

/-!
# A carriage return behind a text

In every mode a carriage return is a character of a run: white space at the top
level and text inside a string. Behind a text it is therefore taken into the run
that the text ends with, or makes a run of its own, and the lexer ends in the
same state with it as without it. Nothing else in the text changes, because the
rules do not tell a carriage return from the end of the text.
-/

namespace TomlEditor

/-- Whether the last token of a text goes on over a carriage return, in the mode that the text
ends in. White space does at the top level. Inside a string its text does, but not the quote that
opened it. -/
def Mode.goesOn : Mode → Token.Kind → String → Bool
  | .root, kind, _ => kind == .whitespace
  | .string quote, kind, text => kind == .stringLiteral && text != quote.text

/-- The token with a carriage return at its end. -/
def Token.extended (token : Token) : Token :=
  ⟨token.kind, token.text ++ "\r", ⟨token.span.start, token.span.stop + 1⟩⟩

namespace Lex

open Text

/-- The tokens of a text with a carriage return behind it, from the tokens of the text and the mode
that it ends in. The last token goes on over the carriage return if it can, and otherwise the
carriage return is a token of its own. -/
def withReturn (mode : Mode) (offset : Nat) : List Token → List Token
  | [] => [⟨runKind mode, "\r", ⟨offset, offset + 1⟩⟩]
  | token :: more =>
    if more = [] ∧ mode.goesOn token.kind token.text then [token.extended]
    else token :: withReturn mode token.span.stop more

theorem withReturn_cons {mode : Mode} {token : Token} {more : List Token}
    (h : more = [] → mode.goesOn token.kind token.text = false) (offset : Nat) :
    withReturn mode offset (token :: more) = token :: withReturn mode token.span.stop more := by
  rw [withReturn, if_neg]
  rintro ⟨hmore, hon⟩
  rw [h hmore] at hon
  exact absurd hon (by decide)

theorem withReturn_singleton {mode : Mode} {token : Token}
    (h : mode.goesOn token.kind token.text = true) (offset : Nat) :
    withReturn mode offset [token] = [token.extended] := by
  rw [withReturn, if_pos ⟨rfl, h⟩]

/-- Behind some lexemes of which the last does not go on, only what follows them changes. -/
theorem withReturn_place_append {mode : Mode} {first later : List Lexeme}
    (h : later = [] → ∀ lexeme ∈ first.getLast?, mode.goesOn lexeme.kind lexeme.text = false)
    (offset : Nat) :
    withReturn mode offset (place offset (first ++ later)) =
      place offset first ++ withReturn mode (offset + byteCount first)
        (place (offset + byteCount first) later) := by
  induction first generalizing offset with
  | nil => simp
  | cons lexeme more ih =>
    have hlexeme : place (offset + lexeme.text.utf8ByteSize) (more ++ later) = [] →
        mode.goesOn (placed offset lexeme).kind (placed offset lexeme).text = false := by
      intro hnil
      have hkinds := map_kind_place (offset + lexeme.text.utf8ByteSize) (more ++ later)
      rw [hnil] at hkinds
      obtain ⟨rfl, rfl⟩ : more = [] ∧ later = [] := by simpa using hkinds.symm
      exact h rfl lexeme (by simp)
    have hmore : later = [] → ∀ lexeme ∈ more.getLast?,
        mode.goesOn lexeme.kind lexeme.text = false := by
      intro hlater last hlast
      refine h hlater last ?_
      rw [List.getLast?_cons, Option.mem_def.1 hlast]
      rfl
    rw [List.cons_append, place_cons, withReturn_cons hlexeme, placed, ih hmore]
    simp [placed, Nat.add_assoc]

/-! ## Runs at the end of a text -/

/-- A run that is not the whole text ends in the text. -/
theorem length_run_lt {p : Char → Bool} {text : List Char} (h : ¬∀ c ∈ text, p c = true) :
    (text.takeWhile p).length < text.length := by
  rw [← List.dropWhile_eq_nil_iff] at h
  obtain ⟨c, rest, hrest⟩ := List.exists_cons_of_ne_nil h
  have hlength := length_takeWhile_lt hrest
  omega

theorem isRun_return (mode : Mode) : isRun mode '\r' = true := by
  cases mode with
  | root => rfl
  | string quote => cases quote <;> rfl

/-- A run of a mode goes on in it. -/
theorem goesOn_run {mode : Mode} {c : Char} (hc : isRun mode c = true) (rest : List Char) :
    mode.goesOn (runKind mode) (String.ofList (c :: rest)) = true := by
  cases mode with
  | root => rfl
  | string quote =>
    have hquote : String.ofList (c :: rest) ≠ quote.text := by
      intro htext
      have hlist : c :: rest = [quote.char] := by
        simpa [Quote.text] using congrArg String.toList htext
      rw [(List.cons.inj hlist).1] at hc
      simp [isRun, isStringText] at hc
    simpa [Mode.goesOn, runKind] using hquote

/-- Only what runs in a mode are made of goes on in it. -/
theorem kind_of_goesOn {mode : Mode} {kind : Token.Kind} {text : String}
    (h : mode.goesOn kind text = true) : kind = runKind mode := by
  cases mode with
  | root => exact beq_iff_eq.1 h
  | string quote => exact beq_iff_eq.1 (Bool.and_eq_true_iff.1 h).1

/-! ## Matches at the end of a text -/

/-- The kind of the last piece of a match. -/
def Match.lastKind (found : Match) : Token.Kind :=
  (found.more.getLast?.getD found.first).kind

theorem kind_of_mem_getLast?_cut {found : Match} {text : List Char} {lexeme : Lexeme}
    (h : lexeme ∈ (cut found.pieces text).getLast?) : lexeme.kind = found.lastKind := by
  have hkinds := congrArg List.getLast? (map_kind_cut found.pieces text)
  rw [List.getLast?_map, List.getLast?_map, Option.mem_def.1 h, Match.pieces,
    List.getLast?_cons, Option.map_some, Option.map_some] at hkinds
  exact Option.some.inj hkinds

theorem lastKind_of_bind_single? {length? : Option Nat} {kind : Token.Kind} {found : Match}
    (h : (length?.bind fun n => Match.single? kind n .stay) = some found) :
    found.lastKind = kind := by
  obtain ⟨n, hn, rfl⟩ := bind_single?_eq_some h
  rfl

/-- A key ends with its equals sign. -/
theorem Rule.key_lastKind {behind : Behind} {ahead : List Char} {found : Match}
    (h : Rule.key.scan behind ahead = some found) : found.lastKind = .delimiter := by
  simp only [Rule.key] at h
  split at h
  · obtain ⟨name, -, hafter⟩ := Option.bind_eq_some_iff.1 h
    obtain ⟨gap, -, rfl⟩ := Option.map_eq_some_iff.1 hafter
    simp [Match.lastKind]
  · simp at h

/-- At the top level only the rule for white space ends with white space. -/
theorem rootRule_lastKind {rule : Rule} (hrule : rule ∈ rootRules) {behind : Behind}
    {ahead : List Char} {found : Match} (h : rule.scan behind ahead = some found) :
    rule = .whitespace ∨ found.lastKind ≠ .whitespace := by
  have hsingle : ∀ {length? : Option Nat} {kind : Token.Kind}, kind ≠ .whitespace →
      (length?.bind fun n => Match.single? kind n .stay) = some found →
      found.lastKind ≠ .whitespace := by
    intro length? kind hkind hfound
    rwa [lastKind_of_bind_single? hfound]
  -- One case for each rule, in the order of `rootRules`.
  simp only [rootRules, List.mem_cons, List.not_mem_nil, or_false] at hrule
  rcases hrule with rfl | rfl | rfl | rfl | rfl | rfl | rfl | rfl | rfl | rfl | rfl | rfl
  · exact .inr (hsingle (by decide) h)
  · exact .inr (hsingle (by decide) (Rule.header_eq_some h))
  · exact .inr (hsingle (by decide) (Rule.header_eq_some h))
  · exact .inr (by simp [Rule.key_lastKind h])
  · exact .inr (hsingle (by decide) h)
  · exact .inr (hsingle (by decide) h)
  · exact .inr (hsingle (by decide) h)
  · exact .inr (hsingle (by decide) h)
  · exact .inr (hsingle (by decide) h)
  · exact .inr (hsingle (by decide) h)
  · obtain ⟨quote, -, rfl⟩ := Option.map_eq_some_iff.1 h
    exact .inr (by simp [Match.lastKind])
  · exact .inl rfl

/-- Inside a string only the rule for its text and its closing quote are literal. -/
theorem stringRule_lastKind {quote : Quote} {rule : Rule} (hrule : rule ∈ stringRules quote)
    {behind : Behind} {ahead : List Char} {found : Match}
    (h : rule.scan behind ahead = some found) :
    rule = .stringText quote ∨ found.lastKind ≠ .stringLiteral ∨ found.shift = .leave := by
  simp only [stringRules, List.mem_cons, List.not_mem_nil, or_false] at hrule
  rcases hrule with rfl | rfl | rfl | rfl
  · exact .inl rfl
  · exact .inr (.inl (by simp [lastKind_of_bind_single? h]))
  · exact .inr (.inl (by simp [lastKind_of_bind_single? h]))
  · simp only [Rule.stringClose] at h
    split at h
    · exact .inr (.inr (by rw [← Option.some.inj h]))
    · simp at h

/-- On a character that is of no run, a match that stays in the mode does not end like a run. -/
theorem lastKind_ne_runKind {mode : Mode} {c : Char} (hc : isRun mode c = false)
    {behind : Behind} {rest : List Char} (hshift : (scan mode behind (c :: rest)).shift = .stay) :
    (scan mode behind (c :: rest)).lastKind ≠ runKind mode := by
  rcases scan_cases mode behind (c :: rest) with ⟨rule, hrule, hfound⟩ | ⟨-, hfound⟩
  · cases mode with
    | root =>
      rcases rootRule_lastKind hrule hfound with rfl | hkind
      · have hwhite : isWhite c = false := hc
        simp [Rule.whitespace, Match.single?, Piece.ofLength?, hwhite] at hfound
      · exact hkind
    | string quote =>
      rcases stringRule_lastKind hrule hfound with rfl | hkind | hleave
      · have htext : isStringText quote c = false := hc
        simp [Rule.stringText, stringTextLength, Match.single?, Piece.ofLength?, htext] at hfound
      · exact hkind
      · rw [hshift] at hleave
        exact absurd hleave (by decide)
  · rw [hfound]
    cases mode <;> simp [Match.lastKind, unknown, runKind]

/-- On a character that is of no run, the last lexeme of a match does not go on in the mode behind
the match. -/
theorem goesOn_scan {mode next : Mode} {c : Char} (hc : isRun mode c = false)
    {behind : Behind} {rest : List Char}
    (hnext : (scan mode behind (c :: rest)).shift.apply (.ofMode mode) = .ofMode next) :
    ∀ lexeme ∈ (cut (scan mode behind (c :: rest)).pieces (c :: rest)).getLast?,
      next.goesOn lexeme.kind lexeme.text = false := by
  have hmode := congrArg ModeStack.mode hnext
  rw [ModeStack.mode_ofMode] at hmode
  by_cases hshift : (scan mode behind (c :: rest)).shift = .stay
  · intro lexeme hlexeme
    rw [hshift, Shift.apply, ModeStack.mode_ofMode] at hmode
    subst hmode
    rw [Bool.eq_false_iff]
    intro hon
    apply lastKind_ne_runKind hc hshift
    rw [← kind_of_mem_getLast?_cut hlexeme]
    exact kind_of_goesOn hon
  · -- Only a quote changes the mode, and it goes on neither in the string that it opens nor behind
    -- the one that it closes.
    cases mode with
    | root =>
      rcases scan_root_cases behind (c :: rest) with ⟨hstay, -⟩ | ⟨quote, more, hahead, hfound⟩
      · exact absurd hstay hshift
      · rw [hfound] at hmode ⊢
        rw [hahead, ← hmode]
        simp [opening, Match.pieces, cut, Shift.apply, Mode.goesOn, Quote.text]
    | string quote =>
      rcases scan_string_cases quote behind (List.cons_ne_nil c rest) with
        ⟨kind, n, hn, -, -, hfound⟩ | ⟨more, hahead, hfound⟩
      · rw [hfound] at hshift
        exact absurd rfl hshift
      · rw [hfound] at hmode ⊢
        rw [← hmode]
        simp [closing, Match.pieces, cut, Shift.apply, Mode.goesOn, ModeStack.ofMode]

/-- A text that is not all run has the same match at its front with a carriage return behind it. -/
theorem scan_return {mode : Mode} {ahead : List Char}
    (h : ¬∀ c ∈ ahead, isRun mode c = true) (behind : Behind) :
    scan mode behind (ahead ++ ['\r']) = scan mode behind ahead := by
  cases ahead with
  | nil => simp at h
  | cons c rest =>
    by_cases hc : isRun mode c = true
    · have hrun : (c :: rest ++ ['\r']).takeWhile (isRun mode) =
          (c :: rest).takeWhile (isRun mode) := by
        rw [List.takeWhile_append, if_neg (Nat.ne_of_lt (length_run_lt h))]
      rw [List.cons_append] at hrun ⊢
      rw [scan_run hc, scan_run hc]
      simp only [hrun]
    · exact scan_append (Bool.not_eq_true _ ▸ hc) behind rest (.carriageReturn .nil)

/-- A match of all of a text that is not all run starts on a character of no run. -/
theorem isRun_of_scan_all {mode : Mode} {behind : Behind} {c : Char} {rest : List Char}
    (h : ¬∀ d ∈ c :: rest, isRun mode d = true)
    (hall : (c :: rest).drop (scan mode behind (c :: rest)).length = []) :
    isRun mode c = false := by
  by_contra hc
  rw [Bool.not_eq_false] at hc
  have hshorter := length_run_lt h
  rw [scan_run hc, List.drop_eq_nil_iff] at hall
  exact Nat.not_le_of_lt hshorter hall

/-! ## The text and its carriage return -/

theorem lexemes_ofMode_run {mode : Mode} {run : List Char}
    (hrun : ∀ c ∈ run, isRun mode c = true) (behind : Behind) :
    lexemes (.ofMode mode) behind run = (part (runKind mode) run, .ofMode mode) := by
  have hstate : ∀ c ∈ run, isRun (ModeStack.ofMode mode).mode c = true := by simpa using hrun
  simpa using lexemes_all_run hstate behind

/-- A text that is all run takes the carriage return into its run. -/
theorem place_run_return {mode : Mode} {run : List Char}
    (hrun : ∀ c ∈ run, isRun mode c = true) (offset : Nat) :
    place offset (part (runKind mode) (run ++ ['\r'])) =
      withReturn mode offset (place offset (part (runKind mode) run)) := by
  cases run with
  | nil => rfl
  | cons c rest =>
    have hon := goesOn_run (hrun c List.mem_cons_self) rest
    have htext : String.ofList (c :: rest ++ ['\r']) = String.ofList (c :: rest) ++ "\r" :=
      String.ofList_append
    rw [part_of_ne_nil (by simp), part_of_ne_nil (by simp), htext, place_cons, place_cons,
      place_nil, place_nil, withReturn_singleton hon]
    simp only [placed, Token.extended, String.utf8ByteSize_append]
    rfl

/-- A carriage return behind a text that is all run. -/
theorem lexemes_return_run {mode : Mode} {run : List Char}
    (hrun : ∀ c ∈ run, isRun mode c = true) (behind : Behind) (offset : Nat) :
    let lexed := lexemes (.ofMode mode) behind run
    let longer := lexemes (.ofMode mode) behind (run ++ ['\r'])
    place offset longer.1 = withReturn lexed.2.mode offset (place offset lexed.1) ∧
      longer.2 = lexed.2 := by
  intro lexed longer
  have hreturn : ∀ c ∈ run ++ ['\r'], isRun mode c = true := by
    simpa [isRun_return, or_imp, forall_and] using hrun
  have hlexed : lexed = (part (runKind mode) run, .ofMode mode) := lexemes_ofMode_run hrun behind
  have hlonger : longer = (part (runKind mode) (run ++ ['\r']), .ofMode mode) :=
    lexemes_ofMode_run hreturn behind
  rw [hlexed, hlonger]
  refine ⟨?_, rfl⟩
  rw [ModeStack.mode_ofMode]
  exact place_run_return hrun offset

/-- **A carriage return behind a text.** The tokens of the text change only at its end, and the
state behind it does not change. -/
theorem lexemes_return (mode : Mode) (behind : Behind) (ahead : List Char) (offset : Nat) :
    let lexed := lexemes (.ofMode mode) behind ahead
    let longer := lexemes (.ofMode mode) behind (ahead ++ ['\r'])
    place offset longer.1 = withReturn lexed.2.mode offset (place offset lexed.1) ∧
      longer.2 = lexed.2 := by
  induction ahead using matchInduction generalizing mode behind offset with
  | nil => exact lexemes_return_run (by simp) behind offset
  | step ahead h ih =>
    by_cases hrun : ∀ c ∈ ahead, isRun mode c = true
    · exact lexemes_return_run hrun behind offset
    · -- The match at the front is the same, and the induction is on what follows it.
      have hreturn : scan (ModeStack.ofMode mode).mode behind (ahead ++ ['\r']) =
          scan mode behind ahead := by
        rw [ModeStack.mode_ofMode, scan_return hrun behind]
      have hle := scan_length_le mode behind h
      obtain ⟨next, hnext⟩ : ∃ next,
          (scan mode behind ahead).shift.apply (.ofMode mode) = .ofMode next :=
        ⟨_, (scan_follows mode behind h offset).2⟩
      rw [lexemes_step _ _ h, lexemes_step_append hreturn h hle]
      simp only [ModeStack.mode_ofMode, hnext, place_append]
      obtain ⟨htokens, hstate⟩ := ih (scan mode behind ahead) next
        (behind.after (ahead.take (scan mode behind ahead).length))
        (offset + byteCount (cut (scan mode behind ahead).pieces ahead))
      rw [htokens, ← place_append, withReturn_place_append]
      · exact ⟨rfl, hstate⟩
      · -- With nothing behind it the match ends the text, and its last lexeme does not go on.
        intro hnil
        have hdrop : ahead.drop (scan mode behind ahead).length = [] := by
          rw [← flatMap_lexemes (.ofMode next) _ (ahead.drop _), hnil]
          rfl
        obtain ⟨c, rest, rfl⟩ := List.exists_cons_of_ne_nil h
        rw [hdrop, lexemes_nil, ModeStack.mode_ofMode]
        exact goesOn_scan (isRun_of_scan_all hrun hdrop) hnext

/-- The tokens and the state of a text with a carriage return behind it. -/
theorem tokenize_return (text : String) (mode : Mode) :
    let lexed := tokenize text (.ofMode mode)
    tokenize (text ++ "\r") (.ofMode mode) = (withReturn lexed.2.mode 0 lexed.1, lexed.2) := by
  obtain ⟨htokens, hstate⟩ := lexemes_return mode .start text.toList 0
  simp only [tokenize, String.toList_append]
  exact Prod.ext htokens hstate

/-- The quote that opens a string does not go on, and the text behind it does. -/
example : (tokenize "\"\r" .root).1 =
      [⟨.stringLiteral, "\"", ⟨0, 1⟩⟩, ⟨.stringLiteral, "\r", ⟨1, 2⟩⟩] ∧
    (tokenize "\"a\r" .root).1 =
      [⟨.stringLiteral, "\"", ⟨0, 1⟩⟩, ⟨.stringLiteral, "a\r", ⟨1, 3⟩⟩] := by
  decide +kernel

end Lex

end TomlEditor
