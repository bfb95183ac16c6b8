import TomlEditor.Proofs.Lex.Stream

/-!
# Places between matches

The lexer goes through a text from match to match. `Reached` holds of the places
where it looks for the next one: nothing but the mode there and the text behind
decides what it finds. Every lexeme of a text is cut from the match at such a
place, and only the lexemes of a key behind its name are not the first of their
match, so a fact about all lexemes of a text is a fact about all matches.
-/

namespace TomlEditor.Lex

/-! ## The text of lexemes -/

/-- The characters of some lexemes. -/
def charsOf (lexemes : List Lexeme) : List Char :=
  lexemes.flatMap (·.text.toList)

@[simp] theorem charsOf_nil : charsOf [] = [] := rfl

@[simp] theorem charsOf_cons (lexeme : Lexeme) (more : List Lexeme) :
    charsOf (lexeme :: more) = lexeme.text.toList ++ charsOf more := rfl

@[simp] theorem charsOf_append (first second : List Lexeme) :
    charsOf (first ++ second) = charsOf first ++ charsOf second :=
  List.flatMap_append

theorem charsOf_cut {found : Match} {ahead : List Char} (h : found.length ≤ ahead.length) :
    charsOf (cut found.pieces ahead) = ahead.take found.length :=
  flatMap_cut h

theorem charsOf_lexemes (state : ModeStack) (behind : Behind) (ahead : List Char) :
    charsOf (lexemes state behind ahead).1 = ahead :=
  flatMap_lexemes state behind ahead

theorem byteCount_eq_charsOf (lexemes : List Lexeme) :
    byteCount lexemes = (String.ofList (charsOf lexemes)).utf8ByteSize :=
  byteCount_of_flatMap rfl

/-- What lies behind some lexemes at the start of a text. -/
def behindOf (before : List Lexeme) : Behind :=
  Behind.start.after (charsOf before)

/-! ## Places -/

/-- The places of a text where the lexer looks for a match, from the start in the given mode: the
mode there, the lexemes behind and the text ahead. -/
inductive Reached (start : Mode) (text : List Char) : Mode → List Lexeme → List Char → Prop
  | start : Reached start text start [] text
  | step {mode next : Mode} {before : List Lexeme} {ahead : List Char} {found : Match}
    (h : Reached start text mode before ahead) (hne : ahead ≠ [])
    (hfound : scan mode (behindOf before) ahead = found)
    (hnext : found.shift.apply (.ofMode mode) = .ofMode next) :
    Reached start text next (before ++ cut found.pieces ahead) (ahead.drop found.length)

namespace Reached

variable {start mode : Mode} {text ahead : List Char} {before : List Lexeme}

theorem text_eq (h : Reached start text mode before ahead) : charsOf before ++ ahead = text := by
  induction h with
  | start => rfl
  | @step mode next before ahead found h hne hfound hnext ih =>
    have hle : found.length ≤ ahead.length := hfound ▸ scan_length_le mode _ hne
    rw [charsOf_append, charsOf_cut hle, List.append_assoc, List.take_append_drop, ih]

/-- The lexemes of the text are those behind the place and those of the text ahead of it. -/
theorem lexemes_eq (h : Reached start text mode before ahead) :
    (lexemes (.ofMode start) .start text).1 =
      before ++ (lexemes (.ofMode mode) (behindOf before) ahead).1 := by
  induction h with
  | start => rfl
  | @step mode next before ahead found h hne hfound hnext ih =>
    have hle : found.length ≤ ahead.length := hfound ▸ scan_length_le mode _ hne
    have hbehind : behindOf (before ++ cut found.pieces ahead) =
        (behindOf before).after (ahead.take found.length) := by
      rw [behindOf, charsOf_append, charsOf_cut hle, Behind.after_append, ← behindOf]
    rw [ih, lexemes_step _ _ hne, ModeStack.mode_ofMode]
    simp only [hfound, hnext, hbehind, List.append_assoc]

/-- The mode at a place is the fold over the tokens behind it. -/
theorem mode_eq (h : Reached start text mode before ahead) :
    (place 0 before).foldl Mode.afterToken start = mode := by
  induction h with
  | start => rfl
  | @step mode next before ahead found h hne hfound hnext ih =>
    obtain ⟨-, hfollows⟩ := scan_follows mode (behindOf before) hne (0 + byteCount before)
    rw [hfound, hnext] at hfollows
    have hmode := congrArg ModeStack.mode hfollows
    rw [ModeStack.mode_ofMode, ModeStack.mode_ofMode] at hmode
    rw [place_append, List.foldl_append, ih, hmode]

/-- The lexemes ahead of a place are cut from matches at places. -/
theorem exists_match (h : Reached start text mode before ahead) {inner after : List Lexeme}
    {lexeme : Lexeme}
    (hsplit : (lexemes (.ofMode mode) (behindOf before) ahead).1 = inner ++ lexeme :: after) :
    ∃ (mode : Mode) (front : List Lexeme) (ahead : List Char) (first more : List Lexeme),
      Reached start text mode front ahead ∧ ahead ≠ [] ∧
      cut (scan mode (behindOf front) ahead).pieces ahead = first ++ lexeme :: more ∧
      before ++ inner = front ++ first := by
  induction ahead using matchInduction generalizing mode before inner with
  | nil => simp at hsplit
  | step ahead hne ih =>
    obtain ⟨next, hnext⟩ : ∃ next,
        (scan mode (behindOf before) ahead).shift.apply (.ofMode mode) = .ofMode next :=
      ⟨_, (scan_follows mode (behindOf before) hne 0).2⟩
    have hstep := h.step hne rfl hnext
    have hlater := h.lexemes_eq.symm.trans hstep.lexemes_eq
    rw [List.append_assoc, List.append_cancel_left_eq, hsplit] at hlater
    rcases List.append_eq_append_iff.1 hlater with ⟨rest, hcut, hrest⟩ | ⟨rest, hinner, hrest⟩
    · -- The lexeme is cut from this match, or is the first one behind it.
      cases rest with
      | nil =>
        rw [List.nil_append] at hrest
        rw [List.append_nil] at hcut
        have hfirst : (lexemes (.ofMode next) _ _).1 = [] ++ lexeme :: after := hrest.symm
        obtain ⟨mode, front, ahead, first, more, hmatch⟩ := ih _ hstep hfirst
        refine ⟨mode, front, ahead, first, more, ?_⟩
        rwa [List.append_nil, hcut] at hmatch
      | cons head rest =>
        obtain ⟨rfl, -⟩ := List.cons.inj hrest
        exact ⟨mode, before, ahead, inner, rest, h, hne, hcut, rfl⟩
    · obtain ⟨mode, front, ahead, first, more, hmatch⟩ := ih _ hstep hrest
      refine ⟨mode, front, ahead, first, more, ?_⟩
      rwa [List.append_assoc, ← hinner] at hmatch

end Reached

/-! ## Lexemes and their matches -/

/-- The first lexeme of a match. -/
def Match.head (found : Match) (ahead : List Char) : Lexeme :=
  ⟨found.first.kind, String.ofList (ahead.take found.first.length)⟩

@[simp] theorem Match.head_kind (found : Match) (ahead : List Char) :
    (found.head ahead).kind = found.first.kind := rfl

theorem cut_pieces (found : Match) (ahead : List Char) :
    cut found.pieces ahead =
      found.head ahead :: cut found.more (ahead.drop found.first.length) := rfl

/-- A lexeme of a text is the first one of the match at the place before it, or it is cut from the
match of a key, behind the name of the key. -/
theorem lexeme_cases {start : Mode} {text : List Char} {before after : List Lexeme}
    {lexeme : Lexeme}
    (hsplit : (lexemes (.ofMode start) .start text).1 = before ++ lexeme :: after) :
    (∃ mode ahead, Reached start text mode before ahead ∧ ahead ≠ [] ∧
        (scan mode (behindOf before) ahead).head ahead = lexeme) ∨
      ∃ front ahead found head inner more, Reached start text .root front ahead ∧
        Rule.key.scan (behindOf front) ahead = some found ∧
        cut found.pieces ahead = head :: inner ++ lexeme :: more ∧
        before = front ++ head :: inner := by
  obtain ⟨mode, front, ahead, first, more, hreached, hne, hcut, hbefore⟩ :=
    Reached.start.exists_match hsplit
  rw [List.nil_append] at hbefore
  cases first with
  | nil =>
    rw [List.append_nil] at hbefore
    subst hbefore
    rw [cut_pieces] at hcut
    exact .inl ⟨mode, ahead, hreached, hne, (List.cons.inj hcut).1⟩
  | cons head inner =>
    right
    have hmore : (scan mode (behindOf front) ahead).more ≠ [] := by
      intro hnil
      have hlength := congrArg List.length hcut
      rw [cut_pieces, hnil] at hlength
      simp [cut] at hlength
    obtain ⟨rfl, hkey⟩ := scan_key_of_more hne hmore
    exact ⟨front, ahead, _, head, inner, more, hreached, hkey, hcut, hbefore⟩

end TomlEditor.Lex
