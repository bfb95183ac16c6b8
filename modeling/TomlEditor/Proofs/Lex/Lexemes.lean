import TomlEditor.Lex.Tokenize
import TomlEditor.Proofs.Lex.Reach

/-!
# Lexemes and the text they are cut from

One step of the lexer cuts a match off the front and goes on behind it. Since a
match stays in the text, the cut pieces are exactly its characters, and the
lexemes of a text put together again are the text.
-/

namespace TomlEditor.Lex

/-! ## Pieces -/

/-- The pieces of a match put together are the characters that it covers. -/
theorem flatMap_cut {pieces : List Piece} {text : List Char} (h : covered pieces ≤ text.length) :
    (cut pieces text).flatMap (·.text.toList) = text.take (covered pieces) := by
  induction pieces generalizing text with
  | nil => simp [cut]
  | cons piece more ih =>
    rw [covered_cons] at h
    have hmore : covered more ≤ (text.drop piece.length).length := by
      rw [List.length_drop]
      omega
    simp only [cut, List.flatMap_cons, String.toList_ofList, ih hmore, covered_cons]
    rw [List.take_add]

theorem cut_ne_empty {pieces : List Piece} {text : List Char} (h : covered pieces ≤ text.length) :
    ∀ lexeme ∈ cut pieces text, lexeme.text ≠ "" := by
  induction pieces generalizing text with
  | nil => simp [cut]
  | cons piece more ih =>
    have hpos := piece.length_pos
    rw [covered_cons] at h
    intro lexeme hlexeme
    rcases List.mem_cons.1 hlexeme with rfl | hlexeme
    · intro hempty
      have hlength := congrArg (fun text => text.toList.length) hempty
      simp only [String.toList_ofList, List.length_take, String.toList_empty,
        List.length_nil] at hlength
      omega
    · refine ih ?_ lexeme hlexeme
      rw [List.length_drop]
      omega

/-- Pieces that stay in a text do not see what follows it. -/
theorem cut_append {pieces : List Piece} {text : List Char} (h : covered pieces ≤ text.length)
    (tail : List Char) : cut pieces (text ++ tail) = cut pieces text := by
  induction pieces generalizing text with
  | nil => rfl
  | cons piece more ih =>
    rw [covered_cons] at h
    have hmore : covered more ≤ (text.drop piece.length).length := by
      rw [List.length_drop]
      omega
    rw [cut, cut, List.take_append_of_le_length (by omega),
      List.drop_append_of_le_length (by omega), ih hmore]

/-! ## Steps -/

@[simp] theorem lexemes_nil (state : ModeStack) (behind : Behind) :
    lexemes state behind [] = ([], state) := by
  rw [lexemes]

/-- One step: a match is cut off, and the rest is lexed in the state and with the past after it. -/
theorem lexemes_step (state : ModeStack) (behind : Behind) {ahead : List Char} (h : ahead ≠ []) :
    lexemes state behind ahead =
      let found := scan state.mode behind ahead
      let later := lexemes (found.shift.apply state) (behind.after (ahead.take found.length))
        (ahead.drop found.length)
      (cut found.pieces ahead ++ later.1, later.2) := by
  cases ahead with
  | nil => exact absurd rfl h
  | cons c rest => rw [lexemes]

/-- One step in a text with something behind it, on a match that stays in the text. -/
theorem lexemes_step_append {state : ModeStack} {behind : Behind} {ahead tail : List Char}
    {found : Match} (hscan : scan state.mode behind (ahead ++ tail) = found) (hne : ahead ≠ [])
    (hle : found.length ≤ ahead.length) :
    lexemes state behind (ahead ++ tail) =
      let later := lexemes (found.shift.apply state) (behind.after (ahead.take found.length))
        (ahead.drop found.length ++ tail)
      (cut found.pieces ahead ++ later.1, later.2) := by
  rw [lexemes_step _ _ (by simp [hne]), hscan]
  simp only []
  rw [cut_append hle, List.take_append_of_le_length hle, List.drop_append_of_le_length hle]

/-- Induction along the matches of a text: what holds of the text behind any match holds of the
text. -/
theorem matchInduction {motive : List Char → Prop} (nil : motive [])
    (step : ∀ ahead, ahead ≠ [] → (∀ found : Match, motive (ahead.drop found.length)) →
      motive ahead) (ahead : List Char) : motive ahead := by
  obtain ⟨n, hn⟩ : ∃ n, ahead.length = n := ⟨_, rfl⟩
  induction n using Nat.strongRecOn generalizing ahead with
  | ind n ih =>
  by_cases h : ahead = []
  · exact h ▸ nil
  · exact step ahead h fun found => ih _ (hn ▸ length_drop_lt found h) _ rfl

theorem covered_scan_le (mode : Mode) (behind : Behind) {ahead : List Char} (h : ahead ≠ []) :
    covered (scan mode behind ahead).pieces ≤ ahead.length :=
  scan_length_le mode behind h

/-- The lexemes put together are the text they were cut from. -/
theorem flatMap_lexemes (state : ModeStack) (behind : Behind) (ahead : List Char) :
    (lexemes state behind ahead).1.flatMap (·.text.toList) = ahead := by
  fun_induction lexemes state behind ahead with
  | case1 => rfl
  | case2 state behind c rest ahead found later ih =>
    have hle : covered found.pieces ≤ ahead.length := covered_scan_le _ _ (List.cons_ne_nil c rest)
    rw [List.flatMap_append, flatMap_cut hle, ih]
    exact List.take_append_drop found.length ahead

theorem lexemes_ne_empty (state : ModeStack) (behind : Behind) (ahead : List Char) :
    ∀ lexeme ∈ (lexemes state behind ahead).1, lexeme.text ≠ "" := by
  fun_induction lexemes state behind ahead with
  | case1 => simp
  | case2 state behind c rest ahead found later ih =>
    have hle : covered found.pieces ≤ ahead.length := covered_scan_le _ _ (List.cons_ne_nil c rest)
    intro lexeme hlexeme
    rcases List.mem_append.1 hlexeme with hlexeme | hlexeme
    · exact cut_ne_empty hle lexeme hlexeme
    · exact ih lexeme hlexeme

end TomlEditor.Lex
