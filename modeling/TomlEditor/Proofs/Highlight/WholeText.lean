import TomlEditor.Highlight.Document
import TomlEditor.Proofs.Highlight.Chain
import TomlEditor.Proofs.Lex.ByLine
import TomlEditor.Proofs.Lex.Tiling
import TomlEditor.Proofs.Text.Lines

/-!
# Highlighting and the tokens of the whole text

A document lexes its lines one after the other. Its tokens are those of the
whole text, cut at the line feeds and counted from the start of the line on
which they lie.
-/

namespace TomlEditor.Highlight

open TomlEditor.Lex Text

/-! ## Cutting tokens at line feeds -/

/-- A piece of a token at the given column of its line. An empty piece is no token. -/
def pieceAt (kind : Token.Kind) (column : Nat) (text : String) : List Token :=
  if text = "" then [] else [⟨kind, text, ⟨column, column + text.utf8ByteSize⟩⟩]

/-- The pieces of a token between the line feeds in it. The first is on the line that starts at
`lineStart`, the others at the start of lines of their own. -/
def piecesOf (lineStart : Nat) (token : Token) : List (List Token) :=
  match splitLines token.text with
  | [] => []
  | first :: others =>
    pieceAt token.kind (token.span.start - lineStart) first :: others.map (pieceAt token.kind 0)

/-- Where the line starts on which a token ends. -/
def lineStartAfter (lineStart : Nat) (token : Token) : Nat :=
  match (splitLines token.text).tail.getLast? with
  | none => lineStart
  | some last => token.span.stop - last.utf8ByteSize

/-- Tokens cut at the line feeds in them, line by line, with offsets from the start of the line.
The first line starts at `lineStart`. -/
def cutAtFeeds (lineStart : Nat) : List Token → List (List Token)
  | [] => [[]]
  | token :: more =>
    glue (piecesOf lineStart token) (cutAtFeeds (lineStartAfter lineStart token) more)

/-- The lexemes of lines with their places, the first line from the given column on. -/
def placeLines (column : Nat) : List (List Lexeme) → List (List Token)
  | [] => []
  | first :: more => place column first :: more.map (place 0)

theorem placeLines_zero (lines : List (List Lexeme)) :
    placeLines 0 lines = lines.map (place 0) := by
  cases lines <;> rfl

theorem pieceAt_ofList (kind : Token.Kind) (column : Nat) (text : List Char) :
    pieceAt kind column (String.ofList text) = place column (part kind text) := by
  by_cases htext : text = []
  · subst htext
    rfl
  · rw [pieceAt, if_neg (by simpa using htext), part_of_ne_nil htext]
    rfl

theorem byteCount_part (kind : Token.Kind) (text : List Char) :
    byteCount (part kind text) = (String.ofList text).utf8ByteSize := by
  by_cases htext : text = []
  · subst htext
    rfl
  · simp [part_of_ne_nil htext]

theorem placeLines_modifyHead (column : Nat) (first : List Lexeme)
    (later : List (List Lexeme)) :
    placeLines column (later.modifyHead (first ++ ·)) =
      (placeLines (column + byteCount first) later).modifyHead (place column first ++ ·) := by
  cases later with
  | nil => rfl
  | cons line later => simp [placeLines, place_append]

/-- Behind a line feed the column is counted on the last line that is put in front. -/
theorem map_place_glue {lines : List (List Lexeme)} {last : List Lexeme}
    (hlast : lines.getLast? = some last) (later : List (List Lexeme)) :
    (glue lines later).map (place 0) =
      glue (lines.map (place 0)) (placeLines (byteCount last) later) := by
  induction lines with
  | nil => simp at hlast
  | cons line more ih =>
    cases more with
    | nil =>
      rw [List.getLast?_singleton, Option.some.injEq] at hlast
      subst hlast
      rw [glue_singleton, ← placeLines_zero, placeLines_modifyHead, Nat.zero_add]
      rfl
    | cons next more =>
      rw [List.getLast?_cons_cons] at hlast
      rw [glue_cons line (List.cons_ne_nil next more), List.map_cons, ih hlast]
      exact (glue_cons _ (by simp) _).symm

theorem piecesOf_placed {lineStart offset : Nat} {lexeme : Lexeme} {first : List Char}
    {others : List (List Char)} (h : lexeme.text.toList.splitOn '\n' = first :: others) :
    piecesOf lineStart (placed offset lexeme) =
      place (offset - lineStart) (part lexeme.kind first) ::
        (others.map (part lexeme.kind)).map (place 0) := by
  simp [piecesOf, placed, splitLines, h, pieceAt_ofList, Function.comp_def]

/-- Cutting placed lexemes places the cut lexemes, the first line from its column on. -/
theorem cutAtFeeds_place {lineStart offset : Nat} (h : lineStart ≤ offset)
    (lexemes : List Lexeme) :
    cutAtFeeds lineStart (place offset lexemes) =
      placeLines (offset - lineStart) (byLine lexemes) := by
  induction lexemes generalizing lineStart offset with
  | nil => rfl
  | cons lexeme more ih =>
    obtain ⟨first, others, hparts⟩ :=
      List.exists_cons_of_ne_nil (List.splitOn_ne_nil '\n' lexeme.text.toList)
    have hlines : splitLines lexeme.text = String.ofList first :: others.map String.ofList := by
      rw [splitLines, hparts, List.map_cons]
    rw [place_cons, cutAtFeeds, piecesOf_placed hparts, byLine_cons, hparts, List.map_cons]
    cases hlast : others.getLast? with
    | none =>
      -- The lexeme stays on the line, and what follows goes on in the column behind it.
      rw [List.getLast?_eq_none_iff] at hlast
      subst hlast
      have hafter : lineStartAfter lineStart (placed offset lexeme) = lineStart := by
        simp [lineStartAfter, placed, hlines]
      have htext : String.ofList first = lexeme.text := by
        have hjoin := joinLines_splitLines lexeme.text
        rwa [hlines, List.map_nil, joinLines, String.intercalate_singleton] at hjoin
      have hcolumn : offset + lexeme.text.utf8ByteSize - lineStart =
          offset - lineStart + byteCount (part lexeme.kind first) := by
        rw [byteCount_part, htext]
        omega
      rw [hafter, ih (by omega), hcolumn]
      exact (placeLines_modifyHead _ _ _).symm
    | some last =>
      -- What follows the lexeme goes on behind the last piece, whose line starts with it.
      have hne : others ≠ [] := by
        rintro rfl
        simp at hlast
      have hsize : (String.ofList last).utf8ByteSize ≤ lexeme.text.utf8ByteSize := by
        apply utf8ByteSize_le_of_mem_splitLines
        rw [hlines]
        exact List.mem_cons_of_mem _ (List.mem_map_of_mem (List.mem_of_getLast? hlast))
      have hafter : lineStartAfter lineStart (placed offset lexeme) =
          offset + lexeme.text.utf8ByteSize - (String.ofList last).utf8ByteSize := by
        simp [lineStartAfter, placed, hlines, hlast]
      have hcolumn : offset + lexeme.text.utf8ByteSize -
          (offset + lexeme.text.utf8ByteSize - (String.ofList last).utf8ByteSize) =
            byteCount (part lexeme.kind last) := by
        rw [byteCount_part]
        omega
      have hpart : (others.map (part lexeme.kind)).getLast? = some (part lexeme.kind last) := by
        rw [List.getLast?_map, hlast, Option.map_some]
      rw [hafter, ih (by omega), hcolumn, glue_cons _ (by simpa using hne),
        glue_cons _ (by simpa using hne), ← map_place_glue hpart]
      rfl

/-! ## Lines one after the other -/

theorem lexChain_eq_lexLines (state : ModeStack) (texts : List String) :
    (lexChain state texts).map Line.tokens =
        (lexLines state .start (texts.map String.toList)).1.map (place 0) ∧
      stateAfter state (lexChain state texts) =
        (lexLines state .start (texts.map String.toList)).2 := by
  induction texts generalizing state with
  | nil => exact ⟨rfl, rfl⟩
  | cons text more ih =>
    obtain ⟨htokens, hstate⟩ := ih (Line.lex state text).finish
    rw [lexChain_cons, List.map_cons, htokens, stateAfter_cons, hstate]
    exact ⟨rfl, rfl⟩

/-- **Lexing line by line agrees with lexing the whole text.** From every state the tokens of the
lines are the tokens of the text cut at its line feeds, and both end in the same state; so the
lines of a new document are the cut tokens of its text. -/
theorem cutAtFeeds_tokenize (text : String) (state : ModeStack) :
    cutAtFeeds 0 (tokenize text state).1 =
        (lexChain state (splitLines text)).map Line.tokens ∧
      (tokenize text state).2 = stateAfter state (lexChain state (splitLines text)) ∧
      (Document.ofText text).lines.map Line.tokens = cutAtFeeds 0 (tokenizeDocument text) ∧
      (Document.ofText text).endState = (tokenize text .root).2 := by
  have hwhole : ∀ state : ModeStack,
      cutAtFeeds 0 (tokenize text state).1 =
          (lexChain state (splitLines text)).map Line.tokens ∧
        (tokenize text state).2 = stateAfter state (lexChain state (splitLines text)) := by
    intro state
    -- Both sides are the lexemes of the lines, with places counted from the start of each line.
    have hlines : (splitLines text).map String.toList = text.toList.splitOn '\n' := by
      simp [splitLines, Function.comp_def]
    obtain ⟨htokens, hstate⟩ := lexChain_eq_lexLines state (splitLines text)
    rw [hlines, ← byLine_lexemes] at htokens hstate
    rw [htokens, hstate]
    exact ⟨(cutAtFeeds_place (Nat.le_refl 0) _).trans (placeLines_zero _), rfl⟩
  obtain ⟨hroot, hend⟩ := hwhole .root
  exact ⟨(hwhole state).1, (hwhole state).2, hroot.symm, hend.symm⟩

/-- White space over the end of a line is cut there, and the next line is counted from zero. -/
example : cutAtFeeds 0 (tokenizeDocument "1\n 2") =
    [[⟨.integer, "1", ⟨0, 1⟩⟩], [⟨.whitespace, " ", ⟨0, 1⟩⟩, ⟨.integer, "2", ⟨1, 2⟩⟩]] := by
  decide +kernel

end TomlEditor.Highlight
