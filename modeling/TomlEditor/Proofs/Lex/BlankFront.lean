import TomlEditor.Proofs.Lex.Munch

/-!
# White space in front of a text

What lies behind white space at the start of a text is the same as what lies
behind the start. So white space in front of a text joins the white space that
the text starts with, and everything after that is lexed as it was: the past
that the rules see is longer, but never another one.
-/

namespace TomlEditor

/-- A token at the same text, so many bytes further right. -/
def Token.shiftRight (token : Token) (bytes : Nat) : Token :=
  { token with span := ⟨token.span.start + bytes, token.span.stop + bytes⟩ }

/-- The text of the white space that some tokens start with, and the tokens behind it. -/
def splitBlank : List Token → String × List Token
  | [] => ("", [])
  | token :: more => if token.kind = .whitespace then (token.text, more) else ("", token :: more)

namespace Lex

theorem placed_shiftRight (offset bytes : Nat) (lexeme : Lexeme) :
    placed (bytes + offset) lexeme = (placed offset lexeme).shiftRight bytes := by
  unfold placed Token.shiftRight
  rw [Nat.add_comm bytes offset, Nat.add_right_comm]

theorem place_shiftRight (offset bytes : Nat) (lexemes : List Lexeme) :
    place (bytes + offset) lexemes = (place offset lexemes).map (·.shiftRight bytes) := by
  induction lexemes generalizing offset with
  | nil => rfl
  | cons lexeme more ih =>
    rw [place_cons, place_cons, List.map_cons, placed_shiftRight, Nat.add_assoc, ih]

/-- Only white space is lexed as white space at the front of a text. -/
theorem head?_lexemes_ne_whitespace {behind : Behind} {ahead : List Char}
    (h : ahead.head?.any isWhite = false) :
    ∀ lexeme ∈ (lexemes .root behind ahead).1.head?, lexeme.kind ≠ .whitespace := by
  cases ahead with
  | nil => simp
  | cons c rest =>
    intro lexeme hlexeme
    rw [lexemes_step _ _ (List.cons_ne_nil c rest)] at hlexeme
    simp only [cut_pieces, List.cons_append, List.head?_cons, Option.mem_some_iff] at hlexeme
    rw [← hlexeme, Match.head_kind]
    rcases scan_root_cases behind (c :: rest) with ⟨hstay, -⟩ | ⟨quote, tail, -, hopening⟩
    · have hc : isRun .root c = false := h
      exact scan_first_ne hc hstay
    · show (scan .root behind (c :: rest)).first.kind ≠ .whitespace
      rw [hopening]
      exact Token.Kind.noConfusion

/-- White space at the start of a text is one lexeme, and the rest is lexed as a text of its own. -/
theorem lexemes_blank {blank rest : List Char} (h : ∀ c ∈ blank, isWhite c = true)
    (hrest : rest.head?.any isWhite = false) :
    lexemes .root .start (blank ++ rest) =
      (part .whitespace blank ++ (lexemes .root .start rest).1, (lexemes .root .start rest).2) := by
  have hlexed := @lexemes_run .root _ _ h hrest .start
  rw [start_after_white h] at hlexed
  exact hlexed

theorem splitBlank_place {later : List Lexeme}
    (h : ∀ lexeme ∈ later.head?, lexeme.kind ≠ .whitespace) (blank : List Char) :
    splitBlank (place 0 (part .whitespace blank ++ later)) =
      (String.ofList blank, place (String.ofList blank).utf8ByteSize later) := by
  cases blank with
  | cons c blank =>
    rw [part_of_ne_nil (List.cons_ne_nil c blank), List.singleton_append, place_cons, splitBlank,
      Nat.zero_add]
    exact if_pos rfl
  | nil =>
    cases later with
    | nil => rfl
    | cons lexeme more =>
      rw [part_nil, List.nil_append, place_cons, splitBlank]
      exact if_neg (h lexeme rfl)

end Lex

open TomlEditor.Lex

/-- **White space in front of a text only shifts the tokens.** The white space joins the white space
that the text starts with to one token; all other tokens keep their kinds and texts and move to the
right by its bytes, and the state behind them is the same. -/
theorem tokenize_behind_blank (blank text : String) (hne : blank ≠ "")
    (hblank : ∀ c ∈ blank.toList, c = ' ' ∨ c = '\t' ∨ c = '\r' ∨ c = '\n') :
    let own := tokenize text .root
    let front := blank ++ (splitBlank own.1).1
    tokenize (blank ++ text) .root =
      (⟨.whitespace, front, ⟨0, front.utf8ByteSize⟩⟩ ::
          (splitBlank own.1).2.map (·.shiftRight blank.utf8ByteSize),
        own.2) := by
  intro own front
  obtain ⟨run, htext, hrun, -⟩ := exists_run (Eq.refl (text.toList.dropWhile isWhite))
  have hrest := head?_dropWhile_any isWhite text.toList
  generalize text.toList.dropWhile isWhite = rest at htext hrest
  have hwhole : ∀ c ∈ blank.toList ++ run, isWhite c = true := by
    intro c hc
    rcases List.mem_append.1 hc with hc | hc
    · exact isWhite_iff.2 (hblank c hc)
    · exact hrun c hc
  have hown : own = (place 0 (part .whitespace run ++ (lexemes .root .start rest).1),
      (lexemes .root .start rest).2) := by
    show tokenize text .root = _
    rw [tokenize, htext, lexemes_blank hrun hrest]
  have hsplit : splitBlank own.1 =
      (String.ofList run,
        place (String.ofList run).utf8ByteSize (lexemes .root .start rest).1) := by
    rw [hown]
    exact splitBlank_place (head?_lexemes_ne_whitespace hrest) run
  have hfront : front = String.ofList (blank.toList ++ run) := by
    show blank ++ (splitBlank own.1).1 = _
    rw [hsplit, String.ofList_append, String.ofList_toList]
  have hnil : blank.toList ++ run ≠ [] := by simp [hne]
  rw [hsplit, hown, hfront, tokenize, String.toList_append, htext, ← List.append_assoc,
    lexemes_blank hwhole hrest, part_of_ne_nil hnil, List.singleton_append, place_cons]
  have hbytes : (String.ofList (blank.toList ++ run)).utf8ByteSize =
      blank.utf8ByteSize + (String.ofList run).utf8ByteSize := by
    rw [String.ofList_append, String.utf8ByteSize_append, String.ofList_toList]
  have hplace : place (0 + (String.ofList (blank.toList ++ run)).utf8ByteSize)
        (lexemes .root .start rest).1 =
      (place (String.ofList run).utf8ByteSize (lexemes .root .start rest).1).map
        (·.shiftRight blank.utf8ByteSize) := by
    rw [Nat.zero_add, hbytes, place_shiftRight]
  rw [hplace, placed, Nat.zero_add]

/-- An empty line and a tab in front of an indented header: it is a header still. -/
theorem tokenize_behind_empty_line :
    "\n\t" ≠ "" ∧ (∀ c ∈ "\n\t".toList, c = ' ' ∨ c = '\t' ∨ c = '\r' ∨ c = '\n') ∧
      tokenize ("\n\t" ++ " [é]\n'b") .root =
        ([⟨.whitespace, "\n\t ", ⟨0, 3⟩⟩, ⟨.tableHeader, "[é]", ⟨3, 7⟩⟩,
          ⟨.whitespace, "\n", ⟨7, 8⟩⟩, ⟨.stringLiteral, "'", ⟨8, 9⟩⟩,
          ⟨.stringLiteral, "b", ⟨9, 10⟩⟩], .ofMode (.string .single)) := by
  have hblank : ∀ c ∈ "\n\t".toList, c = ' ' ∨ c = '\t' ∨ c = '\r' ∨ c = '\n' := by simp
  refine ⟨by decide, hblank, ?_⟩
  exact (tokenize_behind_blank "\n\t" " [é]\n'b" (by decide) hblank).trans (by decide +kernel)

end TomlEditor
