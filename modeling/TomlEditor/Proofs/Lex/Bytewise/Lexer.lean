import TomlEditor.Lex.Bytewise.Lexer
import TomlEditor.Proofs.Lex.Bytewise.Scanner
import TomlEditor.Proofs.Lex.Stream

/-!
# Lexing by offsets comes to its end

A lexer that works with byte offsets goes step by step with a stream of the same
text: it stands behind the bytes of the characters that the stream has lexed.
Every step has a result, because the scan at its position has one and its pieces
end between characters. No piece is empty, so the calls come to an end, and what
they give is what the stream has yet to give: the tokens of the text.
-/

namespace TomlEditor.Lex

open Text

namespace Bytewise

/-! ## Pieces -/

/-- Pieces from an offset on that are not empty and end between two characters of a text. -/
def PiecesFit (text : String) (offset : Nat) : List (Token.Kind × Nat) → Prop
  | [] => True
  | (_, length) :: more =>
    0 < length ∧ IsBoundary text (offset + length) ∧ PiecesFit text (offset + length) more

/-- A find at a position that does not keep a lexer where it is, nor sends it out of the text or
into a character. -/
structure Found.Fits (found : Found) (cursor : Cursor) : Prop where
  nonempty : found.pieces ≠ []
  pieces : PiecesFit cursor.text cursor.pos found.pieces

theorem isBoundary_units (before ahead : List Char) :
    IsBoundary (String.ofList (before ++ ahead)) (units before).length := by
  refine String.Pos.Raw.isValid_iff_exists_append.2
    ⟨String.ofList before, String.ofList ahead, String.ofList_append, ?_⟩
  rw [length_units]
  rfl

theorem piecesFit_inBytes {pieces : List Piece} (before : List Char) {ahead : List Char}
    (h : covered pieces ≤ ahead.length) :
    PiecesFit (String.ofList (before ++ ahead)) (units before).length (inBytes pieces ahead) := by
  induction pieces generalizing before ahead with
  | nil => trivial
  | cons piece more ih =>
    rw [covered_cons] at h
    have hmore : covered more ≤ (ahead.drop piece.length).length := by
      rw [List.length_drop]
      omega
    have hrest := ih (before ++ ahead.take piece.length) hmore
    have hstop := isBoundary_units (before ++ ahead.take piece.length) (ahead.drop piece.length)
    rw [units_append, List.length_append, List.append_assoc, List.take_append_drop] at hrest hstop
    rw [inBytes_cons]
    exact ⟨(length_units_take_pos (by omega)).2 piece.length_pos, hstop, hrest⟩

theorem ofMatch_fits (before : List Char) {ahead : List Char} (mode : Mode) {found : Match}
    (h : found.length ≤ ahead.length) :
    (Found.ofMatch ahead found).Fits (.between before ahead mode) :=
  ⟨List.cons_ne_nil _ _, piecesFit_inBytes before h⟩

/-- Every scanner follows some rule of its mode. -/
theorem exists_rule {mode : Mode} {scanner : Scanner} (h : scanner ∈ scannersOf mode) :
    ∃ rule ∈ rulesOf mode, scanner.Follows mode rule := by
  have hfollow := scanners_follow mode
  generalize scannersOf mode = scanners at h hfollow
  generalize rulesOf mode = rules at hfollow
  induction hfollow with
  | nil => simp at h
  | @cons first rule scanners rules hfirst hmore ih =>
    rcases List.mem_cons.1 h with rfl | h
    · exact ⟨rule, List.mem_cons_self, hfirst⟩
    · obtain ⟨other, hother, hsame⟩ := ih h
      exact ⟨other, List.mem_cons_of_mem _ hother, hsame⟩

/-- Every scanner has a result between two characters, and what it finds fits. -/
theorem scanner_fits {mode : Mode} {scanner : Scanner} (h : scanner ∈ scannersOf mode)
    (before ahead : List Char) :
    ∃ answer, scanner (.between before ahead mode) = some answer ∧
      ∀ found ∈ answer, found.Fits (.between before ahead mode) := by
  obtain ⟨rule, hrule, hfollows⟩ := exists_rule h
  refine ⟨_, hfollows before ahead, fun found hfound => ?_⟩
  obtain ⟨matched, hmatched, rfl⟩ := Option.map_eq_some_iff.1 hfound
  exact ofMatch_fits before mode (rule_le hrule hmatched)

/-! ## Steps -/

/-- The tokens cut out by bytes are the lexemes in their places. -/
theorem tokens?_inBytes (pieces : List Piece) (before ahead : List Char) :
    tokens? (String.ofList (before ++ ahead)) (units before).length (inBytes pieces ahead) =
      some (place (units before).length (cut pieces ahead)) := by
  induction pieces generalizing before ahead with
  | nil => rfl
  | cons piece more ih =>
    have hcut := cut?_append before (ahead.take piece.length) (ahead.drop piece.length)
    have hmore := ih (before ++ ahead.take piece.length) (ahead.drop piece.length)
    rw [← length_units, ← length_units, List.append_assoc, List.take_append_drop] at hcut
    rw [units_append, List.length_append, List.append_assoc, List.take_append_drop] at hmore
    rw [inBytes_cons, tokens?, hcut, Option.bind_eq_bind, Option.bind_some, hmore]
    simp only [cut, place_cons, placed, ← length_units]
    rfl

theorem length_inBytes (pieces : List Piece) (ahead : List Char) :
    (inBytes pieces ahead).foldr (fun piece length => piece.2 + length) 0 =
      (units (ahead.take (covered pieces))).length := by
  induction pieces generalizing ahead with
  | nil => rfl
  | cons piece more ih =>
    rw [inBytes_cons, List.foldr_cons, ih, covered_cons, List.take_add, units_append,
      List.length_append]

theorem length_ofMatch (ahead : List Char) (found : Match) :
    (Found.ofMatch ahead found).length = (units (ahead.take found.length)).length :=
  length_inBytes found.pieces ahead

namespace Lexer

/-- A lexer that stands where a stream of the same text does. -/
structure Beside (lexer : Lexer) (stream : TokenStream) (before : List Char) : Prop where
  text : lexer.text = String.ofList (before ++ stream.ahead)
  pos : lexer.pos = (units before).length
  offset : stream.offset = (units before).length
  behind : stream.behind = Behind.start.after before
  state : lexer.state = stream.state
  queue : lexer.queue = stream.queue

theorem beside_ofText (text : String) (state : ModeStack) :
    (ofText text state).Beside (.ofText text state) [] where
  text := String.ofList_toList.symm
  pos := rfl
  offset := rfl
  behind := rfl
  state := rfl
  queue := rfl

variable {lexer : Lexer} {stream : TokenStream} {before : List Char}

/-- A step has a result, and goes as far as the step of the stream. -/
theorem Beside.step (h : lexer.Beside stream before) (hahead : stream.ahead ≠ []) :
    ∃ later front, lexer.step? = some later ∧ later.Beside stream.step front := by
  have hscan := scan?_between before stream.state.mode hahead
  rw [Cursor.between, ← h.text, ← h.pos, ← h.behind, ← h.state] at hscan
  generalize hfound : scan lexer.state.mode stream.behind stream.ahead = found at hscan
  have htokens := tokens?_inBytes found.pieces before stream.ahead
  rw [← h.text, ← h.pos] at htokens
  have hstep : lexer.step? = some
      { lexer with
        pos := lexer.pos + (units (stream.ahead.take found.length)).length
        state := found.shift.apply lexer.state
        queue := lexer.queue ++ place lexer.pos (cut found.pieces stream.ahead) } := by
    rw [Lexer.step?, hscan, Option.bind_eq_bind, Option.bind_some, Found.ofMatch, htokens,
      ← Found.ofMatch, length_ofMatch]
    rfl
  refine ⟨_, before ++ stream.ahead.take found.length, hstep, ?_⟩
  rw [h.state] at hfound
  simp only [TokenStream.step, hfound]
  constructor
  · rw [h.text, List.append_assoc, List.take_append_drop]
  · rw [h.pos, units_append, List.length_append]
  · rw [h.offset, ← length_units, units_append, List.length_append]
  · rw [h.behind, Behind.after_append]
  · rw [h.state]
  · rw [h.queue, h.pos, h.offset]

/-- A lexer is at the end when the stream beside it is. -/
theorem Beside.pos_lt_iff (h : lexer.Beside stream before) :
    lexer.pos < lexer.text.utf8ByteSize ↔ stream.ahead ≠ [] := by
  rw [h.pos, h.text, ← length_units, units_append, List.length_append, ne_eq,
    ← units_eq_nil_iff, ← List.length_eq_zero_iff]
  omega

/-- Taking a token from the queue leaves both where they are. -/
theorem Beside.pop (h : lexer.Beside stream before) :
    Beside { lexer with queue := lexer.queue.tail } { stream with queue := stream.queue.tail }
      before :=
  ⟨h.text, h.pos, h.offset, h.behind, h.state, congrArg List.tail h.queue⟩

theorem Beside.fill (h : lexer.Beside stream before) :
    ∃ filled front, lexer.fill? = some filled ∧ filled.Beside stream.fill front := by
  have hcond : (lexer.queue.isEmpty && decide (lexer.pos < lexer.text.utf8ByteSize)) =
      (stream.queue.isEmpty && !stream.ahead.isEmpty) := by
    rw [h.queue, Bool.eq_iff_iff]
    simp [h.pos_lt_iff]
  rw [fill?, hcond, TokenStream.fill]
  split
  · next hempty => exact h.step (by simpa using (Bool.and_eq_true_iff.1 hempty).2)
  · exact ⟨lexer, before, rfl, h⟩

/-- **One call.** It has a result and gives the token that the stream gives. -/
theorem Beside.next (h : lexer.Beside stream before) :
    ∃ later front, lexer.next? = some (stream.next.1, later) ∧
      later.Beside stream.next.2 front := by
  obtain ⟨filled, front, hfilled, hbeside⟩ := h.fill
  refine ⟨_, front, ?_, hbeside.pop⟩
  rw [next?, hfilled, TokenStream.next, ← hbeside.queue]
  rfl

/-! ## Runs -/

/-- The calls of a lexer give what the stream beside it has yet to give. -/
theorem Beside.gives (h : lexer.Beside stream before) :
    ∃ last, lexer.Gives stream.remaining.1 last ∧ last.state = stream.remaining.2 := by
  generalize hleft : stream.remaining = left
  obtain ⟨tokens, state⟩ := left
  induction tokens generalizing lexer stream before with
  | nil =>
    obtain ⟨later, front, hnext, hbeside⟩ := h.next
    obtain ⟨hgiven, hmore⟩ := stream.next_remaining
    rw [hleft] at hgiven hmore
    rw [hgiven] at hnext
    exact ⟨later, .done hnext, hbeside.state.trans (TokenStream.state_of_remaining hmore)⟩
  | cons token tokens ih =>
    obtain ⟨later, front, hnext, hbeside⟩ := h.next
    obtain ⟨hgiven, hmore⟩ := stream.next_remaining
    rw [hleft] at hgiven hmore
    obtain ⟨last, hgives, hstate⟩ := ih hbeside hmore
    rw [hgiven] at hnext
    exact ⟨last, .more hnext hgives, hstate⟩

/-- What the calls give is determined. -/
theorem Gives.unique {tokens others : List Token} {last final : Lexer}
    (h : lexer.Gives tokens last) (hother : lexer.Gives others final) :
    tokens = others ∧ last = final := by
  induction h generalizing others with
  | done hnext =>
    cases hother with
    | done hsame => simp_all
    | more hsame _ => simp_all
  | more hnext _ ih =>
    cases hother with
    | done hsame => simp_all
    | more hsame hlater =>
      obtain ⟨htoken, rfl⟩ := Prod.mk.inj (Option.some.inj (hnext.symm.trans hsame))
      obtain ⟨rfl, rfl⟩ := ih hlater
      exact ⟨by rw [Option.some.inj htoken], rfl⟩

end Lexer

/-- Lexing by offsets comes to an end, with the tokens of the text and no others. -/
theorem lexes_iff {text : String} {state : ModeStack} {result : List Token × ModeStack} :
    Lexes text state result ↔ result = tokenize text state := by
  obtain ⟨last, hgives, hstate⟩ := (Lexer.beside_ofText text state).gives
  rw [TokenStream.remaining_ofText] at hgives hstate
  constructor
  · rintro ⟨final, hfinal, hlast⟩
    obtain ⟨htokens, rfl⟩ := hfinal.unique hgives
    exact Prod.ext htokens (hlast.symm.trans hstate)
  · rintro rfl
    exact ⟨last, hgives, hstate⟩

end Bytewise

/-- **The lexer tiles its input.** Lexing a text by byte offsets comes to an end with the tokens of
the text, which lie side by side on all of it. At every position inside the text each scanner has a
result, the pieces that it finds are not empty and end between characters, and the scan as a whole
is the match on the characters ahead. -/
theorem tiles_tokenize (text : String) (state : ModeStack) :
    (∀ result, Bytewise.Lexes text state result ↔ result = tokenize text state) ∧
      Tiles text (tokenize text state).1 ∧
      ∀ (mode : Mode) (before ahead : String), before ++ ahead = text → ahead ≠ "" →
        let cursor : Bytewise.Cursor := ⟨text, before.utf8ByteSize, mode⟩
        let found := scan mode (Behind.start.after before.toList) ahead.toList
        (∀ scanner ∈ Bytewise.scannersOf mode, ∃ answer, scanner cursor = some answer ∧
            ∀ given ∈ answer, given.Fits cursor) ∧
          Bytewise.scan? cursor = some (.ofMatch ahead.toList found) ∧
          (Bytewise.Found.ofMatch ahead.toList found).Fits cursor ∧
          found.length ≤ ahead.toList.length := by
  refine ⟨fun _ => Bytewise.lexes_iff, tokens_tile text state, ?_⟩
  rintro mode before ahead rfl hahead
  have hne : ahead.toList ≠ [] := mt String.toList_eq_nil_iff.1 hahead
  have hcursor : (⟨before ++ ahead, before.utf8ByteSize, mode⟩ : Bytewise.Cursor) =
      .between before.toList ahead.toList mode := by
    rw [Bytewise.Cursor.between, length_units, String.ofList_append, String.ofList_toList,
      String.ofList_toList]
  have hle := scan_length_le mode (Behind.start.after before.toList) hne
  simp only [hcursor]
  exact ⟨fun scanner hscanner => Bytewise.scanner_fits hscanner _ _,
    Bytewise.scan?_between _ mode hne, Bytewise.ofMatch_fits _ mode hle, hle⟩

end TomlEditor.Lex
