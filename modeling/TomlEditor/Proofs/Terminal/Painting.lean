import TomlEditor.Proofs.Highlight.Chain
import TomlEditor.Proofs.Lex.Tiling
import TomlEditor.Proofs.Terminal.Screen
import TomlEditor.Proofs.Text.Position
import TomlEditor.Terminal.Files

/-!
# What painting shows

A painted text is shown as the text itself: the escape sequences around a token
put its characters in its style and do not reach beyond it. So the terminal is
in its own look at every line end, and each character has the style of the one
token that lies on it.
-/

namespace TomlEditor

open TomlEditor.Lex Highlight Theme Text

/-- A token of a line lies on the character in a column of it. -/
def Highlight.Line.CoveredBy (line : Line) (column : Nat) (token : Token) : Prop :=
  let offset := (String.ofList (line.text.toList.take column)).utf8ByteSize
  token ∈ line.tokens ∧ token.span.start ≤ offset ∧ offset < token.span.stop

namespace Terminal

/-! ## Painted tokens and lines -/

/-- The look of a token. -/
def lookOf (appearance : Appearance) (token : Token) : Look :=
  .ofStyle (styleOf token.kind appearance)

/-- The characters of some tokens, each in the look of its token. -/
def shownTokens (appearance : Appearance) (tokens : List Token) : List (Char × Look) :=
  tokens.flatMap fun token => token.text.toList.map (·, lookOf appearance token)

/-- The characters of some lines and the line ends behind them. -/
def shownLines (appearance : Appearance) (lines : List Line) : List (Char × Look) :=
  lines.flatMap fun line => shownTokens appearance line.tokens ++ [('\n', .plain)]

variable {appearance : Appearance}

@[simp] theorem shownTokens_cons (token : Token) (more : List Token) :
    shownTokens appearance (token :: more) =
      token.text.toList.map (·, lookOf appearance token) ++ shownTokens appearance more := rfl

@[simp] theorem shownLines_cons (line : Line) (more : List Line) :
    shownLines appearance (line :: more) =
      shownTokens appearance line.tokens ++ ('\n', .plain) :: shownLines appearance more := by
  simp [shownLines]

theorem shownLines_append (first second : List Line) :
    shownLines appearance (first ++ second) =
      shownLines appearance first ++ shownLines appearance second :=
  List.flatMap_append

/-- A painted token is shown in its look, and leaves the terminal as it was. -/
theorem display_paintToken {token : Token} (h : escape ∉ token.text.toList) (rest : List Char) :
    display .plain ((paintToken appearance token).toList ++ rest) =
      (token.text.toList.map (·, lookOf appearance token) ++ (display .plain rest).1,
        (display .plain rest).2) := by
  simp only [paintToken, String.toList_append, List.append_assoc]
  rw [display_style, display_append h, display_reset]
  rfl

theorem display_paintTokens {tokens : List Token} (h : ∀ token ∈ tokens, escape ∉ token.text.toList)
    (rest : List Char) :
    display .plain ((String.join (tokens.map (paintToken appearance))).toList ++ rest) =
      (shownTokens appearance tokens ++ (display .plain rest).1, (display .plain rest).2) := by
  induction tokens with
  | nil => rfl
  | cons token more ih =>
    have hmore := ih fun other hother => h other (List.mem_cons_of_mem _ hother)
    rw [List.map_cons, String.join_cons, String.toList_append, List.append_assoc,
      display_paintToken (h token List.mem_cons_self), hmore, shownTokens_cons, List.append_assoc]

theorem display_paintLines {lines : List Line}
    (h : ∀ line ∈ lines, ∀ token ∈ line.tokens, escape ∉ token.text.toList) :
    display .plain (textAbove (lines.map (paintLine appearance))).toList =
      (shownLines appearance lines, .plain) := by
  induction lines with
  | nil => exact display_nil .plain
  | cons line more ih =>
    have hmore := ih fun other hother => h other (List.mem_cons_of_mem _ hother)
    have hfeed : escape ∉ "\n".toList := by decide
    rw [List.map_cons, textAbove_cons, String.toList_append, String.toList_append,
      List.append_assoc, paintLine, display_paintTokens (h line List.mem_cons_self),
      display_append hfeed, hmore, shownLines_cons]
    rfl

/-! ## Characters and the tokens on them -/

theorem map_fst_shownTokens (tokens : List Token) :
    (shownTokens appearance tokens).map Prod.fst = tokens.flatMap (·.text.toList) := by
  simp [shownTokens, List.map_flatMap, Function.comp_def]

theorem bytes_take_lt {text : List Char} {column : Nat} (h : column < text.length) :
    (String.ofList (text.take column)).utf8ByteSize < (String.ofList text).utf8ByteSize := by
  have hsplit := congrArg (fun text => (String.ofList text).utf8ByteSize)
    (List.take_append_drop column text)
  have hpos := text[column].utf8Size_pos
  rw [List.drop_eq_getElem_cons h] at hsplit
  simp only [String.ofList_append, String.ofList_cons, String.utf8ByteSize_append,
    String.utf8ByteSize_singleton] at hsplit
  omega

/-- Of the tokens side by side one lies on each character, and the character is shown in its
look. -/
theorem shownTokens_getElem? (appearance : Appearance) (offset : Nat) {lexemes : List Lexeme}
    {text : List Char} (htext : lexemes.flatMap (·.text.toList) = text) {column : Nat} {c : Char}
    (h : text[column]? = some c) :
    let byte := offset + (String.ofList (text.take column)).utf8ByteSize
    (∃ token ∈ Lex.place offset lexemes, token.span.start ≤ byte ∧ byte < token.span.stop) ∧
      ∀ token ∈ Lex.place offset lexemes, token.span.start ≤ byte → byte < token.span.stop →
        (shownTokens appearance (Lex.place offset lexemes))[column]? =
          some (c, lookOf appearance token) := by
  subst htext
  induction lexemes generalizing offset column with
  | nil => simp at h
  | cons lexeme more ih =>
    intro byte
    have hsize : (String.ofList lexeme.text.toList).utf8ByteSize = lexeme.text.utf8ByteSize := by
      rw [String.ofList_toList]
    simp only [place_cons, List.mem_cons, shownTokens_cons, List.flatMap_cons] at h ⊢
    rcases Nat.lt_or_ge column lexeme.text.toList.length with hlt | hge
    · -- The character is one of the first token, and the others start behind it.
      have hbyte : byte = offset +
          (String.ofList (lexeme.text.toList.take column)).utf8ByteSize := by
        simp only [byte, List.flatMap_cons]
        rw [List.take_append_of_le_length (Nat.le_of_lt hlt)]
      have hstop : byte < offset + lexeme.text.utf8ByteSize := by
        have hbytes := bytes_take_lt hlt
        omega
      rw [List.getElem?_append_left hlt] at h
      refine ⟨⟨placed offset lexeme, .inl rfl, by simp only [placed]; omega, hstop⟩, ?_⟩
      rintro token (rfl | hmore) hstart -
      · rw [List.getElem?_append_left (by simpa [placed] using hlt), List.getElem?_map]
        simp [placed, h]
      · obtain ⟨before, found, after, -, rfl⟩ := mem_place hmore
        simp only [placed] at hstart
        omega
    · -- The character is behind the first token.
      obtain ⟨behind, rfl⟩ := Nat.exists_eq_add_of_le hge
      have hbyte : byte = offset + lexeme.text.utf8ByteSize +
          (String.ofList ((more.flatMap (·.text.toList)).take behind)).utf8ByteSize := by
        simp only [byte, List.flatMap_cons]
        rw [List.take_append, List.take_of_length_le hge, String.ofList_append,
          String.utf8ByteSize_append, hsize, Nat.add_sub_cancel_left, Nat.add_assoc]
      rw [List.getElem?_append_right hge, Nat.add_sub_cancel_left] at h
      obtain ⟨⟨token, htoken, hstart, hstop⟩, hlook⟩ := ih (offset + lexeme.text.utf8ByteSize) h
      rw [← hbyte] at hstart hstop hlook
      refine ⟨⟨token, .inr htoken, hstart, hstop⟩, ?_⟩
      rintro other (rfl | hother) hstart hstop
      · simp only [placed] at hstop
        omega
      · rw [List.getElem?_append_right (by simp [placed])]
        simpa [placed] using hlook other hother hstart hstop

/-! ## Lexed lines -/

/-- A line with the tokens that its text has from its state. -/
def IsLexed (line : Line) : Prop :=
  line = Line.lex line.start line.text

theorem IsLexed.flatMap_tokens {line : Line} (h : IsLexed line) :
    line.tokens.flatMap (·.text.toList) = line.text.toList := by
  have htexts := map_text_place 0 (lexemes line.start .start line.text.toList).1
  have hwhole := flatMap_lexemes line.start .start line.text.toList
  rw [← List.flatMap_map, ← htexts, List.flatMap_map] at hwhole
  rw [h]
  exact hwhole

/-- One token lies on each character of a line, and the character is shown in its look. -/
theorem IsLexed.shownTokens_getElem? {line : Line} (h : IsLexed line) (appearance : Appearance)
    {column : Nat} {c : Char} (hc : line.text.toList[column]? = some c) :
    (∃ token, line.CoveredBy column token) ∧
      ∀ token, line.CoveredBy column token →
        (shownTokens appearance line.tokens)[column]? = some (c, lookOf appearance token) := by
  have htokens : line.tokens = place 0 (lexemes line.start .start line.text.toList).1 :=
    congrArg Line.tokens h
  obtain ⟨⟨token, htoken, hcovered⟩, hlook⟩ :=
    Terminal.shownTokens_getElem? appearance 0 (flatMap_lexemes line.start .start _) hc
  rw [Nat.zero_add] at hcovered hlook
  rw [← htokens] at htoken hlook
  refine ⟨⟨token, htoken, hcovered⟩, ?_⟩
  rintro other ⟨hother, hstart, hstop⟩
  exact hlook other hother hstart hstop

theorem map_fst_shownLines {lines : List Line} (h : ∀ line ∈ lines, IsLexed line) :
    (shownLines appearance lines).map Prod.fst = (textAbove (lines.map Line.text)).toList := by
  induction lines with
  | nil => rfl
  | cons line more ih =>
    have hline := (h line List.mem_cons_self).flatMap_tokens
    have hmore := ih fun other hother => h other (List.mem_cons_of_mem _ hother)
    rw [shownLines_cons, List.map_append, map_fst_shownTokens, hline, List.map_cons, hmore]
    simp

/-! ## Painted texts -/

theorem isLexed_ofText {content : String} :
    ∀ line ∈ (Document.ofText content).lines, IsLexed line := fun _ =>
  (chained_lexChain .root (splitLines content)).eq_lex

theorem feed_not_mem_ofText {content : String} {line : Line}
    (h : line ∈ (Document.ofText content).lines) : '\n' ∉ line.text.toList := by
  have htext : line.text ∈ splitLines content := by
    rw [← map_text_lexChain .root (splitLines content)]
    exact List.mem_map_of_mem h
  exact feed_not_mem_of_mem_splitLines htext

theorem map_fst_shown (appearance : Appearance) (content : String) :
    (shownLines appearance (Document.ofText content).lines).map Prod.fst =
      content.toList ++ ['\n'] := by
  have htexts : (Document.ofText content).lines.map Line.text = splitLines content :=
    map_text_lexChain .root (splitLines content)
  rw [map_fst_shownLines isLexed_ofText, htexts, textAbove_eq (splitLines_ne_nil content),
    joinLines_splitLines]
  exact String.toList_append

/-- A painted text is shown as its lines. -/
theorem display_paint {content : String} (h : escape ∉ content.toList) :
    display .plain (paint appearance content).toList =
      (shownLines appearance (Document.ofText content).lines, .plain) := by
  have hne : (Document.ofText content).lines.map (paintLine appearance) ≠ [] := by
    intro hnil
    have hlength := congrArg List.length hnil
    simp only [Document.ofText, List.length_map, length_lexChain, List.length_nil] at hlength
    exact splitLines_ne_nil content (List.length_eq_zero_iff.1 hlength)
  rw [paint, ← textAbove_eq hne]
  refine display_paintLines fun line hline token htoken hescape => ?_
  -- An escape character in a token would be one of the text.
  have hshown : (escape, lookOf appearance token) ∈
      shownLines appearance (Document.ofText content).lines := by
    refine List.mem_flatMap.2 ⟨line, hline, List.mem_append_left _ ?_⟩
    exact List.mem_flatMap.2 ⟨token, htoken, List.mem_map.2 ⟨escape, hescape, rfl⟩⟩
  have hmem : escape ∈ content.toList ++ ['\n'] := by
    rw [← map_fst_shown appearance content]
    exact List.mem_map_of_mem (f := Prod.fst) hshown
  rcases List.mem_append.1 hmem with hmem | hmem
  · exact h hmem
  · exact absurd hmem (by decide)

/-- Line ends are shown in the look that the terminal has of its own. -/
theorem look_of_feed {content : String} {look : Look}
    (h : ('\n', look) ∈ shownLines appearance (Document.ofText content).lines) :
    look = .plain := by
  obtain ⟨line, hline, hmem⟩ := List.mem_flatMap.1 h
  rcases List.mem_append.1 hmem with htokens | hend
  · have hfeed : '\n' ∈ line.text.toList := by
      have hfst := List.mem_map_of_mem (f := Prod.fst) htokens
      rwa [map_fst_shownTokens, (isLexed_ofText line hline).flatMap_tokens] at hfst
    exact absurd hfeed (feed_not_mem_ofText hline)
  · exact (Prod.mk.inj (List.mem_singleton.1 hend)).2

/-- A text that does not start with a line feed has its first character on its first line. -/
theorem head?_of_splitLines {text first : String} {below : List String} {c : Char}
    (h : splitLines text = first :: below) (hc : text.toList.head? = some c) (hfeed : c ≠ '\n') :
    first.toList.head? = some c := by
  rw [← joinLines_splitLines text, h, joinLines_cons, String.toList_append] at hc
  cases hfirst : first.toList with
  | cons d rest => simpa [hfirst] using hc
  | nil =>
    cases below with
    | nil => simp [hfirst] at hc
    | cons next more => exact absurd (by simpa [hfirst] using hc.symm) hfeed

/-- A character of a text other than a line feed is shown in the look of the token that lies on
it. -/
theorem shown_getElem? (appearance : Appearance) {content : String} {index : Nat} {c : Char}
    (hc : content.toList[index]? = some c) (hfeed : c ≠ '\n') :
    let place := Position.after ⟨0, 0⟩ (content.toList.take index)
    ∃ line, (Document.ofText content).line? place.line = some line ∧
      (∃ token, line.CoveredBy place.column token) ∧
      ∀ token, line.CoveredBy place.column token →
        (shownLines appearance (Document.ofText content).lines)[index]? =
          some (c, lookOf appearance token) := by
  intro place
  obtain ⟨hlt, hget⟩ := List.getElem?_eq_some_iff.1 hc
  let first := String.ofList (content.toList.take index)
  let second := String.ofList (content.toList.drop index)
  have hcontent : content = first ++ second := by
    rw [← String.ofList_append, List.take_append_drop, String.ofList_toList]
  -- The character is the first one of the second part, and so on the line that the first part
  -- ends with.
  have hhead : second.toList.head? = some c := by
    rw [String.toList_ofList, List.head?_drop, hc]
  obtain ⟨above, left, right, below, hfirst, hsecond, hlines⟩ := splitLines_append first second
  have hplace : place = ⟨above.length, left.length⟩ := by
    rw [← Position.after_text hfirst, String.toList_ofList]
  have hright := head?_of_splitLines hsecond hhead hfeed
  have hindex : (textAbove above).toList.length + left.length = index := by
    have hlength := congrArg List.length (String.toList_ofList (l := content.toList.take index))
    rw [← joinLines_splitLines (String.ofList _), hfirst, joinLines_concat, List.length_take,
      Nat.min_eq_left (Nat.le_of_lt hlt), String.toList_append, List.length_append,
      String.length_toList (s := left)] at hlength
    exact hlength
  let start := stateAfter .root (lexChain .root above)
  let line := Line.lex start (left ++ right)
  have hdocument : (Document.ofText content).lines =
      lexChain .root above ++ line :: lexChain line.finish below := by
    rw [Document.ofText, hcontent, hlines, lexChain_append]
    rfl
  have hchar : line.text.toList[left.length]? = some c := by
    show (left ++ right).toList[left.length]? = some c
    rw [String.toList_append, ← String.length_toList, List.getElem?_append_right (Nat.le_refl _),
      Nat.sub_self, ← List.head?_eq_getElem?, hright]
  have hlexed : IsLexed line := rfl
  obtain ⟨hcovered, hlook⟩ := hlexed.shownTokens_getElem? appearance hchar
  rw [hplace]
  refine ⟨line, ?_, hcovered, ?_⟩
  · rw [Document.line?, hdocument]
    simp
  · intro token htoken
    have hlength : (shownLines appearance (lexChain .root above)).length =
        (textAbove above).toList.length := by
      have habove := chained_lexChain .root above
      rw [← List.length_map Prod.fst, map_fst_shownLines fun _ => habove.eq_lex,
        map_text_lexChain]
    have hshown := hlook token htoken
    rw [hdocument, shownLines_append, shownLines_cons, ← hindex, ← hlength,
      List.getElem?_append_right (Nat.le_add_right _ _), Nat.add_sub_cancel_left,
      List.getElem?_append_left (List.getElem?_eq_some_iff.1 hshown).choose]
    exact hshown

/-- **Painting shows the text.** On a terminal the output for a file without escape characters is
the content of the file and a line end behind it. Each character of the content that is not a line
feed is shown in the style of the one token of its line that lies on it, every line end is shown in
the look that the terminal has of its own, and in that look it is left. -/
theorem painted_file_is_shown (write : Char → List Char)
    (validate : String → Except Problem.Failure Unit) (directory : Directory)
    (appearance : Appearance) (name content : String) (hfile : directory name = .ok content)
    (hplain : escape ∉ content.toList) :
    let exit := (Request.files (.highlight appearance) [name]).run write validate directory
    let shown := display .plain exit.stdout.toList
    shown.1.map Prod.fst = content.toList ++ ['\n'] ∧
      (∀ index c, content.toList[index]? = some c → c ≠ '\n' →
        let place := Position.after ⟨0, 0⟩ (content.toList.take index)
        ∃ line, (Document.ofText content).line? place.line = some line ∧
          (∃ token, line.CoveredBy place.column token) ∧
          ∀ token, line.CoveredBy place.column token →
            shown.1[index]? = some (c, .ofStyle (styleOf token.kind appearance))) ∧
      (∀ look, ('\n', look) ∈ shown.1 → look = .plain) ∧ shown.2 = .plain := by
  intro exit shown
  have hstdout : exit.stdout = paint appearance content := by
    simp only [exit, Request.run, handleFiles, handleFile, hfile, handleContent]
    exact String.append_empty
  have hshown : shown = (shownLines appearance (Document.ofText content).lines, .plain) := by
    rw [← display_paint hplain, ← hstdout]
  rw [hshown]
  exact ⟨map_fst_shown appearance content, fun index c => shown_getElem? appearance,
    fun look => look_of_feed, rfl⟩

/-- A bold header does not make the text of a string below it bold, over an empty line. -/
theorem painted_header_and_string_are_shown :
    let content := "[a]\n\nk = 'é'"
    let exit := (Request.files (.highlight .dark) ["f"]).run escapedChar (fun _ => .ok ())
      fun _ => .ok content
    let shown := display .plain exit.stdout.toList
    escape ∉ content.toList ∧ shown.1.map Prod.fst = content.toList ++ ['\n'] ∧
      shown.1[1]? = some ('a', ⟨some ⟨0xbc, 0xa8, 0xff⟩, true⟩) ∧
      shown.1[10]? = some ('é', ⟨some ⟨0xa5, 0xb4, 0xfc⟩, false⟩) ∧ shown.2 = .plain := by
  have hplain : escape ∉ "[a]\n\nk = 'é'".toList := by decide +kernel
  obtain ⟨htext, hlooks, -, hend⟩ :=
    painted_file_is_shown escapedChar (fun _ => .ok ()) (fun _ => .ok "[a]\n\nk = 'é'") .dark "f" _
      rfl hplain
  refine ⟨hplain, htext, ?_, ?_, hend⟩
  · obtain ⟨line, hline, -, hlook⟩ := hlooks 1 'a' (by decide +kernel) (by decide)
    have hsame : some line = some (Line.lex .root "[a]") := hline.symm.trans (by decide +kernel)
    cases hsame
    exact hlook ⟨.tableHeader, "[a]", ⟨0, 3⟩⟩
      ⟨by decide +kernel, by decide +kernel, by decide +kernel⟩
  · obtain ⟨line, hline, -, hlook⟩ := hlooks 10 'é' (by decide +kernel) (by decide)
    have hsame : some line = some (Line.lex .root "k = 'é'") :=
      hline.symm.trans (by decide +kernel)
    cases hsame
    exact hlook ⟨.stringLiteral, "é", ⟨5, 7⟩⟩
      ⟨by decide +kernel, by decide +kernel, by decide +kernel⟩

end Terminal

end TomlEditor
