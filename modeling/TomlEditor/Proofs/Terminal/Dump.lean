import Mathlib.Data.List.DropRight
import TomlEditor.Proofs.Terminal.Painting
import TomlEditor.Proofs.Text.Escaped

/-!
# What a dump keeps

The fields of a row are told by the tabs behind them, of which there are none in
a number or in the name of a kind, and its last field by its quotes. So the rows
of a dump can be read back, and from the rows the text: the tokens of a line give
the line, and the number of the line tells how many empty lines stand before it.
Only the empty lines at the end of a text have no row below them.
-/

namespace TomlEditor

open TomlEditor.Lex Highlight Text

/-! ## Line feeds at the end -/

/-- The text without the line feeds at its end. -/
def Text.withoutLineEnds (text : String) : String :=
  String.ofList (text.toList.rdropWhile (· == '\n'))

theorem Text.withoutLineEnds_feed (text : String) :
    withoutLineEnds (text ++ "\n") = withoutLineEnds text := by
  have hfeed := List.rdropWhile_concat_pos (· == '\n') text.toList '\n' rfl
  rw [withoutLineEnds, String.toList_append]
  exact congrArg String.ofList hfeed

theorem Text.withoutLineEnds_of_ne {text : String} (h : text.toList.getLast? ≠ some '\n') :
    withoutLineEnds text = text := by
  rw [withoutLineEnds]
  rcases text.toList.eq_nil_or_concat with hnil | ⟨front, c, hconcat⟩
  · rw [hnil, List.rdropWhile_nil, ← hnil, String.ofList_toList]
  · rw [List.concat_eq_append] at hconcat
    rw [hconcat, List.getLast?_concat] at h
    have hkept := List.rdropWhile_concat_neg (· == '\n') front c fun hc =>
      h (congrArg some (beq_iff_eq.1 hc))
    rw [hconcat, hkept, ← hconcat, String.ofList_toList]

theorem Text.withoutLineEnds_feeds {front : List Char} (h : front.getLast? ≠ some '\n')
    (feeds : Nat) :
    withoutLineEnds (String.ofList (front ++ List.replicate feeds '\n')) = String.ofList front := by
  induction feeds with
  | zero =>
    rw [List.replicate_zero, List.append_nil]
    exact withoutLineEnds_of_ne (by rwa [String.toList_ofList])
  | succ feeds ih =>
    have hfeed : String.ofList ['\n'] = "\n" := rfl
    rw [List.replicate_succ', ← List.append_assoc, String.ofList_append, hfeed,
      withoutLineEnds_feed, ih]

/-- What line feeds at the end do not change is shown for the other texts. -/
theorem Text.feedInduction {motive : String → Prop}
    (feed : ∀ text, motive text → motive (text ++ "\n"))
    (other : ∀ text, text.toList.getLast? ≠ some '\n' → motive text) (text : String) :
    motive text := by
  rw [← String.ofList_toList (s := text)]
  induction text.toList using List.reverseRecOn with
  | nil => exact other _ (by simp)
  | append_singleton front c ih =>
    by_cases hc : c = '\n'
    · rw [hc, String.ofList_append]
      exact feed _ ih
    · exact other _ (by simpa using hc)

namespace Terminal

/-! ## Rows -/

theorem kindName_injective {kind other : Token.Kind} (h : kind.name = other.name) :
    kind = other := by
  have hnames : ∀ first ∈ Token.Kind.all, ∀ second ∈ Token.Kind.all,
      first.name = second.name → first = second := by decide
  exact hnames kind kind.mem_all other other.mem_all h

theorem tab_not_mem_kindName (kind : Token.Kind) : '\t' ∉ kind.name.toList := by
  cases kind <;> decide

theorem not_mem_repr {mark : Char} (hmark : mark.isDigit = false) (n : Nat) :
    mark ∉ n.repr.toList := by
  rw [Nat.repr_eq_ofList_toDigits, String.toList_ofList]
  intro hmem
  rw [Nat.isDigit_of_mem_toDigits (by decide) (by decide) hmem] at hmark
  exact absurd hmark (by decide)

theorem repr_append_inj {mark : Char} (hmark : mark.isDigit = false) {n m : Nat} {x y : List Char}
    (h : n.repr.toList ++ mark :: x = m.repr.toList ++ mark :: y) : n = m ∧ x = y := by
  obtain ⟨hdigits, hxy⟩ := append_cons_inj (not_mem_repr hmark n) (not_mem_repr hmark m) h
  rw [Nat.repr_eq_ofList_toDigits, Nat.repr_eq_ofList_toDigits, String.toList_ofList,
    String.toList_ofList] at hdigits
  refine ⟨?_, hxy⟩
  rw [← Nat.ofDigitChars_ten_toDigits (n := n), hdigits, Nat.ofDigitChars_ten_toDigits]

variable {write : Char → List Char}

/-- A row tells the line and the token, and where the row ends. -/
theorem dumpToken_append_inj (hwrite : ∀ c, Written c (write c)) {number otherNumber : Nat}
    {token other : Token} {x y : List Char} (h : (dumpToken write number token).toList ++ x =
      (dumpToken write otherNumber other).toList ++ y) :
    (number, token) = (otherNumber, other) ∧ x = y := by
  obtain ⟨kind, text, start, stop⟩ := token
  obtain ⟨otherKind, otherText, otherStart, otherStop⟩ := other
  have htab : "\t".toList = ['\t'] := rfl
  have hdots : "..".toList = ['.', '.'] := rfl
  have hfeed : "\n".toList = ['\n'] := rfl
  simp only [dumpToken, String.toList_append, List.append_assoc, htab, hdots, hfeed,
    List.cons_append, List.nil_append] at h
  obtain ⟨rfl, hbehind⟩ := repr_append_inj (by decide) h
  obtain ⟨hkind, hplace⟩ :=
    append_cons_inj (tab_not_mem_kindName kind) (tab_not_mem_kindName otherKind) hbehind
  obtain ⟨rfl, hdot⟩ := repr_append_inj (by decide) hplace
  obtain ⟨rfl, hquoted⟩ := repr_append_inj (by decide) (List.cons.inj hdot).2
  obtain ⟨rfl, hend⟩ := toList_quoted_append_inj hwrite hquoted
  rw [kindName_injective (String.toList_injective hkind)]
  exact ⟨rfl, (List.cons.inj hend).2⟩

theorem dumpToken_ne_nil (number : Nat) (token : Token) :
    (dumpToken write number token).toList ≠ [] := by
  simp [dumpToken]

/-- The tokens of some lines with the numbers of their lines, the first of which is given. -/
def numbered (lineNumber : Nat) : List Line → List (Nat × Token)
  | [] => []
  | line :: more => line.tokens.map (lineNumber, ·) ++ numbered (lineNumber + 1) more

theorem dumpLines_eq (lineNumber : Nat) (lines : List Line) :
    dumpLines write lineNumber lines =
      (numbered lineNumber lines).map fun row => dumpToken write row.1 row.2 := by
  induction lines generalizing lineNumber with
  | nil => rfl
  | cons line more ih => simp [dumpLines, numbered, ih, Function.comp_def]

theorem numbered_append (lineNumber : Nat) (first second : List Line) :
    numbered lineNumber (first ++ second) =
      numbered lineNumber first ++ numbered (lineNumber + first.length) second := by
  induction first generalizing lineNumber with
  | nil => rfl
  | cons line more ih =>
    have hnumber : lineNumber + 1 + more.length = lineNumber + (line :: more).length := by
      rw [List.length_cons]
      omega
    rw [List.cons_append, numbered, numbered, ih, hnumber, List.append_assoc]

/-! ## Texts from rows -/

/-- The characters of a text from the tokens from a line on. Before a token of a line further below
stand the line feeds of the lines in between. -/
def rebuild (lineNumber : Nat) : List (Nat × Token) → List Char
  | [] => []
  | (number, token) :: more =>
    List.replicate (number - lineNumber) '\n' ++ token.text.toList ++ rebuild number more

/-- The tokens of the line itself. -/
theorem rebuild_line (lineNumber : Nat) (tokens : List Token) (rows : List (Nat × Token)) :
    rebuild lineNumber (tokens.map (lineNumber, ·) ++ rows) =
      tokens.flatMap (·.text.toList) ++ rebuild lineNumber rows := by
  induction tokens with
  | nil => rfl
  | cons token more ih => simp [rebuild, ih]

/-- The lines below a line are rebuilt but for line feeds at the end, also if the last token before
them stands on a line further above. -/
theorem rebuild_below {lines : List Line} (hlexed : ∀ line ∈ lines, IsLexed line)
    {last lineNumber : Nat} (h : last ≤ lineNumber) :
    ∃ feeds, rebuild last (numbered (lineNumber + 1) lines) ++ List.replicate feeds '\n' =
      List.replicate (lineNumber - last) '\n' ++ (textBelow (lines.map Line.text)).toList := by
  induction lines generalizing last lineNumber with
  | nil => exact ⟨lineNumber - last, by simp [numbered, rebuild]⟩
  | cons line more ih =>
    have htext := (hlexed line List.mem_cons_self).flatMap_tokens
    have hmore : ∀ other ∈ more, IsLexed other := fun other hother =>
      hlexed other (List.mem_cons_of_mem _ hother)
    have hfeeds : List.replicate (lineNumber + 1 - last) '\n' =
        List.replicate (lineNumber - last) '\n' ++ ['\n'] := by
      rw [Nat.succ_sub h, List.replicate_succ']
    cases htokens : line.tokens with
    | nil =>
      -- An empty line has no row: its line feed is left to the lines below.
      obtain ⟨feeds, hbelow⟩ := ih hmore (Nat.le_succ_of_le h)
      rw [htokens, List.flatMap_nil] at htext
      refine ⟨feeds, ?_⟩
      rw [numbered, htokens, List.map_nil, List.nil_append, hbelow, hfeeds]
      simp [← htext]
    | cons token tokens =>
      obtain ⟨feeds, hbelow⟩ := ih hmore (Nat.le_refl (lineNumber + 1))
      rw [Nat.sub_self] at hbelow
      rw [htokens, List.flatMap_cons] at htext
      refine ⟨feeds, ?_⟩
      rw [numbered, htokens, List.map_cons, List.cons_append, rebuild, rebuild_line]
      simp only [List.append_assoc]
      rw [hbelow, hfeeds]
      simp [← htext]

/-- The numbered tokens of a text. -/
def rowsOf (content : String) : List (Nat × Token) :=
  numbered 1 (Document.ofText content).lines

theorem toList_dump (content : String) :
    (dump write content).toList =
      (rowsOf content).flatMap fun row => (dumpToken write row.1 row.2).toList := by
  rw [dump, dumpLines_eq, String.toList_join, List.flatMap_map, rowsOf]

/-- A dump tells its rows. -/
theorem rowsOf_eq_of_dump_eq (hwrite : ∀ c, Written c (write c)) {content text : String}
    (h : dump write content = dump write text) : rowsOf content = rowsOf text := by
  have hchars := congrArg String.toList h
  rw [toList_dump, toList_dump, ← List.append_nil (List.flatMap _ (rowsOf content)),
    ← List.append_nil (List.flatMap _ (rowsOf text))] at hchars
  have hend : ∀ (row : Nat × Token) rest, (dumpToken write row.1 row.2).toList ++ rest ≠ [] :=
    fun row rest hnil => dumpToken_ne_nil row.1 row.2 (List.append_eq_nil_iff.1 hnil).1
  exact (flatMap_append_inj (fun _ _ _ _ => dumpToken_append_inj hwrite) hend hend hchars).1

theorem rebuild_rowsOf (content : String) :
    ∃ feeds, rebuild 1 (rowsOf content) ++ List.replicate feeds '\n' = content.toList := by
  have hlexed : ∀ line ∈ (Document.ofText content).lines, IsLexed line := isLexed_ofText
  have htexts : (Document.ofText content).lines.map Line.text = splitLines content :=
    map_text_lexChain .root (splitLines content)
  rw [rowsOf]
  cases hlines : (Document.ofText content).lines with
  | nil => exact absurd (by rw [← htexts, hlines, List.map_nil]) (splitLines_ne_nil content)
  | cons line more =>
    rw [hlines] at hlexed htexts
    have hmore : ∀ other ∈ more, IsLexed other := fun other hother =>
      hlexed other (List.mem_cons_of_mem _ hother)
    obtain ⟨feeds, hbelow⟩ := rebuild_below hmore (Nat.le_refl 1)
    refine ⟨feeds, ?_⟩
    rw [numbered, rebuild_line, List.append_assoc, hbelow,
      (hlexed line List.mem_cons_self).flatMap_tokens, ← joinLines_splitLines content, ← htexts,
      List.map_cons, joinLines_cons, String.toList_append, Nat.sub_self]
    rfl

/-! ## Dumps of texts -/

theorem mem_numbered {lineNumber : Nat} {lines : List Line} {row : Nat × Token}
    (h : row ∈ numbered lineNumber lines) : ∃ line ∈ lines, row.2 ∈ line.tokens := by
  induction lines generalizing lineNumber with
  | nil => simp [numbered] at h
  | cons line more ih =>
    rcases List.mem_append.1 h with hline | hmore
    · obtain ⟨token, htoken, rfl⟩ := List.mem_map.1 hline
      exact ⟨line, List.mem_cons_self, htoken⟩
    · obtain ⟨other, hother, htoken⟩ := ih hmore
      exact ⟨other, List.mem_cons_of_mem _ hother, htoken⟩

theorem IsLexed.ne_empty {line : Line} (h : IsLexed line) {token : Token}
    (htoken : token ∈ line.tokens) : token.text ≠ "" := by
  rw [h] at htoken
  obtain ⟨before, lexeme, after, hlexemes, rfl⟩ := mem_place htoken
  refine lexemes_ne_empty line.start .start line.text.toList lexeme ?_
  rw [hlexemes]
  exact List.mem_append_right _ List.mem_cons_self

/-- Every row of a text shows characters of a line. -/
theorem text_of_mem_rowsOf {content : String} {row : Nat × Token} (h : row ∈ rowsOf content) :
    row.2.text ≠ "" ∧ '\n' ∉ row.2.text.toList := by
  obtain ⟨line, hline, htoken⟩ := mem_numbered h
  have hlexed := isLexed_ofText line hline
  refine ⟨hlexed.ne_empty htoken, fun hfeed => feed_not_mem_ofText hline ?_⟩
  rw [← hlexed.flatMap_tokens]
  exact List.mem_flatMap.2 ⟨row.2, htoken, hfeed⟩

theorem getLast?_rebuild {rows : List (Nat × Token)}
    (h : ∀ row ∈ rows, row.2.text ≠ "" ∧ '\n' ∉ row.2.text.toList) (lineNumber : Nat) :
    (rebuild lineNumber rows).getLast? ≠ some '\n' := by
  induction rows generalizing lineNumber with
  | nil => simp [rebuild]
  | cons row more ih =>
    obtain ⟨number, token⟩ := row
    obtain ⟨hne, hfeed⟩ := h _ List.mem_cons_self
    have hmore := ih (fun other hother => h other (List.mem_cons_of_mem _ hother)) number
    rw [rebuild, List.getLast?_append]
    cases hlast : (rebuild number more).getLast? with
    | some c => rwa [hlast] at hmore
    | none =>
      have hchars : token.text.toList ≠ [] := by simpa using hne
      rw [Option.none_or, List.getLast?_append, List.getLast?_eq_some_getLast hchars,
        Option.some_or]
      intro hend
      rw [← Option.some.inj hend] at hfeed
      exact hfeed (List.getLast_mem hchars)

/-- The text is rebuilt from its rows, without the line feeds at its end. -/
theorem ofList_rebuild_rowsOf (content : String) :
    String.ofList (rebuild 1 (rowsOf content)) = withoutLineEnds content := by
  obtain ⟨feeds, hcontent⟩ := rebuild_rowsOf content
  have hrows : ∀ row ∈ rowsOf content, row.2.text ≠ "" ∧ '\n' ∉ row.2.text.toList := fun _ =>
    text_of_mem_rowsOf
  calc String.ofList (rebuild 1 (rowsOf content))
    _ = withoutLineEnds
          (String.ofList (rebuild 1 (rowsOf content) ++ List.replicate feeds '\n')) :=
        (withoutLineEnds_feeds (getLast?_rebuild hrows 1) feeds).symm
    _ = withoutLineEnds content := by rw [hcontent, String.ofList_toList]

/-- An empty line at the end has no row. -/
theorem dump_feed (content : String) : dump write (content ++ "\n") = dump write content := by
  obtain ⟨above, left, right, below, hfirst, hsecond, hlines⟩ := splitLines_append content "\n"
  have hfeed : splitLines "\n" = ["", ""] := by decide +kernel
  obtain ⟨rfl, rfl⟩ := List.cons.inj (hsecond.symm.trans hfeed)
  have hlast : splitLines (content ++ "\n") = splitLines content ++ [""] := by
    rw [hlines, hfirst, String.append_empty, List.append_assoc, List.singleton_append]
  have hempty : ∀ state, (Line.lex state "").tokens = [] := fun state =>
    congrArg (place 0) (congrArg Prod.fst (lexemes_nil state .start))
  have hrows : rowsOf (content ++ "\n") = rowsOf content := by
    rw [rowsOf, rowsOf, Document.ofText, Document.ofText, hlast, lexChain_append, numbered_append]
    simp [numbered, hempty]
  apply String.toList_injective
  rw [toList_dump, toList_dump, hrows]

theorem dump_withoutLineEnds (content : String) :
    dump write (withoutLineEnds content) = dump write content := by
  induction content using feedInduction with
  | feed text ih => rw [withoutLineEnds_feed, ih, dump_feed]
  | other text h => rw [withoutLineEnds_of_ne h]

theorem dump_eq_iff (hwrite : ∀ c, Written c (write c)) (content text : String) :
    dump write content = dump write text ↔ withoutLineEnds content = withoutLineEnds text := by
  constructor
  · intro hdump
    rw [← ofList_rebuild_rowsOf content, rowsOf_eq_of_dump_eq hwrite hdump,
      ofList_rebuild_rowsOf text]
  · intro hsame
    rw [← dump_withoutLineEnds content, hsame, dump_withoutLineEnds text]

theorem stdout_tokens (validate : String → Except Problem.Failure Unit) {directory : Directory}
    {name content : String} (h : directory name = .ok content) :
    ((Request.files .tokens [name]).run write validate directory).stdout = dump write content := by
  simp only [Request.run, handleFiles, handleFile, h, handleContent]
  exact String.append_empty

/-- **A dump keeps the text.** The same is printed for two files just if they have the same content
up to the line feeds at its end, whatever way of writing the characters between quotes is taken. -/
theorem dumped_files_agree (write : Char → List Char) (hwrite : ∀ c, Written c (write c))
    (validate : String → Except Problem.Failure Unit) (first second : Directory)
    (name other content text : String) (hfirst : first name = .ok content)
    (hsecond : second other = .ok text) :
    ((Request.files .tokens [name]).run write validate first).stdout =
        ((Request.files .tokens [other]).run write validate second).stdout ↔
      withoutLineEnds content = withoutLineEnds text := by
  rw [stdout_tokens validate hfirst, stdout_tokens validate hsecond]
  exact dump_eq_iff hwrite content text

/-- Empty lines are seen in a dump above a string, but not below it. -/
theorem dumps_of_string_among_empty_lines :
    let printed := fun content =>
      ((Request.files .tokens ["f"]).run escapedChar (fun _ => .ok ()) fun _ => .ok content).stdout
    printed "k = '\t\\'\n\n" = printed "k = '\t\\'" ∧
      printed "\nk = '\t\\'" ≠ printed "k = '\t\\'" := by
  constructor
  · exact (dumped_files_agree escapedChar written_escapedChar _ (fun _ => .ok _) (fun _ => .ok _)
      "f" "f" _ _ rfl rfl).2 (by decide +kernel)
  · intro hsame
    have htexts := (dumped_files_agree escapedChar written_escapedChar _ (fun _ => .ok _)
      (fun _ => .ok _) "f" "f" _ _ rfl rfl).1 hsame
    exact absurd htexts (by decide +kernel)

end Terminal

end TomlEditor
