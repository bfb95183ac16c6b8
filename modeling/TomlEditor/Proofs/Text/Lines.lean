import TomlEditor.Text.Lines

/-!
# Splitting into lines and joining them

Splitting at line feeds and joining with line feeds undo each other: on every
text in one direction, and on every sequence of lines that is not empty and has
no line feed inside a line in the other. So a text can be taken apart at any of
its lines: the lines above it, each with the line feed that ends it, the line,
and the lines below, each with the line feed in front of it.
-/

namespace TomlEditor.Text

theorem splitLines_ne_nil (text : String) : splitLines text ≠ [] := by
  simp [splitLines]

theorem not_mem_of_mem_splitOn {c : Char} {text part : List Char}
    (h : part ∈ text.splitOn c) : c ∉ part := by
  induction text generalizing part with
  | nil => simp_all
  | cons d text ih =>
    rw [List.splitOn_cons_eq_if_modifyHead] at h
    split at h
    · rcases List.mem_cons.1 h with rfl | h
      · simp
      · exact ih h
    · next hd =>
      obtain ⟨first, more, hparts⟩ := List.exists_cons_of_ne_nil (List.splitOn_ne_nil c text)
      rw [hparts, List.modifyHead_cons] at h
      rw [hparts] at ih
      rcases List.mem_cons.1 h with rfl | h
      · have hfirst : c ∉ first := ih List.mem_cons_self
        have hne : c ≠ d := fun hcd => hd (beq_iff_eq.2 hcd.symm)
        exact List.not_mem_cons_of_ne_of_not_mem hne hfirst
      · exact ih (List.mem_cons_of_mem _ h)

theorem feed_not_mem_of_mem_splitLines {text line : String} (h : line ∈ splitLines text) :
    '\n' ∉ line.toList := by
  obtain ⟨part, hpart, rfl⟩ := List.mem_map.1 h
  rw [String.toList_ofList]
  exact not_mem_of_mem_splitOn hpart

theorem joinLines_splitLines (text : String) : joinLines (splitLines text) = text := by
  apply String.toList_injective
  simp [joinLines, splitLines, Function.comp_def]

/-- No line takes more bytes than the text it is a line of. -/
theorem utf8ByteSize_le_joinLines {lines : List String} {line : String} (h : line ∈ lines) :
    line.utf8ByteSize ≤ (joinLines lines).utf8ByteSize := by
  induction lines with
  | nil => simp at h
  | cons first more ih =>
    by_cases hmore : more = []
    · subst hmore
      have hjoin : joinLines [first] = line := by
        rw [joinLines, String.intercalate_singleton, List.mem_singleton.1 h]
      exact Nat.le_of_eq (congrArg String.utf8ByteSize hjoin.symm)
    · rw [joinLines, String.intercalate_cons_of_ne_nil hmore]
      simp only [String.utf8ByteSize_append]
      rcases List.mem_cons.1 h with rfl | h
      · omega
      · have hline := ih h
        rw [joinLines] at hline
        omega

theorem utf8ByteSize_le_of_mem_splitLines {text line : String} (h : line ∈ splitLines text) :
    line.utf8ByteSize ≤ text.utf8ByteSize := by
  have hline := utf8ByteSize_le_joinLines h
  rwa [joinLines_splitLines] at hline

theorem splitLines_joinLines {lines : List String} (hne : lines ≠ [])
    (hfeed : ∀ line ∈ lines, '\n' ∉ line.toList) : splitLines (joinLines lines) = lines := by
  have hsplit : ([('\n' : Char)].intercalate (lines.map String.toList)).splitOn '\n' =
      lines.map String.toList :=
    List.splitOn_intercalate '\n' (by simpa using hfeed) (by simpa using hne)
  simp [splitLines, joinLines, hsplit, Function.comp_def]

/-! ## Above and below a line -/

/-- The text of the lines above a line. -/
def textAbove (lines : List String) : String :=
  String.join (lines.map (· ++ "\n"))

/-- The text of the lines below a line. -/
def textBelow (lines : List String) : String :=
  String.join (lines.map ("\n" ++ ·))

@[simp] theorem textAbove_nil : textAbove [] = "" := rfl

@[simp] theorem textAbove_cons (line : String) (more : List String) :
    textAbove (line :: more) = line ++ "\n" ++ textAbove more := by
  simp [textAbove]

@[simp] theorem textBelow_nil : textBelow [] = "" := rfl

@[simp] theorem textBelow_cons (line : String) (more : List String) :
    textBelow (line :: more) = "\n" ++ line ++ textBelow more := by
  simp [textBelow]

theorem joinLines_cons (line : String) (more : List String) :
    joinLines (line :: more) = line ++ textBelow more := by
  induction more generalizing line with
  | nil => simp [joinLines]
  | cons next more ih =>
    have hnext := ih next
    rw [joinLines] at hnext
    rw [joinLines, String.intercalate_cons_of_ne_nil (List.cons_ne_nil next more), hnext,
      textBelow_cons]
    simp only [String.append_assoc]

/-- Some of the lines, between those above and those below them. -/
theorem joinLines_around {middle : List String} (h : middle ≠ []) (above below : List String) :
    joinLines (above ++ middle ++ below) =
      textAbove above ++ joinLines middle ++ textBelow below := by
  induction above with
  | nil =>
    obtain ⟨line, more, rfl⟩ := List.exists_cons_of_ne_nil h
    rw [List.nil_append, List.cons_append, joinLines_cons, joinLines_cons, textAbove_nil,
      String.empty_append, String.append_assoc]
    simp [textBelow]
  | cons line above ih =>
    have hne : above ++ middle ++ below ≠ [] := by simp [h]
    rw [joinLines, List.cons_append, List.cons_append,
      String.intercalate_cons_of_ne_nil hne, ← joinLines, ih, textAbove_cons]
    simp only [String.append_assoc]

theorem joinLines_around_line (above : List String) (line : String) (below : List String) :
    joinLines (above ++ line :: below) = textAbove above ++ line ++ textBelow below := by
  have haround := joinLines_around (List.cons_ne_nil line []) above below
  rwa [joinLines_cons, textBelow_nil, String.append_empty, List.append_assoc,
    List.singleton_append] at haround

theorem joinLines_concat (above : List String) (last : String) :
    joinLines (above ++ [last]) = textAbove above ++ last := by
  rw [joinLines_around_line, textBelow_nil, String.append_empty]

theorem textAbove_eq {lines : List String} (h : lines ≠ []) :
    textAbove lines = joinLines lines ++ "\n" := by
  induction lines with
  | nil => exact absurd rfl h
  | cons line more ih =>
    by_cases hmore : more = []
    · subst hmore
      simp [joinLines_cons]
    · rw [textAbove_cons, ih hmore, joinLines, joinLines,
        String.intercalate_cons_of_ne_nil hmore]
      simp only [String.append_assoc]

/-- Above a line there are as many line feeds as lines. -/
theorem count_textAbove {lines : List String} (h : ∀ line ∈ lines, '\n' ∉ line.toList) :
    (textAbove lines).toList.count '\n' = lines.length := by
  induction lines with
  | nil => rfl
  | cons line more ih =>
    have hline := List.count_eq_zero_of_not_mem (h line List.mem_cons_self)
    have hmore := ih fun other hother => h other (List.mem_cons_of_mem _ hother)
    simp [hline, hmore]

/-- There is one line more than line feeds. -/
theorem length_splitLines (text : String) :
    (splitLines text).length = text.toList.count '\n' + 1 := by
  have hfeed : ∀ line ∈ splitLines text, '\n' ∉ line.toList := fun _ =>
    feed_not_mem_of_mem_splitLines
  have hcount := count_textAbove hfeed
  rw [textAbove_eq (splitLines_ne_nil text), joinLines_splitLines] at hcount
  simpa using hcount.symm

/-- In the lines of a text of two parts, one line starts in the first and goes on in the second. -/
theorem splitLines_append (first second : String) :
    ∃ above left right below, splitLines first = above ++ [left] ∧
      splitLines second = right :: below ∧
      splitLines (first ++ second) = above ++ (left ++ right) :: below := by
  obtain ⟨above, left, hfirst⟩ : ∃ above left, splitLines first = above ++ [left] :=
    ⟨_, _, (List.dropLast_concat_getLast (splitLines_ne_nil first)).symm⟩
  obtain ⟨right, below, hsecond⟩ := List.exists_cons_of_ne_nil (splitLines_ne_nil second)
  refine ⟨above, left, right, below, hfirst, hsecond, ?_⟩
  have hleft : ∀ line ∈ above ++ [left], '\n' ∉ line.toList := fun line hline =>
    feed_not_mem_of_mem_splitLines (hfirst ▸ hline)
  have hright : ∀ line ∈ right :: below, '\n' ∉ line.toList := fun line hline =>
    feed_not_mem_of_mem_splitLines (hsecond ▸ hline)
  have hjoin : first ++ second = joinLines (above ++ (left ++ right) :: below) := by
    rw [joinLines_around_line, ← joinLines_splitLines first, ← joinLines_splitLines second,
      hfirst, hsecond, joinLines_cons, joinLines_concat]
    simp only [String.append_assoc]
  rw [hjoin]
  refine splitLines_joinLines (by simp) fun line hline => ?_
  rcases List.mem_append.1 hline with habove | hline
  · exact hleft line (List.mem_append_left _ habove)
  · rcases List.mem_cons.1 hline with rfl | hbelow
    · have hfeed := not_or.2 ⟨hleft left (by simp), hright right List.mem_cons_self⟩
      simpa using hfeed
    · exact hright line (List.mem_cons_of_mem _ hbelow)

end TomlEditor.Text
