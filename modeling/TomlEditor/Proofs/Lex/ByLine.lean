import TomlEditor.Proofs.Lex.Runs

/-!
# Lexing a text line by line

The lexemes of a text, cut at the line feeds in them, are the lexemes of its
lines, each line lexed from the state in which the one before it ends. A match
either stays in its line, and then lexing the line alone finds it as well, or it
is a run that goes on over a line feed. Cutting such a run at the feed leaves a
run in front of it and a run behind it, and lexing the lines finds the two.
-/

namespace TomlEditor.Lex

/-! ## Parts by line -/

/-- A part of a lexeme. An empty part is none. -/
def part (kind : Token.Kind) (text : List Char) : List Lexeme :=
  if text = [] then [] else [⟨kind, String.ofList text⟩]

@[simp] theorem part_nil (kind : Token.Kind) : part kind [] = [] := rfl

theorem part_of_ne_nil {kind : Token.Kind} {text : List Char} (h : text ≠ []) :
    part kind text = [⟨kind, String.ofList text⟩] :=
  if_neg h

/-- Lines put together so that the last of the first is the first of the second. -/
def glue {α : Type} : List (List α) → List (List α) → List (List α)
  | [], later => later
  | [line], later => later.modifyHead (line ++ ·)
  | line :: next :: more, later => line :: glue (next :: more) later

@[simp] theorem glue_singleton {α : Type} (line : List α) (later : List (List α)) :
    glue [line] later = later.modifyHead (line ++ ·) := rfl

theorem glue_cons {α : Type} (line : List α) {more : List (List α)} (h : more ≠ [])
    (later : List (List α)) : glue (line :: more) later = line :: glue more later := by
  cases more with
  | nil => exact absurd rfl h
  | cons next more => rfl

/-- The parts of lexemes between line feeds, line by line. -/
def byLine : List Lexeme → List (List Lexeme)
  | [] => [[]]
  | lexeme :: more =>
    glue ((lexeme.text.toList.splitOn '\n').map (part lexeme.kind)) (byLine more)

@[simp] theorem byLine_nil : byLine [] = [[]] := rfl

@[simp] theorem byLine_cons (lexeme : Lexeme) (more : List Lexeme) :
    byLine (lexeme :: more) =
      glue ((lexeme.text.toList.splitOn '\n').map (part lexeme.kind)) (byLine more) := rfl

/-- Lexemes without a line feed stay on the line that they are put in front of. -/
theorem byLine_append {first : List Lexeme}
    (h : ∀ lexeme ∈ first, lexeme.text ≠ "" ∧ '\n' ∉ lexeme.text.toList) (later : List Lexeme) :
    byLine (first ++ later) = (byLine later).modifyHead (first ++ ·) := by
  induction first with
  | nil =>
    rw [List.nil_append]
    cases byLine later <;> rfl
  | cons lexeme more ih =>
    obtain ⟨hne, hfeed⟩ := h lexeme List.mem_cons_self
    have hmore := ih fun other hother => h other (List.mem_cons_of_mem _ hother)
    have hnil : lexeme.text.toList ≠ [] := by simpa using hne
    rw [List.cons_append, byLine_cons, hmore, List.splitOn_eq_singleton hfeed, List.map_singleton,
      part_of_ne_nil hnil, String.ofList_toList, glue_singleton]
    cases byLine later <;> rfl

/-! ## Lexing lines -/

/-- Lines lexed one after the other, the first with the given past and the others with none. -/
def lexLines (state : ModeStack) (behind : Behind) :
    List (List Char) → List (List Lexeme) × ModeStack
  | [] => ([], state)
  | line :: more =>
    let first := lexemes state behind line
    let later := lexLines first.2 .start more
    (first.1 :: later.1, later.2)

theorem lexLines_cons (state : ModeStack) (behind : Behind) (line : List Char)
    (more : List (List Char)) :
    lexLines state behind (line :: more) =
      ((lexemes state behind line).1 :: (lexLines (lexemes state behind line).2 .start more).1,
        (lexLines (lexemes state behind line).2 .start more).2) := rfl

/-! ## Runs -/

@[simp] theorem Behind.next_feed (behind : Behind) : behind.next '\n' = .start := by
  simp [Behind.next, Behind.start, Text.isWord]

/-- A text that is a run as far as it goes is one lexeme, or none if it is empty. -/
theorem lexemes_run {state : ModeStack} {run later : List Char}
    (hrun : ∀ c ∈ run, isRun state.mode c = true)
    (hlater : later.head?.any (isRun state.mode) = false) (behind : Behind) :
    lexemes state behind (run ++ later) =
      (part (runKind state.mode) run ++ (lexemes state (behind.after run) later).1,
        (lexemes state (behind.after run) later).2) := by
  cases run with
  | nil => simp
  | cons c run =>
    have hwhole : (c :: (run ++ later)).takeWhile (isRun state.mode) = c :: run :=
      takeWhile_run hrun hlater
    have hscan : scan state.mode behind (c :: (run ++ later)) =
        ⟨⟨runKind state.mode, (c :: run).length, by simp⟩, [], .stay⟩ := by
      rw [scan_run (hrun c List.mem_cons_self)]
      simp only [hwhole]
    rw [List.cons_append, lexemes_step _ _ (List.cons_ne_nil _ _), hscan,
      part_of_ne_nil (List.cons_ne_nil _ _)]
    simp [Match.length, Match.pieces, cut, Shift.apply]

/-- Lexemes of a run and what follows it, by line. -/
theorem byLine_run {state : ModeStack} {run later : List Char}
    (hrun : ∀ c ∈ run, isRun state.mode c = true)
    (hlater : later.head?.any (isRun state.mode) = false) (behind : Behind) :
    byLine (lexemes state behind (run ++ later)).1 =
      glue ((run.splitOn '\n').map (part (runKind state.mode)))
        (byLine (lexemes state (behind.after run) later).1) := by
  rw [lexemes_run hrun hlater]
  cases run with
  | nil =>
    simp only [part_nil, List.nil_append, Behind.after_nil, List.splitOn_nil, List.map_singleton,
      glue_singleton]
    cases byLine (lexemes state behind later).1 <;> rfl
  | cons c run =>
    rw [part_of_ne_nil (List.cons_ne_nil _ _)]
    simp

/-- Lexing the lines of a text that is all run gives its parts and ends in the state it began. -/
theorem lexemes_all_run {state : ModeStack} {run : List Char}
    (hrun : ∀ c ∈ run, isRun state.mode c = true) (behind : Behind) :
    lexemes state behind run = (part (runKind state.mode) run, state) := by
  have hlater : ([] : List Char).head?.any (isRun state.mode) = false := rfl
  simpa using lexemes_run hrun hlater behind

/-! ## Matches that stay in their line -/

/-- The end of a text or a line feed. -/
def AtFeed (tail : List Char) : Prop :=
  tail = [] ∨ ∃ post, tail = '\n' :: post

theorem AtFeed.lineTail {tail : List Char} (h : AtFeed tail) : LineTail tail := by
  rcases h with rfl | ⟨post, rfl⟩
  · exact .nil
  · exact .feed post

/-- What follows a line decides which lines come after it. -/
theorem AtFeed.exists_splitOn {tail : List Char} (h : AtFeed tail) :
    ∃ more : List (List Char), ∀ line : List Char, '\n' ∉ line →
      (line ++ tail).splitOn '\n' = line :: more := by
  rcases h with rfl | ⟨post, rfl⟩
  · refine ⟨[], fun line hline => ?_⟩
    rw [List.append_nil, List.splitOn_eq_singleton hline]
  · exact ⟨post.splitOn '\n', fun line hline =>
      List.splitOn_append_cons_self_of_not_mem hline post⟩

theorem exists_line (text : List Char) :
    ∃ line tail, text = line ++ tail ∧ '\n' ∉ line ∧ AtFeed tail := by
  by_cases hfeed : '\n' ∈ text
  · obtain ⟨line, post, rfl, hline⟩ := List.eq_append_cons_of_mem hfeed
    exact ⟨line, '\n' :: post, rfl, hline, .inr ⟨post, rfl⟩⟩
  · exact ⟨text, [], (List.append_nil text).symm, hfeed, .inl rfl⟩

/-- A run that does not go on over the line feed does not see it. -/
theorem AtFeed.takeWhile_append {tail : List Char} (h : AtFeed tail) {p : Char → Bool}
    (hp : p '\n' = true) {line : List Char} (hfeed : '\n' ∉ (line ++ tail).takeWhile p) :
    (line ++ tail).takeWhile p = line.takeWhile p := by
  rcases h with rfl | ⟨post, rfl⟩
  · rw [List.append_nil]
  · rw [List.takeWhile_append] at hfeed ⊢
    split
    · next hall =>
      rw [if_pos hall, List.takeWhile_cons_of_pos hp] at hfeed
      exact absurd (List.mem_append_right line List.mem_cons_self) hfeed
    · rfl

/-- A match that does not go on over the end of its line is found in the line alone. -/
theorem scan_line {mode : Mode} {c : Char} {line tail : List Char} (h : AtFeed tail)
    (hfeed : '\n' ∉ (c :: line ++ tail).takeWhile (isRun mode)) (behind : Behind) :
    scan mode behind (c :: line ++ tail) = scan mode behind (c :: line) := by
  by_cases hc : isRun mode c = true
  · have hrun := h.takeWhile_append (isRun_feed mode) hfeed
    rw [List.cons_append] at hrun ⊢
    rw [scan_run hc, scan_run hc]
    simp only [hrun]
  · exact scan_append (Bool.not_eq_true _ ▸ hc) behind line h.lineTail

/-- The pieces of a match that stays in its line have no line feed. -/
theorem cut_feedless {pieces : List Piece} {line : List Char} (hline : '\n' ∉ line)
    (hle : covered pieces ≤ line.length) :
    ∀ lexeme ∈ cut pieces line, lexeme.text ≠ "" ∧ '\n' ∉ lexeme.text.toList := by
  intro lexeme hlexeme
  refine ⟨cut_ne_empty hle lexeme hlexeme, fun hfeed => hline ?_⟩
  have hmem : '\n' ∈ (cut pieces line).flatMap (·.text.toList) :=
    List.mem_flatMap.2 ⟨lexeme, hlexeme, hfeed⟩
  rw [flatMap_cut hle] at hmem
  exact List.mem_of_mem_take hmem

/-! ## Texts -/

/-- A run over a line feed, taken apart at its first feed. -/
theorem exists_feed_of_mem_takeWhile {p : Char → Bool} {ahead : List Char}
    (h : '\n' ∈ ahead.takeWhile p) :
    ∃ first second later, ahead = first ++ '\n' :: (second ++ later) ∧ '\n' ∉ first ∧
      (∀ c ∈ first ++ '\n' :: second, p c = true) ∧ later.head?.any p = false := by
  obtain ⟨first, second, hsplit, hfirst⟩ := List.eq_append_cons_of_mem h
  refine ⟨first, second, ahead.dropWhile p, ?_, hfirst, ?_, ?_⟩
  · calc ahead = ahead.takeWhile p ++ ahead.dropWhile p := List.takeWhile_append_dropWhile.symm
      _ = first ++ '\n' :: (second ++ ahead.dropWhile p) := by
        rw [hsplit, List.append_assoc, List.cons_append]
  · rw [← hsplit]
    exact List.all_eq_true.1 List.all_takeWhile
  · exact head?_dropWhile_any p ahead

/-- A run over a line feed is a run in front of the feed and the text behind the feed. -/
theorem byLine_lexemes_feed {state : ModeStack} {first second later : List Char}
    (hrun : ∀ c ∈ first ++ '\n' :: second, isRun state.mode c = true) (hfirst : '\n' ∉ first)
    (hlater : later.head?.any (isRun state.mode) = false) (behind : Behind) :
    byLine (lexemes state behind (first ++ '\n' :: (second ++ later))).1 =
        part (runKind state.mode) first :: byLine (lexemes state .start (second ++ later)).1 ∧
      (lexemes state behind (first ++ '\n' :: (second ++ later))).2 =
        (lexemes state .start (second ++ later)).2 := by
  have hsecond : ∀ c ∈ second, isRun state.mode c = true := fun c hc =>
    hrun c (List.mem_append_right first (List.mem_cons_of_mem _ hc))
  have hafter : behind.after (first ++ '\n' :: second) = Behind.start.after second := by
    simp
  have hwhole : first ++ '\n' :: (second ++ later) = first ++ '\n' :: second ++ later := by
    simp
  rw [hwhole]
  constructor
  · rw [byLine_run hrun hlater, byLine_run hsecond hlater, hafter,
      List.splitOn_append_cons_self_of_not_mem hfirst, List.map_cons]
    exact glue_cons _ (by simp) _
  · rw [lexemes_run hrun hlater, lexemes_run hsecond hlater, hafter]

/-- A match that stays in its line stays in front of what follows it on the line. -/
theorem byLine_lexemes_line {state : ModeStack} {c : Char} {line tail : List Char}
    (hline : '\n' ∉ c :: line) (htail : AtFeed tail)
    (hfeed : '\n' ∉ (c :: line ++ tail).takeWhile (isRun state.mode)) (behind : Behind) :
    let found := scan state.mode behind (c :: line)
    let later := lexemes (found.shift.apply state)
      (behind.after ((c :: line).take found.length)) ((c :: line).drop found.length ++ tail)
    byLine (lexemes state behind (c :: line ++ tail)).1 =
        (byLine later.1).modifyHead (cut found.pieces (c :: line) ++ ·) ∧
      (lexemes state behind (c :: line ++ tail)).2 = later.2 := by
  intro found later
  have hle : found.length ≤ (c :: line).length :=
    scan_length_le state.mode behind (List.cons_ne_nil c line)
  have hscan : scan state.mode behind (c :: line ++ tail) = found := scan_line htail hfeed behind
  have hstep : lexemes state behind (c :: line ++ tail) =
      (cut found.pieces (c :: line) ++ later.1, later.2) :=
    lexemes_step_append hscan (List.cons_ne_nil c line) hle
  rw [hstep]
  exact ⟨byLine_append (cut_feedless hline hle) later.1, rfl⟩

/-- **Cutting the lexemes of a text at its line feeds gives the lexemes of its lines.** -/
theorem byLine_lexemes (state : ModeStack) (behind : Behind) (ahead : List Char) :
    (byLine (lexemes state behind ahead).1, (lexemes state behind ahead).2) =
      lexLines state behind (ahead.splitOn '\n') := by
  -- Both cases leave a shorter text: what follows the feed, or what follows the match.
  obtain ⟨n, hn⟩ : ∃ n, ahead.length = n := ⟨_, rfl⟩
  induction n using Nat.strongRecOn generalizing state behind ahead with
  | ind n ih =>
  by_cases hfeed : '\n' ∈ ahead.takeWhile (isRun state.mode)
  · -- A run over a feed. The line ends with the part of the run that is in front of the feed.
    obtain ⟨first, second, later, rfl, hfirst, hrun, hlater⟩ := exists_feed_of_mem_takeWhile hfeed
    have hshorter : (second ++ later).length < n := by
      simp only [List.length_append, List.length_cons] at hn ⊢
      omega
    have hrest := ih _ hshorter state .start (second ++ later) rfl
    have hline := lexemes_all_run (fun c hc => hrun c (List.mem_append_left _ hc)) behind
    obtain ⟨hlexemes, hstate⟩ := byLine_lexemes_feed hrun hfirst hlater behind
    rw [hlexemes, hstate, List.splitOn_append_cons_self_of_not_mem hfirst, lexLines_cons, hline,
      ← hrest]
  · obtain ⟨line, tail, rfl, hline, htail⟩ := exists_line ahead
    cases line with
    | nil =>
      -- A feed in front is part of a run in every mode, so the text is empty.
      rcases htail with rfl | ⟨post, rfl⟩
      · simp [lexLines]
      · exact absurd (by simp [isRun_feed]) hfeed
    | cons c line =>
      obtain ⟨more, hmore⟩ := htail.exists_splitOn
      obtain ⟨hlexemes, hstate⟩ := byLine_lexemes_line hline htail hfeed behind
      -- The line alone takes the same step, and the rest of the line is shorter.
      generalize hfound : scan state.mode behind (c :: line) = found at hlexemes hstate
      have hpos := found.length_pos
      have hshorter : ((c :: line).drop found.length ++ tail).length < n := by
        simp only [List.length_append, List.length_cons, List.length_drop] at hn ⊢
        omega
      have hdrop : '\n' ∉ (c :: line).drop found.length := fun hmem =>
        hline (List.mem_of_mem_drop hmem)
      have hrest := ih _ hshorter (found.shift.apply state)
        (behind.after ((c :: line).take found.length)) _ rfl
      rw [hmore _ hdrop, lexLines_cons, Prod.mk.injEq] at hrest
      rw [hlexemes, hstate, hrest.1, hrest.2, hmore _ hline, lexLines_cons,
        lexemes_step state behind (List.cons_ne_nil c line), hfound]
      rfl

end TomlEditor.Lex
