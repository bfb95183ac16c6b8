import TomlEditor.Proofs.Lex.ValueEnd

/-!
# Rules do not look past the end of their line

What follows a line is a line tail: nothing, or carriage returns up to the end
or to a line feed. Apart from the rules for white space and for the text of a
string, which go on over such a tail, no rule can tell one tail from another,
because none of them accepts a character of a line end where it decides.
-/

namespace TomlEditor.Lex

open Text

/-- What can follow a line, with the carriage returns that end it. -/
inductive LineTail : List Char → Prop
  | nil : LineTail []
  | feed (rest : List Char) : LineTail ('\n' :: rest)
  | carriageReturn {tail : List Char} : LineTail tail → LineTail ('\r' :: tail)

theorem isLineEnd_iff {c : Char} : isLineEnd c = true ↔ c = '\n' ∨ c = '\r' := by
  simp [isLineEnd]

/-- Characters at which a line does not end. -/
def Inner (p : Char → Bool) : Prop :=
  ∀ c, isLineEnd c = true → p c = false

theorem inner_of {p : Char → Bool} (hfeed : p '\n' = false) (hreturn : p '\r' = false) :
    Inner p := by
  intro c hc
  rcases isLineEnd_iff.1 hc with rfl | rfl
  · exact hfeed
  · exact hreturn

theorem inner_isWord : Inner isWord := inner_of (by decide) (by decide)

theorem inner_isBareKey : Inner isBareKey := inner_of (by decide) (by decide)

theorem inner_isSpace : Inner isSpace := inner_of (by decide) (by decide)

namespace LineTail

variable {tail : List Char}

theorem isLineEnd_of_head? (h : LineTail tail) {c : Char} (hc : tail.head? = some c) :
    isLineEnd c = true := by
  cases h with
  | nil => simp at hc
  | feed rest =>
    rw [List.head?_cons, Option.some.injEq] at hc
    rw [← hc]
    decide
  | carriageReturn _ =>
    rw [List.head?_cons, Option.some.injEq] at hc
    rw [← hc]
    decide

theorem dropWhile (h : LineTail tail) {p : Char → Bool} (hp : p '\n' = false) :
    LineTail (tail.dropWhile p) := by
  induction h with
  | nil => exact .nil
  | feed rest =>
    rw [List.dropWhile_cons_of_neg (by simp [hp])]
    exact .feed rest
  | @carriageReturn tail htail ih =>
    rw [List.dropWhile_cons]
    split
    · exact ih
    · exact .carriageReturn htail

/-- To values a line tail is foreign text. -/
theorem foreign (h : LineTail tail) : Foreign tail := fun c hc => by
  rw [isForeign, h.isLineEnd_of_head? hc, Bool.true_or]

theorem not_any (h : LineTail tail) {p : Char → Bool} (hp : Inner p) :
    tail.head?.any p = false := by
  cases htail : tail.head? with
  | none => rfl
  | some c => exact hp c (h.isLineEnd_of_head? htail)

theorem head?_append_eq_some (h : LineTail tail) {c : Char} (hc : isLineEnd c = false)
    (line : List Char) : (line ++ tail).head? = some c ↔ line.head? = some c := by
  cases line with
  | cons d line => rfl
  | nil =>
    constructor
    · intro hhead
      rw [h.isLineEnd_of_head? hhead] at hc
      exact absurd hc (by decide)
    · intro hhead
      simp at hhead

/-- A run that cannot cross a line feed stops in the line, with the tail behind what is left, or
takes all of the line and leaves a line tail. -/
theorem run_cases (h : LineTail tail) {p : Char → Bool} (hp : p '\n' = false)
    (line : List Char) :
    (∃ c rest, line.dropWhile p = c :: rest ∧ (line ++ tail).dropWhile p = c :: rest ++ tail ∧
        (line ++ tail).takeWhile p = line.takeWhile p) ∨
      (line.dropWhile p = [] ∧ LineTail ((line ++ tail).dropWhile p)) := by
  induction line with
  | nil => exact .inr ⟨rfl, h.dropWhile hp⟩
  | cons c line ih =>
    by_cases hc : p c = true
    · simpa only [List.cons_append, List.dropWhile_cons_of_pos hc, List.takeWhile_cons_of_pos hc,
        List.cons.injEq, true_and] using ih
    · refine .inl ⟨c, line, List.dropWhile_cons_of_neg hc, ?_, ?_⟩
      · exact List.dropWhile_cons_of_neg hc
      · rw [List.cons_append, List.takeWhile_cons_of_neg hc, List.takeWhile_cons_of_neg hc]

end LineTail

/-! ## Lengths -/

section

variable {tail : List Char} (h : LineTail tail) (line : List Char)

include h

theorem commentLength?_append : commentLength? (line ++ tail) = commentLength? line := by
  cases line with
  | nil => cases h <;> rfl
  | cons c line =>
    have hinner : Inner fun c => !isLineEnd c := fun c hc => by simp [hc]
    rw [List.cons_append, commentLength?_cons, commentLength?_cons,
      takeWhile_append (h.not_any hinner)]

theorem tableHeaderLength?_append :
    tableHeaderLength? (line ++ tail) = tableHeaderLength? line := by
  cases line with
  | nil => cases h <;> rfl
  | cons c line =>
    rw [List.cons_append, tableHeaderLength?_cons, tableHeaderLength?_cons]
    rcases h.run_cases (p := isHeaderName) (by decide) line with
      ⟨d, rest, hline, hboth, hrun⟩ | ⟨hline, hleft⟩
    · rw [hboth, hline, hrun]
      rfl
    · -- The line ends before the bracket is closed, with the tail as well as without.
      have hopen : ((line ++ tail).dropWhile isHeaderName).head? ≠ some ']' := fun hclose =>
        absurd (hleft.isLineEnd_of_head? hclose) (by decide)
      rw [if_neg (fun hclose => hopen hclose.2), if_neg (by simp [hline])]

theorem arrayTableHeaderLength?_append :
    arrayTableHeaderLength? (line ++ tail) = arrayTableHeaderLength? line := by
  cases line with
  | nil => cases h <;> rfl
  | cons c line =>
    rw [List.cons_append, arrayTableHeaderLength?_cons, arrayTableHeaderLength?_cons]
    cases line with
    | nil =>
      have hopen : tail.head? ≠ some '[' := fun hopen =>
        absurd (h.isLineEnd_of_head? hopen) (by decide)
      rw [if_neg (fun hclose => hopen hclose.2.1), if_neg (by simp)]
    | cons d line =>
      rcases h.run_cases (p := isHeaderName) (by decide) line with
        ⟨e, rest, hline, hboth, hrun⟩ | ⟨hline, hleft⟩
      · have htwo : (e :: (rest ++ tail)).take 2 = [']', ']'] ↔
            (e :: rest).take 2 = [']', ']'] := by
          cases rest with
          | cons f rest => simp
          | nil =>
            cases tail with
            | nil => simp
            | cons f tail =>
              have hf : f ≠ ']' := ne_of_class (h.isLineEnd_of_head? rfl) (by decide)
              simp [hf]
        simp only [List.cons_append, List.head?_cons, List.tail_cons, hboth, hline, hrun, htwo]
      · have hopen : ((line ++ tail).dropWhile isHeaderName).take 2 ≠ [']', ']'] := by
          intro htwo
          have hhead : ((line ++ tail).dropWhile isHeaderName).head? = some ']' := by
            rw [← List.take_append_drop 2 ((line ++ tail).dropWhile isHeaderName), htwo]
            rfl
          exact absurd (hleft.isLineEnd_of_head? hhead) (by decide)
        rw [if_neg (fun hclose => hopen hclose.2.2), if_neg (by simp [hline])]

theorem keyNameLength_append : keyNameLength (line ++ tail) = keyNameLength line := by
  cases line with
  | nil => cases h <;> rfl
  | cons c line =>
    rw [List.cons_append, keyNameLength_cons, keyNameLength_cons]
    split
    · next quote _ =>
      -- The closing quote must stand on the same line.
      have hfeed : isQuotedKey quote '\n' = false := by simp [isQuotedKey]
      rcases h.run_cases hfeed line with ⟨d, rest, hline, hboth, hrun⟩ | ⟨hline, hleft⟩
      · rw [hboth, hline, hrun]
        rfl
      · have hopen : ((line ++ tail).dropWhile (isQuotedKey quote)).head? ≠ some quote.char :=
          fun hclose => absurd (hleft.isLineEnd_of_head? hclose) (by cases quote <;> decide)
        rw [if_neg hopen, if_neg (by simp [hline])]
    · exact congrArg List.length (takeWhile_append (h.not_any inner_isBareKey) (c :: line))

theorem keyGapLength?_append : keyGapLength? (line ++ tail) = keyGapLength? line := by
  have hrun := takeWhile_append (h.not_any inner_isSpace) line
  have hsign : ((line ++ tail).dropWhile isSpace).head? = some '=' ↔
      (line.dropWhile isSpace).head? = some '=' := by
    rcases h.run_cases (p := isSpace) (by decide) line with
      ⟨d, rest, hline, hboth, -⟩ | ⟨hline, hleft⟩
    · rw [hboth, hline]
      rfl
    · constructor
      · intro hequals
        exact absurd (hleft.isLineEnd_of_head? hequals) (by decide)
      · simp [hline]
  unfold keyGapLength?
  simp only [hrun, hsign]

theorem invalidEscapeLength?_append :
    invalidEscapeLength? (line ++ tail) = invalidEscapeLength? line := by
  cases line with
  | nil => cases h <;> rfl
  | cons c line =>
    have hinner : Inner (!isLineEnd ·) := fun c hc => by simp [hc]
    rw [List.cons_append, invalidEscapeLength?_cons, invalidEscapeLength?_cons,
      any_head?_append (h.not_any hinner)]

end

/-! ## Rules -/

/-- A rule that matches the same on a line whatever tail follows the line. -/
def Rule.Local (rule : Rule) : Prop :=
  ∀ (behind : Behind) (line : List Char) {tail : List Char}, LineTail tail →
    rule.scan behind (line ++ tail) = rule.scan behind line

theorem Rule.local_comment : Rule.comment.Local := by
  intro behind line tail h
  simp only [Rule.comment, commentLength?_append h]

theorem Rule.local_header {name : String} {kind : Token.Kind}
    {length? : List Char → Option Nat}
    (happend : ∀ {tail}, LineTail tail → ∀ line, length? (line ++ tail) = length? line) :
    (Rule.header name kind length?).Local := by
  intro behind line tail h
  simp only [Rule.header, happend h]

theorem Rule.local_key : Rule.key.Local := by
  intro behind line tail h
  simp only [Rule.key, keyNameLength_append h]
  split
  · cases hname : Piece.ofLength? .key (keyNameLength line) with
    | none => rfl
    | some name =>
      obtain ⟨hpos, rfl⟩ := Piece.ofLength?_eq_some hname
      simp only [Option.bind_some]
      rw [List.drop_append_of_le_length (keyNameLength_le line), keyGapLength?_append h]
  · rfl

theorem Rule.local_scalar {name : String} {kind : Token.Kind}
    {length? : Behind → List Char → Option Nat}
    (happend : ∀ {tail}, LineTail tail → ∀ line behind,
      length? behind (line ++ tail) = length? behind line) :
    (Rule.scalar name kind length?).Local := by
  intro behind line tail h
  simp only [Rule.scalar, happend h]

theorem Rule.local_stringOpen : Rule.stringOpen.Local := by
  intro behind line tail h
  cases line with
  | cons c line => rfl
  | nil => cases h <;> rfl

theorem Rule.local_stringEscape : Rule.stringEscape.Local := by
  intro behind line tail h
  simp only [Rule.stringEscape, escapeLength?_append h.foreign]

theorem Rule.local_stringEscapeInvalid : Rule.stringEscapeInvalid.Local := by
  intro behind line tail h
  simp only [Rule.stringEscapeInvalid, invalidEscapeLength?_append h]

theorem Rule.local_stringClose (quote : Quote) : (Rule.stringClose quote).Local := by
  intro behind line tail h
  have hquote : isLineEnd quote.char = false := by cases quote <;> decide
  simp only [Rule.stringClose, h.head?_append_eq_some hquote]

/-- At the top level only white space goes on over the end of a line. -/
theorem local_of_mem_rootRules {rule : Rule} (hrule : rule ∈ rootRules) :
    rule = .whitespace ∨ rule.Local := by
  simp only [rootRules, List.mem_cons, List.not_mem_nil, or_false] at hrule
  rcases hrule with rfl | rfl | rfl | rfl | rfl | rfl | rfl | rfl | rfl | rfl | rfl | rfl
  · exact .inr Rule.local_comment
  · exact .inr (Rule.local_header arrayTableHeaderLength?_append)
  · exact .inr (Rule.local_header tableHeaderLength?_append)
  · exact .inr Rule.local_key
  · exact .inr (Rule.local_scalar fun h line => scanDateTimeTz_append h.foreign line)
  · exact .inr (Rule.local_scalar fun h line => scanDateTime_append h.foreign line)
  · exact .inr (Rule.local_scalar fun h line => bind_bounded_append h.foreign line
      (slotsLength?_append h.foreign line (by decide)) slotsLength?_le)
  · exact .inr (Rule.local_scalar fun h line => bind_bounded_append h.foreign line
      (floatLength?_append h.foreign line) floatLength?_le)
  · exact .inr (Rule.local_scalar fun h line => bind_bounded_append h.foreign line
      (integerLength?_append h.foreign line) integerLength?_le)
  · exact .inr (Rule.local_scalar fun h line => bind_bounded_append h.foreign line
      (booleanLength?_append h.foreign line) booleanLength?_le)
  · exact .inr Rule.local_stringOpen
  · exact .inl rfl

/-- Inside a string only its text goes on over the end of a line. -/
theorem local_of_mem_stringRules {quote : Quote} {rule : Rule}
    (hrule : rule ∈ stringRules quote) : rule = .stringText quote ∨ rule.Local := by
  simp only [stringRules, List.mem_cons, List.not_mem_nil, or_false] at hrule
  rcases hrule with rfl | rfl | rfl | rfl
  · exact .inl rfl
  · exact .inr Rule.local_stringEscape
  · exact .inr Rule.local_stringEscapeInvalid
  · exact .inr (Rule.local_stringClose quote)

end TomlEditor.Lex
