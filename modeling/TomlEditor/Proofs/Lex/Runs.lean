import TomlEditor.Proofs.Lex.Lexemes
import TomlEditor.Proofs.Lex.LineTail

/-!
# Runs over line ends

In each mode there is one class of characters whose runs go on over the end of a
line: white space at the top level and the text of a string inside it. On such a
character every other rule fails, so a match is the whole run. On any other
character the match stays in its line and does not see what follows the line.
-/

namespace TomlEditor.Lex

open Text

/-- The characters whose runs go on over the end of a line. -/
def isRun : Mode → Char → Bool
  | .root => isWhite
  | .string quote => isStringText quote

/-- The kind of such a run. -/
def runKind : Mode → Token.Kind
  | .root => .whitespace
  | .string _ => .stringLiteral

theorem isRun_feed (mode : Mode) : isRun mode '\n' = true := by
  cases mode with
  | root => rfl
  | string quote => cases quote <;> rfl

theorem isWhite_iff {c : Char} :
    isWhite c = true ↔ c = ' ' ∨ c = '\t' ∨ c = '\r' ∨ c = '\n' := by
  simp [isWhite, isIndent, isSpace, or_assoc]

/-- A class that has none of the four white characters is false on every white character. -/
theorem not_of_isWhite {p : Char → Bool}
    (h : p ' ' = false ∧ p '\t' = false ∧ p '\r' = false ∧ p '\n' = false) {c : Char}
    (hc : isWhite c = true) : p c = false := by
  rcases isWhite_iff.1 hc with rfl | rfl | rfl | rfl
  · exact h.1
  · exact h.2.1
  · exact h.2.2.1
  · exact h.2.2.2

/-- Behind white space at the start of a text it is as at the start. -/
theorem start_after_white {blank : List Char} (h : ∀ c ∈ blank, isWhite c = true) :
    Behind.start.after blank = .start := by
  induction blank with
  | nil => rfl
  | cons c blank ih =>
    obtain ⟨hc, hblank⟩ := List.forall_mem_cons.1 h
    have hword : isWord c = false := not_of_isWhite (by decide) hc
    have hline : (c == '\n' || isIndent c) = true := by
      rw [Bool.or_comm]
      exact hc
    have hnext : Behind.start.next c = .start := by
      simp [Behind.next, Behind.start, hline, hword]
    rw [Behind.after_cons, hnext, ih hblank]

/-! ## On a character of a run -/

section

variable {c : Char} (hc : isWhite c = true) (behind : Behind) (rest : List Char)

include hc

theorem commentLength?_white : commentLength? (c :: rest) = none := by
  rw [commentLength?_cons, if_neg (ne_of_class hc (by decide))]

theorem tableHeaderLength?_white : tableHeaderLength? (c :: rest) = none := by
  rw [tableHeaderLength?_cons, if_neg (fun h => ne_of_class hc (by decide) h.1)]

theorem arrayTableHeaderLength?_white : arrayTableHeaderLength? (c :: rest) = none := by
  rw [arrayTableHeaderLength?_cons, if_neg (fun h => ne_of_class hc (by decide) h.1)]

theorem ofChar?_white : Quote.ofChar? c = none := by
  have hsingle : c ≠ Quote.single.char := ne_of_class hc (by decide)
  have hdouble : c ≠ Quote.double.char := ne_of_class hc (by decide)
  rw [Quote.ofChar?, if_neg hsingle, if_neg hdouble]

theorem keyNameLength_white : keyNameLength (c :: rest) = 0 := by
  have hbare : isBareKey c = false := not_of_isWhite (by decide) hc
  simp [keyNameLength_cons, ofChar?_white hc, hbare]

theorem dateLength?_white : dateLength? (c :: rest) = none := by
  have hdigit : c.isDigit = false := not_of_isWhite (by decide) hc
  simp [dateLength?, slotsLength?, dateSlots, fits, Slot.accepts, hdigit]

theorem dateTimeLength?_white : dateTimeLength? (c :: rest) = none := by
  have hdigit : c.isDigit = false := not_of_isWhite (by decide) hc
  simp [dateTimeLength?, slotsLength?, dateSlots, fits, Slot.accepts, hdigit]

theorem integerLength?_white : integerLength? (c :: rest) = none := by
  have hdigit : c.isDigit = false := not_of_isWhite (by decide) hc
  have hzero : c ≠ '0' := ne_of_class hc (by decide)
  have hsign : ¬(c = '+' ∨ c = '-') := by
    rintro (hplus | hminus)
    · exact ne_of_class hc (by decide) hplus
    · exact ne_of_class hc (by decide) hminus
  rw [integerLength?, signLength_cons, if_neg hsign, List.drop_zero, magnitudeLength?_cons]
  simp [hdigit, hzero]

theorem booleanLength?_white : booleanLength? (c :: rest) = none := by
  have ht : 't' ≠ c := (ne_of_class hc (by decide)).symm
  have hf : 'f' ≠ c := (ne_of_class hc (by decide)).symm
  simp [booleanLength?_eq, List.cons_prefix_cons, ht, hf]

/-- On white space the other rules of the top level fail. -/
theorem scan_white {rule : Rule} (hrule : rule ∈ rootRules) :
    rule = .whitespace ∨ rule.scan behind (c :: rest) = none := by
  -- One case for each rule, in the order of `rootRules`.
  simp only [rootRules, List.mem_cons, List.not_mem_nil, or_false] at hrule
  rcases hrule with rfl | rfl | rfl | rfl | rfl | rfl | rfl | rfl | rfl | rfl | rfl | rfl
  · simp [Rule.comment, commentLength?_white hc]
  · simp [Rule.header, arrayTableHeaderLength?_white hc]
  · simp [Rule.header, tableHeaderLength?_white hc]
  · simp [Rule.key, keyNameLength_white hc, Piece.ofLength?]
  · simp [Rule.scalar, scanDateTimeTz, dateTimeLength?_white hc]
  · simp [Rule.scalar, scanDateTime, dateTimeLength?_white hc]
  · simp [Rule.scalar, scanDate, dateLength?_white hc]
  · simp [Rule.scalar, scanFloat, floatLength?, integerLength?_white hc]
  · simp [Rule.scalar, scanInteger, integerLength?_white hc]
  · simp [Rule.scalar, scanBoolean, booleanLength?_white hc]
  · simp [Rule.stringOpen, ofChar?_white hc]
  · exact .inl rfl

end

theorem run_pos {p : Char → Bool} {c : Char} (hc : p c = true) (rest : List Char) :
    0 < ((c :: rest).takeWhile p).length := by
  simp [hc]

theorem Match.single?_of_pos {kind : Token.Kind} {n : Nat} (h : 0 < n) (shift : Shift) :
    Match.single? kind n shift = some ⟨⟨kind, n, h⟩, [], shift⟩ := by
  simp [Match.single?, Piece.ofLength?, h]

/-- The first match of some rules is known when one rule finds it and the others find nothing. -/
theorem findSome?_eq_some {rules : List Rule} {rule : Rule} {behind : Behind}
    {ahead : List Char} {found : Match} (hrule : rule ∈ rules)
    (hfound : rule.scan behind ahead = some found)
    (hothers : ∀ other ∈ rules, other = rule ∨ other.scan behind ahead = none) :
    (rules.findSome? fun rule => rule.scan behind ahead) = some found := by
  cases hfirst : rules.findSome? fun rule => rule.scan behind ahead with
  | none =>
    rw [List.findSome?_eq_none_iff.1 hfirst rule hrule] at hfound
    exact hfound
  | some first =>
    obtain ⟨other, hother, hscan⟩ := List.exists_of_findSome?_eq_some hfirst
    rcases hothers other hother with rfl | hnone
    · rw [← hscan, hfound]
    · rw [hnone] at hscan
      exact absurd hscan (by simp)

/-- On a character of a run the match is the run. -/
theorem scan_run {mode : Mode} {c : Char} (hc : isRun mode c = true) (behind : Behind)
    (rest : List Char) :
    scan mode behind (c :: rest) =
      ⟨⟨runKind mode, ((c :: rest).takeWhile (isRun mode)).length, run_pos hc rest⟩, [],
        .stay⟩ := by
  have hrun : ((rulesOf mode).findSome? fun rule => rule.scan behind (c :: rest)) =
      some ⟨⟨runKind mode, ((c :: rest).takeWhile (isRun mode)).length, run_pos hc rest⟩, [],
        .stay⟩ := by
    cases mode with
    | root =>
      exact findSome?_eq_some (by simp [rulesOf, rootRules])
        (Match.single?_of_pos (run_pos hc rest) .stay)
        fun other hother => scan_white hc behind rest hother
    | string quote =>
      have htext : (Rule.stringText quote).scan behind (c :: rest) = _ :=
        Match.single?_of_pos (run_pos hc rest) .stay
      rw [rulesOf, stringRules, List.findSome?_cons, htext]
      rfl
  rw [scan, hrun, Option.getD_some]

/-! ## On any other character -/

/-- On any other character a rule finds the same whatever follows the line. -/
theorem Rule.scan_append {mode : Mode} {rule : Rule} (hrule : rule ∈ rulesOf mode) {c : Char}
    (hc : isRun mode c = false) (behind : Behind) (line : List Char) {tail : List Char}
    (h : LineTail tail) :
    rule.scan behind (c :: line ++ tail) = rule.scan behind (c :: line) := by
  cases mode with
  | root =>
    rcases local_of_mem_rootRules hrule with rfl | hlocal
    · have hwhite : isWhite c = false := hc
      simp [Rule.whitespace, hwhite]
    · exact hlocal behind (c :: line) h
  | string quote =>
    rcases local_of_mem_stringRules hrule with rfl | hlocal
    · have htext : isStringText quote c = false := hc
      simp [Rule.stringText, stringTextLength, htext]
    · exact hlocal behind (c :: line) h

theorem findSome?_congr {rules : List Rule} {f g : Rule → Option Match}
    (h : ∀ rule ∈ rules, f rule = g rule) : rules.findSome? f = rules.findSome? g := by
  induction rules with
  | nil => rfl
  | cons rule rules ih =>
    rw [List.findSome?_cons, List.findSome?_cons, h rule List.mem_cons_self,
      ih fun other hother => h other (List.mem_cons_of_mem _ hother)]

/-- On any other character the match does not see what follows the line. -/
theorem scan_append {mode : Mode} {c : Char} (hc : isRun mode c = false) (behind : Behind)
    (line : List Char) {tail : List Char} (h : LineTail tail) :
    scan mode behind (c :: line ++ tail) = scan mode behind (c :: line) := by
  have hrules := findSome?_congr fun rule hrule => Rule.scan_append hrule hc behind line h
  have hunknown : unknown (c :: line ++ tail) = unknown (c :: line) := by
    simp only [unknown, takeWhile_append (h.not_any inner_isWord) (c :: line)]
  rw [scan, scan, hrules, hunknown]

end TomlEditor.Lex
