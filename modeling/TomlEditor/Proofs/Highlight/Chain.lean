import Mathlib.Data.List.Chain
import TomlEditor.Highlight.Line

/-!
# Chains of lexed lines

A chain is what lexing its texts one after the other gives. Each part of a chain
is a chain again, from the state that the lines before it end in. Settling lines
that are a chain from *some* state gives the chain of their texts from the state
asked for: the first line that already starts in the right state proves that no
line below it can differ.
-/

namespace TomlEditor.Highlight

/-! ## The state after some lines -/

@[simp] theorem stateAfter_nil (start : ModeStack) : stateAfter start [] = start := rfl

@[simp] theorem stateAfter_cons (start : ModeStack) (line : Line) (more : List Line) :
    stateAfter start (line :: more) = stateAfter line.finish more := by
  cases more with
  | nil => rfl
  | cons next rest => simp [stateAfter, List.getLast?_cons]

@[simp] theorem stateAfter_append (start : ModeStack) (first second : List Line) :
    stateAfter start (first ++ second) = stateAfter (stateAfter start first) second := by
  induction first generalizing start with
  | nil => rfl
  | cons line more ih => simp [ih]

/-! ## Lexing as a chain -/

@[simp] theorem lexChain_nil (start : ModeStack) : lexChain start [] = [] := rfl

@[simp] theorem lexChain_cons (start : ModeStack) (text : String) (more : List String) :
    lexChain start (text :: more) =
      Line.lex start text :: lexChain (Line.lex start text).finish more := rfl

theorem lexChain_append (start : ModeStack) (first second : List String) :
    lexChain start (first ++ second) =
      lexChain start first ++ lexChain (stateAfter start (lexChain start first)) second := by
  induction first generalizing start with
  | nil => rfl
  | cons text more ih => simp [ih]

@[simp] theorem map_text_lexChain (start : ModeStack) (texts : List String) :
    (lexChain start texts).map Line.text = texts := by
  induction texts generalizing start with
  | nil => rfl
  | cons text more ih => simp [ih, Line.lex]

@[simp] theorem length_lexChain (start : ModeStack) (texts : List String) :
    (lexChain start texts).length = texts.length := by
  rw [← List.length_map Line.text, map_text_lexChain]

/-! ## Chains -/

/-- Every line is lexed from the state in which the one before it ended. -/
def Chained (start : ModeStack) (lines : List Line) : Prop :=
  lines = lexChain start (lines.map Line.text)

theorem chained_nil (start : ModeStack) : Chained start [] := rfl

theorem chained_cons {start : ModeStack} {line : Line} {more : List Line} :
    Chained start (line :: more) ↔ line = Line.lex start line.text ∧ Chained line.finish more := by
  simp only [Chained, List.map_cons, lexChain_cons, List.cons.injEq]
  constructor
  · rintro ⟨hline, hmore⟩
    rw [← hline] at hmore
    exact ⟨hline, hmore⟩
  · rintro ⟨hline, hmore⟩
    rw [← hline]
    exact ⟨rfl, hmore⟩

theorem chained_append {start : ModeStack} {first second : List Line} :
    Chained start (first ++ second) ↔
      Chained start first ∧ Chained (stateAfter start first) second := by
  induction first generalizing start with
  | nil => simp [chained_nil]
  | cons line more ih => simp only [List.cons_append, chained_cons, ih, stateAfter_cons, and_assoc]

theorem chained_lexChain (start : ModeStack) (texts : List String) :
    Chained start (lexChain start texts) := by
  simp [Chained]

theorem Chained.take {start : ModeStack} {lines : List Line} (h : Chained start lines)
    (count : Nat) : Chained start (lines.take count) := by
  rw [← List.take_append_drop count lines] at h
  exact (chained_append.1 h).1

theorem Chained.drop {start : ModeStack} {lines : List Line} (h : Chained start lines)
    (count : Nat) : Chained (stateAfter start (lines.take count)) (lines.drop count) := by
  rw [← List.take_append_drop count lines] at h
  exact (chained_append.1 h).2

/-- In a chain the states of neighbours meet. -/
theorem Chained.isChain {start : ModeStack} {lines : List Line} (h : Chained start lines) :
    lines.IsChain fun line next => next.start = line.finish := by
  induction lines generalizing start with
  | nil => exact .nil
  | cons line more ih =>
    obtain ⟨-, hmore⟩ := chained_cons.1 h
    refine List.isChain_cons.2 ⟨?_, ih hmore⟩
    intro next hnext
    obtain ⟨rest, rfl⟩ : ∃ rest, more = next :: rest := by
      cases more with
      | nil => simp at hnext
      | cons first rest =>
        simp only [List.head?_cons, Option.mem_some_iff] at hnext
        exact ⟨rest, by rw [hnext]⟩
    obtain ⟨hlex, -⟩ := chained_cons.1 hmore
    rw [hlex]
    rfl

/-- In a chain every line is what lexing its text from its own start gives. -/
theorem Chained.eq_lex {start : ModeStack} {lines : List Line} (h : Chained start lines)
    {line : Line} (hline : line ∈ lines) : line = Line.lex line.start line.text := by
  induction lines generalizing start with
  | nil => simp at hline
  | cons first more ih =>
    obtain ⟨hfirst, hmore⟩ := chained_cons.1 h
    rcases List.mem_cons.1 hline with rfl | hline
    · have hstart : line.start = start := by
        rw [hfirst]
        rfl
      rw [hstart]
      exact hfirst
    · exact ih hmore hline

/-! ## Settling -/

/-- Settling a chain gives the chain of the same texts from the new start. -/
theorem Chained.settle_fst {old : ModeStack} {lines : List Line} (h : Chained old lines)
    (start : ModeStack) : (settle start lines).1 = lexChain start (lines.map Line.text) := by
  induction lines generalizing old start with
  | nil => rfl
  | cons line more ih =>
    obtain ⟨hline, hmore⟩ := chained_cons.1 h
    rw [settle]
    split
    · next hstart =>
      -- The line was lexed from `old`, so that is the state asked for and nothing changes.
      have hold : old = start := by
        rw [hline] at hstart
        exact hstart
      rw [← hold]
      exact h
    · simp [ih hmore]

end TomlEditor.Highlight
