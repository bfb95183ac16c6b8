import TomlEditor.Highlight.Document
import TomlEditor.Proofs.Highlight.Chain
import TomlEditor.Proofs.Lex.CarriageReturn
import TomlEditor.Proofs.Text.Lines

/-!
# Line ends with carriage returns

A text can have a carriage return in front of every line feed. Its lines are then
those of the text without them, each but the last with a carriage return behind
it. A carriage return behind a line does not change the state that the line ends
in, so every line is still lexed from the same state, and only its last token
shows the carriage return.
-/

namespace TomlEditor

/-! ## Lines of the text -/

namespace Text

/-- The text with a carriage return in front of every line feed. -/
def withReturns (text : String) : String :=
  String.ofList (text.toList.flatMap fun c => if c = '\n' then ['\r', '\n'] else [c])

theorem withReturns_append (first second : String) :
    withReturns (first ++ second) = withReturns first ++ withReturns second := by
  simp [withReturns]

theorem withReturns_feedless {text : String} (h : '\n' ∉ text.toList) :
    withReturns text = text := by
  have hkeep : ∀ c ∈ text.toList, (if c = '\n' then ['\r', '\n'] else [c]) = [c] := by
    intro c hc
    rw [if_neg]
    rintro rfl
    exact h hc
  rw [withReturns, List.flatMap_congr hkeep]
  simp

theorem withReturns_textAbove {lines : List String} (h : ∀ line ∈ lines, '\n' ∉ line.toList) :
    withReturns (textAbove lines) = textAbove (lines.map (· ++ "\r")) := by
  induction lines with
  | nil => rfl
  | cons line more ih =>
    have hmore := ih fun other hother => h other (List.mem_cons_of_mem _ hother)
    have hfeed : withReturns "\n" = "\r" ++ "\n" := by decide
    rw [textAbove_cons, List.map_cons, textAbove_cons, withReturns_append, withReturns_append,
      withReturns_feedless (h line List.mem_cons_self), hfeed, hmore]
    simp only [String.append_assoc]

/-- Every line but the last gets a carriage return. -/
theorem splitLines_withReturns {text last : String} {above : List String}
    (h : splitLines text = above ++ [last]) :
    splitLines (withReturns text) = above.map (· ++ "\r") ++ [last] := by
  have hfeed : ∀ line ∈ above ++ [last], '\n' ∉ line.toList := fun line hline =>
    feed_not_mem_of_mem_splitLines (h ▸ hline)
  have habove : ∀ line ∈ above, '\n' ∉ line.toList := fun line hline =>
    hfeed line (List.mem_append_left _ hline)
  have hlast : '\n' ∉ last.toList := hfeed last (by simp)
  have htext : withReturns text = joinLines (above.map (· ++ "\r") ++ [last]) := by
    rw [← joinLines_splitLines text, h, joinLines_concat, joinLines_concat, withReturns_append,
      withReturns_textAbove habove, withReturns_feedless hlast]
  rw [htext]
  refine splitLines_joinLines (by simp) fun line hline => ?_
  rcases List.mem_append.1 hline with hline | hline
  · obtain ⟨old, hold, rfl⟩ := List.mem_map.1 hline
    simpa using habove old hold
  · rwa [List.mem_singleton.1 hline]

end Text

/-! ## Lexed lines -/

namespace Highlight

open Text

/-- The line with a carriage return behind it, lexed from the same state to the same state. -/
def Line.withReturn (line : Line) : Line :=
  { line with
    text := line.text ++ "\r"
    tokens := Lex.withReturn line.finish.mode 0 line.tokens }

theorem lex_return (mode : Mode) (text : String) :
    Line.lex (.ofMode mode) (text ++ "\r") = (Line.lex (.ofMode mode) text).withReturn := by
  rw [Line.lex, Lex.tokenize_return]
  rfl

/-- From the state of a mode a line ends in the state of a mode. -/
theorem exists_finish_ofMode (mode : Mode) (text : String) :
    ∃ next : Mode, (Line.lex (.ofMode mode) text).finish = .ofMode next :=
  ⟨_, (Lex.lexemes_follow mode .start text.toList 0).2⟩

/-- Carriage returns behind all lines but the last stay where they are. -/
theorem lexChain_returns (mode : Mode) (above : List String) (last : String) :
    let chain := lexChain (.ofMode mode) above
    lexChain (.ofMode mode) (above.map (· ++ "\r") ++ [last]) =
      chain.map Line.withReturn ++ [Line.lex (stateAfter (.ofMode mode) chain) last] := by
  induction above generalizing mode with
  | nil => rfl
  | cons text more ih =>
    obtain ⟨next, hnext⟩ := exists_finish_ofMode mode text
    have hfinish : (Line.lex (.ofMode mode) text).withReturn.finish = .ofMode next := hnext
    simp only [List.map_cons, List.cons_append, lexChain_cons, stateAfter_cons, lex_return,
      hfinish, hnext, ih next]

/-- **Carriage returns at line ends do not change the highlighting.** From the state of any mode, a
text with a carriage return behind it ends in the state in which the text alone ends, and its
tokens are those of the text, with the carriage return in the last one or behind it. So a document
with a carriage return at the end of every line but the last has the lines of the document without
them, lexed from the same states to the same states, and each token but the last of a line is the
same. -/
theorem highlighting_with_returns (text : String) (mode : Mode) :
    let lexed := tokenize text (.ofMode mode)
    tokenize (text ++ "\r") (.ofMode mode) = (Lex.withReturn lexed.2.mode 0 lexed.1, lexed.2) ∧
      ∃ above last, (Document.ofText text).lines = above ++ [last] ∧
        (Document.ofText (withReturns text)).lines = above.map Line.withReturn ++ [last] := by
  refine ⟨Lex.tokenize_return text mode, ?_⟩
  obtain ⟨above, last, hlines⟩ : ∃ above last, splitLines text = above ++ [last] :=
    ⟨_, _, (List.dropLast_concat_getLast (splitLines_ne_nil text)).symm⟩
  refine ⟨lexChain .root above, Line.lex (stateAfter .root (lexChain .root above)) last, ?_, ?_⟩
  · rw [Document.ofText, hlines, lexChain_append]
    rfl
  · rw [Document.ofText, splitLines_withReturns hlines]
    exact lexChain_returns .root above last

end Highlight

end TomlEditor
