import TomlEditor.Highlight.Document
import TomlEditor.Problem.Marker
import TomlEditor.Proofs.Highlight.Chain
import TomlEditor.Proofs.Text.Position

/-!
# Where the marker of a failure stands

A parser reports a byte offset, an editor shows a marker at a line and a column
of a document. The two agree: the place of the offset lies on a line of the
document, and the bytes above and in front of it are those of the text up to the
offset. A report without an offset cannot be marked.
-/

namespace TomlEditor.Problem

open Highlight Text

/-- The text that is left when blank characters at the end are removed, and the blanks. -/
theorem trimEnd_splits (text : String) :
    ∃ blanks, text = trimEnd text ++ blanks ∧ (∀ c ∈ blanks.toList, isBlank c = true) ∧
      ∀ c, (trimEnd text).toList.getLast? = some c → isBlank c = false := by
  refine ⟨String.ofList (text.toList.reverse.takeWhile isBlank).reverse, ?_, ?_, ?_⟩
  · apply String.toList_injective
    rw [trimEnd, ← String.ofList_append, ← List.reverse_append, List.takeWhile_append_dropWhile,
      List.reverse_reverse, String.ofList_toList]
  · intro c hc
    rw [String.toList_ofList, List.mem_reverse] at hc
    exact List.all_eq_true.1 List.all_takeWhile c hc
  · intro c hc
    have hhead := List.head?_dropWhile_not isBlank text.toList.reverse
    rw [trimEnd, String.toList_ofList, List.getLast?_reverse] at hc
    rw [hc] at hhead
    simpa using hhead

/-- **A parser's offset becomes a marker at the right place.** The place of an offset lies on a
line of the document of the text, no further than the end of the line, and the bytes of the lines
above and of the characters in front of it are those up to the greatest boundary between characters
that the offset reaches. So places are in the order of their offsets, and boundaries have different
places. The marker of a report is of no width and stands at that place, counted from one, with the
message without the blanks at its end; a report without an offset has no marker. -/
theorem markers_at_offset (text : String) :
    (∀ offset, ∃ boundary,
      IsGreatest {boundary | boundary ≤ min offset text.utf8ByteSize ∧ IsBoundary text boundary}
        boundary ∧
      (positionAt text offset).line < (Document.ofText text).lineCount ∧
      (positionAt text offset).StandsAt ((Document.ofText text).lines.map Line.text) boundary) ∧
    (∀ offset limit, offset ≤ limit → positionAt text offset ≤ positionAt text limit) ∧
    (∀ offset other, IsBoundary text offset → IsBoundary text other →
      positionAt text offset = positionAt text other → offset = other) ∧
    ∀ message, ∃ shown blanks, message = shown ++ blanks ∧
      (∀ c ∈ blanks.toList, isBlank c = true) ∧
      (∀ c, shown.toList.getLast? = some c → isBlank c = false) ∧
      (∀ offset, (Failure.ofReport text ⟨message, some offset⟩).markers =
        let place := positionAt text offset
        .ok [⟨place.line + 1, place.column + 1, place.line + 1, place.column + 1, shown,
          .error⟩]) ∧
      (Failure.ofReport text ⟨message, none⟩).markers = .error (.unpositioned "Error" shown) := by
  refine ⟨?_, fun offset limit => positionAt_mono text, fun offset other => positionAt_injOn, ?_⟩
  · intro offset
    have hlines : (Document.ofText text).lines.map Line.text = splitLines text :=
      map_text_lexChain .root (splitLines text)
    obtain ⟨boundary, hgreatest, hstands⟩ := standsAt_positionAt text offset
    rw [← hlines] at hstands
    refine ⟨boundary, hgreatest, ?_, hstands⟩
    have hlt := hstands.line_lt
    rwa [List.length_map] at hlt
  · intro message
    obtain ⟨blanks, hmessage, hblanks, hlast⟩ := trimEnd_splits message
    exact ⟨trimEnd message, blanks, hmessage, hblanks, hlast, fun offset => rfl, rfl⟩

/-- An offset inside a character stands for its start, and one past the end for the empty line
there. -/
example : positionAt "a\né\n" 3 = ⟨1, 0⟩ ∧ positionAt "a\né\n" 9 = ⟨2, 0⟩ := by
  decide +kernel

end TomlEditor.Problem
