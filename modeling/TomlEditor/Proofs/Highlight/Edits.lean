import TomlEditor.Highlight.Document

/-!
# What an edit does

An edit that is made gives the document a new text or splices lines into it, and
counts one revision. A removal splices as well: it puts the line that moves to
the place of the removed one between the lines above and below the two. All that
is proved of edits starts from these cases.
-/

namespace TomlEditor.Document

open Highlight Text

variable {document changed : Document} {change : Edit} {range : LineRange}

/-- What a removal does to a list: one element moves to the place of the removed one, the next or
else the one before it, between elements that are kept; or no element is left. -/
theorem removal_cases {α : Type} {items : List α} {index : Nat} (h : index < items.length) :
    (∃ before gone next after, items = before ++ gone ++ after ∧
        items.eraseIdx index = before ++ [next] ++ after ∧
        min index ((items.eraseIdx index).length - 1) = before.length) ∨
      ∃ removed, items = [removed] ∧ index = 0 := by
  obtain ⟨before, removed, after, rfl, rfl⟩ :
      ∃ before removed after, items = before ++ removed :: after ∧ before.length = index :=
    ⟨items.take index, items[index], items.drop (index + 1), by simp,
      List.length_take_of_le (Nat.le_of_lt h)⟩
  have herase : (before ++ removed :: after).eraseIdx before.length = before ++ after := by
    rw [List.eraseIdx_append_of_length_le (Nat.le_refl _), Nat.sub_self, List.eraseIdx_cons_zero]
  rw [herase]
  cases after with
  | cons next after =>
    refine .inl ⟨before, [removed, next], next, after, by simp, by simp, ?_⟩
    rw [List.length_append, List.length_cons]
    omega
  | nil =>
    rcases List.eq_nil_or_concat before with rfl | ⟨init, last, rfl⟩
    · exact .inr ⟨removed, rfl, rfl⟩
    · refine .inl ⟨init, [last, removed], last, [], by simp, by simp, ?_⟩
      simp

theorem edit_cases (h : document.edit change = .ok (range, changed)) :
    (∃ text, change = .setText text ∧ range = ⟨0, changed.lineCount⟩ ∧
        changed = document.setText text) ∨
      (∃ index text, change = .replaceLine index text ∧ index < document.lineCount ∧
        document.splice (document.lines.take index) (splitLines text)
          (document.lines.drop (index + 1)) = (range, changed)) ∨
      (∃ index text, change = .insertLine index text ∧ index ≤ document.lineCount ∧
        document.splice (document.lines.take index) (splitLines text)
          (document.lines.drop index) = (range, changed)) ∨
      ∃ index, change = .removeLine index ∧ index < document.lineCount ∧
        let left := document.lines.eraseIdx index
        let dirty := min index (left.length - 1)
        document.splice (left.take dirty) [(left[dirty]?.map Line.text).getD ""]
          (left.drop (dirty + 1)) = (range, changed) := by
  cases change with
  | setText text =>
    simp only [edit, Except.ok.injEq, Prod.mk.injEq] at h
    obtain ⟨hrange, hchanged⟩ := h
    refine .inl ⟨text, rfl, ?_, hchanged.symm⟩
    rw [← hrange, hchanged]
  | replaceLine index text =>
    simp only [edit, replaceLine] at h
    split at h
    · next hindex => exact .inr (.inl ⟨index, text, rfl, hindex, Except.ok.inj h⟩)
    · simp at h
  | insertLine index text =>
    simp only [edit, insertLine] at h
    split at h
    · next hindex => exact .inr (.inr (.inl ⟨index, text, rfl, hindex, Except.ok.inj h⟩))
    · simp at h
  | removeLine index =>
    simp only [edit, removeLine] at h
    split at h
    · next hindex => exact .inr (.inr (.inr ⟨index, rfl, hindex, Except.ok.inj h⟩))
    · simp at h

/-- Every edit that is made counts one revision. -/
theorem revision_of_edit (h : document.edit change = .ok (range, changed)) :
    changed.revision = document.revision + 1 := by
  rcases edit_cases h with ⟨text, -, -, rfl⟩ | ⟨index, text, -, -, hsplice⟩ |
    ⟨index, text, -, -, hsplice⟩ | ⟨index, -, -, hsplice⟩
  · rfl
  · exact (congrArg (fun result => result.2.revision) hsplice).symm
  · exact (congrArg (fun result => result.2.revision) hsplice).symm
  · exact (congrArg (fun result => result.2.revision) hsplice).symm

end TomlEditor.Document
