import TomlEditor.Proofs.Highlight.Chain
import TomlEditor.Proofs.Highlight.Edits
import TomlEditor.Proofs.Text.Lines

/-!
# Incremental lexing of a document

After any edits, the lines of a document are those of a new document with the
same text. The invariant is that the lines are a chain from the top level, that
there is at least one of them and that none has a line feed in it. An edit puts
texts between two parts of the old chain; the part above it is a chain already,
the new lines are lexed as one, and the part below it is settled.
-/

namespace TomlEditor.Document

open Highlight Text

/-- The texts of the lines. -/
def texts (document : Document) : List String :=
  document.lines.map Line.text

/-- What every document that an edit can lead to has in common. -/
structure WellLexed (document : Document) : Prop where
  chained : Chained .root document.lines
  nonempty : document.lines ≠ []
  feedless : ∀ text ∈ document.texts, '\n' ∉ text.toList

theorem wellLexed_of_lines {document : Document} {texts : List String}
    (hlines : document.lines = lexChain .root texts) (hne : texts ≠ [])
    (hfeed : ∀ text ∈ texts, '\n' ∉ text.toList) : document.WellLexed := by
  refine ⟨?_, ?_, ?_⟩
  · rw [hlines]
    exact chained_lexChain _ _
  · intro hnil
    rw [hnil] at hlines
    exact hne (by simpa using (congrArg List.length hlines).symm)
  · simpa [Document.texts, hlines] using hfeed

theorem wellLexed_ofText (text : String) : (ofText text).WellLexed :=
  wellLexed_of_lines rfl (splitLines_ne_nil text) fun _ => feed_not_mem_of_mem_splitLines

theorem wellLexed_setText (document : Document) (text : String) :
    (document.setText text).WellLexed :=
  wellLexed_of_lines rfl (splitLines_ne_nil text) fun _ => feed_not_mem_of_mem_splitLines

/-- A document whose lines are well lexed is, up to its revision, a new document with its text. -/
theorem WellLexed.lines_eq {document : Document} (h : document.WellLexed) :
    document.lines = (ofText document.text).lines := by
  have hne : document.texts ≠ [] := by simpa [Document.texts] using h.nonempty
  have hsplit : splitLines document.text = document.texts :=
    splitLines_joinLines hne h.feedless
  rw [ofText, hsplit]
  exact h.chained

/-! ## Edits -/

/-- A splice between two chains lexes the texts of all three parts as one chain. -/
theorem splice_lines (document : Document) {old : ModeStack} {before after : List Line}
    (hbefore : Chained .root before) (hafter : Chained old after) (texts : List String) :
    (document.splice before texts after).2.lines =
      lexChain .root (before.map Line.text ++ texts ++ after.map Line.text) := by
  rw [lexChain_append, lexChain_append, ← hbefore, stateAfter_append, splice]
  exact congrArg _ (hafter.settle_fst _)

theorem splice_wellLexed {document : Document} {old : ModeStack} {before after : List Line}
    {texts : List String} (hbefore : Chained .root before) (hafter : Chained old after)
    (hne : texts ≠ [])
    (hfeed : ∀ text ∈ before.map Line.text ++ texts ++ after.map Line.text, '\n' ∉ text.toList) :
    (document.splice before texts after).2.WellLexed :=
  wellLexed_of_lines (document.splice_lines hbefore hafter texts) (by simp [hne]) hfeed

theorem WellLexed.feedless_take {document : Document} (h : document.WellLexed) (count : Nat) :
    ∀ text ∈ (document.lines.take count).map Line.text, '\n' ∉ text.toList := by
  intro text htext
  rw [List.map_take] at htext
  exact h.feedless text (List.mem_of_mem_take htext)

theorem WellLexed.feedless_drop {document : Document} (h : document.WellLexed) (count : Nat) :
    ∀ text ∈ (document.lines.drop count).map Line.text, '\n' ∉ text.toList := by
  intro text htext
  rw [List.map_drop] at htext
  exact h.feedless text (List.mem_of_mem_drop htext)

/-- Puts texts between the first lines of a document and lines further down. -/
theorem WellLexed.splice {document : Document} (h : document.WellLexed) (above below : Nat)
    {texts : List String} (hne : texts ≠ []) (hfeed : ∀ text ∈ texts, '\n' ∉ text.toList) :
    (document.splice (document.lines.take above) texts
      (document.lines.drop below)).2.WellLexed := by
  refine splice_wellLexed (h.chained.take above) (h.chained.drop below) hne ?_
  intro text htext
  rw [List.mem_append, List.mem_append] at htext
  rcases htext with (htext | htext) | htext
  · exact h.feedless_take above text htext
  · exact hfeed text htext
  · exact h.feedless_drop below text htext

/-- The lines left by a removal, seen from the line that is lexed anew: those above it and those
below it are lines of the document in their old order. -/
theorem eraseIdx_around_dirty {α : Type} {lines : List α} {index : Nat}
    (hindex : index < lines.length) :
    let left := lines.eraseIdx index
    let dirty := min index (left.length - 1)
    left.take dirty = lines.take dirty ∧ ∃ below, left.drop (dirty + 1) = lines.drop below := by
  intro left dirty
  rcases removal_cases hindex with ⟨before, gone, next, after, hlines, hleft, hdirty⟩ |
    ⟨removed, hlines, rfl⟩
  · have hdirty : dirty = before.length := hdirty
    have hleft : left = before ++ [next] ++ after := hleft
    rw [hdirty, hleft, hlines]
    refine ⟨by simp, before.length + gone.length, ?_⟩
    rw [List.drop_left' (by simp), List.drop_left' (by simp)]
  · refine ⟨by simp [left, dirty, hlines], 1, ?_⟩
    simp [left, hlines]

/-- The line lexed anew after a removal is a line of the document, or empty if no line is left. -/
theorem WellLexed.feedless_dirty {document : Document} (h : document.WellLexed)
    (index dirty : Nat) :
    '\n' ∉ (((document.lines.eraseIdx index)[dirty]?.map Line.text).getD "").toList := by
  cases hline : (document.lines.eraseIdx index)[dirty]? with
  | none => simp
  | some line =>
    have hmem := List.mem_of_mem_eraseIdx (List.mem_of_getElem? hline)
    exact h.feedless line.text (List.mem_map_of_mem hmem)

theorem WellLexed.edit {document changed : Document} {range : LineRange}
    (h : document.WellLexed) {change : Edit}
    (hedit : document.edit change = .ok (range, changed)) : changed.WellLexed := by
  rcases edit_cases hedit with ⟨text, -, -, rfl⟩ | ⟨index, text, -, -, hsplice⟩ |
    ⟨index, text, -, -, hsplice⟩ | ⟨index, -, hindex, hsplice⟩
  · exact document.wellLexed_setText text
  · have hchanged : (document.splice _ _ _).2 = changed := congrArg Prod.snd hsplice
    rw [← hchanged]
    exact h.splice _ _ (splitLines_ne_nil text) fun _ => feed_not_mem_of_mem_splitLines
  · have hchanged : (document.splice _ _ _).2 = changed := congrArg Prod.snd hsplice
    rw [← hchanged]
    exact h.splice _ _ (splitLines_ne_nil text) fun _ => feed_not_mem_of_mem_splitLines
  · obtain ⟨habove, below, hbelow⟩ := eraseIdx_around_dirty hindex
    have hchanged : (document.splice _ _ _).2 = changed := congrArg Prod.snd hsplice
    rw [habove, hbelow] at hchanged
    rw [← hchanged]
    refine h.splice _ below (by simp) ?_
    intro text htext
    rw [List.mem_singleton.1 htext]
    exact h.feedless_dirty index _

theorem WellLexed.editOrKeep {document : Document} (h : document.WellLexed) (change : Edit) :
    (document.editOrKeep change).WellLexed := by
  rw [Document.editOrKeep]
  split
  · next hedit => exact h.edit hedit
  · exact h

theorem WellLexed.run {document : Document} (h : document.WellLexed) (changes : List Edit) :
    (document.run changes).WellLexed := by
  induction changes generalizing document with
  | nil => exact h
  | cons change more ih => exact ih (h.editOrKeep change)

/-! ## Runs of edits -/

/-- **Incremental lexing is fresh lexing.** After any edits, refused ones among them, every line is
the line of a new document with the same text: the first is lexed from the top level, each later
one from the state in which the one above it ends, and no line has a line feed in it. -/
theorem lines_run_eq_lines_ofText (text : String) (changes : List Edit) :
    let document := (ofText text).run changes
    document.lines = (ofText document.text).lines ∧
      (∃ first more, document.lines = first :: more ∧ first.start = .root) ∧
      (document.lines.IsChain fun line next => next.start = line.finish) ∧
      (∀ line ∈ document.lines, tokenize line.text line.start = (line.tokens, line.finish)) ∧
      ∀ line ∈ document.lines, '\n' ∉ line.text.toList := by
  intro document
  have h : document.WellLexed := (wellLexed_ofText text).run changes
  refine ⟨h.lines_eq, ?_, h.chained.isChain, ?_, ?_⟩
  · obtain ⟨first, more, hlines⟩ := List.exists_cons_of_ne_nil h.nonempty
    refine ⟨first, more, hlines, ?_⟩
    have hchained := h.chained
    rw [hlines, chained_cons] at hchained
    rw [hchained.1]
    rfl
  · intro line hline
    rw [h.chained.eq_lex hline]
    rfl
  · intro line hline
    exact h.feedless line.text (List.mem_map_of_mem hline)

end TomlEditor.Document
