import Mathlib.Data.List.InsertIdx
import TomlEditor.Proofs.Highlight.Incremental

/-!
# Edits of lines as edits of the text

A document keeps lines, whoever edits it may keep one text. Taken apart at a
line, the text is what lies before the line, the line, and what lies after it,
with the line feeds next to the line in the outer parts. An edit of the line puts
new text between the two outer parts; only a removal takes something from them,
one line feed. All of it comes from one fact: an edit splices the texts of the
lines, and joining lines is the same on either side of a splice.
-/

namespace TomlEditor

open Highlight Text

/-! ## A text taken apart at a line -/

namespace Text

/-- What is before a line of a text, the line, and what is after it. -/
structure LineAt (text : String) (index : Nat) (before line after : String) : Prop where
  whole : text = before ++ line ++ after
  /-- Above the line as many lines end as its index says. -/
  count : before.toList.count '\n' = index
  starts : before = "" ∨ ∃ above, before = above ++ "\n"
  feedless : '\n' ∉ line.toList
  stops : after = "" ∨ ∃ below, after = "\n" ++ below

theorem lineAt_joinLines {above below : List String} {line : String}
    (h : ∀ other ∈ above ++ line :: below, '\n' ∉ other.toList) :
    LineAt (joinLines (above ++ line :: below)) above.length (textAbove above) line
      (textBelow below) where
  whole := joinLines_around_line above line below
  count := count_textAbove fun other hother => h other (List.mem_append_left _ hother)
  starts := by
    by_cases habove : above = []
    · exact .inl (by rw [habove, textAbove_nil])
    · exact .inr ⟨joinLines above, textAbove_eq habove⟩
  feedless := h line (by simp)
  stops := by
    cases below with
    | nil => exact .inl rfl
    | cons next below =>
      exact .inr ⟨next ++ textBelow below, by rw [textBelow_cons, String.append_assoc]⟩

end Text

/-! ## Texts of the lines -/

namespace Highlight

@[simp] theorem map_text_settle (start : ModeStack) (lines : List Line) :
    (settle start lines).1.map Line.text = lines.map Line.text := by
  induction lines generalizing start with
  | nil => rfl
  | cons line more ih =>
    rw [settle]
    split
    · rfl
    · simp [ih, Line.lex]

end Highlight

namespace Document

theorem texts_splice (document : Document) (before : List Line) (texts : List String)
    (after : List Line) :
    (document.splice before texts after).2.texts =
      before.map Line.text ++ texts ++ after.map Line.text := by
  simp [Document.texts, splice]

theorem exists_of_splice {document : Document} {before after : List Line} {texts : List String}
    {result : Except Error (LineRange × Document)}
    (h : result = .ok (document.splice before texts after)) :
    ∃ range changed, result = .ok (range, changed) ∧
      changed.texts = before.map Line.text ++ texts ++ after.map Line.text :=
  ⟨(document.splice before texts after).1, (document.splice before texts after).2, h,
    document.texts_splice before texts after⟩

theorem text_eq (document : Document) : document.text = joinLines document.texts := rfl

theorem length_texts (document : Document) : document.texts.length = document.lineCount :=
  List.length_map _

variable {document : Document} {above below : List String} {line : String}

theorem replaceLine_texts (htexts : document.texts = above ++ line :: below) (new : String) :
    ∃ range changed, document.replaceLine above.length new = .ok (range, changed) ∧
      changed.texts = above ++ splitLines new ++ below := by
  have hlt : above.length < document.lineCount := by
    rw [← length_texts, htexts, List.length_append, List.length_cons]
    omega
  have hedit : document.replaceLine above.length new =
      .ok (document.splice (document.lines.take above.length) (splitLines new)
        (document.lines.drop (above.length + 1))) := if_pos hlt
  obtain ⟨range, changed, hmade, hchanged⟩ := exists_of_splice hedit
  refine ⟨range, changed, hmade, ?_⟩
  rw [hchanged, List.map_take, List.map_drop, ← Document.texts, htexts]
  simp

theorem insertLine_texts (htexts : document.texts = above ++ below) (new : String) :
    ∃ range changed, document.insertLine above.length new = .ok (range, changed) ∧
      changed.texts = above ++ splitLines new ++ below := by
  have hle : above.length ≤ document.lineCount := by
    rw [← length_texts, htexts, List.length_append]
    omega
  have hedit : document.insertLine above.length new =
      .ok (document.splice (document.lines.take above.length) (splitLines new)
        (document.lines.drop above.length)) := if_pos hle
  obtain ⟨range, changed, hmade, hchanged⟩ := exists_of_splice hedit
  refine ⟨range, changed, hmade, ?_⟩
  rw [hchanged, List.map_take, List.map_drop, ← Document.texts, htexts]
  simp

/-- Lexing one of some lines anew leaves their texts as they are. -/
theorem texts_around {texts : List String} {place : Nat} (h : place < texts.length) :
    texts.take place ++ [texts[place]?.getD ""] ++ texts.drop (place + 1) = texts := by
  rw [List.getElem?_eq_getElem h, Option.getD_some, List.append_assoc, List.singleton_append,
    List.getElem_cons_drop, List.take_append_drop]

theorem removeLine_texts (htexts : document.texts = above ++ line :: below) :
    ∃ range changed, document.removeLine above.length = .ok (range, changed) ∧
      changed.texts = if above ++ below = [] then [""] else above ++ below := by
  have hlt : above.length < document.lineCount := by
    rw [← length_texts, htexts, List.length_append, List.length_cons]
    omega
  let left := document.lines.eraseIdx above.length
  let dirty := min above.length (left.length - 1)
  have hedit : document.removeLine above.length =
      .ok (document.splice (left.take dirty) [(left[dirty]?.map Line.text).getD ""]
        (left.drop (dirty + 1))) := if_pos hlt
  have hleft : left.map Line.text = above ++ below := by
    rw [← List.eraseIdx_map, ← Document.texts, htexts, List.eraseIdx_append_of_length_le
      (Nat.le_refl _), Nat.sub_self, List.eraseIdx_cons_zero]
  have hlength : left.length = (above ++ below).length := by rw [← hleft, List.length_map]
  obtain ⟨range, changed, hmade, hchanged⟩ := exists_of_splice hedit
  refine ⟨range, changed, hmade, ?_⟩
  rw [hchanged, List.map_take, List.map_drop, ← List.getElem?_map, hleft]
  split
  · next hnone => simp [hnone]
  · next hsome =>
    apply texts_around
    have hpos := List.length_pos_iff.2 hsome
    omega

/-! ## Edits of the text -/

/-- What the edits of a line do to the text, taken apart at the line. -/
structure EditsText (document : Document) (index : Nat) (before line after : String) : Prop where
  replace : ∀ new, ∃ range changed, document.replaceLine index new = .ok (range, changed) ∧
    changed.text = before ++ new ++ after
  insert : ∀ new, ∃ range changed, document.insertLine index new = .ok (range, changed) ∧
    changed.text = before ++ new ++ "\n" ++ (line ++ after)
  /-- With the line goes the line feed after it, or before it if it is the last one. -/
  remove : ∃ range changed, document.removeLine index = .ok (range, changed) ∧
    (index + 1 < document.lineCount → ∃ below, after = "\n" ++ below ∧
      changed.text = before ++ below) ∧
    (index + 1 = document.lineCount → 0 < index → ∃ above, before = above ++ "\n" ∧ after = "" ∧
      changed.text = above) ∧
    (document.lineCount = 1 → changed.text = "")

/-- Removing the last line takes the line feed before it, any other line takes the one after it. -/
theorem removeLine_text (htexts : document.texts = above ++ line :: below) :
    ∃ range changed, document.removeLine above.length = .ok (range, changed) ∧
      (above.length + 1 < document.lineCount → ∃ rest, textBelow below = "\n" ++ rest ∧
        changed.text = textAbove above ++ rest) ∧
      (above.length + 1 = document.lineCount → 0 < above.length →
        ∃ rest, textAbove above = rest ++ "\n" ∧ textBelow below = "" ∧ changed.text = rest) ∧
      (document.lineCount = 1 → changed.text = "") := by
  obtain ⟨range, changed, hmade, hchanged⟩ := removeLine_texts htexts
  have hcount : document.lineCount = above.length + 1 + below.length := by
    rw [← length_texts, htexts, List.length_append, List.length_cons]
    omega
  refine ⟨range, changed, hmade, ?_, ?_, ?_⟩
  · intro hinner
    have hbelow : below ≠ [] := by
      rintro rfl
      simp at hcount
      omega
    obtain ⟨next, more, rfl⟩ := List.exists_cons_of_ne_nil hbelow
    refine ⟨next ++ textBelow more, by rw [textBelow_cons, String.append_assoc], ?_⟩
    rw [text_eq, hchanged, if_neg (by simp), joinLines_around_line, String.append_assoc]
  · intro hlast hpos
    obtain rfl : below = [] := List.eq_nil_of_length_eq_zero (by omega)
    have hne : above ≠ [] := List.length_pos_iff.1 hpos
    refine ⟨joinLines above, textAbove_eq hne, rfl, ?_⟩
    rw [text_eq, hchanged, List.append_nil, if_neg hne]
  · intro honly
    obtain rfl : above = [] := List.eq_nil_of_length_eq_zero (by omega)
    obtain rfl : below = [] := List.eq_nil_of_length_eq_zero (by omega)
    rw [text_eq, hchanged, List.append_nil, if_pos rfl]
    rfl

theorem editsText (htexts : document.texts = above ++ line :: below) :
    EditsText document above.length (textAbove above) line (textBelow below) := by
  refine ⟨?_, ?_, removeLine_text htexts⟩
  · intro new
    obtain ⟨range, changed, hmade, hchanged⟩ := replaceLine_texts htexts new
    refine ⟨range, changed, hmade, ?_⟩
    rw [text_eq, hchanged, joinLines_around (splitLines_ne_nil new), joinLines_splitLines]
  · intro new
    obtain ⟨range, changed, hmade, hchanged⟩ := insertLine_texts htexts new
    refine ⟨range, changed, hmade, ?_⟩
    rw [text_eq, hchanged, joinLines_around (splitLines_ne_nil new), joinLines_splitLines,
      textBelow_cons]
    simp only [String.append_assoc]

/-- **Edits of lines are edits of the text.** A new text is the text of its document. Whatever was
done to a document, it has one line more than its text has line feeds. Its text can be taken apart
at every line, and an edit of the line leaves what is before and after it: a replacement puts its
text in between, an insertion puts it in front of the line, and a removal takes the line away with
the line feed next to it. Behind the last line an insertion adds a line feed and its text. -/
theorem text_of_edits (text : String) (changes : List Edit) :
    let document := (ofText text).run changes
    (ofText text).text = text ∧
      (∀ new, (document.setText new).text = new) ∧
      document.lineCount = document.text.toList.count '\n' + 1 ∧
      (∀ index < document.lineCount, ∃ before line after,
        LineAt document.text index before line after ∧
          (document.line? index).map Line.text = some line ∧
          EditsText document index before line after) ∧
      ∀ new, ∃ range changed,
        document.insertLine document.lineCount new = .ok (range, changed) ∧
          changed.text = document.text ++ "\n" ++ new := by
  intro document
  have h : document.WellLexed := (wellLexed_ofText text).run changes
  have hne : document.texts ≠ [] := by simpa [Document.texts] using h.nonempty
  have hfresh : ∀ new : String, joinLines ((lexChain .root (splitLines new)).map Line.text) = new :=
    fun new => by rw [map_text_lexChain, joinLines_splitLines]
  refine ⟨hfresh text, hfresh, ?_, ?_, ?_⟩
  · have hcount := length_splitLines document.text
    rwa [text_eq, splitLines_joinLines hne h.feedless, length_texts] at hcount
  · intro index hindex
    rw [← length_texts] at hindex
    -- The texts above the line, the line and the texts below it.
    obtain ⟨above, line, below, htexts, rfl⟩ : ∃ above line below,
        document.texts = above ++ line :: below ∧ above.length = index :=
      ⟨document.texts.take index, document.texts[index], document.texts.drop (index + 1),
        by simp, List.length_take_of_le (Nat.le_of_lt hindex)⟩
    have hline : (document.line? above.length).map Line.text = some line := by
      rw [line?, ← List.getElem?_map, ← Document.texts, htexts]
      simp
    refine ⟨textAbove above, line, textBelow below, ?_, hline, editsText htexts⟩
    rw [text_eq, htexts]
    exact lineAt_joinLines (htexts ▸ h.feedless)
  · intro new
    have htexts : document.texts = document.texts ++ [] := (List.append_nil _).symm
    obtain ⟨range, changed, hmade, hchanged⟩ := insertLine_texts htexts new
    rw [length_texts] at hmade
    refine ⟨range, changed, hmade, ?_⟩
    rw [text_eq, hchanged, joinLines_around (splitLines_ne_nil new), joinLines_splitLines,
      textAbove_eq hne, textBelow_nil, String.append_empty, text_eq]

end Document

end TomlEditor
