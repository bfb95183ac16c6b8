import Mathlib.Data.List.InsertIdx
import TomlEditor.Proofs.Highlight.Chain
import TomlEditor.Proofs.Highlight.Edits

/-!
# The lines that an edit lexes anew

An edit answers with a range of lines. Outside of it every line is as it was,
and below the lines that were put in place the range holds exactly the lines
whose start has changed. The edit is a replacement of the middle of the old
lines, so the lines above keep their index and the lines below keep their
distance from the end; which of the latter are lexed anew is decided by `settle`
alone. Whoever shows the lines needs to paint no others again.
-/

namespace TomlEditor.Highlight

/-! ## Settling -/

@[simp] theorem length_settle (start : ModeStack) (lines : List Line) :
    (settle start lines).1.length = lines.length := by
  induction lines generalizing start with
  | nil => rfl
  | cons line more ih =>
    rw [settle]
    split
    · rfl
    · simp [ih]

theorem settle_snd_le (start : ModeStack) (lines : List Line) :
    (settle start lines).2 ≤ lines.length := by
  induction lines generalizing start with
  | nil => exact Nat.le_refl 0
  | cons line more ih =>
    rw [settle]
    split
    · exact Nat.zero_le _
    · exact Nat.succ_le_succ (ih _)

/-- Behind the lines that are lexed anew nothing changes. -/
theorem settle_getElem?_of_le {start : ModeStack} {lines : List Line} {index : Nat}
    (h : (settle start lines).2 ≤ index) : (settle start lines).1[index]? = lines[index]? := by
  induction lines generalizing start index with
  | nil => rfl
  | cons line more ih =>
    rw [settle] at h ⊢
    split at h
    · next hstart => rw [if_pos hstart]
    · next hstart =>
      rw [if_neg hstart]
      obtain ⟨index, rfl⟩ : ∃ before, index = before + 1 :=
        Nat.exists_eq_add_one_of_ne_zero (by rintro rfl; simp at h)
      simpa using ih (Nat.le_of_succ_le_succ h)

/-- A line is lexed anew if and only if it starts in another state than before. -/
theorem lt_settle_iff (start : ModeStack) (lines : List Line) (index : Nat) :
    index < (settle start lines).2 ↔
      (settle start lines).1[index]?.map Line.start ≠ lines[index]?.map Line.start := by
  induction lines generalizing start index with
  | nil => simp [settle]
  | cons line more ih =>
    rw [settle]
    split
    · simp
    · next hstart =>
      cases index with
      | zero =>
        have hne : start ≠ line.start := fun heq => hstart heq.symm
        simpa [Line.lex] using hne
      | succ index => simpa using ih _ index

end TomlEditor.Highlight

namespace TomlEditor

open Highlight Text

/-! ## Ranges of an edit -/

/-- The lines that a change puts in place, in the document after it: the lines of its text, or the
line that moves to the place of a removed one. -/
def Edit.dirty (changed : Document) : Edit → LineRange
  | .setText _ => ⟨0, changed.lineCount⟩
  | .replaceLine index text | .insertLine index text =>
    ⟨index, index + (splitLines text).length⟩
  | .removeLine index => ⟨min index (changed.lineCount - 1), min index (changed.lineCount - 1) + 1⟩

theorem Edit.dirty_start_le (change : Edit) (changed : Document) :
    (change.dirty changed).start ≤ (change.dirty changed).stop := by
  cases change with
  | setText text => exact Nat.zero_le _
  | replaceLine index text => exact Nat.le_add_right _ _
  | insertLine index text => exact Nat.le_add_right _ _
  | removeLine index => exact Nat.le_add_right _ _

namespace Document

/-- Where a line below the dirty ones was before the change: as far from the end as it is now. -/
def oldIndex (document changed : Document) (index : Nat) : Nat :=
  index + document.lineCount - changed.lineCount

/-- The range that was lexed anew for a change, given the dirty lines: no line outside of it has
changed, and no line below the dirty ones is in it without need. -/
structure Relexed (document changed : Document) (dirty range : LineRange) : Prop where
  start_eq : range.start = dirty.start
  dirty_le : dirty.stop ≤ range.stop
  stop_le : range.stop ≤ changed.lineCount
  /-- A line below the dirty ones was a line of the document before. -/
  survives : changed.lineCount ≤ dirty.stop + document.lineCount
  above : ∀ index < range.start, changed.line? index = document.line? index
  below : ∀ index, range.stop ≤ index →
    changed.line? index = document.line? (document.oldIndex changed index)
  /-- A line below the dirty ones is in the range if and only if its start has changed. -/
  tight : ∀ index, dirty.stop ≤ index →
    ((range.start ≤ index ∧ index < range.stop) ↔
      (changed.line? index).map Line.start ≠
        (document.line? (document.oldIndex changed index)).map Line.start)

theorem getElem?_behind {α : Type} {before middle after : List α} {index : Nat}
    (h : before.length + middle.length ≤ index) :
    (before ++ middle ++ after)[index]? = after[index - (before.length + middle.length)]? := by
  rw [List.getElem?_append_right (by rwa [List.length_append]), List.length_append]

theorem lineCount_splice (document : Document) (before : List Line) (texts : List String)
    (after : List Line) :
    (document.splice before texts after).2.lineCount =
      before.length + texts.length + after.length := by
  simp only [splice, lineCount, List.length_append, length_lexChain, length_settle]

/-- Below the dirty lines, the old document is read in what is left of it there. -/
theorem line?_oldIndex {document changed : Document} {before gone after : List Line}
    {dirty index : Nat} (hlines : document.lines = before ++ gone ++ after)
    (hcounts : changed.lineCount = before.length + dirty + after.length)
    (hindex : before.length + dirty ≤ index) :
    document.line? (document.oldIndex changed index) = after[index - (before.length + dirty)]? := by
  have hcount : document.lineCount = before.length + gone.length + after.length := by
    rw [lineCount, hlines, List.length_append, List.length_append]
  have hold : document.oldIndex changed index =
      before.length + gone.length + (index - (before.length + dirty)) := by
    rw [oldIndex, hcount, hcounts]
    omega
  rw [line?, hold, hlines, getElem?_behind (by omega)]
  congr 1
  omega

/-- A splice in the place of the middle of the lines lexes what it must and no more. -/
theorem relexed_splice {document : Document} {before gone after : List Line}
    (hlines : document.lines = before ++ gone ++ after) (texts : List String) :
    Relexed document (document.splice before texts after).2
      ⟨before.length, before.length + texts.length⟩ (document.splice before texts after).1 := by
  have hcounts := lineCount_splice document before texts after
  have hold := fun index => @line?_oldIndex _ _ _ _ _ _ index hlines hcounts
  generalize hfresh : lexChain (stateAfter .root before) texts = fresh
  generalize hsettled : settle (stateAfter (stateAfter .root before) fresh) after = settled
  have hlength : fresh.length = texts.length := by rw [← hfresh, length_lexChain]
  have hle : settled.2 ≤ after.length := by
    rw [← hsettled]
    exact settle_snd_le _ _
  have hsplice : document.splice before texts after =
      (⟨before.length, before.length + texts.length + settled.2⟩,
        ⟨before ++ fresh ++ settled.1, document.revision + 1⟩) := by
    simp only [splice, hfresh, hsettled, hlength]
  have hnew : ∀ index, before.length + texts.length ≤ index →
      (before ++ fresh ++ settled.1)[index]? =
        settled.1[index - (before.length + texts.length)]? := by
    intro index hindex
    rw [getElem?_behind (by omega), hlength]
  rw [hsplice] at hcounts hold ⊢
  dsimp only at hold
  refine ⟨rfl, Nat.le_add_right _ _, ?_, ?_, ?_, ?_, ?_⟩
  · rw [hcounts]
    exact Nat.add_le_add_left hle _
  · rw [hcounts, lineCount, hlines, List.length_append, List.length_append]
    dsimp only
    omega
  · intro index hindex
    dsimp only at hindex
    rw [line?, line?, hlines, List.append_assoc, List.append_assoc,
      List.getElem?_append_left hindex, List.getElem?_append_left hindex]
  · intro index hindex
    dsimp only at hindex
    rw [hold index (by omega), line?, hnew index (by omega), ← hsettled]
    apply settle_getElem?_of_le
    rw [hsettled]
    omega
  · intro index hindex
    dsimp only at hindex
    rw [hold index hindex, line?, hnew index hindex, ← hsettled, ← lt_settle_iff, hsettled]
    dsimp only
    omega

end Document

/-! ## Screens -/

/-- The rows of a screen with a row for each line, moved as a change moves the lines. What a new
row shows is left open. -/
def Edit.moveRows {α : Type} (blank : α) (rows : List α) : Edit → List α
  | .setText text => List.replicate (splitLines text).length blank
  | .replaceLine index text =>
    rows.take index ++ List.replicate (splitLines text).length blank ++ rows.drop (index + 1)
  | .insertLine index text =>
    rows.take index ++ List.replicate (splitLines text).length blank ++ rows.drop index
  | .removeLine index =>
    if (rows.eraseIdx index).isEmpty then [blank] else rows.eraseIdx index

/-- The rows with those in a range painted anew. -/
def LineRange.repaint {α : Type} (range : LineRange) (rows painted : List α) : List α :=
  rows.take range.start ++ (painted.take range.stop).drop range.start ++ rows.drop range.stop

/-- Painting a range is enough if all other rows show what they should. -/
theorem LineRange.repaint_eq {α : Type} {range : LineRange} {rows painted : List α}
    (hle : range.start ≤ range.stop)
    (habove : ∀ index < range.start, rows[index]? = painted[index]?)
    (hbelow : ∀ index, range.stop ≤ index → rows[index]? = painted[index]?) :
    range.repaint rows painted = painted := by
  have htake : rows.take range.start = painted.take range.start := by
    apply List.ext_getElem?
    intro index
    rw [List.getElem?_take, List.getElem?_take]
    split
    · next hindex => exact habove index hindex
    · rfl
  have hdrop : rows.drop range.stop = painted.drop range.stop := by
    apply List.ext_getElem?
    intro index
    rw [List.getElem?_drop, List.getElem?_drop]
    exact hbelow _ (Nat.le_add_right _ _)
  have hstart : painted.take range.start = (painted.take range.stop).take range.start := by
    rw [List.take_take, Nat.min_eq_left hle]
  calc range.repaint rows painted
      = painted.take range.start ++ (painted.take range.stop).drop range.start ++
          painted.drop range.stop := by rw [LineRange.repaint, htake, hdrop]
    _ = painted.take range.stop ++ painted.drop range.stop := by
        rw [hstart, List.take_append_drop]
    _ = painted := List.take_append_drop _ _

namespace Document

variable {document changed : Document} {change : Edit} {range : LineRange}

/-- What a change does to the lines and to the rows of a screen: it keeps what lies before and
after some lines and puts as many new ones between the two as there are dirty lines. -/
theorem edit_replaces (h : document.edit change = .ok (range, changed)) :
    ∃ before gone after texts, document.lines = before ++ gone ++ after ∧
      document.splice before texts after = (range, changed) ∧
      change.dirty changed = ⟨before.length, before.length + texts.length⟩ ∧
      ∀ {α : Type} (paint : Line → α) (blank : α), ∃ fresh : List α,
        fresh.length = texts.length ∧
          change.moveRows blank (document.lines.map paint) =
            before.map paint ++ fresh ++ after.map paint := by
  rcases edit_cases h with ⟨text, rfl, rfl, rfl⟩ | ⟨index, text, rfl, hindex, hsplice⟩ |
    ⟨index, text, rfl, hindex, hsplice⟩ | ⟨index, rfl, hindex, hsplice⟩
  · refine ⟨[], document.lines, [], splitLines text, by simp, ?_, ?_, ?_⟩
    · simp [splice, setText, ofText, settle, lineCount]
    · simp [Edit.dirty, setText, ofText, lineCount]
    · intro α paint blank
      exact ⟨List.replicate (splitLines text).length blank, List.length_replicate,
        by simp [Edit.moveRows]⟩
  · have hlength : index < document.lines.length := hindex
    have htake : (document.lines.take index).length = index :=
      List.length_take_of_le (Nat.le_of_lt hlength)
    refine ⟨_, [document.lines[index]], _, splitLines text, ?_, hsplice, ?_, ?_⟩
    · rw [List.append_assoc, List.singleton_append, List.getElem_cons_drop,
        List.take_append_drop]
    · rw [htake, Edit.dirty]
    · intro α paint blank
      exact ⟨List.replicate (splitLines text).length blank, List.length_replicate,
        by simp [Edit.moveRows]⟩
  · have htake : (document.lines.take index).length = index :=
      List.length_take_of_le hindex
    refine ⟨_, [], _, splitLines text, ?_, hsplice, ?_, ?_⟩
    · rw [List.append_nil, List.take_append_drop]
    · rw [htake, Edit.dirty]
    · intro α paint blank
      exact ⟨List.replicate (splitLines text).length blank, List.length_replicate,
        by simp [Edit.moveRows]⟩
  · rcases removal_cases hindex with ⟨before, gone, next, after, hlines, herase, hdirty⟩ |
      ⟨removed, hlines, rfl⟩
    · have hparts : document.splice before [next.text] after = (range, changed) := by
        dsimp only at hsplice
        rw [hdirty, herase] at hsplice
        simpa using hsplice
      have hcount : changed.lineCount = before.length + 1 + after.length := by
        have hcount := lineCount_splice document before [next.text] after
        rwa [hparts] at hcount
      have hleft : (document.lines.eraseIdx index).length = changed.lineCount := by
        rw [herase, hcount, List.length_append, List.length_append, List.length_singleton]
      refine ⟨before, gone, after, [next.text], hlines, hparts, ?_, ?_⟩
      · rw [Edit.dirty, ← hleft, hdirty, List.length_singleton]
      · intro α paint blank
        refine ⟨[paint next], rfl, ?_⟩
        rw [Edit.moveRows, List.eraseIdx_map, herase]
        simp
    · have hparts : document.splice [] [""] [] = (range, changed) := by
        simpa [hlines] using hsplice
      refine ⟨[], [removed], [], [""], hlines, hparts, ?_, ?_⟩
      · simp [Edit.dirty]
      · intro α paint blank
        exact ⟨[blank], rfl, by simp [Edit.moveRows, hlines]⟩

/-- A moved row shows the same line as before: with the same index above the dirty lines, and at
the same distance from the end below them. -/
theorem moveRows_getElem? (h : document.edit change = .ok (range, changed)) {α : Type}
    (paint : Line → α) (blank : α) {index : Nat} :
    (index < (change.dirty changed).start →
        (change.moveRows blank (document.lines.map paint))[index]? =
          (document.line? index).map paint) ∧
      ((change.dirty changed).stop ≤ index →
        (change.moveRows blank (document.lines.map paint))[index]? =
          (document.line? (document.oldIndex changed index)).map paint) := by
  obtain ⟨before, gone, after, texts, hlines, hsplice, hdirty, hrows⟩ := edit_replaces h
  obtain ⟨fresh, hfresh, hmoved⟩ := hrows paint blank
  have hcounts : changed.lineCount = before.length + texts.length + after.length := by
    have hcounts := lineCount_splice document before texts after
    rwa [hsplice] at hcounts
  rw [hdirty, hmoved]
  constructor
  · intro hindex
    rw [line?, hlines, List.append_assoc, List.append_assoc, ← List.getElem?_map,
      List.map_append, List.getElem?_append_left (by simpa using hindex),
      List.getElem?_append_left (by simpa using hindex)]
  · intro hindex
    rw [line?_oldIndex hlines hcounts hindex, getElem?_behind (by simpa [hfresh] using hindex),
      List.getElem?_map, List.length_map, hfresh]

/-- **The range of an edit is sound and tight.** Outside of the range that an edit answers with no
line has changed, and below the lines put in place it holds just the lines whose start has changed.
So a screen whose rows are moved like the lines shows all of them right once the range is painted
again. -/
theorem relexed_of_edit (h : document.edit change = .ok (range, changed)) :
    Relexed document changed (change.dirty changed) range ∧
      ∀ {α : Type} (paint : Line → α) (blank : α),
        range.repaint (change.moveRows blank (document.lines.map paint))
          (changed.lines.map paint) = changed.lines.map paint := by
  have hrelexed : Relexed document changed (change.dirty changed) range := by
    obtain ⟨before, gone, after, texts, hlines, hsplice, hdirty, -⟩ := edit_replaces h
    have hrelexed := relexed_splice hlines texts
    rwa [hsplice, ← hdirty] at hrelexed
  refine ⟨hrelexed, ?_⟩
  intro α paint blank
  apply LineRange.repaint_eq
  · rw [hrelexed.start_eq]
    exact Nat.le_trans (change.dirty_start_le changed) hrelexed.dirty_le
  · intro index hindex
    rw [(moveRows_getElem? h paint blank).1 (hrelexed.start_eq ▸ hindex),
      ← hrelexed.above index hindex, line?, List.getElem?_map]
  · intro index hindex
    rw [(moveRows_getElem? h paint blank).2 (Nat.le_trans hrelexed.dirty_le hindex),
      ← hrelexed.below index hindex, line?, List.getElem?_map]

/-- A quote opened in the first line reaches to the line that closes it, and no further. -/
theorem relexed_of_opened_quote :
    let document := ofText "a = 1\nb = 1 # don't\nd = 2"
    let changed : Document := { ofText "x = '\na = 1\nb = 1 # don't\nd = 2" with revision := 2 }
    let change := Edit.insertLine 0 "x = '"
    document.edit change = .ok (⟨0, 3⟩, changed) ∧
      Relexed document changed ⟨0, 1⟩ ⟨0, 3⟩ ∧
      LineRange.repaint ⟨0, 3⟩ (change.moveRows "" (document.lines.map Line.text))
        (changed.lines.map Line.text) = changed.lines.map Line.text := by
  intro document changed change
  have h : document.edit change = .ok (⟨0, 3⟩, changed) := by decide +kernel
  obtain ⟨hrelexed, hrows⟩ := relexed_of_edit h
  exact ⟨h, hrelexed, hrows Line.text ""⟩

end Document

end TomlEditor
