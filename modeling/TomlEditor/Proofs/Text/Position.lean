import Mathlib.Order.Bounds.Defs
import TomlEditor.Proofs.Text.Bytes
import TomlEditor.Proofs.Text.Lines
import TomlEditor.Text.Position

/-!
# Places and byte offsets

A byte offset, a place in lines and columns, and the beginning of a text up to
an offset are three views of one point. The place of an offset is found by
walking over the characters that end at or before it, so it is the place behind
a beginning of the text; that beginning takes as many bytes as the greatest
boundary between characters up to the offset; and the lines of the text show the
same number of bytes above and in front of the place. Offsets in order have
beginnings one of which goes on from the other, so their places are in order.
Counting in that beginning, which has to be cut out of the text by offsets, finds
the same place.
-/

namespace TomlEditor.Text

/-- The bytes of the lines above a line, with the line feeds that end them. -/
def bytesAbove (lines : List String) : Nat :=
  lines.foldr (fun line bytes => line.utf8ByteSize + 1 + bytes) 0

namespace Position

/-- A place in a text with the given lines stands at a byte offset. -/
structure StandsAt (place : Position) (lines : List String) (offset : Nat) : Prop where
  line_lt : place.line < lines.length
  column_le : place.column ≤ lines[place.line].length
  /-- The lines above and the characters in front of the place make up the offset. -/
  bytes : bytesAbove (lines.take place.line) +
    (String.ofList (lines[place.line].toList.take place.column)).utf8ByteSize = offset

/-- Places are in order of their lines, and within a line of their columns. -/
instance : LE Position where
  le first second :=
    first.line < second.line ∨ first.line = second.line ∧ first.column ≤ second.column

theorem le_iff {first second : Position} :
    first ≤ second ↔
      first.line < second.line ∨ first.line = second.line ∧ first.column ≤ second.column :=
  Iff.rfl

/-- The place behind a text that starts at the given place. -/
def after (place : Position) (text : List Char) : Position :=
  text.foldl next place

@[simp] theorem after_nil (place : Position) : place.after [] = place := rfl

@[simp] theorem after_cons (place : Position) (c : Char) (text : List Char) :
    place.after (c :: text) = (place.next c).after text := rfl

@[simp] theorem after_append (place : Position) (text rest : List Char) :
    place.after (text ++ rest) = (place.after text).after rest := by
  simp [after]

/-- More text moves a place on. -/
theorem le_after (place : Position) (text : List Char) : place ≤ place.after text := by
  induction text generalizing place with
  | nil => exact .inr ⟨rfl, Nat.le_refl _⟩
  | cons c text ih =>
    have hmore := le_iff.1 (ih (place.next c))
    rw [after_cons, le_iff]
    by_cases hc : c = '\n'
    · rw [next, if_pos hc] at hmore ⊢
      dsimp only at hmore
      omega
    · rw [next, if_neg hc] at hmore ⊢
      dsimp only at hmore
      omega

theorem after_line {line : List Char} (h : '\n' ∉ line) (place : Position) :
    place.after line = ⟨place.line, place.column + line.length⟩ := by
  induction line generalizing place with
  | nil => rfl
  | cons c line ih =>
    obtain ⟨hc, hline⟩ := not_or.1 (mt List.mem_cons.2 h)
    rw [after_cons, next, if_neg (Ne.symm hc), ih hline, List.length_cons]
    simp only [mk.injEq, true_and]
    omega

/-- Behind lines that are ended a place is at the start of a line. -/
theorem after_textAbove {lines : List String} (h : ∀ line ∈ lines, '\n' ∉ line.toList)
    (index : Nat) :
    after ⟨index, 0⟩ (textAbove lines).toList = ⟨index + lines.length, 0⟩ := by
  induction lines generalizing index with
  | nil => rfl
  | cons line more ih =>
    have hmore := ih (fun other hother => h other (List.mem_cons_of_mem _ hother)) (index + 1)
    simp only [textAbove_cons, String.toList_append, after_append,
      after_line (h line List.mem_cons_self)]
    simp only [next, after, String.reduceToList, List.foldl_cons, List.foldl_nil, if_pos]
    rw [← after, hmore, List.length_cons]
    simp only [mk.injEq, and_true]
    omega

/-- The place behind a text is on its last line, behind all of that line. -/
theorem after_text {text last : String} {above : List String}
    (h : splitLines text = above ++ [last]) :
    after ⟨0, 0⟩ text.toList = ⟨above.length, last.length⟩ := by
  have hfeed : ∀ line ∈ above ++ [last], '\n' ∉ line.toList := fun line hline =>
    feed_not_mem_of_mem_splitLines (h ▸ hline)
  rw [← joinLines_splitLines text, h, joinLines_concat, String.toList_append, after_append,
    after_textAbove fun line hline => hfeed line (List.mem_append_left _ hline),
    after_line (hfeed last (by simp)), String.length_toList]
  simp

end Position

theorem bytesAbove_eq (lines : List String) :
    bytesAbove lines = (textAbove lines).utf8ByteSize := by
  induction lines with
  | nil => rfl
  | cons line more ih =>
    rw [bytesAbove, List.foldr_cons, ← bytesAbove, ih, textAbove_cons, String.utf8ByteSize_append,
      String.utf8ByteSize_append]
    rfl

/-- The place behind the first part of a text stands, among the lines of the whole text, at the
byte offset that the part takes. -/
theorem standsAt_after (first second : String) :
    (Position.after ⟨0, 0⟩ first.toList).StandsAt (splitLines (first ++ second))
      first.utf8ByteSize := by
  obtain ⟨above, left, right, below, hfirst, -, hlines⟩ := splitLines_append first second
  have hjoin : first = textAbove above ++ left := by
    rw [← joinLines_splitLines first, hfirst, joinLines_concat]
  rw [Position.after_text hfirst, hlines]
  refine ⟨by simp, ?_, ?_⟩
  · simp
  · have htake : (left.toList ++ right.toList).take left.length = left.toList :=
      List.take_left' String.length_toList
    simp [htake, bytesAbove_eq, hjoin, String.utf8ByteSize_append]

/-! ## The place of an offset -/

/-- The first part of a text is what ends at or before a byte offset. -/
structure Reaches (first second : List Char) (offset : Nat) : Prop where
  size_le : (String.ofList first).utf8ByteSize ≤ offset
  /-- The next character ends behind the offset. -/
  next_lt : ∀ c rest, second = c :: rest →
    offset < (String.ofList first).utf8ByteSize + c.utf8Size

theorem advance_reaches (place : Position) (text : List Char) (offset : Nat) :
    ∃ first second, text = first ++ second ∧ Reaches first second offset ∧
      place.advance text offset = place.after first := by
  induction text generalizing place offset with
  | nil => exact ⟨[], [], rfl, ⟨Nat.zero_le _, by simp⟩, rfl⟩
  | cons c text ih =>
    rw [Position.advance]
    split
    · next hc =>
      obtain ⟨first, second, rfl, hreaches, hplace⟩ := ih (place.next c) (offset - c.utf8Size)
      have hsize : (String.ofList (c :: first)).utf8ByteSize =
          c.utf8Size + (String.ofList first).utf8ByteSize := by
        rw [String.ofList_cons, String.utf8ByteSize_append, String.utf8ByteSize_singleton]
      refine ⟨c :: first, second, rfl, ⟨?_, ?_⟩, hplace⟩
      · have hle := hreaches.size_le
        omega
      · intro d rest hsecond
        have hlt := hreaches.next_lt d rest hsecond
        omega
    · next hc =>
      refine ⟨[], c :: text, rfl, ⟨Nat.zero_le _, ?_⟩, rfl⟩
      intro d rest hsecond
      obtain ⟨rfl, -⟩ := List.cons.inj hsecond
      simpa using hc

/-- A beginning of the text that takes no more bytes than the offset is in the part that reaches
it. -/
theorem Reaches.isPrefix {first second part rest : List Char} {offset : Nat}
    (h : Reaches first second offset) (htext : part ++ rest = first ++ second)
    (hle : (String.ofList part).utf8ByteSize ≤ offset) : part <+: first := by
  rcases List.append_eq_append_iff.1 htext with ⟨middle, rfl, -⟩ | ⟨middle, rfl, hsecond⟩
  · exact List.prefix_append part middle
  · cases middle with
    | nil => simp
    | cons c middle =>
      -- The beginning would hold the next character, which ends behind the offset.
      have hlt := h.next_lt c (middle ++ rest) hsecond
      rw [String.ofList_append, String.utf8ByteSize_append, String.ofList_cons,
        String.utf8ByteSize_append, String.utf8ByteSize_singleton] at hle
      omega

/-- The part that reaches an offset ends at the greatest boundary up to the offset. -/
theorem Reaches.isGreatest {first second : List Char} {offset : Nat}
    (h : Reaches first second offset) :
    IsGreatest {boundary | boundary ≤ min offset (String.ofList (first ++ second)).utf8ByteSize ∧
      IsBoundary (String.ofList (first ++ second)) boundary}
      (String.ofList first).utf8ByteSize := by
  constructor
  · refine ⟨Nat.le_min.2 ⟨h.size_le, ?_⟩, ?_⟩
    · rw [String.ofList_append, String.utf8ByteSize_append]
      exact Nat.le_add_right _ _
    · exact String.Pos.Raw.isValid_iff_exists_append.2 ⟨_, _, String.ofList_append, rfl⟩
  · rintro boundary ⟨hle, hvalid⟩
    obtain ⟨part, rest, htext, hboundary⟩ := String.Pos.Raw.isValid_iff_exists_append.1 hvalid
    obtain rfl : boundary = part.utf8ByteSize := congrArg String.Pos.Raw.byteIdx hboundary
    have hparts : part.toList ++ rest.toList = first ++ second := by
      rw [← String.toList_append, ← htext, String.toList_ofList]
    have hoffset : (String.ofList part.toList).utf8ByteSize ≤ offset := by
      rw [String.ofList_toList]
      exact Nat.le_trans hle (Nat.min_le_left _ _)
    obtain ⟨middle, hfirst⟩ := h.isPrefix hparts hoffset
    rw [← hfirst, String.ofList_append, String.ofList_toList, String.utf8ByteSize_append]
    exact Nat.le_add_right _ _

/-- The place of an offset stands at the greatest boundary up to the offset. -/
theorem standsAt_positionAt (text : String) (offset : Nat) :
    ∃ boundary, IsGreatest {boundary | boundary ≤ min offset text.utf8ByteSize ∧
        IsBoundary text boundary} boundary ∧
      (positionAt text offset).StandsAt (splitLines text) boundary := by
  obtain ⟨first, second, htext, hreaches, hplace⟩ := advance_reaches ⟨0, 0⟩ text.toList offset
  have hwhole : text = String.ofList (first ++ second) := by
    rw [← htext, String.ofList_toList]
  refine ⟨(String.ofList first).utf8ByteSize, ?_, ?_⟩
  · rw [hwhole]
    exact hreaches.isGreatest
  · have hstands := standsAt_after (String.ofList first) (String.ofList second)
    rw [String.toList_ofList, ← String.ofList_append, ← hwhole] at hstands
    rw [positionAt, hplace]
    exact hstands

theorem positionAt_mono (text : String) {offset limit : Nat} (h : offset ≤ limit) :
    positionAt text offset ≤ positionAt text limit := by
  obtain ⟨part, rest, hpart, hreaches, hplace⟩ := advance_reaches ⟨0, 0⟩ text.toList offset
  obtain ⟨first, second, htext, hlimit, hlater⟩ := advance_reaches ⟨0, 0⟩ text.toList limit
  obtain ⟨middle, rfl⟩ :=
    hlimit.isPrefix (hpart.symm.trans htext) (Nat.le_trans hreaches.size_le h)
  rw [positionAt, positionAt, hplace, hlater, Position.after_append]
  exact Position.le_after _ _

/-- A place stands at no more than one offset. -/
theorem Position.StandsAt.unique {place : Position} {lines : List String} {offset other : Nat}
    (h : place.StandsAt lines offset) (hother : place.StandsAt lines other) : offset = other :=
  h.bytes.symm.trans hother.bytes

/-- Boundaries are told apart by their places. -/
theorem positionAt_injOn {text : String} {offset other : Nat} (h : IsBoundary text offset)
    (hother : IsBoundary text other) (hplace : positionAt text offset = positionAt text other) :
    offset = other := by
  have hself : ∀ {boundary}, IsBoundary text boundary →
      (positionAt text boundary).StandsAt (splitLines text) boundary := by
    intro boundary hboundary
    obtain ⟨greatest, hgreatest, hstands⟩ := standsAt_positionAt text boundary
    have hle : boundary ≤ min boundary text.utf8ByteSize :=
      Nat.le_min.2 ⟨Nat.le_refl _, String.Pos.Raw.IsValid.le_utf8ByteSize hboundary⟩
    have hsame : greatest = boundary :=
      Nat.le_antisymm (Nat.le_trans hgreatest.1.1 (Nat.min_le_left _ _))
        (hgreatest.2 ⟨hle, hboundary⟩)
    exact hsame ▸ hstands
  exact (hself h).unique (hplace ▸ hself hother)

/-! ## The place by counting -/

/-- Going back from an offset ends at the greatest boundary up to it. -/
theorem backOff?_eq {text : String} {offset boundary : Nat}
    (h : IsGreatest {boundary | boundary ≤ offset ∧ IsBoundary text boundary} boundary) :
    backOff? text offset = some boundary := by
  induction offset with
  | zero =>
    obtain rfl := Nat.le_zero.1 h.1.1
    exact if_pos h.1.2
  | succ offset ih =>
    by_cases hhere : IsBoundary text (offset + 1)
    · obtain rfl := Nat.le_antisymm h.1.1 (h.2 ⟨Nat.le_refl _, hhere⟩)
      exact if_pos hhere
    · have hne : boundary ≠ offset + 1 := fun heq => hhere (heq ▸ h.1.2)
      have hle : boundary ≤ offset := Nat.le_of_lt_succ (Nat.lt_of_le_of_ne h.1.1 hne)
      rw [backOff?, if_neg hhere]
      exact ih ⟨⟨hle, h.1.2⟩, fun other hother => h.2 ⟨Nat.le_succ_of_le hother.1, hother.2⟩⟩

theorem findIdx?_feed {text : List Char} (h : '\n' ∉ text) :
    (bytes (String.ofList text)).reverse.findIdx? (onByte (· == '\n')) = none := by
  have hfeed : ∀ c : Char, 128 ≤ c.toNat → (c == '\n') = false := by
    intro c hc
    refine beq_eq_false_iff_ne.2 ?_
    rintro rfl
    exact absurd hc (by decide)
  refine List.findIdx?_eq_none_iff.2 fun b hb => ?_
  rw [List.mem_reverse, bytes_ofList] at hb
  obtain ⟨c, hc, hmem⟩ := List.mem_flatMap.1 hb
  refine (class_ofUInt8_of_mem hfeed hmem).trans (beq_eq_false_iff_ne.2 ?_)
  rintro rfl
  exact h hc

/-- The last line starts behind the last line feed, if there is one. -/
theorem lineStart_eq (above : List String) {last : String} (h : '\n' ∉ last.toList) :
    (lastFeed? (textAbove above ++ last)).elim 0 (· + 1) = (textAbove above).utf8ByteSize := by
  have hlast := findIdx?_feed h
  rw [String.ofList_toList] at hlast
  rcases above.eq_nil_or_concat with rfl | ⟨front, line, rfl⟩
  · rw [textAbove_nil, String.empty_append, lastFeed?, hlast]
    rfl
  · -- The last line feed is the one that ends the lines above.
    have hfeed : bytes "\n" = [10] := by decide +kernel
    have habove : textAbove (front.concat line) = textAbove front ++ line ++ "\n" := by
      simp [textAbove, String.append_assoc]
    have hfound : (bytes (textAbove front ++ line ++ "\n" ++ last)).reverse.findIdx?
        (onByte (· == '\n')) = some last.utf8ByteSize := by
      rw [bytes_append, bytes_append, hfeed, List.reverse_append, List.findIdx?_append, hlast,
        List.length_reverse, length_bytes, List.reverse_append]
      simp [List.findIdx?_cons, show onByte (· == '\n') 10 = true by decide]
    rw [habove, lastFeed?, hfound]
    simp only [Option.map_some, Option.elim_some, String.utf8ByteSize_append]
    have hone : "\n".utf8ByteSize = 1 := rfl
    omega

/-- **Counting gives the place.** The part of the text before an offset can be cut out, and so can
its last line; the line feeds and the characters there are the line and the column. -/
theorem countedPosition?_eq (text : String) (offset : Nat) :
    countedPosition? text offset = some (positionAt text offset) := by
  obtain ⟨first, second, htext, hreaches, hplace⟩ := advance_reaches ⟨0, 0⟩ text.toList offset
  obtain rfl : text = String.ofList (first ++ second) := by
    rw [← htext, String.ofList_toList]
  have hback := backOff?_eq hreaches.isGreatest
  have hcut : cut? (String.ofList (first ++ second)) 0 (String.ofList first).utf8ByteSize =
      some (String.ofList first) := by
    have hfront := cut?_append [] first second
    rwa [List.nil_append, String.ofList_nil, String.utf8ByteSize_empty, Nat.zero_add] at hfront
  obtain ⟨above, last, hlines⟩ : ∃ above last, splitLines (String.ofList first) = above ++ [last] :=
    ⟨_, _, (List.dropLast_concat_getLast (splitLines_ne_nil _)).symm⟩
  have hfeed : ∀ line ∈ above ++ [last], '\n' ∉ line.toList := fun line hline =>
    feed_not_mem_of_mem_splitLines (hlines ▸ hline)
  have hfirst : String.ofList first = textAbove above ++ last := by
    rw [← joinLines_splitLines (String.ofList first), hlines, joinLines_concat]
  have hlast : cut? (textAbove above ++ last) (textAbove above).utf8ByteSize
      (textAbove above ++ last).utf8ByteSize = some last := by
    have hbehind := cut?_append (textAbove above).toList last.toList []
    simpa only [List.append_nil, String.ofList_append, String.ofList_toList,
      String.utf8ByteSize_append] using hbehind
  have hcount : first.count '\n' = above.length := by
    have hlength := length_splitLines (String.ofList first)
    rw [hlines, List.length_append, String.toList_ofList] at hlength
    exact (Nat.succ.inj hlength).symm
  have hat : positionAt (String.ofList (first ++ second)) offset = ⟨above.length, last.length⟩ := by
    rw [positionAt, hplace, ← Position.after_text hlines, String.toList_ofList]
  have hstart := lineStart_eq above (hfeed last (by simp))
  simp only [hat, countedPosition?, hback, Option.bind_eq_bind, Option.bind_some, hcut,
    String.toList_ofList, hcount]
  rw [hfirst, hstart, hlast]
  rfl

end TomlEditor.Text
