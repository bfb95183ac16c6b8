import TomlEditor.Lex.Rule

/-!
# How far a match reaches

No match takes more characters than are ahead. The bounds follow the lengths
from the smallest run of digits up to the rules; `scan_length_le` is what the
rest of the theory uses. No length that is found is zero either: there is one
lemma for each rule, beside the bound of its length.
-/

namespace TomlEditor.Lex

open Text

theorem length_takeWhile_le (p : Char → Bool) (text : List Char) :
    (text.takeWhile p).length ≤ text.length :=
  (List.takeWhile_prefix p).length_le

theorem take_length_takeWhile (p : Char → Bool) (text : List Char) :
    text.take (text.takeWhile p).length = text.takeWhile p :=
  (List.prefix_iff_eq_take.1 (List.takeWhile_prefix p)).symm

theorem drop_length_takeWhile (p : Char → Bool) (text : List Char) :
    text.drop (text.takeWhile p).length = text.dropWhile p := by
  induction text with
  | nil => rfl
  | cons c rest ih =>
    by_cases hc : p c = true
    · simp [hc, ih]
    · simp [hc]

/-- A run and the character after it lie in the text. -/
theorem length_takeWhile_lt {p : Char → Bool} {text rest : List Char} {c : Char}
    (h : text.dropWhile p = c :: rest) :
    (text.takeWhile p).length + (rest.length + 1) = text.length := by
  have hsplit := congrArg List.length (List.takeWhile_append_dropWhile (p := p) (l := text))
  rw [h, List.length_append, List.length_cons] at hsplit
  exact hsplit

theorem head?_dropWhile_any (p : Char → Bool) (text : List Char) :
    (text.dropWhile p).head?.any p = false := by
  have hhead := List.head?_dropWhile_not p text
  cases hdrop : (text.dropWhile p).head? with
  | none => rfl
  | some c =>
    rw [hdrop] at hhead
    simpa using hhead

section

variable {p : Char → Bool} {front rest : List Char}

theorem takeWhile_run (h : ∀ c ∈ front, p c = true) (hrest : rest.head?.any p = false) :
    (front ++ rest).takeWhile p = front := by
  rw [List.takeWhile_append_of_pos h]
  cases rest with
  | nil => simp
  | cons c rest =>
    have hc : p c = false := hrest
    simp [hc]

theorem dropWhile_run (h : ∀ c ∈ front, p c = true) (hrest : rest.head?.any p = false) :
    (front ++ rest).dropWhile p = rest := by
  rw [List.dropWhile_append_of_pos h]
  cases rest with
  | nil => rfl
  | cons c rest =>
    have hc : p c = false := hrest
    simp [hc]

/-- A text whose run is followed by some characters, taken apart. -/
theorem exists_run {text : List Char} (h : text.dropWhile p = rest) :
    ∃ run, text = run ++ rest ∧ (∀ c ∈ run, p c = true) ∧ text.takeWhile p = run :=
  ⟨text.takeWhile p, by rw [← h, List.takeWhile_append_dropWhile],
    List.all_eq_true.1 List.all_takeWhile, rfl⟩

end

/-- A word lies behind a position if the last character before it is one of a word. -/
theorem afterWord_after (text : List Char) :
    (Behind.start.after text).afterWord = text.getLast?.any isWord := by
  rcases text.eq_nil_or_concat with rfl | ⟨front, c, rfl⟩
  · rfl
  · rw [List.concat_eq_append, Behind.after_append, List.getLast?_concat]
    rfl

/-! ## Comments, headers and keys -/

theorem commentLength?_le {ahead : List Char} {n : Nat} (h : commentLength? ahead = some n) :
    n ≤ ahead.length := by
  unfold commentLength? at h
  split at h
  · next rest =>
    have hrun := length_takeWhile_le (fun c => !isLineEnd c) rest
    simp only [Option.some.injEq] at h
    simp only [List.length_cons]
    omega
  · simp at h

theorem commentLength?_pos {ahead : List Char} {n : Nat} (h : commentLength? ahead = some n) :
    0 < n := by
  unfold commentLength? at h
  split at h
  · exact Option.some.inj h ▸ Nat.succ_pos _
  · simp at h

theorem tableHeaderLength?_le {ahead : List Char} {n : Nat}
    (h : tableHeaderLength? ahead = some n) : n ≤ ahead.length := by
  unfold tableHeaderLength? at h
  split at h
  · split at h
    · next hclose =>
      have hrun := length_takeWhile_lt hclose
      simp only [Option.some.injEq] at h
      simp only [List.length_cons]
      omega
    · simp at h
  · simp at h

theorem tableHeaderLength?_pos {ahead : List Char} {n : Nat}
    (h : tableHeaderLength? ahead = some n) : 0 < n := by
  unfold tableHeaderLength? at h
  split at h
  · split at h
    · exact Option.some.inj h ▸ Nat.succ_pos _
    · simp at h
  · simp at h

theorem arrayTableHeaderLength?_le {ahead : List Char} {n : Nat}
    (h : arrayTableHeaderLength? ahead = some n) : n ≤ ahead.length := by
  unfold arrayTableHeaderLength? at h
  split at h
  · split at h
    · next hclose =>
      have hrun := length_takeWhile_lt hclose
      simp only [Option.some.injEq] at h
      simp only [List.length_cons] at hrun ⊢
      omega
    · simp at h
  · simp at h

theorem arrayTableHeaderLength?_pos {ahead : List Char} {n : Nat}
    (h : arrayTableHeaderLength? ahead = some n) : 0 < n := by
  unfold arrayTableHeaderLength? at h
  split at h
  · split at h
    · exact Option.some.inj h ▸ Nat.succ_pos _
    · simp at h
  · simp at h

theorem keyNameLength_le (ahead : List Char) : keyNameLength ahead ≤ ahead.length := by
  cases ahead with
  | nil => simp [keyNameLength]
  | cons c rest =>
    rw [keyNameLength]
    split
    · next quote _ =>
      split
      · next hclose =>
        obtain ⟨more, hmore⟩ := List.head?_eq_some_iff.1 hclose
        have hrun := length_takeWhile_lt hmore
        simp only [List.length_cons]
        omega
      · simp
    · exact length_takeWhile_le isBareKey (c :: rest)

theorem keyGapLength?_eq_some {ahead : List Char} {n : Nat} (h : keyGapLength? ahead = some n) :
    (ahead.dropWhile isSpace).head? = some '=' ∧ n = (ahead.takeWhile isSpace).length := by
  unfold keyGapLength? at h
  split at h
  · next hsign => exact ⟨hsign, (Option.some.inj h).symm⟩
  · simp at h

theorem keyGapLength?_lt {ahead : List Char} {n : Nat} (h : keyGapLength? ahead = some n) :
    n < ahead.length := by
  obtain ⟨hsign, rfl⟩ := keyGapLength?_eq_some h
  obtain ⟨more, hmore⟩ := List.head?_eq_some_iff.1 hsign
  have hrun := length_takeWhile_lt hmore
  omega

/-! ## Dates and times -/

theorem length_le_of_fits {slots : List Slot} {ahead : List Char} (h : fits slots ahead = true) :
    slots.length ≤ ahead.length := by
  induction slots generalizing ahead with
  | nil => simp
  | cons slot slots ih =>
    cases ahead with
    | nil => simp [fits] at h
    | cons c rest =>
      simp only [fits, Bool.and_eq_true] at h
      have hrest := ih h.2
      simp only [List.length_cons]
      omega

theorem slotsLength?_le {slots : List Slot} {ahead : List Char} {n : Nat}
    (h : slotsLength? slots ahead = some n) : n ≤ ahead.length := by
  unfold slotsLength? at h
  split at h
  · next hfits =>
    have hlength := length_le_of_fits hfits
    simp only [Option.some.injEq] at h
    omega
  · simp at h

theorem slotsLength?_pos {slots : List Slot} (hslots : slots ≠ []) {ahead : List Char} {n : Nat}
    (h : slotsLength? slots ahead = some n) : 0 < n := by
  unfold slotsLength? at h
  split at h
  · exact Option.some.inj h ▸ List.length_pos_iff.2 hslots
  · simp at h

theorem secondFractionLength_le (ahead : List Char) :
    secondFractionLength ahead ≤ ahead.length := by
  unfold secondFractionLength
  split
  · next rest =>
    have hrun := length_takeWhile_le Char.isDigit rest
    simp only [List.length_cons]
    split
    · omega
    · omega
  · omega

theorem offsetLength?_le {ahead : List Char} {n : Nat} (h : offsetLength? ahead = some n) :
    n ≤ ahead.length := by
  unfold offsetLength? at h
  split at h
  · simp only [Option.some.injEq] at h
    simp only [List.length_cons]
    omega
  · exact slotsLength?_le h

/-! ## Numbers -/

theorem digitRun_le (ahead : List Char) : digitRun ahead ≤ ahead.length := by
  fun_induction digitRun ahead with
  | case1 d rest hd ih => simp only [List.length_cons]; omega
  | case2 => omega
  | case3 d rest _ hd ih => simp only [List.length_cons]; omega
  | case4 => omega
  | case5 => omega

theorem signLength_le (ahead : List Char) : signLength ahead ≤ ahead.length := by
  unfold signLength
  split <;> simp

theorem magnitudeLength?_le {ahead : List Char} {n : Nat} (h : magnitudeLength? ahead = some n) :
    n ≤ ahead.length := by
  unfold magnitudeLength? at h
  split at h
  · simp at h
  · next d rest =>
    have hrun := digitRun_le rest
    simp only [List.length_cons]
    split at h
    · simp only [Option.some.injEq] at h
      omega
    · split at h
      · simp only [Option.some.injEq] at h
        omega
      · simp at h

theorem magnitudeLength?_pos {ahead : List Char} {n : Nat}
    (h : magnitudeLength? ahead = some n) : 0 < n := by
  unfold magnitudeLength? at h
  split at h
  · simp at h
  · split at h
    · exact Option.some.inj h ▸ Nat.one_pos
    · split at h
      · exact Option.some.inj h ▸ Nat.succ_pos _
      · simp at h

theorem integerLength?_le {ahead : List Char} {n : Nat} (h : integerLength? ahead = some n) :
    n ≤ ahead.length := by
  obtain ⟨magnitude, hmagnitude, rfl⟩ := Option.map_eq_some_iff.1 h
  have hle := magnitudeLength?_le hmagnitude
  have hsign := signLength_le ahead
  rw [List.length_drop] at hle
  omega

theorem integerLength?_pos {ahead : List Char} {n : Nat} (h : integerLength? ahead = some n) :
    0 < n := by
  obtain ⟨magnitude, hmagnitude, rfl⟩ := Option.map_eq_some_iff.1 h
  have hpos := magnitudeLength?_pos hmagnitude
  omega

theorem fractionLength_le (ahead : List Char) : fractionLength ahead ≤ ahead.length := by
  unfold fractionLength
  split
  · next d rest =>
    have hrun := digitRun_le rest
    simp only [List.length_cons]
    split <;> omega
  · omega

theorem digitsLength_le (ahead : List Char) : digitsLength ahead ≤ ahead.length := by
  unfold digitsLength
  split
  · next d rest =>
    have hrun := digitRun_le rest
    simp only [List.length_cons]
    split <;> omega
  · omega

theorem exponentLength_le (ahead : List Char) : exponentLength ahead ≤ ahead.length := by
  unfold exponentLength
  split
  · omega
  · next c rest =>
    have hsign := signLength_le rest
    have hrun := digitsLength_le (rest.drop (signLength rest))
    rw [List.length_drop] at hrun
    simp only [List.length_cons]
    split
    · split
      · omega
      · omega
    · omega

theorem floatLength?_le {ahead : List Char} {n : Nat} (h : floatLength? ahead = some n) :
    n ≤ ahead.length := by
  obtain ⟨whole, hwhole, hparts⟩ := Option.bind_eq_some_iff.1 h
  have hle := integerLength?_le hwhole
  have hfraction := fractionLength_le (ahead.drop whole)
  have hexponent := exponentLength_le
    (ahead.drop (whole + fractionLength (ahead.drop whole)))
  rw [List.length_drop] at hfraction hexponent
  dsimp only at hparts
  split at hparts
  · simp at hparts
  · simp only [Option.some.injEq] at hparts
    omega

theorem floatLength?_pos {ahead : List Char} {n : Nat} (h : floatLength? ahead = some n) :
    0 < n := by
  obtain ⟨whole, hwhole, hparts⟩ := Option.bind_eq_some_iff.1 h
  have hpos := integerLength?_pos hwhole
  dsimp only at hparts
  split at hparts
  · simp at hparts
  · simp only [Option.some.injEq] at hparts
    omega

theorem booleanLength?_le {ahead : List Char} {n : Nat} (h : booleanLength? ahead = some n) :
    n ≤ ahead.length := by
  unfold booleanLength? at h
  split at h
  · simp only [Option.some.injEq] at h
    simp only [List.length_cons]
    omega
  · simp only [Option.some.injEq] at h
    simp only [List.length_cons]
    omega
  · simp at h

theorem booleanLength?_pos {ahead : List Char} {n : Nat} (h : booleanLength? ahead = some n) :
    0 < n := by
  unfold booleanLength? at h
  split at h
  · exact Option.some.inj h ▸ Nat.succ_pos 3
  · exact Option.some.inj h ▸ Nat.succ_pos 4
  · simp at h

/-! ## Values between other text -/

theorem bounded_eq_some {behind : Behind} {ahead : List Char} {length n : Nat}
    (h : bounded behind ahead length = some n) : n = length := by
  unfold bounded at h
  split at h
  · simp at h
  · simpa using h.symm

theorem dateTime_reach {ahead : List Char} {time : Nat} (h : dateTimeLength? ahead = some time) :
    time + secondFractionLength (ahead.drop time) ≤ ahead.length := by
  have htime := slotsLength?_le h
  have hfraction := secondFractionLength_le (ahead.drop time)
  rw [List.length_drop] at hfraction
  omega

theorem scanDateTimeTz_le {behind : Behind} {ahead : List Char} {n : Nat}
    (h : scanDateTimeTz behind ahead = some n) : n ≤ ahead.length := by
  obtain ⟨time, htime, hoffset⟩ := Option.bind_eq_some_iff.1 h
  obtain ⟨offset, hoffset, hbounded⟩ := Option.bind_eq_some_iff.1 hoffset
  have hhead := dateTime_reach htime
  have hle := offsetLength?_le hoffset
  rw [List.length_drop] at hle
  have hn := bounded_eq_some hbounded
  omega

theorem scanDateTimeTz_pos {behind : Behind} {ahead : List Char} {n : Nat}
    (h : scanDateTimeTz behind ahead = some n) : 0 < n := by
  obtain ⟨time, htime, hoffset⟩ := Option.bind_eq_some_iff.1 h
  obtain ⟨offset, -, hbounded⟩ := Option.bind_eq_some_iff.1 hoffset
  have hpos := slotsLength?_pos (by decide) htime
  have hn := bounded_eq_some hbounded
  omega

theorem scanDateTime_le {behind : Behind} {ahead : List Char} {n : Nat}
    (h : scanDateTime behind ahead = some n) : n ≤ ahead.length := by
  obtain ⟨time, htime, heither⟩ := Option.bind_eq_some_iff.1 h
  have hhead := dateTime_reach htime
  rcases Option.or_eq_some_iff.1 heither with hlong | ⟨-, hshort⟩
  · have hn := bounded_eq_some hlong
    omega
  · have hn := bounded_eq_some hshort
    omega

theorem scanDateTime_pos {behind : Behind} {ahead : List Char} {n : Nat}
    (h : scanDateTime behind ahead = some n) : 0 < n := by
  obtain ⟨time, htime, heither⟩ := Option.bind_eq_some_iff.1 h
  have hpos := slotsLength?_pos (by decide) htime
  rcases Option.or_eq_some_iff.1 heither with hlong | ⟨-, hshort⟩
  · have hn := bounded_eq_some hlong
    omega
  · have hn := bounded_eq_some hshort
    omega

/-- A value whose length function stays in the text does so between other text as well. -/
theorem bind_bounded_le {length? : List Char → Option Nat}
    (hle : ∀ {ahead n}, length? ahead = some n → n ≤ ahead.length)
    {behind : Behind} {ahead : List Char} {n : Nat}
    (h : (length? ahead).bind (bounded behind ahead) = some n) : n ≤ ahead.length := by
  obtain ⟨length, hlength, hbounded⟩ := Option.bind_eq_some_iff.1 h
  rw [bounded_eq_some hbounded]
  exact hle hlength

theorem bind_bounded_pos {length? : List Char → Option Nat}
    (hpos : ∀ {ahead n}, length? ahead = some n → 0 < n)
    {behind : Behind} {ahead : List Char} {n : Nat}
    (h : (length? ahead).bind (bounded behind ahead) = some n) : 0 < n := by
  obtain ⟨length, hlength, hbounded⟩ := Option.bind_eq_some_iff.1 h
  rw [bounded_eq_some hbounded]
  exact hpos hlength

/-! ## Inside strings -/

theorem hexRun_le (limit : Nat) (ahead : List Char) : hexRun limit ahead ≤ ahead.length := by
  have hrun := length_takeWhile_le isHexDigit (ahead.take limit)
  rw [List.length_take] at hrun
  exact Nat.le_trans hrun (Nat.min_le_right _ _)

theorem escapeLength?_le {ahead : List Char} {n : Nat} (h : escapeLength? ahead = some n) :
    n ≤ ahead.length := by
  unfold escapeLength? at h
  split at h
  · next c rest =>
    have hfour := hexRun_le 4 rest
    have height := hexRun_le 8 rest
    simp only [List.length_cons]
    grind
  · simp at h

theorem escapeLength?_pos {ahead : List Char} {n : Nat} (h : escapeLength? ahead = some n) :
    0 < n := by
  unfold escapeLength? at h
  split at h
  · grind
  · simp at h

theorem invalidEscapeLength?_le {ahead : List Char} {n : Nat}
    (h : invalidEscapeLength? ahead = some n) : n ≤ ahead.length := by
  unfold invalidEscapeLength? at h
  split at h
  · next rest =>
    cases rest with
    | nil => simp at h; simp [← h]
    | cons c rest =>
      simp only [List.length_cons]
      split at h <;> simp only [Option.some.injEq] at h <;> omega
  · simp at h

theorem invalidEscapeLength?_pos {ahead : List Char} {n : Nat}
    (h : invalidEscapeLength? ahead = some n) : 0 < n := by
  unfold invalidEscapeLength? at h
  split at h
  · split at h
    · exact Option.some.inj h ▸ Nat.succ_pos 1
    · exact Option.some.inj h ▸ Nat.one_pos
  · simp at h

/-! ## Pieces and matches -/

theorem Piece.ofLength?_eq_some {kind : Token.Kind} {n : Nat} {piece : Piece}
    (h : Piece.ofLength? kind n = some piece) : ∃ hn : 0 < n, piece = ⟨kind, n, hn⟩ := by
  unfold Piece.ofLength? at h
  split at h
  · next hn => exact ⟨hn, (Option.some.inj h).symm⟩
  · simp at h

/-- The number of characters that some pieces cover. -/
def covered (pieces : List Piece) : Nat :=
  pieces.foldr (fun piece length => piece.length + length) 0

@[simp] theorem covered_nil : covered [] = 0 := rfl

@[simp] theorem covered_cons (piece : Piece) (more : List Piece) :
    covered (piece :: more) = piece.length + covered more := rfl

@[simp] theorem covered_append (first second : List Piece) :
    covered (first ++ second) = covered first + covered second := by
  induction first with
  | nil => simp
  | cons piece more ih => simp [ih, Nat.add_assoc]

theorem covered_pieces (found : Match) : covered found.pieces = found.length := rfl

/-- As a list of pieces, a length covers itself, zero or not. -/
theorem covered_ofLength? (kind : Token.Kind) (n : Nat) :
    covered (Piece.ofLength? kind n).toList = n := by
  unfold Piece.ofLength?
  split
  · simp
  · simp only [Option.toList_none, covered_nil]
    omega

theorem Match.single?_eq_some {kind : Token.Kind} {n : Nat} {shift : Shift} {found : Match}
    (h : Match.single? kind n shift = some found) :
    ∃ hn : 0 < n, found = ⟨⟨kind, n, hn⟩, [], shift⟩ := by
  obtain ⟨piece, hpiece, rfl⟩ := Option.map_eq_some_iff.1 h
  obtain ⟨hn, rfl⟩ := Piece.ofLength?_eq_some hpiece
  exact ⟨hn, rfl⟩

theorem Match.single?_length {kind : Token.Kind} {n : Nat} {shift : Shift} {found : Match}
    (h : Match.single? kind n shift = some found) : found.length = n := by
  obtain ⟨hn, rfl⟩ := Match.single?_eq_some h
  simp [Match.length, Match.pieces]

/-! ## Rules -/

/-- A match of one piece reaches no further than its length function says. -/
theorem bind_single?_le {length? : Option Nat} {kind : Token.Kind} {shift : Shift} {limit : Nat}
    (hle : ∀ {n}, length? = some n → n ≤ limit) {found : Match}
    (h : (length?.bind fun n => Match.single? kind n shift) = some found) :
    found.length ≤ limit := by
  obtain ⟨n, hn, hfound⟩ := Option.bind_eq_some_iff.1 h
  rw [Match.single?_length hfound]
  exact hle hn

theorem Rule.header_le {name : String} {kind : Token.Kind} {length? : List Char → Option Nat}
    (hle : ∀ {ahead n}, length? ahead = some n → n ≤ ahead.length)
    {behind : Behind} {ahead : List Char} {found : Match}
    (h : (Rule.header name kind length?).scan behind ahead = some found) :
    found.length ≤ ahead.length := by
  simp only [Rule.header] at h
  split at h
  · exact bind_single?_le hle h
  · simp at h

theorem Rule.key_le {behind : Behind} {ahead : List Char} {found : Match}
    (h : Rule.key.scan behind ahead = some found) : found.length ≤ ahead.length := by
  simp only [Rule.key] at h
  split at h
  · -- The gap is shorter than what follows the name, so the equals sign is in the text as well.
    obtain ⟨piece, hpiece, hafter⟩ := Option.bind_eq_some_iff.1 h
    obtain ⟨gap, hgap, rfl⟩ := Option.map_eq_some_iff.1 hafter
    obtain ⟨hpos, rfl⟩ := Piece.ofLength?_eq_some hpiece
    have hle := keyNameLength_le ahead
    have hlt := keyGapLength?_lt hgap
    simp only [List.length_drop] at hlt
    simp only [← covered_pieces, Match.pieces, covered_cons, covered_append, covered_ofLength?,
      covered_nil]
    omega
  · simp at h

theorem rootRule_le {rule : Rule} (hrule : rule ∈ rootRules) {behind : Behind}
    {ahead : List Char} {found : Match} (h : rule.scan behind ahead = some found) :
    found.length ≤ ahead.length := by
  simp only [rootRules, List.mem_cons, List.not_mem_nil, or_false] at hrule
  rcases hrule with rfl | rfl | rfl | rfl | rfl | rfl | rfl | rfl | rfl | rfl | rfl | rfl
  · exact bind_single?_le commentLength?_le h
  · exact Rule.header_le arrayTableHeaderLength?_le h
  · exact Rule.header_le tableHeaderLength?_le h
  · exact Rule.key_le h
  · exact bind_single?_le scanDateTimeTz_le h
  · exact bind_single?_le scanDateTime_le h
  · exact bind_single?_le (bind_bounded_le slotsLength?_le) h
  · exact bind_single?_le (bind_bounded_le floatLength?_le) h
  · exact bind_single?_le (bind_bounded_le integerLength?_le) h
  · exact bind_single?_le (bind_bounded_le booleanLength?_le) h
  · obtain ⟨quote, hquote, rfl⟩ := Option.map_eq_some_iff.1 h
    obtain ⟨c, hc, -⟩ := Option.bind_eq_some_iff.1 hquote
    obtain ⟨rest, rfl⟩ := List.head?_eq_some_iff.1 hc
    simp [Match.length, Match.pieces]
  · rw [Match.single?_length h]
    exact length_takeWhile_le isWhite ahead

theorem stringRule_le {quote : Quote} {rule : Rule} (hrule : rule ∈ stringRules quote)
    {behind : Behind} {ahead : List Char} {found : Match}
    (h : rule.scan behind ahead = some found) : found.length ≤ ahead.length := by
  simp only [stringRules, List.mem_cons, List.not_mem_nil, or_false] at hrule
  rcases hrule with rfl | rfl | rfl | rfl
  · rw [Match.single?_length h]
    exact length_takeWhile_le (isStringText quote) ahead
  · exact bind_single?_le escapeLength?_le h
  · exact bind_single?_le invalidEscapeLength?_le h
  · simp only [Rule.stringClose] at h
    split at h
    · next hclose =>
      obtain ⟨rest, rfl⟩ := List.head?_eq_some_iff.1 hclose
      simp only [Option.some.injEq] at h
      simp [← h, Match.length, Match.pieces]
    · simp at h

theorem rule_le {mode : Mode} {rule : Rule} (hrule : rule ∈ rulesOf mode) {behind : Behind}
    {ahead : List Char} {found : Match} (h : rule.scan behind ahead = some found) :
    found.length ≤ ahead.length := by
  cases mode with
  | root => exact rootRule_le hrule h
  | string quote => exact stringRule_le hrule h

/-! ## Scans -/

/-- A match is that of a rule, or it is the unknown kind where no rule matches. -/
theorem scan_cases (mode : Mode) (behind : Behind) (ahead : List Char) :
    (∃ rule ∈ rulesOf mode, rule.scan behind ahead = some (scan mode behind ahead)) ∨
      ((∀ rule ∈ rulesOf mode, rule.scan behind ahead = none) ∧
        scan mode behind ahead = unknown ahead) := by
  unfold scan
  cases hfound : (rulesOf mode).findSome? fun rule => rule.scan behind ahead with
  | none => exact .inr ⟨List.findSome?_eq_none_iff.1 hfound, rfl⟩
  | some found => exact .inl (List.exists_of_findSome?_eq_some hfound)

theorem unknown_length (ahead : List Char) :
    (unknown ahead).length = max 1 (ahead.takeWhile isWord).length := by
  simp [unknown, Match.length, Match.pieces]

/-- A match stays in the text ahead. -/
theorem scan_length_le (mode : Mode) (behind : Behind) {ahead : List Char} (h : ahead ≠ []) :
    (scan mode behind ahead).length ≤ ahead.length := by
  rcases scan_cases mode behind ahead with ⟨rule, hrule, hfound⟩ | ⟨-, hfound⟩
  · exact rule_le hrule hfound
  · have hword := length_takeWhile_le isWord ahead
    have hpos := List.length_pos_iff.2 h
    rw [hfound, unknown_length]
    omega

end TomlEditor.Lex
