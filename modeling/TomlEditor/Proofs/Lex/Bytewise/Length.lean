import TomlEditor.Lex.Bytewise.Length
import TomlEditor.Proofs.Lex.FirstCharacter
import TomlEditor.Proofs.Lex.Reach
import TomlEditor.Proofs.Text.Bytes

/-!
# Lengths by offsets

On any bytes at all the functions that work with offsets read only parts that
are there, and what they count is what the functions on characters count when
each byte is read as the character with its number. The lemmas follow the
functions from single bytes up; an offset found on the way is turned into what
is left of the bytes behind it.
-/

namespace TomlEditor.Lex.Bytewise

open Text

/-! ## Bytes as characters -/

theorem isAt_eq (p : Char → Bool) (data : List UInt8) (index : Nat) :
    isAt p data index = ((byteChars data).drop index).head?.any p := by
  rw [isAt, List.head?_drop, byteChars, List.getElem?_map, Option.any_map]
  rfl

theorem runLength_eq (p : Char → Bool) (data : List UInt8) :
    runLength p data = ((byteChars data).takeWhile p).length := by
  rw [runLength, byteChars, List.takeWhile_map, List.length_map]
  rfl

theorem bytesFrom?_of_le {data : List UInt8} {start : Nat} (h : start ≤ data.length) :
    bytesFrom? data start = some (data.drop start) :=
  if_pos h

theorem byteChars_drop (data : List UInt8) (start : Nat) :
    byteChars (data.drop start) = (byteChars data).drop start := by
  rw [byteChars, List.map_drop]
  rfl

theorem any_beq_iff {next : Option Char} {d : Char} :
    next.any (· == d) = true ↔ next = some d := by
  cases next with
  | none => simp
  | some c => simp

/-- A byte of a class, and what is left behind it. -/
theorem exists_of_isAt {p : Char → Bool} {data : List UInt8} {index : Nat}
    (h : isAt p data index = true) :
    ∃ c, p c = true ∧ (byteChars data).drop index = c :: (byteChars data).drop (index + 1) := by
  rw [isAt_eq] at h
  cases hrest : (byteChars data).drop index with
  | nil => simp [hrest] at h
  | cons c rest =>
    refine ⟨c, by simpa [hrest] using h, ?_⟩
    rw [← List.drop_drop, hrest]
    rfl

/-- The bytes behind a character that is left at an index. -/
theorem bytesFrom?_of_drop {data : List UInt8} {index : Nat} {c : Char} {rest : List Char}
    (h : (byteChars data).drop index = c :: rest) :
    ∃ behind, bytesFrom? data (index + 1) = some behind ∧ byteChars behind = rest := by
  have hlength := congrArg List.length h
  rw [List.length_drop, length_byteChars, List.length_cons] at hlength
  refine ⟨data.drop (index + 1), bytesFrom?_of_le (by omega), ?_⟩
  rw [byteChars_drop, ← List.drop_drop, h]
  rfl

theorem startsWith_iff (word : String) (data : List UInt8)
    (h : byteChars (bytes word) = word.toList) :
    startsWith word data = true ↔ word.toList <+: byteChars data := by
  have hinj : Function.Injective Char.ofUInt8 := by
    intro a b hab
    have hnat := congrArg Char.toNat hab
    rw [toNat_ofUInt8, toNat_ofUInt8] at hnat
    exact UInt8.toNat_inj.1 hnat
  rw [startsWith, List.isPrefixOf_iff_prefix, ← h]
  exact (List.prefix_map_iff_of_injective hinj).symm

/-! ## Headers and keys -/

theorem headerNameLength?_eq {data : List UInt8} {start : Nat} (h : start ≤ data.length) :
    headerNameLength? data start =
      some (((byteChars data).drop start).takeWhile isHeaderName).length := by
  rw [headerNameLength?, bytesFrom?_of_le h, Option.map_some, runLength_eq, byteChars_drop]

/-- The first byte behind a run of a class, if there is one. -/
theorem findIdx?_eq (p : Char → Bool) (data : List UInt8) :
    data.findIdx? (onByte fun c => !p c) =
      if (byteChars data).dropWhile p = [] then none
      else some ((byteChars data).takeWhile p).length := by
  induction data with
  | nil => rfl
  | cons b data ih =>
    rw [List.findIdx?_cons, ih, byteChars_cons]
    cases hb : p (Char.ofUInt8 b) with
    | true =>
      by_cases hend : (byteChars data).dropWhile p = []
      · simp [onByte, hb, hend]
      · simp [onByte, hb, hend]
    | false => simp [onByte, hb]

theorem keyNameLength?_eq (data : List UInt8) :
    keyNameLength? data =
      some (if keyNameLength (byteChars data) = 0 then none
        else some (keyNameLength (byteChars data))) := by
  cases data with
  | nil => rfl
  | cons first inside =>
    rw [byteChars_cons, keyNameLength?, keyNameLength_cons]
    cases hquote : Quote.ofChar? (Char.ofUInt8 first) with
    | none =>
      have hrun := runLength_eq isBareKey (first :: inside)
      rw [byteChars_cons, List.takeWhile_cons] at hrun
      cases hfirst : isBareKey (Char.ofUInt8 first) with
      | true => simp [onByte, hfirst, hrun]
      | false => simp [onByte, hfirst]
    | some quote =>
      have hclass : (fun c => c == quote.char || c == '\n') = fun c => !isQuotedKey quote c := by
        funext c
        simp [isQuotedKey, bne]
      have hinside : bytesFrom? (first :: inside) 1 = some inside :=
        bytesFrom?_of_le (Nat.succ_le_succ (Nat.zero_le inside.length))
      simp only [hclass, hinside, findIdx?_eq, Option.bind_eq_bind, Option.bind_some]
      cases hclose : (byteChars inside).dropWhile (isQuotedKey quote) with
      | nil => simp
      | cons last rest =>
        -- The byte at the index found is the first one that does not go on with the key.
        have hlast :
            (byteChars inside)[((byteChars inside).takeWhile (isQuotedKey quote)).length]? =
              some last := by
          rw [← List.head?_drop, drop_length_takeWhile, hclose]
          rfl
        rw [byteChars, List.getElem?_map] at hlast
        obtain ⟨b, hb, rfl⟩ := Option.map_eq_some_iff.1 hlast
        rw [if_neg (List.cons_ne_nil _ _)]
        simp only [Nat.add_comm 1, List.getElem?_cons_succ, byteChars, hb, Option.bind_some]
        by_cases hsame : Char.ofUInt8 b = quote.char
        · simp [onByte, hsame]
        · simp [onByte, hsame]

theorem keyGapLength?_eq {data : List UInt8} {name : Nat} (h : name ≤ data.length) :
    keyGapLength? data name = some (Lex.keyGapLength? ((byteChars data).drop name)) := by
  have hgap : runLength isSpace (data.drop name) =
      (((byteChars data).drop name).takeWhile isSpace).length := by
    rw [runLength_eq, byteChars_drop]
  have hsign : isAt (· == '=') data (name + runLength isSpace (data.drop name)) = true ↔
      (((byteChars data).drop name).dropWhile isSpace).head? = some '=' := by
    rw [isAt_eq, hgap, ← List.drop_drop, drop_length_takeWhile, any_beq_iff]
  simp only [keyGapLength?, bytesFrom?_of_le h, Option.bind_eq_bind, Option.bind_some, hsign,
    Lex.keyGapLength?]
  rw [hgap]
  rfl

/-! ## Dates and times -/

theorem fits_append_slots (slots more : List Slot) (text : List Char) :
    fits (slots ++ more) text = (fits slots text && fits more (text.drop slots.length)) := by
  induction slots generalizing text with
  | nil => simp [fits]
  | cons slot slots ih =>
    cases text with
    | nil => simp [fits]
    | cons c text => simp [fits, ih, Bool.and_assoc]

theorem fits_mark (c : Char) (text : List Char) :
    fits [.mark c] text = text.head?.any (· == c) := by
  cases text with
  | nil => rfl
  | cons d text => simp [fits, Slot.accepts]

theorem fits_digits (count : Nat) (text : List Char) :
    fits (List.replicate count .digit) text =
      (decide (count ≤ text.length) && (text.take count).all Char.isDigit) := by
  induction count generalizing text with
  | zero => simp [fits]
  | succ count ih =>
    cases text with
    | nil => simp [fits, List.replicate_succ]
    | cons c text =>
      rw [List.replicate_succ, fits, ih]
      simp [Slot.accepts, Bool.and_left_comm]

theorem digitsAt_eq (data : List UInt8) (start : Nat) {count : Nat} (h : 0 < count) :
    digitsAt data start count =
      fits (List.replicate count .digit) ((byteChars data).drop start) := by
  have hrange : start + count ≤ data.length ↔ count ≤ data.length - start := by omega
  rw [digitsAt, fits_digits, List.length_drop, length_byteChars, decide_eq_decide.2 hrange,
    ← byteChars_drop, byteChars, ← List.map_take, List.all_map]
  rfl

theorem dateLength?_eq (data : List UInt8) :
    dateLength? data = Lex.dateLength? (byteChars data) := by
  have hslots : dateSlots = List.replicate 4 Slot.digit ++ ([Slot.mark '-'] ++
      (List.replicate 2 Slot.digit ++ ([Slot.mark '-'] ++ List.replicate 2 Slot.digit))) := rfl
  rw [Lex.dateLength?, slotsLength?, hslots, dateLength?]
  simp only [fits_append_slots, fits_mark, isAt_eq, digitsAt_eq _ _ (show 0 < 4 by decide),
    digitsAt_eq _ _ (show 0 < 2 by decide), List.drop_drop, List.length_replicate,
    List.length_append, List.length_singleton, List.drop_zero, Bool.and_assoc]

theorem secondFractionLength?_eq (data : List UInt8) (index : Nat) :
    secondFractionLength? data index =
      some (secondFractionLength ((byteChars data).drop index)) := by
  rw [secondFractionLength?]
  split
  · next hpoint =>
    obtain ⟨c, hc, hdrop⟩ := exists_of_isAt hpoint
    rw [hdrop, secondFractionLength_cons, bytesFrom?_of_le (lt_length_of_isAt hpoint)]
    simp only [Option.bind_eq_bind, Option.bind_some, runLength_eq, byteChars_drop,
      beq_iff_eq.1 hc, true_and, Nat.pos_iff_ne_zero]
    rfl
  · next hpoint =>
    rw [isAt_eq] at hpoint
    cases hdrop : (byteChars data).drop index with
    | nil => rfl
    | cons c rest =>
      have hc : c ≠ '.' := by simpa [hdrop] using hpoint
      rw [secondFractionLength_cons, if_neg fun h => hc h.1]
      rfl

theorem timeLength?_eq (data : List UInt8) (start : Nat) :
    timeLength? data start =
      some (if fits timeSlots ((byteChars data).drop start) then
        some (9, secondFractionLength ((byteChars data).drop (start + 9))) else none) := by
  have hslots : timeSlots = [Slot.mark 'T'] ++ (List.replicate 2 Slot.digit ++
      ([Slot.mark ':'] ++ (List.replicate 2 Slot.digit ++ ([Slot.mark ':'] ++
        List.replicate 2 Slot.digit)))) := rfl
  have htime : (isAt (· == 'T') data start && digitsAt data (start + 1) 2 &&
      isAt (· == ':') data (start + 3) && digitsAt data (start + 4) 2 &&
      isAt (· == ':') data (start + 6) && digitsAt data (start + 7) 2) =
      fits timeSlots ((byteChars data).drop start) := by
    rw [hslots]
    simp only [fits_append_slots, fits_mark, isAt_eq, digitsAt_eq _ _ (show 0 < 2 by decide),
      List.drop_drop, List.length_replicate, List.length_singleton, Bool.and_assoc, Nat.add_assoc]
  rw [timeLength?, htime]
  split
  · rw [secondFractionLength?_eq]
    rfl
  · rfl

theorem offsetLength?_eq (data : List UInt8) (start : Nat) :
    offsetLength? data start = Lex.offsetLength? ((byteChars data).drop start) := by
  have hslots : offsetSlots = [Slot.sign] ++ (List.replicate 2 Slot.digit ++
      ([Slot.mark ':'] ++ List.replicate 2 Slot.digit)) := rfl
  have hsign : ∀ text, fits [.sign] text = text.head?.any fun c => c == '+' || c == '-' := by
    intro text
    cases text with
    | nil => rfl
    | cons c text => simp [fits, Slot.accepts]
  have hclock : (isAt (fun c => c == '+' || c == '-') data start && digitsAt data (start + 1) 2 &&
      isAt (· == ':') data (start + 3) && digitsAt data (start + 4) 2) =
      fits offsetSlots ((byteChars data).drop start) := by
    rw [hslots]
    simp only [fits_append_slots, fits_mark, hsign, isAt_eq, digitsAt_eq _ _ (show 0 < 2 by decide),
      List.drop_drop, List.length_replicate, List.length_singleton, Bool.and_assoc, Nat.add_assoc]
  rw [offsetLength?, hclock, isAt_eq]
  cases (byteChars data).drop start with
  | nil => rfl
  | cons c rest =>
    rw [offsetLength?_cons, slotsLength?, List.head?_cons, Option.any_some]
    simp only [beq_iff_eq]
    rfl

theorem dateTimeLength?_eq (data : List UInt8) :
    dateTimeLength? data = some ((Lex.dateTimeLength? (byteChars data)).map fun time =>
      (time, secondFractionLength ((byteChars data).drop time))) := by
  have hten : dateSlots.length = 10 := rfl
  have hboth : (dateSlots ++ timeSlots).length = 19 := rfl
  rw [dateTimeLength?, dateLength?_eq, Lex.dateLength?, Lex.dateTimeLength?, slotsLength?,
    slotsLength?, fits_append_slots, hten, hboth]
  by_cases hdate : fits dateSlots (byteChars data) = true
  · simp only [hdate, if_pos, timeLength?_eq, Option.bind_eq_bind, Option.bind_some, Bool.true_and]
    by_cases htime : fits timeSlots ((byteChars data).drop 10) = true
    · simp [htime]
    · simp [htime]
  · simp [hdate]

theorem dateTimeTzLength?_eq (data : List UInt8) :
    dateTimeTzLength? data = some ((Lex.dateTimeLength? (byteChars data)).bind fun time =>
      let head := time + secondFractionLength ((byteChars data).drop time)
      (Lex.offsetLength? ((byteChars data).drop head)).map (head + ·)) := by
  rw [dateTimeTzLength?, dateTimeLength?_eq]
  cases Lex.dateTimeLength? (byteChars data) with
  | none => rfl
  | some time =>
    simp only [Option.map_some, Option.bind_eq_bind, Option.bind_some, offsetLength?_eq]
    rfl

/-! ## Numbers and booleans -/

theorem digitRunEnd_eq (data : List UInt8) (index : Nat) :
    digitRunEnd data index = index + Lex.digitRun ((byteChars data).drop index) := by
  fun_induction digitRunEnd data index with
  | case1 index hdigit ih =>
    obtain ⟨c, hc, hdrop⟩ := exists_of_isAt hdigit
    have hmark : c ≠ '_' := ne_of_class hc (by decide)
    rw [ih, hdrop, digitRun_cons, if_neg hmark, digitsLength_cons, if_pos hc]
    omega
  | case2 index hdigit hmark ih =>
    obtain ⟨c, hc, hdrop⟩ := exists_of_isAt hmark.1
    obtain ⟨d, hd, hmore⟩ := exists_of_isAt hmark.2
    rw [ih, hdrop, hmore, digitRun_cons, if_pos (beq_iff_eq.1 hc), digitsLength_cons, if_pos hd,
      behindOne, if_neg (Nat.succ_ne_zero _), Nat.add_assoc index 1 1]
    omega
  | case3 index hdigit hmark =>
    rw [isAt_eq] at hdigit hmark
    rw [isAt_eq, ← List.drop_drop] at hmark
    cases hdrop : (byteChars data).drop index with
    | nil => rfl
    | cons c rest =>
      rw [hdrop] at hdigit hmark
      rw [List.head?_cons, Option.any_some] at hdigit
      rw [digitRun_cons, digitsLength_cons, if_neg hdigit]
      split
      · next hc =>
        have hrest : rest.head?.any Char.isDigit = false := by simpa [hc] using hmark
        cases rest with
        | nil => rfl
        | cons d rest =>
          have hd : d.isDigit = false := hrest
          simp [digitsLength_cons, hd, behindOne]
      · rfl

theorem digitRun_eq (data : List UInt8) : digitRun data = Lex.digitRun (byteChars data) := by
  rw [digitRun, digitRunEnd_eq, Nat.zero_add, List.drop_zero]

theorem signLength_eq (data : List UInt8) (index : Nat) :
    signLength data index = Lex.signLength ((byteChars data).drop index) := by
  rw [signLength, isAt_eq]
  cases (byteChars data).drop index with
  | nil => rfl
  | cons c rest =>
    rw [signLength_cons, List.head?_cons, Option.any_some]
    simp only [Bool.or_eq_true, beq_iff_eq]

theorem integerLength?_eq (data : List UInt8) :
    integerLength? data = some (Lex.integerLength? (byteChars data)) := by
  rw [integerLength?, Lex.integerLength?, signLength_eq, List.drop_zero]
  generalize Lex.signLength (byteChars data) = sign
  simp only [isAt_eq]
  cases hrest : (byteChars data).drop sign with
  | nil => rfl
  | cons d rest =>
    obtain ⟨behind, hbehind, hchars⟩ := bytesFrom?_of_drop hrest
    rw [magnitudeLength?_cons, List.head?_cons, Option.any_some, Option.any_some, hbehind]
    split
    · rfl
    · split
      · simp only [Option.bind_eq_bind, Option.bind_some, digitRun_eq, hchars, Option.map_some,
          Nat.add_assoc, Nat.add_comm 1]
        rfl
      · rfl

theorem fractionLength?_eq (data : List UInt8) :
    fractionLength? data = some (fractionLength (byteChars data)) := by
  simp only [fractionLength?, isAt_eq, List.drop_zero]
  cases hdata : byteChars data with
  | nil => rfl
  | cons c rest =>
    rw [fractionLength_cons]
    cases rest with
    | nil => simp [digitsLength, behindOne]
    | cons d rest =>
      have hdrop : (byteChars data).drop 1 = d :: rest := by rw [hdata]; rfl
      obtain ⟨behind, hbehind, hchars⟩ := bytesFrom?_of_drop hdrop
      rw [digitsLength_cons]
      by_cases hd : c = '.' ∧ d.isDigit = true
      · obtain ⟨hc, hd⟩ := hd
        simp only [hc, hd, hbehind, digitRun_eq, hchars, behindOne, List.head?_cons,
          List.drop_succ_cons, List.drop_zero, Option.any_some, beq_self_eq_true, Bool.and_self,
          Option.bind_eq_bind, Option.bind_some, if_pos, if_neg (Nat.succ_ne_zero _)]
        exact congrArg some (Nat.add_comm 2 _)
      · by_cases hc : c = '.'
        · simp [hc, show d.isDigit = false by simpa [hc] using hd, behindOne]
        · simp [hc]

theorem exponentLength?_eq (data : List UInt8) :
    exponentLength? data = some (exponentLength (byteChars data)) := by
  simp only [exponentLength?, signLength_eq, isAt_eq, List.drop_zero]
  cases hdata : byteChars data with
  | nil => rfl
  | cons c rest =>
    have hdrop : (c :: rest).drop 1 = rest := rfl
    rw [exponentLength_cons, hdrop, List.head?_cons, Option.any_some, ← List.drop_drop, hdrop]
    split
    · generalize Lex.signLength rest = sign
      cases hdigits : rest.drop sign with
      | nil => rfl
      | cons d more =>
        have hboth : (byteChars data).drop (1 + sign) = d :: more := by
          rw [hdata, ← List.drop_drop, hdrop, hdigits]
        obtain ⟨behind, hbehind, hchars⟩ := bytesFrom?_of_drop hboth
        rw [Nat.add_right_comm] at hbehind
        rw [digitsLength_cons, List.head?_cons, Option.any_some]
        cases hd : d.isDigit with
        | true =>
          simp only [if_pos, hbehind, Option.bind_eq_bind, Option.bind_some, digitRun_eq, hchars]
          show some (2 + sign + Lex.digitRun more) = some (sign + Lex.digitRun more + 2)
          rw [Nat.add_comm 2, Nat.add_right_comm]
        | false => rfl
    · rfl

theorem floatLength?_eq (data : List UInt8) :
    floatLength? data = some (Lex.floatLength? (byteChars data)) := by
  rw [floatLength?, Lex.floatLength?, integerLength?_eq]
  cases hwhole : Lex.integerLength? (byteChars data) with
  | none => rfl
  | some whole =>
    have hle := integerLength?_le hwhole
    have hfraction := fractionLength_le ((byteChars data).drop whole)
    rw [List.length_drop] at hfraction
    rw [length_byteChars] at hle hfraction
    have hboth : whole + fractionLength ((byteChars data).drop whole) ≤ data.length := by omega
    simp only [Option.bind_eq_bind, Option.bind_some, bytesFrom?_of_le hle, fractionLength?_eq,
      byteChars_drop, bytesFrom?_of_le hboth, exponentLength?_eq, Bool.and_eq_true,
      decide_eq_true_eq]
    rfl

theorem booleanLength?_eq (data : List UInt8) :
    booleanLength? data = Lex.booleanLength? (byteChars data) := by
  have htrue := startsWith_iff "true" data rfl
  have hfalse := startsWith_iff "false" data rfl
  rw [booleanLength?, Lex.booleanLength?_eq]
  simp only [htrue, hfalse]
  rfl

/-! ## Escapes -/

theorem hexRun_eq (limit : Nat) (data : List UInt8) :
    hexRun limit data = Lex.hexRun limit (byteChars data) := by
  rw [hexRun, runLength_eq, Lex.hexRun, byteChars, List.map_take]
  rfl

theorem escapeLength?_eq (data : List UInt8) :
    escapeLength? data = some (Lex.escapeLength? (byteChars data)) := by
  cases data with
  | nil => rfl
  | cons slash data =>
    rw [escapeLength?, isAt_eq, List.drop_zero, byteChars_cons, List.head?_cons, Option.any_some]
    by_cases hslash : Char.ofUInt8 slash = '\\'
    · cases data with
      | nil => simp [hslash, byteChars, Lex.escapeLength?]
      | cons letter behind =>
        have hbehind : bytesFrom? (slash :: letter :: behind) 2 = some behind :=
          bytesFrom?_of_le (by simp)
        rw [hslash]
        simp only [beq_self_eq_true, if_pos, List.getElem?_cons_succ, List.getElem?_cons_zero,
          hbehind, Option.bind_eq_bind, Option.bind_some, hexRun_eq, byteChars, List.map_cons,
          Lex.escapeLength?, beq_iff_eq, Nat.add_comm 2]
        simp only [Option.pure_def, apply_ite some]
    · rw [if_neg (by simpa using hslash), Lex.escapeLength?_of_ne hslash]
      rfl

end TomlEditor.Lex.Bytewise
