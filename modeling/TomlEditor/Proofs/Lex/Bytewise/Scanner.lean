import Mathlib.Data.List.Induction
import TomlEditor.Lex.Bytewise.Scanner
import TomlEditor.Proofs.Lex.Bytewise.Encoding
import TomlEditor.Proofs.Lex.Bytewise.Length

/-!
# Scanners and rules

At a position between two characters every scanner has a result, and that is
what its rule matches there, with bytes for characters. So no scanner reads
outside the text or into a character, and since the lengths of the rules are
positive and reach no further than the text, those of the scanners end between
characters as well.
-/

namespace TomlEditor.Lex.Bytewise

open Text

/-! ## Positions between characters -/

/-- The cursor between two parts of a text. -/
def Cursor.between (before ahead : List Char) (mode : Mode) : Cursor :=
  ⟨String.ofList (before ++ ahead), (units before).length, mode⟩

/-- Whether a line has had nothing but indentation so far, by the bytes read backwards. -/
theorem all_isIndent_units (before : List Char) :
    ((units before).reverse.takeWhile (· != '\n')).all isIndent =
      (Behind.start.after before).atLineStart := by
  induction before using List.reverseRecOn with
  | nil => rfl
  | append_singleton before c ih =>
    rw [units_append, List.reverse_append, Behind.after_append, Behind.after_cons,
      Behind.after_nil, Behind.next]
    by_cases hc : c = '\n'
    · subst hc
      rfl
    · have hmem : ∀ {u}, u ∈ (units [c]).reverse → u ∈ byteChars (String.utf8EncodeChar c) := by
        intro u hu
        rwa [List.mem_reverse, units_cons, units_nil, List.append_nil] at hu
      have hfeed : ∀ u ∈ (units [c]).reverse, (u != '\n') = true := fun u hu =>
        (class_of_mem_byteChars (plain_eq (by decide)).not (hmem hu)).trans (by simpa using hc)
      have hindent : (units [c]).reverse.all isIndent = isIndent c := by
        have hsame := fun u hu => class_of_mem_byteChars plain_isIndent (hmem (u := u) hu)
        cases hclass : isIndent c with
        | true => exact List.all_eq_true.2 fun u hu => (hsame u hu).trans hclass
        | false =>
          obtain ⟨u, more, hunits, hu⟩ := exists_units_cons plain_isIndent c []
          simp [hunits, hu, hclass]
      rw [List.takeWhile_append_of_pos hfeed, List.all_append, hindent, ih, beq_false_of_ne hc,
        Bool.false_or, Bool.and_comm]

section

variable (before ahead : List Char) (mode : Mode)

theorem bytes_between : bytes (Cursor.between before ahead mode).text =
    bytes (String.ofList before) ++ bytes (String.ofList ahead) := by
  rw [Cursor.between, String.ofList_append, bytes_append]

theorem pos_between : (Cursor.between before ahead mode).pos =
    (bytes (String.ofList before)).length :=
  length_byteChars _

theorem rest?_between : (Cursor.between before ahead mode).rest? =
    some (bytes (String.ofList ahead)) := by
  rw [Cursor.rest?, bytes_between, pos_between, bytesFrom?_of_le (by simp), List.drop_left]

/-- The character behind some characters from the position on. -/
theorem charAt?_between (part : List Char) :
    (Cursor.between before (part ++ ahead) mode).charAt?
      ((units before).length + (units part).length) = some ahead.head? := by
  have hcut := cut?_append (before ++ part) ahead []
  rw [← length_units, ← length_units, units_append, List.length_append, List.append_nil,
    List.append_assoc] at hcut
  have hsize : (String.ofList (before ++ (part ++ ahead))).utf8ByteSize =
      (units before).length + (units part).length + (units ahead).length := by
    rw [← length_units, units_append, units_append, List.length_append, List.length_append,
      Nat.add_assoc]
  rw [Cursor.charAt?, Cursor.between, hsize, hcut, Option.map_some, String.toList_ofList]

theorem atLineStart?_between : (Cursor.between before ahead mode).atLineStart? =
    some (Behind.start.after before).atLineStart := by
  have hread : bytesTo? (bytes (Cursor.between before ahead mode).text)
      (Cursor.between before ahead mode).pos = some (bytes (String.ofList before)) := by
    rw [bytes_between, pos_between, bytesTo?, if_pos (by simp), List.take_left]
  have hchars : ∀ data : List UInt8,
      (data.reverse.takeWhile (onByte (· != '\n'))).all (onByte isIndent) =
        ((byteChars data).reverse.takeWhile (· != '\n')).all isIndent := by
    intro data
    rw [byteChars, ← List.map_reverse, List.takeWhile_map, List.all_map]
    rfl
  rw [Cursor.atLineStart?, hread, Option.map_some, hchars]
  exact congrArg some (all_isIndent_units before)

theorem afterWord?_between : (Cursor.between before ahead mode).afterWord? =
    some (Behind.start.after before).afterWord := by
  rw [Cursor.afterWord?, bytes_between, pos_between, afterWord_after, ← getLast?_bytes]
  generalize bytes (String.ofList before) = data
  split
  · rw [List.getElem?_append_left (by omega), ← List.getLast?_eq_getElem?]
    cases hlast : data.getLast? with
    | none => simp_all
    | some b => rfl
  · next hempty =>
    rw [List.length_eq_zero_iff.1 (Nat.eq_zero_of_not_pos hempty)]
    rfl

theorem bounded?_between (length : Nat) : (Cursor.between before ahead mode).bounded? length =
    some (bounded (Behind.start.after before) (units ahead) length) := by
  have hafter : ((bytes (Cursor.between before ahead mode).text)[
      (Cursor.between before ahead mode).pos + length]?).any (onByte isWord) =
      ((units ahead).drop length).head?.any isWord := by
    rw [bytes_between, pos_between, List.getElem?_append_right (Nat.le_add_right _ _),
      Nat.add_sub_cancel_left]
    exact isAt_eq isWord _ length
  rw [Cursor.bounded?, afterWord?_between, hafter, bounded]
  cases (Behind.start.after before).afterWord with
  | true => rfl
  | false => cases ((units ahead).drop length).head?.any isWord <;> rfl

end

/-! ## Matches in bytes -/

/-- Pieces at the front of a text, with the numbers of bytes that they take. -/
def inBytes : List Piece → List Char → List (Token.Kind × Nat)
  | [], _ => []
  | piece :: more, text =>
    (piece.kind, (String.ofList (text.take piece.length)).utf8ByteSize) ::
      inBytes more (text.drop piece.length)

@[simp] theorem inBytes_nil (text : List Char) : inBytes [] text = [] := rfl

@[simp] theorem inBytes_cons (piece : Piece) (more : List Piece) (text : List Char) :
    inBytes (piece :: more) text = (piece.kind, (units (text.take piece.length)).length) ::
      inBytes more (text.drop piece.length) := by
  rw [inBytes, length_units]

/-- A match with bytes for the characters that it covers. -/
def Found.ofMatch (ahead : List Char) (found : Match) : Found :=
  ⟨inBytes found.pieces ahead, found.shift⟩

theorem ofMatch_single (ahead : List Char) (piece : Piece) (shift : Shift) :
    Found.ofMatch ahead ⟨piece, [], shift⟩ =
      ⟨[(piece.kind, (units (ahead.take piece.length)).length)], shift⟩ := by
  rw [Found.ofMatch, Match.pieces, inBytes_cons, inBytes_nil]

/-- A scanner that finds at every position between two characters what a rule matches there. -/
def Scanner.Follows (scanner : Scanner) (mode : Mode) (rule : Rule) : Prop :=
  ∀ before ahead, scanner (.between before ahead mode) =
    some ((rule.scan (Behind.start.after before) ahead).map (.ofMatch ahead))

/-- A match of one piece of positive length, in bytes. -/
theorem map_single {length? : Option Nat} (hpos : ∀ {n}, length? = some n → 0 < n)
    (kind : Token.Kind) (ahead : List Char) :
    (length?.map fun n => (units (ahead.take n)).length).map (Found.single kind) =
      (length?.bind fun n => Match.single? kind n .stay).map (.ofMatch ahead) := by
  cases hlength : length? with
  | none => rfl
  | some n =>
    rw [Option.bind_some, Match.single?, Piece.ofLength?, dif_pos (hpos hlength),
      Option.map_some, Option.map_some, Option.map_some, Option.map_some, ofMatch_single]
    rfl

/-- A length function that is the same on bytes, as a find of one piece. -/
theorem map_single_units {length? : List Char → Option Nat} (h : Encodes length?)
    (hpos : ∀ {ahead n}, length? ahead = some n → 0 < n) (kind : Token.Kind)
    (ahead : List Char) :
    (length? (units ahead)).map (Found.single kind) =
      ((length? ahead).bind fun n => Match.single? kind n .stay).map (.ofMatch ahead) := by
  rw [h ahead]
  exact map_single hpos kind ahead

section

variable {mode : Mode}

/-! ## Values -/

theorem follows_scalar {scanner : Scanner} {name : String} {kind : Token.Kind}
    {length? : Behind → List Char → Option Nat} (hencodes : ∀ behind, Encodes (length? behind))
    (hpos : ∀ {behind ahead n}, length? behind ahead = some n → 0 < n)
    (hbytes : ∀ before ahead, scanner (.between before ahead mode) =
      some ((length? (Behind.start.after before) (units ahead)).map (Found.single kind))) :
    scanner.Follows mode (.scalar name kind length?) := by
  intro before ahead
  rw [hbytes, map_single_units (hencodes _) hpos]
  rfl

theorem scanValue_between {kind : Token.Kind} {onBytes? : List UInt8 → Option (Option Nat)}
    {length? : List Char → Option Nat}
    (hbytes : ∀ data, onBytes? data = some (length? (byteChars data))) (before ahead : List Char) :
    scanValue kind onBytes? (.between before ahead mode) =
      some (((length? (units ahead)).bind
        (bounded (Behind.start.after before) (units ahead))).map (Found.single kind)) := by
  rw [scanValue, rest?_between, Option.bind_eq_bind, Option.bind_some, hbytes, byteChars_bytes]
  cases length? (units ahead) with
  | none => rfl
  | some n =>
    simp only [Option.bind_eq_bind, Option.bind_some, bounded?_between]
    rfl

theorem scanDate_follows :
    (scanValue .date fun rest => some (dateLength? rest)).Follows mode
      (.scalar "date" .date scanDate) :=
  follows_scalar encodes_scanDate (bind_bounded_pos (slotsLength?_pos (by decide)))
    (scanValue_between fun data => congrArg some (dateLength?_eq data))

theorem scanFloat_follows :
    (scanValue .float floatLength?).Follows mode (.scalar "float" .float scanFloat) :=
  follows_scalar encodes_scanFloat (bind_bounded_pos floatLength?_pos)
    (scanValue_between floatLength?_eq)

theorem scanInteger_follows :
    (scanValue .integer integerLength?).Follows mode (.scalar "integer" .integer scanInteger) :=
  follows_scalar encodes_scanInteger (bind_bounded_pos integerLength?_pos)
    (scanValue_between integerLength?_eq)

theorem scanBoolean_follows :
    (scanValue .boolean fun rest => some (booleanLength? rest)).Follows mode
      (.scalar "boolean" .boolean scanBoolean) :=
  follows_scalar encodes_scanBoolean (bind_bounded_pos booleanLength?_pos)
    (scanValue_between fun data => congrArg some (booleanLength?_eq data))

theorem scanDateTimeTz_follows :
    (scanValue .dateTimeTz dateTimeTzLength?).Follows mode
      (.scalar "date-time-tz" .dateTimeTz scanDateTimeTz) := by
  refine follows_scalar encodes_scanDateTimeTz scanDateTimeTz_pos fun before ahead => ?_
  have hvalue := @scanValue_between mode .dateTimeTz dateTimeTzLength?
    (fun text => (Lex.dateTimeLength? text).bind fun time =>
      let head := time + secondFractionLength (text.drop time)
      (Lex.offsetLength? (text.drop head)).map (head + ·)) dateTimeTzLength?_eq before ahead
  rw [hvalue, scanDateTimeTz, Option.bind_assoc]
  simp only [Option.bind_map]
  rfl

theorem scanDateTime_follows :
    scanDateTime.Follows mode (.scalar "date-time" .dateTime Lex.scanDateTime) := by
  refine follows_scalar encodes_scanDateTime scanDateTime_pos fun before ahead => ?_
  rw [scanDateTime, rest?_between, Option.bind_eq_bind, Option.bind_some, dateTimeLength?_eq,
    byteChars_bytes, Lex.scanDateTime]
  cases Lex.dateTimeLength? (units ahead) with
  | none => rfl
  | some time =>
    simp only [Option.map_some, Option.bind_eq_bind, Option.bind_some, bounded?_between]
    cases bounded (Behind.start.after before) (units ahead)
        (time + secondFractionLength ((units ahead).drop time)) with
    | none => rfl
    | some length => rfl

/-! ## Comments, headers and keys -/

/-- The bytes up to the first one of a class, or all of them. -/
theorem getD_findIdx? (p : Char → Bool) (data : List UInt8) :
    (data.findIdx? (onByte fun c => !p c)).getD data.length =
      ((byteChars data).takeWhile p).length := by
  have hsplit := congrArg List.length
    (List.takeWhile_append_dropWhile (p := p) (l := byteChars data))
  rw [List.length_append, length_byteChars] at hsplit
  rw [findIdx?_eq]
  split
  · next hend => simpa [hend] using hsplit.symm
  · rfl

theorem scanComment_follows : scanComment.Follows mode .comment := by
  intro before ahead
  have hclass : isLineEnd = fun c => !!isLineEnd c := by simp
  have hfind := getD_findIdx? (!isLineEnd ·) (bytes (String.ofList ahead))
  rw [← hclass, byteChars_bytes] at hfind
  have hmatch := map_single_units encodes_commentLength? commentLength?_pos .comment ahead
  rw [Rule.comment, ← hmatch, scanComment, rest?_between, Option.bind_eq_bind, Option.bind_some,
    hfind, isAt_eq, byteChars_bytes, List.drop_zero]
  cases hahead : units ahead with
  | nil => rfl
  | cons c rest =>
    rw [commentLength?_cons]
    by_cases hc : c = '#'
    · simp [hc, isLineEnd]
    · simp [hc]

theorem follows_header {scanner : Scanner} {name : String} {kind : Token.Kind}
    {length? : List Char → Option Nat} (hencodes : Encodes length?)
    (hpos : ∀ {ahead n}, length? ahead = some n → 0 < n)
    (hbytes : ∀ before ahead, scanner (.between before ahead mode) =
      some (if (Behind.start.after before).atLineStart then
        (length? (units ahead)).map (Found.single kind) else none)) :
    scanner.Follows mode (.header name kind length?) := by
  intro before ahead
  rw [hbytes, map_single_units hencodes hpos]
  simp only [Rule.header]
  split <;> rfl

theorem scanTableHeader_follows : scanTableHeader.Follows mode
    (.header "table-header" .tableHeader tableHeaderLength?) := by
  refine follows_header encodes_tableHeaderLength? tableHeaderLength?_pos fun before ahead => ?_
  rw [scanTableHeader, rest?_between, atLineStart?_between]
  simp only [Option.bind_eq_bind, Option.bind_some]
  by_cases hopen : isAt (· == '[') (bytes (String.ofList ahead)) 0 = true
  · obtain ⟨c, hc, hahead⟩ := exists_of_isAt hopen
    rw [List.drop_zero, byteChars_bytes, beq_iff_eq.1 hc] at hahead
    generalize (units ahead).drop (0 + 1) = rest at hahead
    have hclose : isAt (· == ']') (bytes (String.ofList ahead))
        (1 + (rest.takeWhile isHeaderName).length) = true ↔
          (rest.dropWhile isHeaderName).head? = some ']' := by
      rw [isAt_eq, byteChars_bytes, hahead, any_beq_iff, Nat.add_comm, List.drop_succ_cons,
        drop_length_takeWhile]
    rw [if_pos hopen, headerNameLength?_eq (lt_length_of_isAt hopen), byteChars_bytes, hahead,
      tableHeaderLength?_cons]
    have hlength : 1 + (rest.takeWhile isHeaderName).length + 1 =
        (rest.takeWhile isHeaderName).length + 2 := by omega
    simp only [List.drop_succ_cons, List.drop_zero, Option.bind_some, hclose, true_and, hlength,
      apply_ite (Option.map _), Option.map_some, Option.map_none, apply_ite some, Option.pure_def]
  · have hnone : tableHeaderLength? (units ahead) = none := by
      rw [isAt_eq, byteChars_bytes, List.drop_zero, any_beq_iff] at hopen
      cases hahead : units ahead with
      | nil => rfl
      | cons c rest =>
        rw [tableHeaderLength?_cons, if_neg]
        rintro ⟨rfl, -⟩
        exact hopen (by rw [hahead]; rfl)
    rw [if_neg hopen, hnone, Option.map_none, ite_self]
    rfl

theorem scanArrayTableHeader_follows : scanArrayTableHeader.Follows mode
    (.header "array-table-header" .arrayTableHeader arrayTableHeaderLength?) := by
  refine follows_header encodes_arrayTableHeaderLength? arrayTableHeaderLength?_pos
    fun before ahead => ?_
  have hstarts := startsWith_iff "[[" (bytes (String.ofList ahead)) rfl
  rw [scanArrayTableHeader, rest?_between, atLineStart?_between]
  simp only [Option.bind_eq_bind, Option.bind_some]
  by_cases hopen : startsWith "[[" (bytes (String.ofList ahead)) = true
  · obtain ⟨rest, hahead⟩ := hstarts.1 hopen
    have htext : units ahead = '[' :: '[' :: rest := hahead.symm
    have hlength := congrArg List.length htext
    rw [← byteChars_bytes, length_byteChars, List.length_cons, List.length_cons] at hlength
    have hrun := length_takeWhile_le isHeaderName rest
    have hstop : 2 + (rest.takeWhile isHeaderName).length ≤
        (bytes (String.ofList ahead)).length := by omega
    have hdrop : byteChars ((bytes (String.ofList ahead)).drop
        (2 + (rest.takeWhile isHeaderName).length)) = rest.dropWhile isHeaderName := by
      rw [byteChars_drop, byteChars_bytes, htext, ← List.drop_drop, List.drop_succ_cons,
        List.drop_succ_cons, List.drop_zero, drop_length_takeWhile]
    have hclose : startsWith "]]" ((bytes (String.ofList ahead)).drop
        (2 + (rest.takeWhile isHeaderName).length)) = true ↔
          [']', ']'] <+: rest.dropWhile isHeaderName := by
      rw [startsWith_iff _ _ rfl, hdrop]
      rfl
    have hend : 2 + (rest.takeWhile isHeaderName).length + 2 =
        (rest.takeWhile isHeaderName).length + 4 := by omega
    rw [if_pos hopen, headerNameLength?_eq (by omega), byteChars_bytes, htext,
      arrayTableHeaderLength?_brackets]
    simp only [List.drop_succ_cons, List.drop_zero, Option.bind_some, bytesFrom?_of_le hstop,
      hclose, hend, apply_ite (Option.map _), Option.map_some, Option.map_none, apply_ite some,
      Option.pure_def]
  · rw [hstarts, byteChars_bytes] at hopen
    rw [if_neg (mt hstarts.1 hopen), arrayTableHeaderLength?_of_not_brackets hopen, Option.map_none,
      ite_self]
    rfl

/-- One ASCII character takes one byte. -/
theorem length_units_take_one {ahead : List Char} {c : Char} (hc : c.toNat < 128)
    (h : ahead.head? = some c) : (units (ahead.take 1)).length = 1 := by
  obtain ⟨rest, rfl⟩ := List.head?_eq_some_iff.1 h
  rw [List.take_succ_cons, units_cons_of_ascii hc]
  rfl

/-- The spaces behind the name of a key and its equals sign, in bytes. -/
theorem inBytes_gap {text : List Char} {gap : Nat} (hgap : gap ≤ text.length)
    (hsign : (text.drop gap).head? = some '=') :
    inBytes ((Piece.ofLength? .whitespace gap).toList ++ [⟨.delimiter, 1, by decide⟩]) text =
      (if 0 < (units (text.take gap)).length then
        [(.whitespace, (units (text.take gap)).length)] else []) ++ [(.delimiter, 1)] := by
  have hdelimiter := length_units_take_one (by decide) hsign
  rw [if_congr (length_units_take_pos hgap) rfl rfl]
  by_cases hpos : 0 < gap
  · simp [Piece.ofLength?, hpos, hdelimiter]
  · obtain rfl : gap = 0 := by omega
    simpa [Piece.ofLength?] using hdelimiter

theorem scanKey_follows : scanKey.Follows mode .key := by
  intro before ahead
  have hle := keyNameLength_le (units ahead)
  have hpos := length_units_take_pos (keyNameLength_le ahead)
  rw [← keyNameLength_units] at hpos
  rw [scanKey, atLineStart?_between, rest?_between]
  simp only [Option.bind_eq_bind, Option.bind_some, keyNameLength?_eq, byteChars_bytes, Rule.key]
  split
  · by_cases hname : 0 < keyNameLength ahead
    · have hgap := keyGapLength?_eq (hle.trans_eq (length_byteChars _))
      rw [byteChars_bytes, keyNameLength_units, drop_units, encodes_keyGapLength?] at hgap
      rw [if_neg (Nat.ne_of_gt (hpos.2 hname)), Piece.ofLength?, dif_pos hname, Option.bind_some]
      simp only [keyNameLength_units, hgap, Option.bind_some]
      cases hlength : Lex.keyGapLength? (ahead.drop (keyNameLength ahead)) with
      | none => rfl
      | some gap =>
        obtain ⟨hsign, rfl⟩ := keyGapLength?_eq_some hlength
        have hpieces := inBytes_gap (length_takeWhile_le isSpace _)
          ((congrArg List.head? (drop_length_takeWhile isSpace _)).trans hsign)
        simp only [Option.map_some, Found.ofMatch, Match.pieces, inBytes_cons, hpieces]
        rfl
    · rw [if_pos (Nat.eq_zero_of_not_pos (mt hpos.1 hname)), Piece.ofLength?, dif_neg hname]
      rfl
  · rfl

/-! ## Strings and white space -/

/-- A run of a class, if it is not empty. -/
theorem single_run {p : Char → Bool} (hp : Plain p) (kind : Token.Kind) (ahead : List Char) :
    (if 0 < runLength p (bytes (String.ofList ahead)) then
        some (Found.single kind (runLength p (bytes (String.ofList ahead)))) else none) =
      (Match.single? kind (ahead.takeWhile p).length .stay).map (.ofMatch ahead) := by
  rw [runLength_eq, byteChars_bytes, length_takeWhile_units hp, Match.single?, Piece.ofLength?,
    if_congr (length_units_take_pos (length_takeWhile_le p ahead)) rfl rfl]
  split
  · rw [Option.map_some, Option.map_some, ofMatch_single]
    rfl
  · rfl

theorem scanStringOpen_follows : scanStringOpen.Follows mode .stringOpen := by
  intro before ahead
  have hquote := head?_units_bind_ofChar? ahead
  rw [units, byteChars, List.head?_map, Option.bind_map] at hquote
  simp only [scanStringOpen, rest?_between, Rule.stringOpen, Option.bind_eq_bind,
    Option.bind_some]
  refine congrArg some ?_
  show Option.map _ ((bytes (String.ofList ahead)).head?.bind (Quote.ofChar? ∘ Char.ofUInt8)) = _
  rw [hquote]
  cases hopen : ahead.head?.bind Quote.ofChar? with
  | none => rfl
  | some quote =>
    obtain ⟨c, hc, hchar⟩ := Option.bind_eq_some_iff.1 hopen
    rw [Quote.ofChar?_eq_some_iff.1 hchar] at hc
    simp [ofMatch_single, length_units_take_one (toNat_char_lt quote) hc]

theorem scanWhitespace_follows : scanWhitespace.Follows mode .whitespace := by
  intro before ahead
  rw [Rule.whitespace, ← single_run plain_isWhite, scanWhitespace, rest?_between]
  rfl

theorem scanStringText_follows (quote : Quote) :
    scanStringText.Follows (.string quote) (.stringText quote) := by
  intro before ahead
  have hrun := single_run (plain_isStringText quote) .stringLiteral ahead
  simp only [Rule.stringText, stringTextLength]
  rw [← hrun, scanStringText, rest?_between]
  rfl

theorem scanStringEscape_follows : scanStringEscape.Follows mode .stringEscape := by
  intro before ahead
  have hmatch := map_single_units encodes_escapeLength? escapeLength?_pos .stringEscape ahead
  rw [Rule.stringEscape, ← hmatch, scanStringEscape, rest?_between, Option.bind_eq_bind,
    Option.bind_some, escapeLength?_eq, byteChars_bytes]
  cases Lex.escapeLength? (units ahead) <;> rfl

theorem scanStringEscapeInvalid_follows :
    scanStringEscapeInvalid.Follows mode .stringEscapeInvalid := by
  intro before ahead
  have hslash : isAt (· == '\\') (bytes (String.ofList ahead)) 0 = true ↔
      ahead.head? = some '\\' := by
    rw [isAt_eq, byteChars_bytes, List.drop_zero, any_beq_iff, head?_units_eq_some (by decide)]
  have hmatch := map_single (@invalidEscapeLength?_pos ahead) .stringEscapeInvalid ahead
  simp only [Rule.stringEscapeInvalid, ← hmatch, scanStringEscapeInvalid, rest?_between,
    Option.bind_eq_bind, Option.bind_some, hslash]
  split
  · next hhead =>
    obtain ⟨rest, rfl⟩ := List.head?_eq_some_iff.1 hhead
    have hnext := charAt?_between before rest mode ['\\']
    have hpos : (Cursor.between before ('\\' :: rest) mode).pos = (units before).length := rfl
    have hone : (units ['\\']).length = 1 := rfl
    rw [hone, List.singleton_append] at hnext
    rw [hpos, hnext, invalidEscapeLength?_cons, if_pos rfl, Option.bind_some]
    cases rest with
    | nil => rfl
    | cons c rest =>
      have hboth : (units ['\\', c]).length = 1 + c.utf8Size := by
        rw [units_cons_of_ascii (by decide), List.length_cons, length_units_singleton,
          Nat.add_comm]
      cases hc : isLineEnd c with
      | true => simp [hc, hone, Option.filter]
      | false => simp [hc, hboth, Option.filter]
  · next hhead =>
    have hnone : invalidEscapeLength? ahead = none := by
      cases ahead with
      | nil => rfl
      | cons c rest => rw [invalidEscapeLength?_cons, if_neg fun hc => hhead (by rw [hc]; rfl)]
    rw [hnone]
    rfl

theorem scanStringClose_follows (quote : Quote) :
    scanStringClose.Follows (.string quote) (.stringClose quote) := by
  intro before ahead
  have hclose : isAt (· == quote.char) (bytes (String.ofList ahead)) 0 = true ↔
      ahead.head? = some quote.char := by
    rw [isAt_eq, byteChars_bytes, List.drop_zero, any_beq_iff,
      head?_units_eq_some (toNat_char_lt quote)]
  have hopened : (Cursor.between before ahead (.string quote)).quote? = some quote := rfl
  simp only [scanStringClose, hopened, rest?_between, Rule.stringClose, Option.bind_eq_bind,
    Option.bind_some, hclose]
  split
  · next hclose =>
    simp [ofMatch_single, length_units_take_one (toNat_char_lt quote) hclose]
  · rfl

end

/-! ## Scans -/

/-- The scanners of a mode and its rules, in the same order. -/
theorem scanners_follow (mode : Mode) :
    List.Forall₂ (fun scanner rule => Scanner.Follows scanner mode rule) (scannersOf mode)
      (rulesOf mode) := by
  cases mode with
  | root =>
    exact .cons scanComment_follows <| .cons scanArrayTableHeader_follows <|
      .cons scanTableHeader_follows <| .cons scanKey_follows <| .cons scanDateTimeTz_follows <|
      .cons scanDateTime_follows <| .cons scanDate_follows <| .cons scanFloat_follows <|
      .cons scanInteger_follows <| .cons scanBoolean_follows <| .cons scanStringOpen_follows <|
      .cons scanWhitespace_follows .nil
  | string quote =>
    exact .cons (scanStringText_follows quote) <| .cons scanStringEscape_follows <|
      .cons scanStringEscapeInvalid_follows <| .cons (scanStringClose_follows quote) .nil

theorem firstFound?_between {mode : Mode} {scanners : List Scanner} {rules : List Rule}
    (h : List.Forall₂ (fun scanner rule => Scanner.Follows scanner mode rule) scanners rules)
    (before ahead : List Char) :
    firstFound? (.between before ahead mode) scanners =
      some ((rules.findSome? fun rule => rule.scan (Behind.start.after before) ahead).map
        (.ofMatch ahead)) := by
  induction h with
  | nil => rfl
  | @cons scanner rule scanners rules hfirst hmore ih =>
    rw [firstFound?, hfirst before ahead, List.findSome?_cons]
    cases rule.scan (Behind.start.after before) ahead with
    | none => exact ih
    | some found => rfl

theorem scanUnknown_between (before : List Char) {ahead : List Char} (mode : Mode)
    (h : ahead ≠ []) :
    scanUnknown (.between before ahead mode) = some (.ofMatch ahead (unknown ahead)) := by
  have hrun := length_takeWhile_units plain_isWord ahead
  have hword := length_units_take_pos (length_takeWhile_le isWord ahead)
  rw [← hrun] at hword
  have hfound : Found.ofMatch ahead (unknown ahead) = .single .unknown
      (units (ahead.take (max 1 (ahead.takeWhile isWord).length))).length :=
    ofMatch_single ahead _ _
  simp only [scanUnknown, rest?_between, Option.bind_eq_bind, Option.bind_some, runLength_eq,
    byteChars_bytes, hfound]
  split
  · next hpos => rw [Nat.max_eq_right (hword.1 hpos), hrun, Option.pure_def]
  · next hzero =>
    have hchar : (Cursor.between before ahead mode).charAt?
        (Cursor.between before ahead mode).pos = some ahead.head? :=
      charAt?_between before ahead mode []
    obtain ⟨c, rest, rfl⟩ := List.exists_cons_of_ne_nil h
    rw [hchar, Nat.eq_zero_of_not_pos (mt hword.2 hzero)]
    exact congrArg (fun n => some (Found.single .unknown n)) (length_units_singleton c).symm

/-- **A scan by bytes.** At a position inside the text there is a result, and it is the match in
bytes. -/
theorem scan?_between (before : List Char) {ahead : List Char} (mode : Mode) (h : ahead ≠ []) :
    scan? (.between before ahead mode) =
      some (.ofMatch ahead (scan mode (Behind.start.after before) ahead)) := by
  have hfirst := firstFound?_between (scanners_follow mode) before ahead
  have hmode : scannersOf (Cursor.between before ahead mode).mode = scannersOf mode := rfl
  rw [scan?, hmode, hfirst, scan]
  cases (rulesOf mode).findSome? fun rule => rule.scan (Behind.start.after before) ahead with
  | none => exact scanUnknown_between before mode h
  | some found => rfl

end TomlEditor.Lex.Bytewise
