import Mathlib.Order.Bounds.Basic
import TomlEditor.Proofs.Lex.ScalarLength
import TomlEditor.Proofs.Text.Bytes

/-!
# Values are the longest free words of their grammar

A value is a word of its grammar with no other word glued to it on either side.
The lexer does not search for such words. It looks at one length, or at two for
a date with a time, and the lengths are enough: every free word in front of a
text is among them, and the longer one is tried first.
-/

namespace TomlEditor.Lex

open Text RegularExpression Grammar

/-! ## Candidates -/

/-- The first `n` characters of the text ahead are a word of the language, and no other word
touches them. -/
structure StandsFree (words : Language Char) (behind : Behind) (ahead : List Char)
    (n : Nat) : Prop where
  length_le : n ≤ ahead.length
  mem : ahead.take n ∈ words
  before : behind.afterWord = false
  after : (ahead.drop n).head?.any isWord = false

theorem bounded_eq_some_iff {behind : Behind} {ahead : List Char} {length n : Nat} :
    bounded behind ahead length = some n ↔
      length = n ∧ behind.afterWord = false ∧ (ahead.drop length).head?.any isWord = false := by
  rw [bounded, Option.ite_none_left_eq_some, Bool.or_eq_true, not_or, Bool.not_eq_true,
    Bool.not_eq_true, Option.some.injEq]
  exact ⟨fun h => ⟨h.2, h.1⟩, fun h => ⟨h.2, h.1⟩⟩

/-- Some lengths, the longest first, that are those of all free words in front of a text. -/
structure IsCandidates (words : Language Char) (ahead : List Char) (lengths : List Nat) :
    Prop where
  decreasing : lengths.Pairwise (· ≥ ·)
  sound : ∀ n ∈ lengths, n ≤ ahead.length ∧ ahead.take n ∈ words
  complete : ∀ word rest, ahead = word ++ rest → word ∈ words →
    rest.head?.any isWord = false → word.length ∈ lengths

namespace IsCandidates

variable {words : Language Char} {ahead : List Char} {lengths : List Nat}

theorem mem_of_standsFree (h : IsCandidates words ahead lengths) {behind : Behind} {n : Nat}
    (hfree : StandsFree words behind ahead n) : n ∈ lengths := by
  have hmem := h.complete _ _ (List.take_append_drop n ahead).symm hfree.mem hfree.after
  rwa [List.length_take, Nat.min_eq_left hfree.length_le] at hmem

theorem bounded_iff (h : IsCandidates words ahead lengths) {behind : Behind} {length n : Nat}
    (hlength : length ∈ lengths) :
    bounded behind ahead length = some n ↔ length = n ∧ StandsFree words behind ahead n := by
  obtain ⟨hle, hmem⟩ := h.sound length hlength
  rw [bounded_eq_some_iff]
  constructor
  · rintro ⟨rfl, hbefore, hafter⟩
    exact ⟨rfl, hle, hmem, hbefore, hafter⟩
  · rintro ⟨rfl, hfree⟩
    exact ⟨rfl, hfree.before, hfree.after⟩

theorem isGreatest (h : IsCandidates words ahead lengths) {behind : Behind} {n : Nat}
    (hfirst : lengths.findSome? (bounded behind ahead) = some n) :
    IsGreatest {n | StandsFree words behind ahead n} n := by
  obtain ⟨longer, length, shorter, rfl, hbounded, hlonger⟩ := List.findSome?_eq_some_iff.1 hfirst
  obtain ⟨rfl, hfree⟩ := (h.bounded_iff (by simp)).1 hbounded
  refine ⟨hfree, ?_⟩
  intro m hm
  have hdecreasing := (List.pairwise_append.1 h.decreasing).2.1
  have hmem := h.mem_of_standsFree hm
  rcases List.mem_append.1 hmem with hbefore | hafter
  · -- A longer candidate that stands free would have been taken.
    have hnone := hlonger m hbefore
    rw [(h.bounded_iff hmem).2 ⟨rfl, hm⟩] at hnone
    exact absurd hnone (by simp)
  · rcases List.mem_cons.1 hafter with rfl | hshorter
    · exact Nat.le_refl m
    · exact (List.pairwise_cons.1 hdecreasing).1 m hshorter

theorem findSome?_eq_none_iff (h : IsCandidates words ahead lengths) {behind : Behind} :
    lengths.findSome? (bounded behind ahead) = none ↔ ∀ n, ¬StandsFree words behind ahead n := by
  rw [List.findSome?_eq_none_iff]
  constructor
  · intro hnone n hfree
    have hmem := h.mem_of_standsFree hfree
    have hnone := hnone n hmem
    rw [(h.bounded_iff hmem).2 ⟨rfl, hfree⟩] at hnone
    exact absurd hnone (by simp)
  · intro hnone length hlength
    cases hbounded : bounded behind ahead length with
    | none => rfl
    | some n => exact absurd ((h.bounded_iff hlength).1 hbounded).2 (hnone n)

theorem findSome?_eq_some_iff (h : IsCandidates words ahead lengths) {behind : Behind} {n : Nat} :
    lengths.findSome? (bounded behind ahead) = some n ↔
      IsGreatest {n | StandsFree words behind ahead n} n := by
  refine ⟨h.isGreatest, ?_⟩
  intro hgreatest
  cases hfirst : lengths.findSome? (bounded behind ahead) with
  | none => exact absurd hgreatest.1 (h.findSome?_eq_none_iff.1 hfirst n)
  | some m => rw [(h.isGreatest hfirst).unique hgreatest]

/-- A length function that reads the words of a language gives the only candidate there is. -/
theorem ofLength? {length? : List Char → Option Nat}
    (hle : ∀ {n}, length? ahead = some n → n ≤ ahead.length)
    (hsound : ∀ {n}, length? ahead = some n → ahead.take n ∈ words)
    (hcomplete : ∀ {word rest}, word ∈ words → rest.head?.any isWord = false →
      length? (word ++ rest) = some word.length) :
    IsCandidates words ahead (length? ahead).toList := by
  refine ⟨?_, ?_, ?_⟩
  · cases length? ahead <;> simp
  · intro n hn
    have hsome := Option.mem_toList.1 hn
    exact ⟨hle hsome, hsound hsome⟩
  · rintro word rest rfl hword hrest
    rw [hcomplete hword hrest]
    simp

end IsCandidates

/-! ## Dates with times -/

/-- The length of a date and a time with an offset. -/
def dateTimeTzLength? (ahead : List Char) : Option Nat :=
  (dateTimeLength? ahead).bind fun time =>
    let head := time + secondFractionLength (ahead.drop time)
    (offsetLength? (ahead.drop head)).map (head + ·)

/-- The length of a date and a time with the fraction of the second, then without it. -/
def dateTimeLengths (ahead : List Char) : List Nat :=
  (dateTimeLength? ahead).elim [] fun time =>
    [time + secondFractionLength (ahead.drop time), time]

theorem scanDateTimeTz_eq (behind : Behind) (ahead : List Char) :
    scanDateTimeTz behind ahead = (dateTimeTzLength? ahead).bind (bounded behind ahead) := by
  rw [scanDateTimeTz, dateTimeTzLength?]
  cases dateTimeLength? ahead with
  | none => rfl
  | some time => simp [Option.bind_map]

theorem scanDateTime_eq (behind : Behind) (ahead : List Char) :
    scanDateTime behind ahead = (dateTimeLengths ahead).findSome? (bounded behind ahead) := by
  rw [scanDateTime, dateTimeLengths]
  cases dateTimeLength? ahead with
  | none => rfl
  | some time =>
    simp only [Option.bind_some, Option.elim_some, List.findSome?_cons, List.findSome?_nil]
    cases bounded behind ahead (time + secondFractionLength (ahead.drop time)) with
    | none => cases bounded behind ahead time <;> rfl
    | some n => rfl

theorem dateTimeLength?_sound {ahead : List Char} {time : Nat}
    (h : dateTimeLength? ahead = some time) : ahead.take time ∈ (date * Grammar.time).matches' := by
  rw [matches'_date_mul_time]
  exact slotsLength?_sound h

theorem dateTimeLength?_of_mem {word : List Char} (hword : word ∈ (date * time).matches')
    (rest : List Char) : dateTimeLength? (word ++ rest) = some word.length := by
  rw [matches'_date_mul_time] at hword
  exact slotsLength?_of_mem hword rest

theorem take_dateTime_mem {ahead : List Char} {time : Nat} (h : dateTimeLength? ahead = some time) :
    ahead.take (time + secondFractionLength (ahead.drop time)) ∈ dateTime.matches' := by
  rw [dateTime, matches'_mul, List.take_add]
  exact Language.append_mem_mul (dateTimeLength?_sound h) (secondFractionLength_sound _)

theorem mem_dateTime {word : List Char} :
    word ∈ dateTime.matches' ↔
      ∃ whole ∈ (date * time).matches', ∃ fraction ∈ (maybe secondFraction).matches',
        whole ++ fraction = word := by
  rw [dateTime, matches'_mul, Language.mem_mul]

theorem isCandidates_dateTimeTz (ahead : List Char) :
    IsCandidates dateTimeTz.matches' ahead (dateTimeTzLength? ahead).toList := by
  apply IsCandidates.ofLength?
  · intro n h
    obtain ⟨time, htime, hbehind⟩ := Option.bind_eq_some_iff.1 h
    obtain ⟨offset, hoffset, rfl⟩ := Option.map_eq_some_iff.1 hbehind
    have hhead := dateTime_reach htime
    have hle := offsetLength?_le hoffset
    rw [List.length_drop] at hle
    omega
  · intro n h
    obtain ⟨time, htime, hbehind⟩ := Option.bind_eq_some_iff.1 h
    obtain ⟨offset, hoffset, rfl⟩ := Option.map_eq_some_iff.1 hbehind
    rw [dateTimeTz, matches'_mul, List.take_add]
    exact Language.append_mem_mul (take_dateTime_mem htime) (offsetLength?_sound hoffset)
  · intro word rest hword hrest
    rw [dateTimeTz, matches'_mul, Language.mem_mul] at hword
    obtain ⟨front, hfront, last, hlast, rfl⟩ := hword
    obtain ⟨whole, hwhole, part, hpart, rfl⟩ := mem_dateTime.1 hfront
    obtain ⟨hoffset, c, more, rfl, hdigit, hpoint⟩ := offsetLength?_of_mem hlast rest
    have hfraction : secondFractionLength (part ++ (c :: more ++ rest)) = part.length := by
      rcases mem_maybe.1 hpart with rfl | hpart
      · exact secondFractionLength_of_head (by simpa using hpoint)
      · exact secondFractionLength_of_mem hpart (by simpa using hdigit)
    rw [List.append_assoc, List.append_assoc, dateTimeTzLength?, dateTimeLength?_of_mem hwhole,
      Option.bind_some]
    simp only [List.drop_left, hfraction, ← List.drop_drop, hoffset, Option.map_some,
      List.length_append]

theorem isCandidates_dateTime (ahead : List Char) :
    IsCandidates dateTime.matches' ahead (dateTimeLengths ahead) := by
  refine ⟨?_, ?_, ?_⟩
  · cases htime : dateTimeLength? ahead <;> simp [dateTimeLengths, htime]
  · intro n hn
    cases htime : dateTimeLength? ahead with
    | none => simp [dateTimeLengths, htime] at hn
    | some time =>
      have hreach := dateTime_reach htime
      rw [dateTimeLengths, htime, Option.elim_some, List.mem_cons, List.mem_singleton] at hn
      rcases hn with rfl | rfl
      · exact ⟨hreach, take_dateTime_mem htime⟩
      · refine ⟨by omega, mem_dateTime.2 ⟨_, dateTimeLength?_sound htime, [], ?_, by simp⟩⟩
        exact mem_maybe.2 (.inl rfl)
  · rintro word rest rfl hword hrest
    obtain ⟨whole, hwhole, part, hpart, rfl⟩ := mem_dateTime.1 hword
    rw [List.append_assoc, dateTimeLengths, dateTimeLength?_of_mem hwhole, Option.elim_some,
      List.drop_left, List.length_append]
    rcases mem_maybe.1 hpart with rfl | hpart
    · simp
    · rw [secondFractionLength_of_mem hpart (head?_any_false (fun _ => isWord_of_isDigit) hrest)]
      exact List.mem_cons_self

/-! ## Free words in bytes -/

/-- ASCII characters take one byte each. -/
theorem length_bytes_ascii {text : List Char} (h : ∀ c ∈ text, c.utf8Size = 1) :
    (bytes (String.ofList text)).length = text.length := by
  induction text with
  | nil => rfl
  | cons c rest ih =>
    obtain ⟨hc, hrest⟩ := List.forall_mem_cons.1 h
    rw [bytes_ofList, List.flatMap_cons, ← bytes_ofList, List.length_append, ih hrest,
      String.length_utf8EncodeChar, hc, List.length_cons, Nat.add_comm]

/-- The byte behind an ASCII word is the first one of what follows. -/
theorem getElem?_bytes_ascii {word : List Char} (h : ∀ c ∈ word, c.utf8Size = 1)
    (rest : List Char) :
    (bytes (String.ofList (word ++ rest)))[word.length]? = (bytes (String.ofList rest)).head? := by
  rw [String.ofList_append, bytes_append, ← length_bytes_ascii h,
    List.getElem?_append_right (Nat.le_refl _), Nat.sub_self, List.head?_eq_getElem?]

/-- The `n` bytes behind a place in a text are a word of the language, and neither the byte
before the place nor the one after the `n` bytes is a letter, a digit or an underscore. -/
structure IsFreeWord (words : Language Char) (before after : String) (n : Nat) : Prop where
  length_le : n ≤ (bytes after).length
  mem : ∃ word ∈ words, bytes (String.ofList word) = (bytes after).take n
  before : (bytes before).getLast?.any isWordByte = false
  after : (bytes after)[n]?.any isWordByte = false

/-- In a language of ASCII words, bytes and characters count the same. -/
theorem isFreeWord_iff {words : Language Char}
    (hascii : ∀ word ∈ words, ∀ c ∈ word, c.utf8Size = 1) {before after : String} {n : Nat} :
    IsFreeWord words before after n ↔
      StandsFree words (Behind.start.after before.toList) after.toList n := by
  have hbefore : (Behind.start.after before.toList).afterWord =
      (bytes before).getLast?.any isWordByte := by
    rw [afterWord_after, ← getLast?_bytes, String.ofList_toList]
  constructor
  · intro h
    obtain ⟨word, hword, hbytes⟩ := h.mem
    have hlength : word.length = n := by
      rw [← length_bytes_ascii (hascii word hword), hbytes, List.length_take,
        Nat.min_eq_left h.length_le]
    have hprefix : word <+: after.toList := by
      apply isPrefix_of_bytes
      rw [hbytes, String.ofList_toList]
      exact List.take_prefix n _
    obtain ⟨rest, hrest⟩ := hprefix
    have hnext := h.after
    rw [← String.ofList_toList (s := after), ← hrest, ← hlength,
      getElem?_bytes_ascii (hascii word hword), head?_bytes] at hnext
    rw [← hrest, ← hlength]
    refine ⟨by simp, ?_, hbefore.trans h.before, ?_⟩
    · rwa [List.take_left]
    · rwa [List.drop_left]
  · intro h
    have hword := hascii _ h.mem
    have hlength : (after.toList.take n).length = n := by
      rw [List.length_take, Nat.min_eq_left h.length_le]
    have hsplit : bytes after =
        bytes (String.ofList (after.toList.take n)) ++
          bytes (String.ofList (after.toList.drop n)) := by
      rw [← bytes_append, ← String.ofList_append, List.take_append_drop, String.ofList_toList]
    have hsize := (length_bytes_ascii hword).trans hlength
    refine ⟨?_, ⟨_, h.mem, ?_⟩, hbefore.symm.trans h.before, ?_⟩
    · rw [hsplit, List.length_append, hsize]
      exact Nat.le_add_right n _
    · rw [hsplit, List.take_left' hsize]
    · rw [hsplit, List.getElem?_append_right (by omega), hsize, Nat.sub_self,
        ← List.head?_eq_getElem?, head?_bytes]
      exact h.after

/-- The number of bytes that a rule takes at a place, if it matches there. -/
def Rule.matched? (rule : Rule) (before after : String) : Option Nat :=
  (rule.scan (Behind.start.after before.toList) after.toList).map fun found =>
    (String.ofList (after.toList.take found.length)).utf8ByteSize

/-! ## The six kinds of values -/

inductive Scalar
  | dateTimeTz
  | dateTime
  | date
  | float
  | integer
  | boolean

namespace Scalar

def rule : Scalar → Rule
  | dateTimeTz => .scalar "date-time-tz" .dateTimeTz scanDateTimeTz
  | dateTime => .scalar "date-time" .dateTime scanDateTime
  | date => .scalar "date" .date scanDate
  | float => .scalar "float" .float scanFloat
  | integer => .scalar "integer" .integer scanInteger
  | boolean => .scalar "boolean" .boolean scanBoolean

def grammar : Scalar → RegularExpression Char
  | dateTimeTz => Grammar.dateTimeTz
  | dateTime => Grammar.dateTime
  | date => Grammar.date
  | float => Grammar.float
  | integer => Grammar.integer
  | boolean => Grammar.boolean

/-- The lengths that the lexer looks at, the longest first. -/
def lengths : Scalar → List Char → List Nat
  | dateTimeTz, ahead => (dateTimeTzLength? ahead).toList
  | dateTime, ahead => dateTimeLengths ahead
  | date, ahead => (dateLength? ahead).toList
  | float, ahead => (floatLength? ahead).toList
  | integer, ahead => (integerLength? ahead).toList
  | boolean, ahead => (booleanLength? ahead).toList

theorem rule_mem (scalar : Scalar) : scalar.rule ∈ rootRules := by
  cases scalar <;> simp [rule, rootRules]

theorem isCandidates (scalar : Scalar) (ahead : List Char) :
    IsCandidates scalar.grammar.matches' ahead (scalar.lengths ahead) := by
  cases scalar with
  | dateTimeTz => exact isCandidates_dateTimeTz ahead
  | dateTime => exact isCandidates_dateTime ahead
  | date =>
    refine IsCandidates.ofLength? slotsLength?_le slotsLength?_sound ?_
    exact fun hword _ => slotsLength?_of_mem hword _
  | float => exact .ofLength? floatLength?_le floatLength?_sound floatLength?_of_mem
  | integer =>
    refine IsCandidates.ofLength? integerLength?_le integerLength?_sound ?_
    exact fun hword hrest =>
      integerLength?_of_mem hword (head?_any_false (fun _ => isWord_of_isRunDigit) hrest)
  | boolean =>
    refine IsCandidates.ofLength? booleanLength?_le booleanLength?_sound ?_
    exact fun hword _ => booleanLength?_of_mem hword _

/-- The rule takes the first of the lengths at which the text touches no word. -/
theorem rule_scan (scalar : Scalar) (behind : Behind) (ahead : List Char) :
    ∃ kind, scalar.rule.scan behind ahead =
      ((scalar.lengths ahead).findSome? (bounded behind ahead)).bind fun n =>
        Match.single? kind n .stay := by
  have hone : ∀ length? : Option Nat,
      length?.toList.findSome? (bounded behind ahead) = length?.bind (bounded behind ahead) := by
    intro length?
    cases length? <;> simp
  cases scalar with
  | dateTimeTz => exact ⟨.dateTimeTz, by rw [lengths, hone, ← scanDateTimeTz_eq]; rfl⟩
  | dateTime => exact ⟨.dateTime, by rw [lengths, ← scanDateTime_eq]; rfl⟩
  | date => exact ⟨.date, by rw [lengths, hone]; rfl⟩
  | float => exact ⟨.float, by rw [lengths, hone]; rfl⟩
  | integer => exact ⟨.integer, by rw [lengths, hone]; rfl⟩
  | boolean => exact ⟨.boolean, by rw [lengths, hone]; rfl⟩

theorem ascii_of_mem_grammar (scalar : Scalar) {word : List Char}
    (h : word ∈ scalar.grammar.matches') : ∀ c ∈ word, c.utf8Size = 1 := by
  have hover : isOver (·.utf8Size == 1) scalar.grammar = true := by
    cases scalar <;> decide
  exact fun c hc => eq_of_beq (all_of_isOver hover h c hc)

/-- No value is empty. -/
theorem nil_not_mem_grammar (scalar : Scalar) : [] ∉ scalar.grammar.matches' := by
  rw [← rmatch_iff_matches']
  cases scalar <;> decide

/-- A length at which the text touches no word is not zero. -/
theorem pos_of_findSome? (scalar : Scalar) {behind : Behind} {ahead : List Char} {n : Nat}
    (h : (scalar.lengths ahead).findSome? (bounded behind ahead) = some n) : 0 < n := by
  rw [Nat.pos_iff_ne_zero]
  rintro rfl
  exact scalar.nil_not_mem_grammar ((scalar.isCandidates ahead).isGreatest h).1.mem

/-- A match takes as many bytes as the length that it was found at. -/
theorem matched?_rule (scalar : Scalar) (before after : String) :
    scalar.rule.matched? before after =
      (scalar.lengths after.toList).findSome?
        (bounded (Behind.start.after before.toList) after.toList) := by
  obtain ⟨kind, hscan⟩ := scalar.rule_scan (Behind.start.after before.toList) after.toList
  have hcandidates := scalar.isCandidates after.toList
  rw [Rule.matched?, hscan]
  cases hfirst : (scalar.lengths after.toList).findSome?
      (bounded (Behind.start.after before.toList) after.toList) with
  | none => rfl
  | some n =>
    have hfree := (hcandidates.isGreatest hfirst).1
    have hpos := scalar.pos_of_findSome? hfirst
    have hsize := length_bytes_ascii (scalar.ascii_of_mem_grammar hfree.mem)
    rw [length_bytes, List.length_take, Nat.min_eq_left hfree.length_le] at hsize
    rw [Option.bind_some, Match.single?, Piece.ofLength?, dif_pos hpos]
    simpa [Match.length, Match.pieces] using hsize

/-- The rule of a kind of value matches at a place if and only if a word of the grammar stands
free there, and it then takes the longest such word. -/
theorem rule_matches_longest_free_word (scalar : Scalar) (before after : String) :
    scalar.rule ∈ rootRules ∧
      (∀ n, scalar.rule.matched? before after = some n ↔
        IsGreatest {n | IsFreeWord scalar.grammar.matches' before after n} n) ∧
      (scalar.rule.matched? before after = none ↔
        ∀ n, ¬IsFreeWord scalar.grammar.matches' before after n) := by
  have hcandidates := scalar.isCandidates after.toList
  have hiff : ∀ n, IsFreeWord scalar.grammar.matches' before after n ↔
      StandsFree scalar.grammar.matches' (Behind.start.after before.toList) after.toList n :=
    fun n => isFreeWord_iff fun word => scalar.ascii_of_mem_grammar
  simp only [hiff, matched?_rule]
  exact ⟨scalar.rule_mem, fun n => hcandidates.findSome?_eq_some_iff,
    hcandidates.findSome?_eq_none_iff⟩

/-- A fraction that a word touches is left out, and an offset is no part of a date with a time. -/
example :
    dateTime.rule.matched? "" "2020-01-02T03:04:05.67x" = some 19 ∧
      dateTime.rule.matched? "a = " "2020-01-02T03:04:05.67" = some 22 ∧
      dateTime.rule.matched? "" "2020-01-02T03:04:05Z" = none ∧
      float.rule.matched? "" "+1_0.5e" = none := by
  decide +kernel

end Scalar

end TomlEditor.Lex
