import TomlEditor.Lex.TokenStream
import TomlEditor.Proofs.Lex.Modes

/-!
# Tokens on demand and all at once

What a stream has yet to give out are the tokens in its queue and those that
lexing the rest of its text makes. Making the tokens of one more match moves
them from the second part to the first, so a call takes the first of them and
leaves the others. The state moves on with a whole match, ahead of the tokens in
the queue. This cannot be seen: only keys are queued in groups, and no token of
such a group does anything to the mode.
-/

namespace TomlEditor

namespace Lex

/-- The pieces of a match take as many bytes as the text that it covers. -/
theorem byteCount_cut {pieces : List Piece} {text : List Char} (h : covered pieces ≤ text.length) :
    byteCount (cut pieces text) = (String.ofList (text.take (covered pieces))).utf8ByteSize :=
  byteCount_of_flatMap (flatMap_cut h)

end Lex

/-- A state that a text can start in has at most one string open. -/
theorem ModeStack.modes_ofMode (mode : Mode) :
    (ofMode mode).modes = [.root] ∨ ∃ quote, (ofMode mode).modes = [.root, .string quote] := by
  cases mode with
  | root => exact .inl rfl
  | string quote => exact .inr ⟨quote, rfl⟩

namespace TokenStream

open TomlEditor.Lex

/-! ## What is left to give out -/

/-- The tokens that a stream has yet to give out, and the state after them. -/
def remaining (stream : TokenStream) : List Token × ModeStack :=
  let lexed := lexemes stream.state stream.behind stream.ahead
  (stream.queue ++ place stream.offset lexed.1, lexed.2)

theorem remaining_ofText (text : String) (state : ModeStack) :
    (ofText text state).remaining = tokenize text state := rfl

theorem remaining_of_exhausted {stream : TokenStream} (hqueue : stream.queue = [])
    (hahead : stream.ahead = []) : stream.remaining = ([], stream.state) := by
  simp [remaining, hqueue, hahead]

/-- A stream that has nothing left to give has come to the end of its text. -/
theorem state_of_remaining {stream : TokenStream} {state : ModeStack}
    (h : stream.remaining = ([], state)) : stream.state = state := by
  have htokens : stream.queue ++ place stream.offset
      (lexemes stream.state stream.behind stream.ahead).1 = [] := congrArg Prod.fst h
  obtain ⟨hqueue, hplace⟩ := List.append_eq_nil_iff.1 htokens
  have hnone : (lexemes stream.state stream.behind stream.ahead).1 = [] :=
    List.length_eq_zero_iff.1 (by rw [← length_place stream.offset, hplace, List.length_nil])
  have hahead := flatMap_lexemes stream.state stream.behind stream.ahead
  rw [hnone, List.flatMap_nil] at hahead
  exact congrArg Prod.snd ((remaining_of_exhausted hqueue hahead.symm).symm.trans h)

theorem remaining_step {stream : TokenStream} (h : stream.ahead ≠ []) :
    stream.step.remaining = stream.remaining := by
  have hbytes := byteCount_cut (covered_scan_le stream.state.mode stream.behind h)
  rw [covered_pieces] at hbytes
  simp only [remaining, step]
  rw [lexemes_step _ _ h, place_append, hbytes, List.append_assoc]

/-- A call takes the first token from the queue if there is one, and otherwise from the match that
it makes, unless no text is left. -/
theorem next_cases (stream : TokenStream) :
    (∃ token more, stream.queue = token :: more ∧
        stream.next = (some token, { stream with queue := more })) ∨
      (stream.queue = [] ∧ stream.ahead ≠ [] ∧ ∃ token more, stream.step.queue = token :: more ∧
        stream.next = (some token, { stream.step with queue := more })) ∨
      (stream.queue = [] ∧ stream.ahead = [] ∧ stream.next = (none, stream)) := by
  cases hqueue : stream.queue with
  | cons token more =>
    refine .inl ⟨token, more, rfl, ?_⟩
    simp [next, fill, hqueue]
  | nil =>
    by_cases hahead : stream.ahead = []
    · refine .inr (.inr ⟨rfl, hahead, ?_⟩)
      obtain ⟨ahead, offset, behind, state, queue⟩ := stream
      obtain rfl : ahead = [] := hahead
      obtain rfl : queue = [] := hqueue
      rfl
    · refine .inr (.inl ⟨rfl, hahead, ?_⟩)
      have hfill : stream.fill = stream.step := by
        simp [fill, hqueue, hahead]
      cases hstep : stream.step.queue with
      | nil => simp [step, hqueue, Match.pieces, cut] at hstep
      | cons token more => exact ⟨token, more, rfl, by simp [next, hfill, hstep]⟩

/-- A call gives the first token that is left, and leaves the others. -/
theorem next_remaining (stream : TokenStream) :
    stream.next.1 = stream.remaining.1.head? ∧
      stream.next.2.remaining = (stream.remaining.1.tail, stream.remaining.2) := by
  rcases next_cases stream with ⟨token, more, hqueue, hnext⟩ |
    ⟨-, hahead, token, more, hqueue, hnext⟩ | ⟨hqueue, hahead, hnext⟩
  · rw [hnext]
    simp [remaining, hqueue]
  · rw [hnext, ← remaining_step hahead]
    simp [remaining, hqueue]
  · rw [hnext, remaining_of_exhausted hqueue hahead]
    exact ⟨rfl, rfl⟩

/-! ## Where a stream stands -/

/-- A stream that stands in a mode: the state is already the one behind the queue, but no token of
the queue does anything to the mode. -/
structure StandsIn (stream : TokenStream) (mode : Mode) : Prop where
  state_eq : stream.state = .ofMode mode
  quiet : ∀ token ∈ stream.queue, token.kind.isOfString = false
  feedless : ∀ token ∈ stream.queue, '\n' ∉ token.text.toList
  /-- Only at the top level are tokens queued. -/
  root : stream.queue ≠ [] → mode = .root

theorem standsIn_ofText (text : String) (mode : Mode) :
    (ofText text (.ofMode mode)).StandsIn mode :=
  ⟨rfl, by simp [ofText], by simp [ofText], by simp [ofText]⟩

/-- What one match puts into an empty queue: one token, or a group at the top level that does
nothing to the mode and stays in its line. -/
theorem StandsIn.step_cases {stream : TokenStream} {mode : Mode} (h : stream.StandsIn mode)
    (hqueue : stream.queue = []) (hahead : stream.ahead ≠ []) :
    (∃ token, stream.step.queue = [token] ∧
        stream.step.state = .ofMode (mode.afterToken token) ∧
        stream.step.behind = stream.behind.after token.text.toList) ∨
      (mode = .root ∧ stream.step.StandsIn mode) := by
  have hmode : stream.state.mode = mode := by rw [h.state_eq, ModeStack.mode_ofMode]
  have hplaced : stream.step.queue = place stream.offset
      (cut (scan mode stream.behind stream.ahead).pieces stream.ahead) := by
    simp [step, hqueue, hmode]
  obtain ⟨-, hstate⟩ := scan_follows mode stream.behind hahead stream.offset
  rw [← hplaced, ← h.state_eq] at hstate
  have hafter : stream.step.state = .ofMode (stream.step.queue.foldl Mode.afterToken mode) := by
    rw [← hstate, step, hmode]
  by_cases hmore : (scan mode stream.behind stream.ahead).more = []
  · left
    have hpieces : (scan mode stream.behind stream.ahead).pieces =
        [(scan mode stream.behind stream.ahead).first] := by
      rw [Match.pieces, hmore]
    rw [hpieces] at hplaced
    refine ⟨_, hplaced, ?_, ?_⟩
    · rw [hafter, hplaced]
      rfl
    · simp [step, hmode, Match.length, hpieces]
  · right
    obtain ⟨rfl, hkey⟩ := scan_key_of_more hahead hmore
    obtain ⟨-, hpieces⟩ := Rule.key_pieces hkey
    have hquiet := place_cut_not_isOfString hpieces stream.offset stream.ahead
    rw [← hplaced] at hquiet
    refine ⟨rfl, ?_, hquiet, ?_, fun _ => rfl⟩
    · rw [hafter, Mode.foldl_afterToken_of_not_isOfString hquiet]
    · intro token htoken
      rw [hplaced] at htoken
      obtain ⟨before, lexeme, after, hsplit, rfl⟩ := mem_place htoken
      exact Rule.key_feedless hkey lexeme (by simp [hsplit])

/-- Taking a token from the queue does nothing to the mode. -/
theorem StandsIn.pop {stream : TokenStream} {mode : Mode} (h : stream.StandsIn mode)
    {token : Token} {more : List Token} (hqueue : stream.queue = token :: more) :
    TokenStream.StandsIn { stream with queue := more } (mode.afterToken token) := by
  rw [Mode.afterToken_of_not_isOfString (h.quiet token (by simp [hqueue]))]
  refine ⟨h.state_eq, ?_, ?_, fun _ => h.root (by simp [hqueue])⟩
  · intro other hother
    exact h.quiet other (by simp [hqueue, hother])
  · intro other hother
    exact h.feedless other (by simp [hqueue, hother])

/-- **One call.** Behind the token that it gives out a stream stands in the mode behind that token. -/
theorem StandsIn.next {stream : TokenStream} {mode : Mode} (h : stream.StandsIn mode) :
    stream.next.2.StandsIn (stream.next.1.elim mode mode.afterToken) := by
  rcases next_cases stream with ⟨token, more, hqueue, hnext⟩ |
    ⟨hempty, hahead, token, more, hqueue, hnext⟩ | ⟨-, -, hnext⟩
  · rw [hnext]
    exact h.pop hqueue
  · rw [hnext]
    rcases h.step_cases hempty hahead with ⟨first, hfirst, hstate, -⟩ | ⟨-, hstands⟩
    · obtain ⟨rfl, rfl⟩ := List.cons.inj (hfirst.symm.trans hqueue)
      exact ⟨hstate, by simp, by simp, by simp⟩
    · exact hstands.pop hqueue
  · rw [hnext]
    exact h

/-! ## Many calls -/

/-- A stream after a number of calls. -/
def after (stream : TokenStream) : Nat → TokenStream
  | 0 => stream
  | calls + 1 => (stream.after calls).next.2

@[simp] theorem after_zero (stream : TokenStream) : stream.after 0 = stream := rfl

theorem after_succ (stream : TokenStream) (calls : Nat) :
    stream.after (calls + 1) = (stream.after calls).next.2 := rfl

theorem after_next (stream : TokenStream) (calls : Nat) :
    stream.next.2.after calls = stream.after (calls + 1) := by
  induction calls with
  | zero => rfl
  | succ calls ih => rw [after_succ, ih, after_succ stream (calls + 1)]

theorem nextMany_eq (stream : TokenStream) (count : Nat) :
    nextMany count stream = (List.range count).map fun calls => (stream.after calls).next := by
  induction count generalizing stream with
  | zero => rfl
  | succ count ih =>
    rw [nextMany, List.range_succ_eq_map, List.map_cons, List.map_map, ih]
    simp [after_next, Function.comp_def]

/-- Each call takes one token from those that are left. -/
theorem remaining_after (stream : TokenStream) (calls : Nat) :
    (stream.after calls).remaining = (stream.remaining.1.drop calls, stream.remaining.2) := by
  induction calls with
  | zero => rfl
  | succ calls ih => rw [after_succ, (next_remaining _).2, ih, List.tail_drop]

/-- A call gives the token in its place, or none behind the last one. -/
theorem next_after (stream : TokenStream) (calls : Nat) :
    (stream.after calls).next.1 = stream.remaining.1[calls]? := by
  rw [(next_remaining _).1, remaining_after, List.head?_drop]

/-- After any number of calls a stream stands in the mode behind the tokens given out. -/
theorem StandsIn.after {stream : TokenStream} {mode : Mode} (h : stream.StandsIn mode)
    (calls : Nat) :
    (stream.after calls).StandsIn
      ((stream.remaining.1.take calls).foldl Mode.afterToken mode) := by
  induction calls with
  | zero => exact h
  | succ calls ih =>
    have hnext := ih.next
    rw [next_after] at hnext
    rw [after_succ, List.take_add_one, List.foldl_append]
    cases htoken : stream.remaining.1[calls]? with
    | none => simpa [htoken] using hnext
    | some token => simpa [htoken] using hnext

/-! ## Agreement -/

/-- The answers of a stream that agrees with the tokens of its text at every call. -/
structure Agrees (mode : Mode) (batch : List Token × ModeStack)
    (answers : List (Option Token × TokenStream)) : Prop where
  /-- The tokens of the text one by one, and then none. -/
  given : answers.map Prod.fst = (List.range answers.length).map fun calls => batch.1[calls]?
  /-- After every call the state is the fold over the tokens given out so far. -/
  states : answers.map (fun answer => answer.2.state) =
    (List.range answers.length).map fun calls =>
      .ofMode ((batch.1.take (calls + 1)).foldl Mode.afterToken mode)
  /-- Every token can stand in the mode behind the ones before it. -/
  admits : ∀ (place : Nat) (token : Token), batch.1[place]? = some token →
    ((batch.1.take place).foldl Mode.afterToken mode).Admits token
  /-- At most one string is open in any state. -/
  modes : ∀ answer ∈ answers, answer.2.state.modes = [.root] ∨
    ∃ quote, answer.2.state.modes = [.root, .string quote]
  /-- From the last token on the state is the one that is handed to the next piece of text. -/
  settled : ∀ (calls : Nat) (answer : Option Token × TokenStream), batch.1.length ≤ calls + 1 →
    answers[calls]? = some answer → answer.2.state = batch.2

/-- **Tokens on demand are the tokens of the text.** Any number of calls gives the tokens that
lexing the text at once makes, one by one and then none, and at every call the state is what the
tokens given out so far make of it. -/
theorem nextMany_agrees (text : String) (mode : Mode) (count : Nat) :
    let answers := nextMany count (ofText text (.ofMode mode))
    answers.length = count ∧ Agrees mode (tokenize text (.ofMode mode)) answers := by
  intro answers
  have hanswers : answers = (List.range count).map fun calls =>
      ((ofText text (.ofMode mode)).after calls).next := nextMany_eq _ count
  have hlength : answers.length = count := by simp [hanswers]
  have hstate : ∀ calls, ((ofText text (.ofMode mode)).after calls).next.2.state =
      .ofMode (((tokenize text (.ofMode mode)).1.take (calls + 1)).foldl Mode.afterToken mode) :=
    fun calls => ((standsIn_ofText text mode).after (calls + 1)).state_eq
  obtain ⟨hfits, hlast⟩ := lexemes_follow mode .start text.toList 0
  refine ⟨hlength, ?_, ?_, fun place token => hfits.admits, ?_, ?_⟩
  · rw [hlength, hanswers, List.map_map]
    exact List.map_congr_left fun calls _ => next_after _ calls
  · rw [hlength, hanswers, List.map_map]
    exact List.map_congr_left fun calls _ => hstate calls
  · intro answer hanswer
    rw [hanswers] at hanswer
    obtain ⟨calls, -, rfl⟩ := List.mem_map.1 hanswer
    rw [hstate]
    exact ModeStack.modes_ofMode _
  · intro calls answer hend hanswer
    rw [hanswers, List.getElem?_map] at hanswer
    obtain ⟨place, hplace, rfl⟩ := Option.map_eq_some_iff.1 hanswer
    obtain ⟨hlt, hsame⟩ := List.getElem?_eq_some_iff.1 hplace
    rw [List.getElem_range] at hsame
    subst hsame
    rw [hstate, List.take_of_length_le hend]
    exact hlast.symm

end TokenStream

end TomlEditor
