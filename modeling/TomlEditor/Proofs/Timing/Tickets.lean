import TomlEditor.Proofs.Timing.Delivery

/-!
# Tickets

A ticket is the number of its call in the order of calls, and a debouncer knows
no ticket but that of the call it holds back. So a ticket is current as long as
its call is the last one and is not delivered, and once it is not, the debouncer
has nothing left to compare it with. The proof counts calls: the call held back
is the last of all that were made, and its ticket carries their number.
-/

namespace TomlEditor.Timing

variable {α : Type}

/-- The number of calls before a place of a run. -/
def callsBefore (events : List (Event α)) (place : Nat) : Nat :=
  (called (events.take place)).length

/-- At a place of a run, the ticket issued at an earlier place is the last one, and nothing was
delivered since. -/
structure Live (answers : List (Answer α)) (made place : Nat) (ticket : Ticket) : Prop where
  made_lt : made < place
  issued : answers[made]? = some (.issued ticket)
  latest : ∀ later, made < later → later < place → ∀ other, answers[later]? ≠ some (.issued other)
  waiting : ∀ later, made < later → later < place →
    ∀ argument, answers[later]? ≠ some (.taken (some argument))

/-- A ticket that is live was live at every place since it was issued. -/
theorem Live.of_le {answers : List (Answer α)} {made place later : Nat} {ticket : Ticket}
    (h : Live answers made later ticket) (hmade : made < place) (hle : place ≤ later) :
    Live answers made place ticket where
  made_lt := hmade
  issued := h.issued
  latest between hbetween hlt := h.latest between hbetween (Nat.lt_of_lt_of_le hlt hle)
  waiting between hbetween hlt := h.waiting between hbetween (Nat.lt_of_lt_of_le hlt hle)

section

variable {events : List (Event α)} {answers : List (Answer α)} {made place later : Nat}
  {argument other : α} {ticket : Ticket}

/-! ## Counting calls -/

theorem callsBefore_succ {event : Event α} (h : events[place]? = some event) :
    callsBefore events (place + 1) =
      callsBefore events place + event.argument?.toList.length := by
  have hone : called [event] = event.argument?.toList := by
    rw [called_cons]
    exact List.append_nil _
  rw [callsBefore, callsBefore, List.take_add_one, h, Option.toList_some, called,
    List.filterMap_append, List.length_append]
  exact congrArg _ (congrArg List.length hone)

theorem callsBefore_le (h : made ≤ place) : callsBefore events made ≤ callsBefore events place :=
  ((List.take_sublist_take_left h).filterMap Event.argument?).length_le

/-- There are more calls behind a call than before it. -/
theorem callsBefore_lt (hcall : events[made]? = some (.call argument)) (h : made < place) :
    callsBefore events made < callsBefore events place :=
  calc callsBefore events made
      < callsBefore events made + 1 := Nat.lt_succ_self _
    _ = callsBefore events (made + 1) := (callsBefore_succ hcall).symm
    _ ≤ callsBefore events place := callsBefore_le h

/-- Where no call is made their number stays the same. -/
theorem callsBefore_of_quiet (hle : made ≤ place)
    (hquiet : ∀ later, made ≤ later → later < place →
      ∀ other, events[later]? ≠ some (.call other)) :
    callsBefore events place = callsBefore events made := by
  induction hle with
  | refl => rfl
  | @step place hle ih =>
    have hbefore := ih fun later hlater hlt => hquiet later hlater (Nat.lt_succ_of_lt hlt)
    have hcall := hquiet place hle (Nat.lt_succ_self place)
    cases hevent : events[place]? with
    | none =>
      rw [callsBefore, List.take_add_one, hevent, Option.toList_none, List.append_nil]
      exact hbefore
    | some event =>
      rw [callsBefore_succ hevent, hbefore]
      cases event with
      | call other => exact absurd hevent (hcall other)
      | advance time => rfl
      | take => rfl

/-- The call held back is the last one made. -/
theorem HeldBack.callsBefore_eq (h : HeldBack events answers made place argument) :
    callsBefore events place = callsBefore events made + 1 := by
  rw [callsBefore_of_quiet (Nat.succ_le_of_lt h.made_lt) h.latest, callsBefore_succ h.called]
  rfl

end

namespace Debouncer

variable {wait : Nanoseconds} {events : List (Event α)} {made place later : Nat} {ticket : Ticket}

/-! ## What is issued -/

/-- A debouncer has issued as many tickets as there were calls, and the call it holds back has the
last of them. -/
structure Numbered (calls : Nat) (debouncer : Debouncer α) : Prop where
  issued_eq : debouncer.issued = calls
  ticket_eq : ∀ pending, debouncer.pending = some pending → pending.ticket = ⟨calls⟩

theorem numbered_ofWait (wait : Nanoseconds) : Numbered 0 (ofWait wait : Debouncer α) where
  issued_eq := rfl
  ticket_eq := by
    intro pending hpending
    exact absurd hpending (by simp [ofWait])

theorem Numbered.step {calls : Nat} {debouncer : Debouncer α} (h : Numbered calls debouncer)
    (event : Event α) :
    Numbered (calls + event.argument?.toList.length) (debouncer.step event).2 := by
  cases event with
  | call argument =>
    refine ⟨congrArg (· + 1) h.issued_eq, ?_⟩
    intro pending hpending
    obtain rfl := Option.some.inj hpending
    show (⟨debouncer.issued + 1⟩ : Ticket) = ⟨calls + 1⟩
    rw [h.issued_eq]
  | advance time => exact ⟨h.issued_eq, h.ticket_eq⟩
  | take =>
    rw [Debouncer.step]
    rcases debouncer.takeDue_cases with hnone | ⟨pending, -, -, htaken⟩
    · rw [hnone]
      exact h
    · rw [htaken]
      exact ⟨h.issued_eq, by simp⟩

theorem numbered_run (wait : Nanoseconds) (events : List (Event α)) {place : Nat}
    (h : place ≤ events.length) :
    Numbered (callsBefore events place) ((ofWait wait).run (events.take place)).2 := by
  induction place with
  | zero => exact numbered_ofWait wait
  | succ place ih =>
    have hevent := List.getElem?_eq_getElem (Nat.lt_of_succ_le h)
    rw [((ofWait wait).run_getElem? hevent).2, callsBefore_succ hevent]
    exact (ih (Nat.le_of_succ_le h)).step _

theorem length_run (debouncer : Debouncer α) (events : List (Event α)) :
    (debouncer.run events).1.length = events.length := by
  induction events generalizing debouncer with
  | nil => rfl
  | cons event more ih => exact congrArg (· + 1) (ih _)

/-- A call is answered with its number, and nothing else with a ticket. -/
theorem issued_iff (wait : Nanoseconds) (events : List (Event α)) (place : Nat) (ticket : Ticket) :
    ((ofWait wait).run events).1[place]? = some (.issued ticket) ↔
      (∃ argument, events[place]? = some (.call argument)) ∧
        ticket = ⟨callsBefore events place + 1⟩ := by
  cases hevent : events[place]? with
  | none =>
    have hnone : ((ofWait wait).run events).1[place]? = none := by
      rw [List.getElem?_eq_none_iff, length_run, ← List.getElem?_eq_none_iff]
      exact hevent
    simp [hnone]
  | some event =>
    have hplace : place ≤ events.length :=
      Nat.le_of_lt (List.getElem?_eq_some_iff.1 hevent).choose
    have hissued := (numbered_run wait events hplace).issued_eq
    rw [((ofWait wait).run_getElem? hevent).1]
    cases event with
    | call argument => simp [Debouncer.step, Debouncer.call, hissued, eq_comm]
    | advance time => simp [Debouncer.step]
    | take => simp [Debouncer.step]

/-- No ticket is issued twice. -/
theorem place_eq_of_issued (hmade : ((ofWait wait).run events).1[made]? = some (.issued ticket))
    (hlater : ((ofWait wait).run events).1[later]? = some (.issued ticket)) : made = later := by
  obtain ⟨⟨argument, hcall⟩, rfl⟩ := (issued_iff wait events made ticket).1 hmade
  obtain ⟨⟨other, hagain⟩, hsame⟩ := (issued_iff wait events later _).1 hlater
  have hcount : callsBefore events made = callsBefore events later :=
    Nat.succ.inj (congrArg Ticket.number hsame)
  rcases Nat.lt_trichotomy made later with hlt | heq | hgt
  · exact absurd hcount (Nat.ne_of_lt (callsBefore_lt hcall hlt))
  · exact heq
  · exact absurd hcount.symm (Nat.ne_of_lt (callsBefore_lt hagain hgt))

/-! ## What is current -/

theorem isCurrent_iff (debouncer : Debouncer α) (ticket : Ticket) :
    debouncer.isCurrent ticket = true ↔
      ∃ pending, debouncer.pending = some pending ∧ pending.ticket = ticket := by
  simp [isCurrent, Option.any_eq_true]

/-- A ticket is live when its call is held back. -/
theorem live_iff_heldBack (wait : Nanoseconds) (events : List (Event α)) (made place : Nat)
    (ticket : Ticket) :
    Live ((ofWait wait).run events).1 made place ticket ↔
      ∃ argument, HeldBack events ((ofWait wait).run events).1 made place argument ∧
        ticket = ⟨callsBefore events place⟩ := by
  constructor
  · intro h
    obtain ⟨⟨argument, hcall⟩, hticket⟩ := (issued_iff wait events made ticket).1 h.issued
    have hheld : HeldBack events ((ofWait wait).run events).1 made place argument := by
      refine ⟨h.made_lt, hcall, ?_, h.waiting⟩
      intro later hlater hlt other hother
      exact h.latest later hlater hlt _ ((issued_iff wait events later _).2 ⟨⟨other, hother⟩, rfl⟩)
    exact ⟨argument, hheld, by rw [hheld.callsBefore_eq, hticket]⟩
  · rintro ⟨argument, hheld, rfl⟩
    refine ⟨hheld.made_lt, ?_, ?_, hheld.waiting⟩
    · rw [hheld.callsBefore_eq]
      exact (issued_iff wait events made _).2 ⟨⟨argument, hheld.called⟩, rfl⟩
    · intro later hlater hlt other hother
      obtain ⟨⟨again, hcall⟩, -⟩ := (issued_iff wait events later other).1 hother
      exact hheld.latest later hlater hlt again hcall

/-- The call held back is that of the live ticket, and is due the wait after it was made. -/
theorem pending_iff_live (wait : Nanoseconds) (events : List (Event α)) {place : Nat}
    (h : place ≤ events.length) (due : Nanoseconds) (ticket : Ticket) :
    (∃ argument, ((ofWait wait).run (events.take place)).2.pending =
        some ⟨due, argument, ticket⟩) ↔
      ∃ made, Live ((ofWait wait).run events).1 made place ticket ∧
        due = clockAt events made + wait := by
  have htracked := tracked_run wait events h
  have hnumbered := numbered_run wait events h
  constructor
  · rintro ⟨argument, hpending⟩
    obtain ⟨made, hheld, hdue⟩ := (htracked.pending_iff due argument).1 ⟨ticket, hpending⟩
    exact ⟨made, (live_iff_heldBack wait events made place ticket).2
      ⟨argument, hheld, hnumbered.ticket_eq _ hpending⟩, hdue⟩
  · rintro ⟨made, hlive, hdue⟩
    obtain ⟨argument, hheld, rfl⟩ := (live_iff_heldBack wait events made place ticket).1 hlive
    obtain ⟨ticket, hpending⟩ := (htracked.pending_iff due argument).2 ⟨made, hheld, hdue⟩
    obtain rfl := hnumbered.ticket_eq _ hpending
    exact ⟨argument, hpending⟩

theorem isCurrent_iff_live (wait : Nanoseconds) (events : List (Event α)) {place : Nat}
    (h : place ≤ events.length) (ticket : Ticket) :
    ((ofWait wait).run (events.take place)).2.isCurrent ticket = true ↔
      ∃ made, Live ((ofWait wait).run events).1 made place ticket := by
  rw [isCurrent_iff]
  constructor
  · rintro ⟨⟨due, argument, ticket⟩, hpending, rfl⟩
    obtain ⟨made, hlive, -⟩ := (pending_iff_live wait events h due ticket).1 ⟨argument, hpending⟩
    exact ⟨made, hlive⟩
  · rintro ⟨made, hlive⟩
    obtain ⟨argument, hpending⟩ :=
      (pending_iff_live wait events h _ ticket).2 ⟨made, hlive, rfl⟩
    exact ⟨_, hpending, rfl⟩

theorem deadline_iff_live (wait : Nanoseconds) (events : List (Event α)) {place : Nat}
    (h : place ≤ events.length) (due : Nanoseconds) :
    ((ofWait wait).run (events.take place)).2.deadline = some due ↔
      ∃ made ticket, Live ((ofWait wait).run events).1 made place ticket ∧
        due = clockAt events made + wait := by
  rw [deadline, Option.map_eq_some_iff]
  constructor
  · rintro ⟨⟨due, argument, ticket⟩, hpending, rfl⟩
    obtain ⟨made, hlive⟩ := (pending_iff_live wait events h due ticket).1 ⟨argument, hpending⟩
    exact ⟨made, ticket, hlive⟩
  · rintro ⟨made, ticket, hlive⟩
    obtain ⟨argument, hpending⟩ := (pending_iff_live wait events h due ticket).2 ⟨made, hlive⟩
    exact ⟨_, hpending, rfl⟩

/-- A debouncer holds a call back when there is a current ticket. -/
theorem isPending_iff_isCurrent (debouncer : Debouncer α) :
    debouncer.isPending = true ↔ ∃ ticket, debouncer.isCurrent ticket = true := by
  simp only [isCurrent_iff, isPending, Option.isSome_iff_exists]
  constructor
  · rintro ⟨pending, hpending⟩
    exact ⟨pending.ticket, pending, hpending, rfl⟩
  · rintro ⟨ticket, pending, hpending, -⟩
    exact ⟨pending, hpending⟩

theorem ticket_eq_of_isCurrent {debouncer : Debouncer α} {ticket other : Ticket}
    (hticket : debouncer.isCurrent ticket = true) (hother : debouncer.isCurrent other = true) :
    ticket = other := by
  obtain ⟨pending, hpending, rfl⟩ := (debouncer.isCurrent_iff ticket).1 hticket
  obtain ⟨same, hsame, rfl⟩ := (debouncer.isCurrent_iff other).1 hother
  rw [hpending, Option.some.injEq] at hsame
  rw [hsame]

end Debouncer

/-- **A ticket names one live call.** In every run each call gets a ticket of its own. At every place
of the run the current ticket is the one issued last if nothing was delivered since, so there is
at most one; a call is held back exactly when there is one, with the deadline the wait after the
time of its call. A ticket that is not current any longer is never current again. -/
theorem tickets_name_live_calls (wait : Nanoseconds) (events : List (Event α)) :
    let answers := ((Debouncer.ofWait wait).run events).1
    let before := fun place => ((Debouncer.ofWait wait).run (events.take place)).2
    (∀ (place : Nat) (argument : α), events[place]? = some (.call argument) →
        ∃ ticket, answers[place]? = some (.issued ticket)) ∧
      (∀ (made later : Nat) (ticket : Ticket), answers[made]? = some (.issued ticket) →
        answers[later]? = some (.issued ticket) → made = later) ∧
      ∀ place, place ≤ events.length →
        (∀ ticket, (before place).isCurrent ticket = true ↔
            ∃ made, Live answers made place ticket) ∧
          (∀ ticket other, (before place).isCurrent ticket = true →
            (before place).isCurrent other = true → ticket = other) ∧
          ((before place).isPending = true ↔ ∃ ticket, (before place).isCurrent ticket = true) ∧
          (∀ due, (before place).deadline = some due ↔
            ∃ made ticket, Live answers made place ticket ∧ due = clockAt events made + wait) ∧
          ∀ (made later : Nat) (ticket : Ticket), made < place →
            answers[made]? = some (.issued ticket) → place ≤ later → later ≤ events.length →
              (before place).isCurrent ticket = false →
                (before later).isCurrent ticket = false := by
  intro answers before
  refine ⟨?_, fun made later ticket => Debouncer.place_eq_of_issued, ?_⟩
  · intro place argument hcall
    exact ⟨_, (Debouncer.issued_iff wait events place _).2 ⟨⟨argument, hcall⟩, rfl⟩⟩
  · intro place hplace
    refine ⟨Debouncer.isCurrent_iff_live wait events hplace,
      fun ticket other => Debouncer.ticket_eq_of_isCurrent,
      Debouncer.isPending_iff_isCurrent _, Debouncer.deadline_iff_live wait events hplace, ?_⟩
    intro made later ticket hmade hissued hle hlater hnot
    rw [Bool.eq_false_iff] at hnot ⊢
    intro hcurrent
    obtain ⟨again, hlive⟩ := (Debouncer.isCurrent_iff_live wait events hlater ticket).1 hcurrent
    -- The ticket was issued once, so it is the same call that would be live before.
    obtain rfl := Debouncer.place_eq_of_issued hissued hlive.issued
    exact hnot ((Debouncer.isCurrent_iff_live wait events hplace ticket).2
      ⟨made, hlive.of_le hmade hle⟩)

/-- A ticket stops being current when the next one is issued, and that one when it is delivered. -/
example :
    ([1, 2, 4].map fun place =>
      let debouncer := ((Debouncer.ofWait 5).run
        ([.call 'a', .call 'b', .advance 5, .take].take place)).2
      [debouncer.isCurrent ⟨1⟩, debouncer.isCurrent ⟨2⟩]) =
    [[true, false], [false, true], [false, false]] := by
  decide

end TomlEditor.Timing
