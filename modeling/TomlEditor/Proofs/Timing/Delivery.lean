import TomlEditor.Timing.Debounced

/-!
# What a debouncer delivers

A debouncer keeps one call back and knows nothing of the calls before it. The
history of a run says what that one call is: the last call, if no take has
delivered it since. A take delivers it when the wait has passed on the clock
since it was made. The invariant ties the call held back to the place in the
history where it was made, and every event keeps it.
-/

namespace TomlEditor.Timing

variable {α : Type}

/-! ## Histories -/

/-- The time that an event lets pass. -/
def Event.time : Event α → Nanoseconds
  | .advance time => time
  | _ => 0

def Event.argument? : Event α → Option α
  | .call argument => some argument
  | _ => none

def Answer.delivered? : Answer α → Option α
  | .taken argument => argument
  | _ => none

/-- The arguments of the calls among some events. -/
def called (events : List (Event α)) : List α :=
  events.filterMap Event.argument?

/-- The arguments that were delivered, in the order in which they were. -/
def delivered (answers : List (Answer α)) : List α :=
  answers.filterMap Answer.delivered?

theorem called_cons (event : Event α) (more : List (Event α)) :
    called (event :: more) = event.argument?.toList ++ called more := by
  rw [called, List.filterMap_cons]
  cases event.argument? <;> rfl

theorem delivered_cons (answer : Answer α) (more : List (Answer α)) :
    delivered (answer :: more) = answer.delivered?.toList ++ delivered more := by
  rw [delivered, List.filterMap_cons]
  cases answer.delivered? <;> rfl

/-- The time on the clock at a place of a run. -/
def clockAt (events : List (Event α)) (place : Nat) : Nanoseconds :=
  (events.take place).foldl (fun now event => now + event.time) 0

/-- At a place of a run, the call made at an earlier place is the last one and was not delivered
since. -/
structure HeldBack (events : List (Event α)) (answers : List (Answer α)) (made place : Nat)
    (argument : α) : Prop where
  made_lt : made < place
  called : events[made]? = some (.call argument)
  latest : ∀ later, made < later → later < place → ∀ other, events[later]? ≠ some (.call other)
  waiting : ∀ later, made < later → later < place →
    ∀ other, answers[later]? ≠ some (.taken (some other))

/-- The last call was made with the argument, was not delivered since and is as old as the wait. -/
def Due (wait : Nanoseconds) (events : List (Event α)) (answers : List (Answer α)) (place : Nat)
    (argument : α) : Prop :=
  ∃ made, HeldBack events answers made place argument ∧
    clockAt events made + wait ≤ clockAt events place

/-- The call made at one place was delivered at another. -/
def DeliveredAt (events : List (Event α)) (answers : List (Answer α)) (made place : Nat)
    (argument : α) : Prop :=
  HeldBack events answers made place argument ∧
    answers[place]? = some (.taken (some argument))

section

variable {events : List (Event α)} {answers : List (Answer α)} {made place : Nat}
  {argument other : α}

theorem clockAt_succ {event : Event α} (h : events[place]? = some event) :
    clockAt events (place + 1) = clockAt events place + event.time := by
  rw [clockAt, clockAt, List.take_add_one, h, List.foldl_append]
  rfl

theorem not_heldBack_zero : ¬HeldBack events answers made 0 argument :=
  fun h => Nat.not_lt_zero _ h.made_lt

/-- Behind a call it is that call which is held back. -/
theorem heldBack_succ_call (h : events[place]? = some (.call argument)) :
    HeldBack events answers made (place + 1) other ↔ made = place ∧ other = argument := by
  constructor
  · intro hheld
    have hmade : made = place := by
      rcases Nat.lt_or_ge made place with hlt | hge
      · exact absurd h (hheld.latest place hlt (Nat.lt_succ_self _) argument)
      · exact Nat.le_antisymm (Nat.le_of_lt_succ hheld.made_lt) hge
    subst hmade
    have hcalled := hheld.called
    rw [h] at hcalled
    simp only [Option.some.injEq, Event.call.injEq] at hcalled
    exact ⟨rfl, hcalled.symm⟩
  · rintro ⟨rfl, rfl⟩
    refine ⟨Nat.lt_succ_self _, h, ?_, ?_⟩
    · intro later hlater hlt
      omega
    · intro later hlater hlt
      omega

/-- An event that neither calls nor delivers leaves a call held back. -/
theorem heldBack_succ_of_quiet (hcall : ∀ other, events[place]? ≠ some (.call other))
    (hanswer : ∀ other, answers[place]? ≠ some (.taken (some other))) :
    HeldBack events answers made (place + 1) argument ↔
      HeldBack events answers made place argument := by
  constructor
  · intro h
    have hne : made ≠ place := by
      rintro rfl
      exact hcall argument h.called
    have hlt := h.made_lt
    refine ⟨by omega, h.called, ?_, ?_⟩
    · intro later hlater hbefore
      exact h.latest later hlater (by omega)
    · intro later hlater hbefore
      exact h.waiting later hlater (by omega)
  · intro h
    refine ⟨Nat.lt_succ_of_lt h.made_lt, h.called, ?_, ?_⟩
    · intro later hlater hbefore
      rcases Nat.lt_succ_iff_lt_or_eq.1 hbefore with hlt | rfl
      · exact h.latest later hlater hlt
      · exact hcall
    · intro later hlater hbefore
      rcases Nat.lt_succ_iff_lt_or_eq.1 hbefore with hlt | rfl
      · exact h.waiting later hlater hlt
      · exact hanswer

/-- Behind a delivery nothing is held back. -/
theorem not_heldBack_succ (hcall : ∀ other, events[place]? ≠ some (.call other))
    (hanswer : answers[place]? = some (.taken (some other))) :
    ¬HeldBack events answers made (place + 1) argument := by
  intro h
  rcases Nat.lt_succ_iff_lt_or_eq.1 h.made_lt with hlt | rfl
  · exact h.waiting place hlt (Nat.lt_succ_self _) other hanswer
  · exact hcall argument h.called

end

/-! ## Steps of a debouncer -/

namespace Debouncer

/-- A call that is delivered was held back and is not held back any longer. -/
theorem takeDue_cases (debouncer : Debouncer α) :
    debouncer.takeDue = (none, debouncer) ∨
      ∃ pending, debouncer.pending = some pending ∧ pending.deadline ≤ debouncer.now ∧
        debouncer.takeDue = (some pending.argument, { debouncer with pending := none }) := by
  unfold takeDue
  cases hpending : debouncer.pending with
  | none => exact .inl rfl
  | some pending =>
    by_cases hdue : debouncer.now < pending.deadline
    · exact .inl (if_pos hdue)
    · exact .inr ⟨pending, rfl, Nat.le_of_not_lt hdue, if_neg hdue⟩

theorem takeDue_fst_eq_some_iff (debouncer : Debouncer α) (argument : α) :
    debouncer.takeDue.1 = some argument ↔
      ∃ due ticket, debouncer.pending = some ⟨due, argument, ticket⟩ ∧ due ≤ debouncer.now := by
  unfold takeDue
  cases hpending : debouncer.pending with
  | none => simp
  | some pending =>
    obtain ⟨due, held, ticket⟩ := pending
    by_cases hdue : debouncer.now < due
    · simp only [if_pos hdue, Option.some.injEq, Pending.mk.injEq]
      constructor
      · intro h
        exact absurd h (by simp)
      · rintro ⟨_, _, ⟨rfl, -, -⟩, hle⟩
        exact absurd hdue (Nat.not_lt_of_le hle)
    · simp only [if_neg hdue, Option.some.injEq, Pending.mk.injEq]
      constructor
      · rintro rfl
        exact ⟨due, ticket, ⟨rfl, rfl, rfl⟩, Nat.le_of_not_lt hdue⟩
      · rintro ⟨_, _, ⟨-, rfl, -⟩, -⟩
        rfl

theorem takeDue_of_fst_eq_none {debouncer : Debouncer α} (h : debouncer.takeDue.1 = none) :
    debouncer.takeDue = (none, debouncer) := by
  rcases debouncer.takeDue_cases with hnone | ⟨pending, -, -, htaken⟩
  · exact hnone
  · rw [htaken] at h
    exact absurd h (by simp)

/-- The answer at a place of a run, and the debouncer behind it, are those of one step. -/
theorem run_getElem? (debouncer : Debouncer α) {events : List (Event α)} {place : Nat}
    {event : Event α} (h : events[place]? = some event) :
    (debouncer.run events).1[place]? =
        some ((debouncer.run (events.take place)).2.step event).1 ∧
      (debouncer.run (events.take (place + 1))).2 =
        ((debouncer.run (events.take place)).2.step event).2 := by
  induction events generalizing debouncer place with
  | nil => simp at h
  | cons first more ih =>
    cases place with
    | zero =>
      rw [List.getElem?_cons_zero, Option.some.injEq] at h
      subst h
      exact ⟨rfl, rfl⟩
    | succ place => exact ih (debouncer.step first).2 (by simpa using h)

/-! ## The invariant -/

/-- What the history of a run says about the debouncer at a place of it. -/
structure Tracked (wait : Nanoseconds) (events : List (Event α)) (answers : List (Answer α))
    (place : Nat) (debouncer : Debouncer α) : Prop where
  wait_eq : debouncer.wait = wait
  now_eq : debouncer.now = clockAt events place
  pending_iff : ∀ due argument, (∃ ticket, debouncer.pending = some ⟨due, argument, ticket⟩) ↔
    ∃ made, HeldBack events answers made place argument ∧ due = clockAt events made + wait

variable {wait : Nanoseconds} {events : List (Event α)} {answers : List (Answer α)}
  {place : Nat} {debouncer : Debouncer α}

theorem tracked_ofWait (wait : Nanoseconds) (events : List (Event α))
    (answers : List (Answer α)) : Tracked wait events answers 0 (ofWait wait) where
  wait_eq := rfl
  now_eq := rfl
  pending_iff := by
    intro due argument
    constructor
    · rintro ⟨ticket, hpending⟩
      exact absurd hpending (by simp [ofWait])
    · rintro ⟨made, hheld, -⟩
      exact absurd hheld not_heldBack_zero

/-- An event that neither calls nor delivers moves the clock at most. -/
theorem Tracked.quiet (h : Tracked wait events answers place debouncer) {event : Event α}
    (hevent : events[place]? = some event) (hcall : ∀ other, event ≠ .call other)
    (hanswer : ∀ other, answers[place]? ≠ some (.taken (some other))) {next : Debouncer α}
    (hwait : next.wait = debouncer.wait) (hnow : next.now = debouncer.now + event.time)
    (hpending : next.pending = debouncer.pending) :
    Tracked wait events answers (place + 1) next := by
  have hquiet : ∀ made argument, HeldBack events answers made (place + 1) argument ↔
      HeldBack events answers made place argument := fun made argument =>
    heldBack_succ_of_quiet (by simpa [hevent] using hcall) hanswer
  refine ⟨hwait.trans h.wait_eq, ?_, ?_⟩
  · rw [hnow, h.now_eq, clockAt_succ hevent]
  · intro due argument
    simp only [hpending, hquiet]
    exact h.pending_iff due argument

theorem Tracked.step (h : Tracked wait events answers place debouncer) {event : Event α}
    (hevent : events[place]? = some event)
    (hanswer : answers[place]? = some (debouncer.step event).1) :
    Tracked wait events answers (place + 1) (debouncer.step event).2 := by
  have hclock := clockAt_succ hevent
  cases event with
  | call argument =>
    refine ⟨h.wait_eq, h.now_eq.trans hclock.symm, ?_⟩
    intro due other
    simp only [heldBack_succ_call hevent]
    constructor
    · rintro ⟨ticket, hpending⟩
      simp only [Debouncer.step, call, Option.some.injEq, Pending.mk.injEq] at hpending
      obtain ⟨rfl, rfl, -⟩ := hpending
      exact ⟨place, ⟨rfl, rfl⟩, by rw [h.now_eq, h.wait_eq]⟩
    · rintro ⟨made, ⟨rfl, rfl⟩, rfl⟩
      refine ⟨⟨debouncer.issued + 1⟩, ?_⟩
      rw [← h.now_eq, ← h.wait_eq]
      rfl
  | advance time =>
    exact h.quiet hevent (by simp) (by simp [hanswer, Debouncer.step]) rfl rfl rfl
  | take =>
    rcases debouncer.takeDue_cases with hnone | ⟨pending, hpending, -, htaken⟩
    · have hanswer : ∀ other, answers[place]? ≠ some (.taken (some other)) := by
        simp [hanswer, Debouncer.step, hnone]
      rw [Debouncer.step, hnone]
      exact h.quiet hevent (by simp) hanswer rfl rfl rfl
    · -- The call held back is delivered, and with it goes the place where it was made.
      have hdelivered : answers[place]? = some (.taken (some pending.argument)) := by
        rw [hanswer, Debouncer.step, htaken]
      rw [Debouncer.step, htaken]
      refine ⟨h.wait_eq, h.now_eq.trans hclock.symm, ?_⟩
      intro due argument
      constructor
      · rintro ⟨ticket, hnone⟩
        exact absurd hnone (by simp)
      · rintro ⟨made, hheld, -⟩
        exact absurd hheld (not_heldBack_succ (by simp [hevent]) hdelivered)

theorem tracked_run (wait : Nanoseconds) (events : List (Event α)) {place : Nat}
    (h : place ≤ events.length) :
    Tracked wait events ((ofWait wait).run events).1 place
      ((ofWait wait).run (events.take place)).2 := by
  induction place with
  | zero => exact tracked_ofWait wait events _
  | succ place ih =>
    obtain ⟨hanswer, hnext⟩ :=
      (ofWait wait).run_getElem? (List.getElem?_eq_getElem (Nat.lt_of_succ_le h))
    rw [hnext]
    exact (ih (Nat.le_of_succ_le h)).step (List.getElem?_eq_getElem _) hanswer

/-- What a take answers in a run. -/
theorem run_take (wait : Nanoseconds) {events : List (Event α)} {place : Nat}
    (h : events[place]? = some .take) :
    ((ofWait wait).run events).1[place]? =
        some (.taken ((ofWait wait).run (events.take place)).2.takeDue.1) ∧
      ((ofWait wait).run (events.take (place + 1))).2 =
        ((ofWait wait).run (events.take place)).2.takeDue.2 :=
  (ofWait wait).run_getElem? h

/-- A take delivers what is due by the history, and nothing else. -/
theorem delivers_iff_due (wait : Nanoseconds) {events : List (Event α)} {place : Nat}
    (h : events[place]? = some .take) (argument : α) :
    ((ofWait wait).run events).1[place]? = some (.taken (some argument)) ↔
      Due wait events ((ofWait wait).run events).1 place argument := by
  have hplace : place < events.length := (List.getElem?_eq_some_iff.1 h).choose
  have htracked := tracked_run wait events (Nat.le_of_lt hplace)
  rw [(run_take wait h).1, Option.some.injEq, Answer.taken.injEq, takeDue_fst_eq_some_iff]
  constructor
  · rintro ⟨due, ticket, hpending, hdue⟩
    obtain ⟨made, hheld, rfl⟩ := (htracked.pending_iff due argument).1 ⟨ticket, hpending⟩
    exact ⟨made, hheld, htracked.now_eq ▸ hdue⟩
  · rintro ⟨made, hheld, hdue⟩
    obtain ⟨ticket, hpending⟩ := (htracked.pending_iff _ argument).2 ⟨made, hheld, rfl⟩
    exact ⟨_, ticket, hpending, htracked.now_eq ▸ hdue⟩

/-- What is delivered was called, each call for itself and in the order of the calls. A call held
back from before comes first. -/
theorem delivered_sublist (debouncer : Debouncer α) (events : List (Event α)) :
    (delivered (debouncer.run events).1).Sublist
      ((debouncer.pending.map Pending.argument).toList ++ called events) := by
  induction events generalizing debouncer with
  | nil => exact List.nil_sublist _
  | cons event more ih =>
    have hmore := ih (debouncer.step event).2
    rw [run, delivered_cons, called_cons]
    cases event with
    | call argument =>
      -- The new call takes the place of one held back, which is then never delivered.
      exact hmore.trans (List.sublist_append_right _ _)
    | advance time => exact hmore
    | take =>
      rw [Debouncer.step] at hmore ⊢
      rcases debouncer.takeDue_cases with hnone | ⟨pending, hpending, -, htaken⟩
      · rw [hnone] at hmore ⊢
        exact hmore
      · rw [htaken] at hmore ⊢
        rw [hpending]
        exact hmore.cons_cons pending.argument

end Debouncer

/-- Of two deliveries the later one is of the later call. -/
theorem DeliveredAt.made_lt {events : List (Event α)} {answers : List (Answer α)}
    {made place later after : Nat} {argument other : α}
    (hfirst : DeliveredAt events answers made place argument)
    (hsecond : DeliveredAt events answers later after other) (h : place < after) :
    made < later := by
  rcases Nat.lt_or_ge later place with hlt | hge
  · exact absurd hfirst.2 (hsecond.1.waiting place hlt h argument)
  · exact Nat.lt_of_lt_of_le hfirst.1.made_lt hge

theorem DeliveredAt.lt_iff {events : List (Event α)} {answers : List (Answer α)}
    {made place later after : Nat} {argument other : α}
    (hfirst : DeliveredAt events answers made place argument)
    (hsecond : DeliveredAt events answers later after other) :
    place < after ↔ made < later := by
  refine ⟨hfirst.made_lt hsecond, ?_⟩
  intro hmade
  rcases Nat.lt_trichotomy place after with hlt | rfl | hgt
  · exact hlt
  · exact absurd hsecond.1.called (hfirst.1.latest later hmade hsecond.1.made_lt other)
  · exact absurd (hsecond.made_lt hfirst hgt) (Nat.not_lt_of_gt hmade)

/-! ## Debounced effects -/

namespace Debounced

variable {σ : Type}

theorem step_debouncer (debounced : Debounced α σ) (event : Event α) :
    (debounced.step event).debouncer = (debounced.debouncer.step event).2 := by
  cases event with
  | call argument => rfl
  | advance time => rfl
  | take =>
    rw [Debounced.step, poll, Debouncer.step]
    rcases debounced.debouncer.takeDue_cases with hnone | ⟨pending, -, -, htaken⟩
    · rw [hnone]
    · rw [htaken]

theorem step_effect (debounced : Debounced α σ) (event : Event α) :
    (debounced.step event).effect = debounced.effect := by
  cases event with
  | call argument => rfl
  | advance time => rfl
  | take =>
    rw [Debounced.step, poll]
    split <;> rfl

/-- A step runs the effect with the argument that is delivered, if one is. -/
theorem step_state (debounced : Debounced α σ) (event : Event α) :
    (debounced.step event).state =
      ((debounced.debouncer.step event).1.delivered?.toList).foldl
        (fun state argument => debounced.effect argument state) debounced.state := by
  cases event with
  | call argument => rfl
  | advance time => rfl
  | take =>
    rw [Debounced.step, poll, Debouncer.step]
    rcases debounced.debouncer.takeDue_cases with hnone | ⟨pending, -, -, htaken⟩
    · rw [hnone]
      rfl
    · rw [htaken]
      rfl

theorem poll_fst (debounced : Debounced α σ) :
    debounced.poll.1 = debounced.debouncer.takeDue.1.isSome := by
  rw [poll]
  split
  · next hnone => rw [hnone]; rfl
  · next htaken => rw [htaken]; rfl

theorem foldl_step_debouncer (debounced : Debounced α σ) (events : List (Event α)) :
    (events.foldl Debounced.step debounced).debouncer = (debounced.debouncer.run events).2 := by
  induction events generalizing debounced with
  | nil => rfl
  | cons event more ih => rw [List.foldl_cons, ih, step_debouncer, Debouncer.run]

/-- Running events runs the effect with the delivered arguments, one after the other. -/
theorem foldl_step_state (debounced : Debounced α σ) (events : List (Event α)) :
    (events.foldl Debounced.step debounced).state =
      (delivered (debounced.debouncer.run events).1).foldl
        (fun state argument => debounced.effect argument state) debounced.state := by
  induction events generalizing debounced with
  | nil => rfl
  | cons event more ih =>
    rw [List.foldl_cons, ih, step_debouncer, step_effect, step_state, Debouncer.run, delivered_cons,
      List.foldl_append]

/-- A poll runs the effect on exactly the takes of the history that deliver. -/
theorem poll_iff_delivers (wait : Nanoseconds) (effect : α → σ → σ) (state : σ)
    {events : List (Event α)} {place : Nat} (h : events[place]? = some .take) :
    ((events.take place).foldl Debounced.step (.ofEffect wait effect state)).poll.1 = true ↔
      ∃ argument, ((Debouncer.ofWait wait).run events).1[place]? =
        some (.taken (some argument)) := by
  rw [poll_fst, foldl_step_debouncer, (Debouncer.run_take wait h).1, Option.isSome_iff_exists]
  simp only [ofEffect, Option.some.injEq, Answer.taken.injEq]

theorem foldl_record (log arguments : List α) :
    arguments.foldl (fun log argument => record argument log) log = log ++ arguments := by
  induction arguments generalizing log with
  | nil => simp
  | cons argument more ih =>
    rw [List.foldl_cons, ih, record, List.append_assoc, List.singleton_append]

end Debounced

/-- **A debouncer delivers by its history.** In every run a take delivers the argument of the last
call if that call was not delivered since and is as old as the wait, and otherwise answers nothing
and changes nothing. So deliveries come in the order of their calls and no call is delivered twice.
A debounced effect is run with exactly what is delivered, by the polls in the place of those takes;
one that writes its arguments down leaves the list of them. -/
theorem run_delivers_due (wait : Nanoseconds) (events : List (Event α)) :
    let answers := ((Debouncer.ofWait wait).run events).1
    let before := fun place => ((Debouncer.ofWait wait).run (events.take place)).2
    (∀ place, events[place]? = some .take →
        (∀ argument, answers[place]? = some (.taken (some argument)) ↔
          Due wait events answers place argument) ∧
        ((¬∃ argument, Due wait events answers place argument) →
          answers[place]? = some (.taken none) ∧ before (place + 1) = before place)) ∧
      (∀ made place later after argument other,
        DeliveredAt events answers made place argument →
          DeliveredAt events answers later after other → (place < after ↔ made < later)) ∧
      (delivered answers).Sublist (called events) ∧
      (events.foldl Debounced.step (.ofEffect wait record [])).state = delivered answers ∧
      ∀ {σ : Type} (effect : α → σ → σ) (state : σ),
        (events.foldl Debounced.step (.ofEffect wait effect state)).state =
            (delivered answers).foldl (fun state argument => effect argument state) state ∧
          ∀ place, events[place]? = some .take →
            (((events.take place).foldl Debounced.step (.ofEffect wait effect state)).poll.1 = true ↔
              ∃ argument, answers[place]? = some (.taken (some argument))) := by
  intro answers before
  refine ⟨?_, ?_, ?_, ?_, ?_⟩
  · intro place htake
    refine ⟨Debouncer.delivers_iff_due wait htake, ?_⟩
    intro hidle
    obtain ⟨hanswer, hnext⟩ := Debouncer.run_take wait htake
    have hnone : (before place).takeDue.1 = none := by
      cases hfound : (before place).takeDue.1 with
      | none => rfl
      | some argument =>
        refine absurd ⟨argument, (Debouncer.delivers_iff_due wait htake argument).1 ?_⟩ hidle
        rw [hanswer, hfound]
    have hkept : (before place).takeDue.2 = before place :=
      congrArg Prod.snd (Debouncer.takeDue_of_fst_eq_none hnone)
    exact ⟨by rw [hanswer, hnone], hnext.trans hkept⟩
  · intro made place later after argument other hfirst hsecond
    exact hfirst.lt_iff hsecond
  · exact (Debouncer.ofWait wait).delivered_sublist events
  · rw [Debounced.foldl_step_state]
    exact Debounced.foldl_record [] _
  · intro σ effect state
    exact ⟨Debounced.foldl_step_state _ events,
      fun place htake => Debounced.poll_iff_delivers wait effect state htake⟩

/-- Of a burst only the last call is delivered, once the wait has passed since it. -/
example : ((Debouncer.ofWait 5).run
      [.call 'a', .advance 3, .call 'b', .advance 4, .take, .advance 1, .take, .take]).1 =
    [.issued ⟨1⟩, .passed, .issued ⟨2⟩, .passed, .taken none, .passed, .taken (some 'b'),
      .taken none] := by
  decide

end TomlEditor.Timing
