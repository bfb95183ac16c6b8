import TomlEditor.Proofs.Timing.Delivery

/-!
# The time until a call is due

A debouncer tells how long its call is still held back, by a subtraction that
stops at zero, and a take compares the clock with the deadline by itself. Here
the two are shown to agree to the tick, whatever happened before: a host that
sleeps for the time left and then takes gets the call, and no take before that
does. Between calls only the clock moves, so everything follows from where the
deadline is: never further away than the wait.
-/

namespace TomlEditor.Timing

variable {α : Type}

/-- The time that some events let pass. -/
def duration (events : List (Event α)) : Nanoseconds :=
  events.foldr (fun event time => event.time + time) 0

@[simp] theorem duration_nil : duration ([] : List (Event α)) = 0 := rfl

@[simp] theorem duration_cons (event : Event α) (more : List (Event α)) :
    duration (event :: more) = event.time + duration more := rfl

namespace Debouncer

/-! ## The call held back -/

/-- A call held back is the last one made, and it is due before the wait is over. -/
structure HoldsLatest (wait : Nanoseconds) (calls : List α) (debouncer : Debouncer α) : Prop where
  wait_eq : debouncer.wait = wait
  deadline_le : ∀ pending, debouncer.pending = some pending →
    pending.deadline ≤ debouncer.now + wait
  latest : ∀ pending, debouncer.pending = some pending →
    calls.getLast? = some pending.argument

variable {wait : Nanoseconds} {calls : List α} {debouncer : Debouncer α}

theorem holdsLatest_ofWait (wait : Nanoseconds) : HoldsLatest wait ([] : List α) (ofWait wait) where
  wait_eq := rfl
  deadline_le := by
    intro pending hpending
    exact absurd hpending (by simp [ofWait])
  latest := by
    intro pending hpending
    exact absurd hpending (by simp [ofWait])

theorem HoldsLatest.step (h : HoldsLatest wait calls debouncer) (event : Event α) :
    HoldsLatest wait (calls ++ event.argument?.toList) (debouncer.step event).2 := by
  cases event with
  | call argument =>
    refine ⟨h.wait_eq, ?_, ?_⟩
    · intro pending hpending
      obtain rfl := Option.some.inj hpending
      show debouncer.now + debouncer.wait ≤ debouncer.now + wait
      exact Nat.add_le_add_left (Nat.le_of_eq h.wait_eq) _
    · intro pending hpending
      obtain rfl := Option.some.inj hpending
      exact List.getLast?_concat
  | advance time =>
    rw [show (Event.advance time : Event α).argument?.toList = [] from rfl, List.append_nil]
    refine ⟨h.wait_eq, ?_, h.latest⟩
    intro pending hpending
    calc pending.deadline
        ≤ debouncer.now + wait := h.deadline_le pending hpending
      _ ≤ debouncer.now + time + wait := Nat.add_le_add_right (Nat.le_add_right _ _) wait
  | take =>
    rw [show (Event.take : Event α).argument?.toList = [] from rfl, List.append_nil, Debouncer.step]
    rcases debouncer.takeDue_cases with hnone | ⟨pending, -, -, htaken⟩
    · rw [hnone]
      exact h
    · -- Nothing is held back behind a delivery.
      rw [htaken]
      exact ⟨h.wait_eq, by simp, by simp⟩

theorem HoldsLatest.run (h : HoldsLatest wait calls debouncer) (events : List (Event α)) :
    HoldsLatest wait (calls ++ called events) (debouncer.run events).2 := by
  induction events generalizing calls debouncer with
  | nil => simpa [called, Debouncer.run] using h
  | cons event more ih =>
    have hmore := ih (h.step event)
    rw [List.append_assoc, ← called_cons] at hmore
    exact hmore

/-! ## Between calls -/

theorem advance_advance (debouncer : Debouncer α) (first second : Nanoseconds) :
    (debouncer.advance first).advance second = debouncer.advance (first + second) := by
  simp [advance, Nat.add_assoc]

/-- While no call is made and none is delivered, only the clock moves. -/
theorem run_quiet (debouncer : Debouncer α) {events : List (Event α)} (hcalls : called events = [])
    (hnone : delivered (debouncer.run events).1 = []) :
    (debouncer.run events).2 = debouncer.advance (duration events) := by
  induction events generalizing debouncer with
  | nil => rfl
  | cons event more ih =>
    rw [called_cons, List.append_eq_nil_iff] at hcalls
    rw [Debouncer.run, delivered_cons, List.append_eq_nil_iff] at hnone
    have hmore := ih (debouncer.step event).2 hcalls.2 hnone.2
    rw [Debouncer.run, duration_cons, hmore, ← advance_advance]
    cases event with
    | call argument => exact absurd hcalls.1 (by simp [Event.argument?])
    | advance time => rfl
    | take =>
      rcases debouncer.takeDue_cases with hnot | ⟨pending, -, -, htaken⟩
      · rw [Debouncer.step, hnot]
        rfl
      · simp [Debouncer.step, htaken, Answer.delivered?] at hnone

/-- Before the deadline nothing is delivered, however often it is asked for. -/
theorem delivered_early {pending : Pending α} (hpending : debouncer.pending = some pending)
    {events : List (Event α)} (hcalls : called events = [])
    (hearly : debouncer.now + duration events < pending.deadline) :
    delivered (debouncer.run events).1 = [] := by
  induction events generalizing debouncer with
  | nil => rfl
  | cons event more ih =>
    rw [called_cons, List.append_eq_nil_iff] at hcalls
    rw [duration_cons] at hearly
    rw [Debouncer.run, delivered_cons, List.append_eq_nil_iff]
    cases event with
    | call argument => exact absurd hcalls.1 (by simp [Event.argument?])
    | advance time =>
      refine ⟨rfl, ih hpending hcalls.2 ?_⟩
      show debouncer.now + time + duration more < pending.deadline
      rw [Nat.add_assoc]
      exact hearly
    | take =>
      rcases debouncer.takeDue_cases with hnot | ⟨other, hother, hdue, -⟩
      · rw [Debouncer.step, hnot]
        refine ⟨rfl, ih hpending hcalls.2 ?_⟩
        simpa [Event.time] using hearly
      · rw [hpending, Option.some.injEq] at hother
        subst hother
        have hbefore : debouncer.now < pending.deadline :=
          Nat.lt_of_le_of_lt (Nat.le_add_right _ _) hearly
        exact absurd hdue (Nat.not_le_of_lt hbefore)

/-! ## The time left -/

theorem timeUntilDue_of_pending {pending : Pending α} (h : debouncer.pending = some pending) :
    debouncer.timeUntilDue = some (pending.deadline - debouncer.now) := by
  rw [timeUntilDue, deadline, h]
  rfl

theorem timeUntilDue_eq_none_iff (debouncer : Debouncer α) :
    debouncer.timeUntilDue = none ↔ debouncer.isPending = false := by
  unfold timeUntilDue deadline isPending
  cases debouncer.pending <;> simp

theorem timeUntilDue_eq_some_iff (debouncer : Debouncer α) (left : Nanoseconds) :
    debouncer.timeUntilDue = some left ↔
      ∃ pending, debouncer.pending = some pending ∧ pending.deadline - debouncer.now = left := by
  simp [timeUntilDue, deadline]

/-- A call is delivered from its deadline on. -/
theorem takeDue_of_pending {pending : Pending α} (h : debouncer.pending = some pending) :
    debouncer.takeDue.1 =
      if debouncer.now < pending.deadline then none else some pending.argument := by
  unfold takeDue
  rw [h]
  by_cases hdue : debouncer.now < pending.deadline
  · simp only [if_pos hdue]
  · simp only [if_neg hdue]

/-- What the time left says of a debouncer: when takes deliver, as long as no call is made. -/
structure CountsDown (wait : Nanoseconds) (latest : Option α) (debouncer : Debouncer α)
    (left : Nanoseconds) : Prop where
  le_wait : left ≤ wait
  /-- No time is left exactly when a take delivers now. -/
  zero_iff : left = 0 ↔ ∃ argument, debouncer.takeDue.1 = some argument
  /-- The time left goes down with the clock and stops at zero. -/
  advance : ∀ time, (debouncer.advance time).timeUntilDue = some (left - time)
  /-- After sleeping for the time left a take delivers the last call. -/
  wakes : ∃ argument, latest = some argument ∧
    (debouncer.advance left).takeDue.1 = some argument
  /-- No take delivers sooner, whatever the steps in which the time passes. -/
  early : ∀ events, called events = [] → duration events < left →
    delivered (debouncer.run events).1 = []
  /-- Until a take delivers, the time left is what has not passed of it. -/
  asleep : ∀ events, called events = [] → delivered (debouncer.run events).1 = [] →
    (debouncer.run events).2.timeUntilDue = some (left - duration events)
  /-- The first take after the time left delivers the last call. -/
  on_time : ∀ events, called events = [] → delivered (debouncer.run events).1 = [] →
    left ≤ duration events → (debouncer.run events).2.takeDue.1 = latest

/-- A debouncer that holds the last call back within the wait counts down to it. -/
theorem HoldsLatest.countsDown (h : HoldsLatest wait calls debouncer) {left : Nanoseconds}
    (hleft : debouncer.timeUntilDue = some left) :
    CountsDown wait calls.getLast? debouncer left := by
  obtain ⟨pending, hpending, rfl⟩ := (debouncer.timeUntilDue_eq_some_iff left).1 hleft
  have hlatest := h.latest pending hpending
  have hdeadline := h.deadline_le pending hpending
  have hadvance : ∀ time, (debouncer.advance time).timeUntilDue =
      some (pending.deadline - debouncer.now - time) := by
    intro time
    have hsame : (debouncer.advance time).pending = some pending := hpending
    rw [timeUntilDue_of_pending hsame, Nat.sub_sub]
    rfl
  have hwakes : ∀ time, pending.deadline - debouncer.now ≤ time →
      (debouncer.advance time).takeDue.1 = some pending.argument := by
    intro time htime
    have hsame : (debouncer.advance time).pending = some pending := hpending
    have hdue : pending.deadline ≤ debouncer.now + time := Nat.sub_le_iff_le_add'.1 htime
    rw [takeDue_of_pending hsame]
    exact if_neg (Nat.not_lt_of_le hdue)
  refine ⟨Nat.sub_le_iff_le_add'.2 hdeadline, ?_, hadvance, ⟨_, hlatest, hwakes _ (Nat.le_refl _)⟩, ?_, ?_, ?_⟩
  · rw [takeDue_of_pending hpending, Nat.sub_eq_zero_iff_le]
    constructor
    · intro hdue
      exact ⟨pending.argument, if_neg (Nat.not_lt_of_le hdue)⟩
    · rintro ⟨argument, htaken⟩
      by_cases hdue : debouncer.now < pending.deadline
      · rw [if_pos hdue] at htaken
        exact absurd htaken (by simp)
      · exact Nat.le_of_not_lt hdue
  · intro events hcalls hearly
    exact delivered_early hpending hcalls (Nat.add_lt_of_lt_sub' hearly)
  · intro events hcalls hnone
    rw [run_quiet debouncer hcalls hnone]
    exact hadvance _
  · intro events hcalls hnone hle
    rw [run_quiet debouncer hcalls hnone, hlatest]
    exact hwakes _ hle

/-- **One run.** In every state that a new debouncer can get into, the time left counts down to the
last call made. -/
theorem run_countsDown (wait : Nanoseconds) (events : List (Event α)) {left : Nanoseconds}
    (hleft : ((ofWait wait).run events).2.timeUntilDue = some left) :
    CountsDown wait (called events).getLast? ((ofWait wait).run events).2 left :=
  ((holdsLatest_ofWait wait).run events).countsDown hleft

/-- A call made in the last tick before another is due puts the countdown back to the wait. -/
example : ((ofWait 5).run [.call 'a', .advance 4, .take, .call 'b', .advance 3]).2.timeUntilDue =
    some 2 := by
  decide

end Debouncer

end TomlEditor.Timing
