import TomlEditor.Proofs.Editor.Pacing
import TomlEditor.Proofs.Timing.Countdown

/-!
# The time until a check is due

A session passes on the time that its scheduler tells, and a poll is a take of
the scheduler. A run of a session is a run of its scheduler in which the edits
made are the calls and the checks run are the deliveries. So the countdown to a
call is also one to the check of a document, as long as no edit is made.
-/

namespace TomlEditor.Editor

open Problem Timing

/-- The time that some actions let pass. -/
def timePassed (actions : List Action) : Nanoseconds :=
  actions.foldr (fun action time => action.time + time) 0

namespace Session

variable {ν : Type}

theorem duration_events [Validator ν] (session : Session ν) (actions : List Action) :
    duration (session.events actions) = timePassed actions := by
  induction actions generalizing session with
  | nil => rfl
  | cons action more ih =>
    rw [events_cons, duration_cons, time_event, ih]
    rfl

/-! ## A run as a run of the scheduler -/

theorem GoesWith.accepted_eq_false_iff {response : Response} {event : Event Nat}
    {answer : Answer Nat} (h : GoesWith response event answer) :
    response.accepted = false ↔ event.argument? = none := by
  have haccepted : response.accepted = true ↔ ∃ range, response = .edited (.ok range) := by
    unfold Response.accepted
    split <;> simp_all
  have hargument : event.argument? ≠ none ↔ ∃ revision, event = .call revision := by
    cases event <;> simp [Event.argument?]
  rw [Bool.eq_false_iff, ne_eq, haccepted, h.edited, ← hargument, Classical.not_not]

theorem GoesWith.checked_eq_false_iff {response : Response} {event : Event Nat}
    {answer : Answer Nat} (h : GoesWith response event answer) :
    response.checked = false ↔ answer.delivered? = none := by
  have hchecked : response.checked = true ↔ ∃ outcome, response = .polled (some outcome) := by
    unfold Response.checked
    split <;> simp_all
  have hdelivered : answer.delivered? ≠ none ↔ ∃ revision, answer = .taken (some revision) := by
    cases answer with
    | issued ticket => simp [Answer.delivered?]
    | passed => simp [Answer.delivered?]
    | taken argument => cases argument <;> simp [Answer.delivered?]
  rw [Bool.eq_false_iff, ne_eq, hchecked, h.checked, ← hdelivered, Classical.not_not]

variable [Validator ν]

/-- The scheduler runs the events that the actions are to it. -/
theorem run_scheduler (session : Session ν) (actions : List Action) :
    (session.run actions).2.scheduler = (session.scheduler.run (session.events actions)).2 := by
  induction actions generalizing session with
  | nil => rfl
  | cons action more ih =>
    rw [run_cons, events_cons, Debouncer.run, ih, (session.step_scheduler action).1]

/-- Where no edit is made the scheduler is not called. -/
theorem called_events_eq_nil (session : Session ν) {actions : List Action}
    (h : ∀ response ∈ (session.run actions).1, response.accepted = false) :
    called (session.events actions) = [] := by
  induction actions generalizing session with
  | nil => rfl
  | cons action more ih =>
    obtain ⟨hfirst, hmore⟩ := List.forall_mem_cons.1 (session.run_cons action more ▸ h)
    rw [events_cons, called_cons, (session.step_scheduler action).2.accepted_eq_false_iff.1 hfirst,
      ih _ hmore]
    rfl

/-- No check is run where the scheduler delivers nothing, and only there. -/
theorem unchecked_iff_delivered_eq_nil (session : Session ν) (actions : List Action) :
    (∀ response ∈ (session.run actions).1, response.checked = false) ↔
      delivered (session.scheduler.run (session.events actions)).1 = [] := by
  induction actions generalizing session with
  | nil => simp [run, events, Debouncer.run, delivered]
  | cons action more ih =>
    obtain ⟨hscheduler, hgoes⟩ := session.step_scheduler action
    rw [run_cons, events_cons, Debouncer.run, List.forall_mem_cons, delivered_cons,
      List.append_eq_nil_iff, ih, hscheduler, hgoes.checked_eq_false_iff]
    simp

/-- A poll checks the text at hand where its take delivers. -/
theorem poll_fst (session : Session ν) :
    session.poll.1 = session.scheduler.takeDue.1.map fun _ =>
      markersOf (Validator.validate session.validator session.document.text).1 := by
  unfold poll
  rcases session.scheduler.takeDue_cases with hnone | ⟨pending, -, -, htaken⟩
  · rw [hnone]
    rfl
  · rw [htaken]
    rfl

/-! ## The countdown -/

/-- What the time left says of a session: when polls check the document, as long as no edit is
made. -/
structure CountsDown (wait : Nanoseconds) (session : Session ν) (left : Nanoseconds) : Prop where
  le_wait : left ≤ wait
  /-- No time is left exactly when a poll runs a check now. -/
  zero_iff : left = 0 ↔ ∃ outcome, session.poll.1 = some outcome
  /-- The time left goes down with the clock and stops at zero. -/
  advance : ∀ time, (session.advance time).timeUntilDue = some (left - time)
  /-- After sleeping for the time left a poll checks the text at hand. -/
  wakes : (session.advance left).poll.1 =
    some (markersOf (Validator.validate session.validator session.document.text).1)
  /-- No poll checks sooner, whatever the steps in which the time passes. -/
  early : ∀ actions, (∀ response ∈ (session.run actions).1, response.accepted = false) →
    timePassed actions < left →
      ∀ response ∈ (session.run actions).1, response.checked = false
  /-- Until a poll checks, the time left is what has not passed of it. -/
  asleep : ∀ actions, (∀ response ∈ (session.run actions).1, response.accepted = false) →
    (∀ response ∈ (session.run actions).1, response.checked = false) →
      (session.run actions).2.timeUntilDue = some (left - timePassed actions)
  /-- The first poll after the time left checks the text at hand. -/
  on_time : ∀ actions, (∀ response ∈ (session.run actions).1, response.accepted = false) →
    (∀ response ∈ (session.run actions).1, response.checked = false) →
      left ≤ timePassed actions →
        let rested := (session.run actions).2
        rested.poll.1 =
          some (markersOf (Validator.validate rested.validator rested.document.text).1)

/-- A session counts down as its scheduler does. -/
theorem countsDown_of_scheduler {session : Session ν} {wait left : Nanoseconds}
    {latest : Option Nat} (h : session.scheduler.CountsDown wait latest left) :
    session.CountsDown wait left := by
  have hclock : ∀ actions, duration (session.events actions) = timePassed actions :=
    session.duration_events
  refine ⟨h.le_wait, ?_, h.advance, ?_, ?_, ?_, ?_⟩
  · rw [h.zero_iff, poll_fst]
    cases session.scheduler.takeDue.1 <;> simp
  · obtain ⟨argument, -, htaken⟩ := h.wakes
    have hscheduler : (session.advance left).scheduler.takeDue.1 = some argument := htaken
    rw [poll_fst, hscheduler]
    rfl
  · intro actions hedits hearly
    rw [unchecked_iff_delivered_eq_nil]
    exact h.early _ (session.called_events_eq_nil hedits) (hclock actions ▸ hearly)
  · intro actions hedits hchecks
    rw [unchecked_iff_delivered_eq_nil] at hchecks
    rw [timeUntilDue, run_scheduler, ← hclock]
    exact h.asleep _ (session.called_events_eq_nil hedits) hchecks
  · intro actions hedits hchecks hle
    rw [unchecked_iff_delivered_eq_nil] at hchecks
    obtain ⟨argument, hlatest, -⟩ := h.wakes
    have htaken := h.on_time _ (session.called_events_eq_nil hedits) hchecks (hclock actions ▸ hle)
    rw [← run_scheduler, hlatest] at htaken
    intro rested
    rw [poll_fst, htaken]
    rfl

/-- **The time left is exact.** In every state that a new debouncer, or a new session, can get
into, no time is told exactly when nothing is held back. A time that is told is at most the wait,
and zero exactly when a take delivers now, or a poll checks. It goes down with the clock; until it
is over no take delivers, and the first one after that delivers the last call made, unless there is
another call. The same goes for the polls of a session, which check the text at hand, unless there
is another edit. -/
theorem time_left_is_exact {α : Type} (wait : Nanoseconds) (events : List (Event α))
    (settings : Settings) (validator : ν) (actions : List Action) :
    let debouncer := ((Debouncer.ofWait wait).run events).2
    let session := ((ofSettings settings validator).run actions).2
    ((debouncer.timeUntilDue = none ↔ debouncer.isPending = false) ∧
      ∀ left, debouncer.timeUntilDue = some left →
        debouncer.CountsDown wait (called events).getLast? left) ∧
    (session.timeUntilDue = none ↔ session.isPending = false) ∧
      ∀ left, session.timeUntilDue = some left → session.CountsDown settings.wait left := by
  intro debouncer session
  refine ⟨⟨debouncer.timeUntilDue_eq_none_iff, ?_⟩, session.scheduler.timeUntilDue_eq_none_iff, ?_⟩
  · intro left hleft
    exact Debouncer.run_countsDown wait events hleft
  · intro left hleft
    have hscheduler : session.scheduler = ((Debouncer.ofWait settings.wait).run
        ((ofSettings settings validator).events actions)).2 := run_scheduler _ actions
    rw [timeUntilDue, hscheduler] at hleft
    apply countsDown_of_scheduler
    rw [hscheduler]
    exact Debouncer.run_countsDown settings.wait _ hleft

/-- A refused edit does not put the check off: one tick before the time left no poll checks, and
after it one does. -/
example : ((ofSettings ⟨5, .dark⟩ (Recorder.ofCheck fun _ => .ok ())).run
    [.edit (.setText "a"), .advance 4, .edit (.removeLine 7), .poll, .advance 1,
      .poll]).1.map Response.checked = [false, false, false, false, false, true] := by
  decide +kernel

end Session

end TomlEditor.Editor
