import Mathlib.Data.Nat.SuccPred
import TomlEditor.Proofs.Editor.Rejection
import TomlEditor.Proofs.Editor.Validation

/-!
# The pace of checks

A session is checked only while it is quiet. Its scheduler is a debouncer whose
calls are the edits made and whose takes are the polls, so what a debouncer
delivers by its history says which polls run a check: those behind an edit that
has not been checked yet, once every edit is as old as the wait. All limits on
the pace of checks follow from this.
-/

namespace TomlEditor.Editor

open Problem Timing

/-- Whether a response says that a check was run. -/
def Response.checked : Response → Bool
  | .polled (some _) => true
  | _ => false

/-- The time that an action lets pass. -/
def Action.time : Action → Nanoseconds
  | .advance time => time
  | _ => 0

/-- The time on the clock at a place of a run. -/
def elapsed (actions : List Action) (place : Nat) : Nanoseconds :=
  (actions.take place).foldl (fun now action => now + action.time) 0

/-- At a place of a run an edit was made. -/
def EditsAt (responses : List Response) (place : Nat) : Prop :=
  ∃ range, responses[place]? = some (.edited (.ok range))

/-- At a place of a run a check was run. -/
def ChecksAt (responses : List Response) (place : Nat) : Prop :=
  ∃ outcome, responses[place]? = some (.polled (some outcome))

/-- An edit was made before a place of a run, and no check was run between the two. -/
def EditedSinceCheck (responses : List Response) (place : Nat) : Prop :=
  ∃ edit, edit < place ∧ EditsAt responses edit ∧
    ∀ check, edit < check → check < place → ¬ChecksAt responses check

namespace Session

/-! ## A session as a debouncer -/

variable {ν : Type}

/-- What an action is to the scheduler of a session. One that does nothing to the scheduler is a
moment in which no time passes. -/
def event (session : Session ν) : Action → Event Nat
  | .edit change =>
    match session.document.edit change with
    | .ok (_, document) => .call document.revision
    | .error _ => .advance 0
  | .advance time => .advance time
  | .setAppearance _ => .advance 0
  | .poll => .take

theorem time_event (session : Session ν) (action : Action) :
    (session.event action).time = action.time := by
  cases action with
  | edit change =>
    simp only [event]
    split <;> rfl
  | advance time => rfl
  | setAppearance appearance => rfl
  | poll => rfl

variable [Validator ν]

/-- What the actions of a run are to the scheduler. -/
def events (session : Session ν) : List Action → List (Event Nat)
  | [] => []
  | action :: more => session.event action :: (session.step action).2.events more

/-- A response goes with the answer of the scheduler: an edit is made where the scheduler is called,
and a check is run where it delivers. -/
structure GoesWith (response : Response) (event : Event Nat) (answer : Answer Nat) : Prop where
  edited : (∃ range, response = .edited (.ok range)) ↔ ∃ revision, event = .call revision
  checked : (∃ outcome, response = .polled (some outcome)) ↔
    ∃ revision, answer = .taken (some revision)

/-- **One step.** The scheduler of a session takes the event that the action is to it. -/
theorem step_scheduler (session : Session ν) (action : Action) :
    (session.step action).2.scheduler = (session.scheduler.step (session.event action)).2 ∧
      GoesWith (session.step action).1 (session.event action)
        (session.scheduler.step (session.event action)).1 := by
  cases action with
  | edit change =>
    simp only [Session.step, Session.edit, event]
    cases session.document.edit change with
    | ok result => exact ⟨rfl, by simp, by simp [Debouncer.step]⟩
    | error reason => exact ⟨rfl, by simp, by simp [Debouncer.step]⟩
  | advance time =>
    exact ⟨rfl, by simp [Session.step, event], by simp [Session.step, event, Debouncer.step]⟩
  | setAppearance appearance =>
    exact ⟨rfl, by simp [Session.step, event], by simp [Session.step, event, Debouncer.step]⟩
  | poll =>
    simp only [Session.step, Session.poll, event, Debouncer.step]
    rcases session.scheduler.takeDue_cases with hnone | ⟨pending, -, -, htaken⟩
    · rw [hnone]
      exact ⟨rfl, by simp, by simp⟩
    · rw [htaken]
      exact ⟨rfl, by simp, by simp⟩

/-! ## Places of a run -/

theorem events_cons (session : Session ν) (action : Action) (more : List Action) :
    session.events (action :: more) =
      session.event action :: (session.step action).2.events more := rfl

/-- What stands at a place of a run, and the session behind it, are those of one step. -/
theorem run_getElem? (session : Session ν) {actions : List Action} {place : Nat} {action : Action}
    (h : actions[place]? = some action) :
    (session.run actions).1[place]? = some ((session.run (actions.take place)).2.step action).1 ∧
      (session.events actions)[place]? = some ((session.run (actions.take place)).2.event action) ∧
      (session.run (actions.take (place + 1))).2 =
        ((session.run (actions.take place)).2.step action).2 := by
  induction actions generalizing session place with
  | nil => simp at h
  | cons first more ih =>
    cases place with
    | zero =>
      rw [List.getElem?_cons_zero, Option.some.injEq] at h
      subst h
      exact ⟨rfl, rfl, rfl⟩
    | succ place => exact ih (session.step first).2 (by simpa using h)

theorem length_run (session : Session ν) (actions : List Action) :
    (session.run actions).1.length = actions.length := by
  induction actions generalizing session with
  | nil => rfl
  | cons action more ih =>
    rw [run_cons, List.length_cons, List.length_cons, ih]

/-- **One run.** Edits and checks are in the places of the calls and the deliveries of the
scheduler. -/
theorem run_goesWith (session : Session ν) (actions : List Action) (place : Nat) :
    (EditsAt (session.run actions).1 place ↔
        ∃ revision, (session.events actions)[place]? = some (.call revision)) ∧
      (ChecksAt (session.run actions).1 place ↔
        ∃ revision, (session.scheduler.run (session.events actions)).1[place]? =
          some (.taken (some revision))) := by
  induction actions generalizing session place with
  | nil => simp [EditsAt, ChecksAt, run, events, Debouncer.run]
  | cons action more ih =>
    obtain ⟨hscheduler, hgoes⟩ := session.step_scheduler action
    cases place with
    | zero =>
      simp only [EditsAt, ChecksAt, run_cons, events_cons, Debouncer.run, List.getElem?_cons_zero,
        Option.some.injEq]
      exact ⟨hgoes.edited, hgoes.checked⟩
    | succ place =>
      have hmore := ih (session.step action).2 place
      rw [hscheduler] at hmore
      exact hmore

theorem map_time_events (session : Session ν) (actions : List Action) :
    (session.events actions).map Event.time = actions.map Action.time := by
  induction actions generalizing session with
  | nil => rfl
  | cons action more ih => rw [events_cons, List.map_cons, List.map_cons, time_event, ih]

theorem clockAt_events (session : Session ν) (actions : List Action) (place : Nat) :
    clockAt (session.events actions) place = elapsed actions place := by
  have htimes := congrArg (fun times => (times.take place).foldl (· + ·) 0)
    (map_time_events session actions)
  simp only [← List.map_take, List.foldl_map] at htimes
  exact htimes

end Session

/-! ## The clock -/

theorem le_foldl_time (now : Nanoseconds) (actions : List Action) :
    now ≤ actions.foldl (fun now action => now + action.time) now := by
  induction actions generalizing now with
  | nil => exact Nat.le_refl now
  | cons action more ih => exact Nat.le_trans (Nat.le_add_right _ _) (ih _)

theorem elapsed_mono (actions : List Action) {place later : Nat} (h : place ≤ later) :
    elapsed actions place ≤ elapsed actions later := by
  obtain ⟨count, rfl⟩ := Nat.exists_eq_add_of_le h
  rw [elapsed, elapsed, List.take_add, List.foldl_append]
  exact le_foldl_time _ _

/-! ## Which polls run a check -/

namespace Session

variable {ν : Type} [Validator ν]

/-- A poll runs a check if and only if an edit was made since the last check and all edits are as
old as the wait. -/
theorem checksAt_iff (settings : Settings) (validator : ν) {actions : List Action} {place : Nat}
    (hpoll : actions[place]? = some .poll) :
    let responses := ((ofSettings settings validator).run actions).1
    ChecksAt responses place ↔
      EditedSinceCheck responses place ∧
        ∀ edit, edit < place → EditsAt responses edit →
          elapsed actions edit + settings.wait ≤ elapsed actions place := by
  intro responses
  let new := ofSettings settings validator
  have hedits : ∀ place, EditsAt responses place ↔
      ∃ revision, (new.events actions)[place]? = some (.call revision) := fun place =>
    (new.run_goesWith actions place).1
  have hchecks : ∀ place, ChecksAt responses place ↔
      ∃ revision, ((Debouncer.ofWait settings.wait).run (new.events actions)).1[place]? =
        some (.taken (some revision)) := fun place => (new.run_goesWith actions place).2
  have hclock := new.clockAt_events actions
  have htake : (new.events actions)[place]? = some .take := (new.run_getElem? hpoll).2.1
  constructor
  · intro hcheck
    -- What is delivered is the last edit, which nothing has checked since it was made.
    obtain ⟨revision, hanswer⟩ := (hchecks place).1 hcheck
    obtain ⟨made, hheld, hdue⟩ :=
      (Debouncer.delivers_iff_due settings.wait htake revision).1 hanswer
    rw [hclock, hclock] at hdue
    refine ⟨⟨made, hheld.made_lt, (hedits made).2 ⟨revision, hheld.called⟩, ?_⟩, ?_⟩
    · intro check hlater hlt hcheck
      obtain ⟨other, hanswer⟩ := (hchecks check).1 hcheck
      exact hheld.waiting check hlater hlt other hanswer
    · intro edit hlt hedit
      obtain ⟨other, hcalled⟩ := (hedits edit).1 hedit
      have hle : edit ≤ made := Nat.le_of_not_lt fun hlater =>
        hheld.latest edit hlater hlt other hcalled
      have hmono := elapsed_mono actions hle
      calc elapsed actions edit + settings.wait
          ≤ elapsed actions made + settings.wait := Nat.add_le_add_right hmono _
        _ ≤ elapsed actions place := hdue
  · rintro ⟨⟨edit, hlt, hedit, hunchecked⟩, hquiet⟩
    obtain ⟨last, ⟨hlast, hmade⟩, hgreatest⟩ :=
      BddAbove.exists_isGreatest_of_nonempty (S := {edit | edit < place ∧ EditsAt responses edit})
        ⟨place, fun edit hedit => Nat.le_of_lt hedit.1⟩ ⟨edit, hlt, hedit⟩
    have hle : edit ≤ last := hgreatest ⟨hlt, hedit⟩
    obtain ⟨revision, hcalled⟩ := (hedits last).1 hmade
    rw [hchecks]
    refine ⟨revision, (Debouncer.delivers_iff_due settings.wait htake revision).2 ⟨last, ?_, ?_⟩⟩
    · refine ⟨hlast, hcalled, ?_, ?_⟩
      · intro later hlater hbefore other hother
        exact Nat.not_le_of_lt hlater (hgreatest ⟨hbefore, (hedits later).2 ⟨other, hother⟩⟩)
      · intro later hlater hbefore other hother
        exact hunchecked later (by omega) hbefore ((hchecks later).2 ⟨other, hother⟩)
    · rw [hclock, hclock]
      exact hquiet last hlast hmade

/-! ## Checks and edits -/

/-- A check takes the call that is held back, and only an edit has one held back. -/
theorem step_countP (session : Session ν) (action : Action) :
    [(session.step action).1].countP Response.checked +
        (session.step action).2.scheduler.pending.toList.length ≤
      session.scheduler.pending.toList.length +
        [(session.step action).1].countP Response.accepted := by
  cases action with
  | edit change =>
    simp only [Session.step, Session.edit]
    cases session.document.edit change with
    | ok result => simp [Response.checked, Response.accepted, adopt, Debouncer.call]
    | error reason => simp [Response.checked]
  | advance time => simp [Session.step, Response.checked, advance, Debouncer.advance]
  | setAppearance appearance => simp [Session.step, Response.checked, setAppearance]
  | poll =>
    simp only [Session.step, Session.poll]
    rcases session.scheduler.takeDue_cases with hnone | ⟨pending, hpending, -, htaken⟩
    · rw [hnone]
      simp [Response.checked]
    · rw [htaken]
      simp [Response.checked, hpending]

theorem run_countP (session : Session ν) (actions : List Action) :
    (session.run actions).1.countP Response.checked ≤
      session.scheduler.pending.toList.length +
        (session.run actions).1.countP Response.accepted := by
  induction actions generalizing session with
  | nil => exact Nat.zero_le _
  | cons action more ih =>
    have hstep := session.step_countP action
    have hmore := ih (session.step action).2
    rw [run_cons, ← List.singleton_append, List.countP_append, List.countP_append]
    omega

/-- A check is run by a poll, on the text at hand. Every other step leaves the validator as it
is. -/
theorem step_validator (session : Session ν) (action : Action) :
    (∀ outcome, (session.step action).1 = .polled (some outcome) →
      action = .poll ∧
        outcome = markersOf (Validator.validate session.validator session.document.text).1 ∧
        (session.step action).2.validator =
          (Validator.validate session.validator session.document.text).2) ∧
      ((∀ outcome, (session.step action).1 ≠ .polled (some outcome)) →
        (session.step action).2.validator = session.validator) := by
  cases action with
  | edit change =>
    simp only [Session.step, Session.edit]
    cases session.document.edit change with
    | ok result => exact ⟨by simp, fun _ => rfl⟩
    | error reason => exact ⟨by simp, fun _ => rfl⟩
  | advance time => exact ⟨by simp [Session.step], fun _ => rfl⟩
  | setAppearance appearance => exact ⟨by simp [Session.step], fun _ => rfl⟩
  | poll =>
    simp only [Session.step, Session.poll]
    rcases session.scheduler.takeDue_cases with hnone | ⟨pending, -, -, htaken⟩
    · rw [hnone]
      exact ⟨by simp, fun _ => rfl⟩
    · rw [htaken]
      refine ⟨?_, ?_⟩
      · rintro outcome houtcome
        simp only [Response.polled.injEq, Option.some.injEq] at houtcome
        exact ⟨trivial, houtcome.symm, rfl⟩
      · intro hnone
        exact absurd rfl (hnone _)

/-- A check in a run is that of a poll, and the validator is given the text at hand. -/
theorem run_checked (session : Session ν) {actions : List Action} {place : Nat}
    (h : ChecksAt (session.run actions).1 place) :
    let before := (session.run (actions.take place)).2
    let checked := Validator.validate before.validator before.document.text
    actions[place]? = some .poll ∧
      (session.run actions).1[place]? = some (.polled (some (markersOf checked.1))) ∧
        (session.run (actions.take (place + 1))).2.validator = checked.2 := by
  intro before checked
  obtain ⟨outcome, houtcome⟩ := h
  have hlt : place < actions.length := by
    rw [← session.length_run actions]
    exact (List.getElem?_eq_some_iff.1 houtcome).choose
  obtain ⟨hresponse, -, hbehind⟩ := session.run_getElem? (List.getElem?_eq_getElem hlt)
  have hpolled := Option.some.inj (hresponse.symm.trans houtcome)
  obtain ⟨hpoll, rfl, hvalidator⟩ := (before.step_validator _).1 outcome hpolled
  exact ⟨(List.getElem?_eq_getElem hlt).trans (congrArg some hpoll), houtcome,
    (congrArg Session.validator hbehind).trans hvalidator⟩

theorem run_unchecked (session : Session ν) {actions : List Action} {place : Nat}
    (h : ¬ChecksAt (session.run actions).1 place) :
    (session.run (actions.take (place + 1))).2.validator =
      (session.run (actions.take place)).2.validator := by
  rcases Nat.lt_or_ge place actions.length with hlt | hge
  · obtain ⟨hresponse, -, hbehind⟩ := session.run_getElem? (List.getElem?_eq_getElem hlt)
    rw [hbehind]
    apply (step_validator _ _).2
    intro outcome houtcome
    exact h ⟨outcome, hresponse.trans (congrArg some houtcome)⟩
  · rw [List.take_of_length_le hge, List.take_of_length_le (Nat.le_succ_of_le hge)]

/-! ## Checks and each other -/

/-- An edit lies between two checks, and the later one waits for it. -/
theorem checks_apart {responses : List Response} {actions : List Action} {wait : Nanoseconds}
    {first later : Nat} (hfirst : ChecksAt responses first) (hlt : first < later)
    (hsince : EditedSinceCheck responses later)
    (hquiet : ∀ edit, edit < later → EditsAt responses edit →
      elapsed actions edit + wait ≤ elapsed actions later) :
    elapsed actions first + wait ≤ elapsed actions later := by
  obtain ⟨edit, hedit, hmade, hunchecked⟩ := hsince
  have hle : first ≤ edit := Nat.le_of_not_lt fun hbefore => hunchecked first hbefore hlt hfirst
  calc elapsed actions first + wait
      ≤ elapsed actions edit + wait := Nat.add_le_add_right (elapsed_mono actions hle) _
    _ ≤ elapsed actions later := hquiet edit hedit hmade

/-- Right behind a check there is no edit that it has not seen. -/
theorem not_editedSinceCheck_succ {responses : List Response} {place : Nat}
    (h : ChecksAt responses place) : ¬EditedSinceCheck responses (place + 1) := by
  rintro ⟨edit, hedit, hmade, hunchecked⟩
  rcases Nat.lt_succ_iff_lt_or_eq.1 hedit with hlt | rfl
  · exact hunchecked place hlt (Nat.lt_succ_self place) h
  · -- One response cannot be that of an edit and that of a poll.
    obtain ⟨range, hedited⟩ := hmade
    obtain ⟨outcome, hpolled⟩ := h
    rw [hedited] at hpolled
    simp at hpolled

/-- **Checks are paced.** Whatever is done to a new session, a poll runs a check if and only if an
edit was made since the last check and all edits so far are as old as the wait. The validator is
then given the text at hand, and nothing else changes it. So checks are at least the wait apart on
the clock, there are no more of them than edits, and no poll right behind a check runs another. -/
theorem checks_are_paced (settings : Settings) (validator : ν) (actions : List Action) :
    let new := ofSettings settings validator
    let responses := (new.run actions).1
    let before := fun place => (new.run (actions.take place)).2
    (∀ place, actions[place]? = some .poll →
      (ChecksAt responses place ↔
        EditedSinceCheck responses place ∧
          ∀ edit, edit < place → EditsAt responses edit →
            elapsed actions edit + settings.wait ≤ elapsed actions place)) ∧
      (∀ place, ChecksAt responses place →
        actions[place]? = some .poll ∧
          let checked :=
            Validator.validate (before place).validator (before place).document.text
          responses[place]? = some (.polled (some (markersOf checked.1))) ∧
            (before (place + 1)).validator = checked.2) ∧
      (∀ place, ¬ChecksAt responses place →
        (before (place + 1)).validator = (before place).validator) ∧
      (∀ first later, ChecksAt responses first → ChecksAt responses later → first < later →
        elapsed actions first + settings.wait ≤ elapsed actions later) ∧
      responses.countP Response.checked ≤ responses.countP Response.accepted ∧
      ∀ place, ChecksAt responses place → ¬ChecksAt responses (place + 1) := by
  intro new responses before
  have hsince : ∀ place, ChecksAt responses place → EditedSinceCheck responses place ∧
      ∀ edit, edit < place → EditsAt responses edit →
        elapsed actions edit + settings.wait ≤ elapsed actions place := fun place hcheck =>
    (checksAt_iff settings validator (new.run_checked hcheck).1).1 hcheck
  refine ⟨fun place => checksAt_iff settings validator, fun place => new.run_checked,
    fun place => new.run_unchecked, ?_, ?_, ?_⟩
  · intro first later hfirst hlater hlt
    obtain ⟨hedited, hquiet⟩ := hsince later hlater
    exact checks_apart hfirst hlt hedited hquiet
  · have hempty : new.scheduler.pending.toList.length = 0 := rfl
    have hcount := new.run_countP actions
    rwa [hempty, Nat.zero_add] at hcount
  · intro place hcheck hnext
    exact not_editedSinceCheck_succ hcheck (hsince (place + 1) hnext).1

/-- An edit between a due check and the poll that would have run it puts the check off. -/
example : ((ofSettings ⟨5, .dark⟩ (Recorder.ofCheck fun _ => .ok ())).run
    [.edit (.setText "a"), .advance 5, .edit (.setText "b"), .poll, .advance 5, .poll,
      .poll]).1.map Response.checked = [false, false, false, false, false, true, false] := by
  decide +kernel

end Session

end TomlEditor.Editor
