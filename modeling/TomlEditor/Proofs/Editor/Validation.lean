import TomlEditor.Editor.Session
import TomlEditor.Proofs.Highlight.Edits
import TomlEditor.Proofs.Timing.Delivery

/-!
# No edit is lost by validation

A session checks its document only when a poll finds the check due, and keeps
the markers of the last check that could be marked. Still no edit escapes: while
a check is held back it is for the revision at hand, and when none is, the last
text that was checked is the text at hand. The invariant says so together with
what the markers are, and every action keeps it.
-/

namespace TomlEditor.Editor

open Problem Theme Timing

/-! ## Responses and outcomes -/

/-- Whether a response says that an edit was made. -/
def Response.accepted : Response → Bool
  | .edited (.ok _) => true
  | _ => false

/-- The markers for the outcome of a check: none for a valid document, one for a failure with a
place. A failure without a place cannot be shown. -/
def shown? : Except Failure Unit → Option (List Marker)
  | .ok () => some []
  | .error failure =>
    if failure.isPositioned then
      some [.errorAt (failure.line + 1) (failure.column + 1) failure.message]
    else none

theorem toOption_markersOf (outcome : Except Failure Unit) :
    (Session.markersOf outcome).toOption = shown? outcome := by
  cases outcome with
  | ok valid => rfl
  | error failure =>
    simp only [Session.markersOf, Failure.markers, shown?]
    split <;> rfl

/-- The markers for the last of some checked texts whose outcome could be shown. -/
def lastShown (check : String → Except Failure Unit) (texts : List String) : List Marker :=
  ((texts.filterMap fun text => shown? (check text)).getLast?).getD []

theorem lastShown_concat (check : String → Except Failure Unit) (texts : List String)
    (text : String) :
    lastShown check (texts ++ [text]) = (shown? (check text)).getD (lastShown check texts) := by
  simp only [lastShown, List.filterMap_append]
  cases hshown : shown? (check text) with
  | none => simp [hshown]
  | some markers => simp [hshown]

namespace Session

/-! ## The invariant -/

/-- What holds of a session after so many edits were made. -/
structure Tracked (check : String → Except Failure Unit) (edits : Nat)
    (session : Session Recorder) : Prop where
  validator : session.validator.check = check
  revision : session.document.revision = 1 + edits
  /-- The check held back is for the revision at hand. -/
  pending : ∀ pending, session.scheduler.pending = some pending →
    pending.argument = session.document.revision
  /-- With no check held back, the last text checked is the one at hand. -/
  settled : session.scheduler.pending = none → 0 < edits →
    session.validator.checked.getLast? = some session.document.text
  markers : session.markers = lastShown check session.validator.checked

variable {check : String → Except Failure Unit} {edits : Nat} {session : Session Recorder}

theorem tracked_ofSettings (settings : Settings) (check : String → Except Failure Unit) :
    Tracked check 0 (ofSettings settings (Recorder.ofCheck check)) where
  validator := rfl
  revision := rfl
  pending := by
    intro pending hpending
    exact absurd hpending (by simp [ofSettings, Debouncer.ofWait])
  settled := by
    intro _ hedits
    exact absurd hedits (Nat.lt_irrefl 0)
  markers := rfl

/-- An edit puts a check off, for the revision that it makes. -/
theorem Tracked.adopt (h : Tracked check edits session) {document : Document}
    (hrevision : document.revision = session.document.revision + 1) :
    Tracked check (edits + 1) (session.adopt document) where
  validator := h.validator
  revision := by
    show document.revision = _
    rw [hrevision, h.revision, Nat.add_assoc]
  pending := by
    intro pending hpending
    have hargument : _ = pending := Option.some.inj hpending
    rw [← hargument]
    rfl
  settled := by
    intro hnone _
    exact absurd hnone (by simp [Session.adopt, Debouncer.call])
  markers := h.markers

theorem Tracked.advance (h : Tracked check edits session) (time : Nanoseconds) :
    Tracked check edits (session.advance time) :=
  ⟨h.validator, h.revision, h.pending, h.settled, h.markers⟩

theorem Tracked.setAppearance (h : Tracked check edits session) (appearance : Appearance) :
    Tracked check edits (session.setAppearance appearance) :=
  ⟨h.validator, h.revision, h.pending, h.settled, h.markers⟩

/-- A poll that finds a check due checks the text at hand, and one that does not changes
nothing. -/
theorem Tracked.poll (h : Tracked check edits session) : Tracked check edits session.poll.2 := by
  unfold Session.poll
  rcases session.scheduler.takeDue_cases with hnone | ⟨pending, hpending, -, htaken⟩
  · rw [hnone]
    exact h
  · -- The text checked is the last one of the record, and nothing is held back any longer.
    rw [htaken]
    refine ⟨h.validator, h.revision, ?_, ?_, ?_⟩
    · intro pending hpending
      exact absurd hpending (by simp)
    · intro _ _
      exact List.getLast?_concat
    · show ((markersOf (session.validator.check session.document.text)).toOption).getD
          session.markers = lastShown check (session.validator.checked ++ [session.document.text])
      rw [toOption_markersOf, lastShown_concat, h.validator, h.markers]

/-- One step keeps the invariant, with one more edit if the response says so. -/
theorem Tracked.step (h : Tracked check edits session) (action : Action) :
    Tracked check (edits + [(session.step action).1].countP Response.accepted)
      (session.step action).2 := by
  cases action with
  | edit change =>
    simp only [Session.step, Session.edit]
    cases hedit : session.document.edit change with
    | ok result =>
      obtain ⟨range, document⟩ := result
      exact h.adopt (Document.revision_of_edit hedit)
    | error reason => exact h
  | advance time => exact h.advance time
  | setAppearance appearance => exact h.setAppearance appearance
  | poll => exact h.poll

theorem Tracked.run (h : Tracked check edits session) (actions : List Action) :
    Tracked check (edits + (session.run actions).1.countP Response.accepted)
      (session.run actions).2 := by
  induction actions generalizing edits session with
  | nil => exact h
  | cons action more ih =>
    have hmore := ih (h.step action)
    rw [Nat.add_assoc, ← List.countP_append] at hmore
    exact hmore

/-- **No edit is lost.** Whatever is done to a new session, its revision counts the edits made; a
check held back is for that revision; and once an edit was made and no check is held back, the
last text checked is the text at hand. The markers are those of the last check that could be
shown, so they then describe the text at hand if its check can be shown. -/
theorem run_keeps_track (check : String → Except Failure Unit) (settings : Settings)
    (actions : List Action) :
    let responses := ((ofSettings settings (Recorder.ofCheck check)).run actions).1
    let session := ((ofSettings settings (Recorder.ofCheck check)).run actions).2
    let edits := responses.countP Response.accepted
    session.document.revision = 1 + edits ∧
      (∀ pending, session.scheduler.pending = some pending →
        pending.argument = session.document.revision) ∧
      (session.isPending = false → 0 < edits →
        session.validator.checked.getLast? = some session.document.text) ∧
      session.markers = lastShown check session.validator.checked ∧
      (session.isPending = false → 0 < edits →
        ∀ markers, shown? (check session.document.text) = some markers →
          session.markers = markers) := by
  intro responses session edits
  have h := (tracked_ofSettings settings check).run actions
  rw [Nat.zero_add] at h
  have hsettled : session.isPending = false → 0 < edits →
      session.validator.checked.getLast? = some session.document.text := by
    intro hidle
    have hnone := Option.isNone_iff_eq_none.1 (Option.isSome_eq_false_iff.1 hidle)
    exact h.settled hnone
  refine ⟨h.revision, h.pending, hsettled, h.markers, ?_⟩
  intro hidle hedits markers hshown
  obtain ⟨before, hchecked⟩ := List.getLast?_eq_some_iff.1 (hsettled hidle hedits)
  rw [h.markers, hchecked, lastShown_concat, hshown, Option.getD_some]

/-- Before the first edit nothing is checked. A check that fails on the empty text at a place has
no marker then, although none is held back. -/
theorem not_shown_before_edit :
    ¬∀ (check : String → Except Failure Unit) (settings : Settings) (actions : List Action),
      let session := ((ofSettings settings (Recorder.ofCheck check)).run actions).2
      session.isPending = false → ∀ markers,
        shown? (check session.document.text) = some markers → session.markers = markers := by
  intro h
  have hfresh := h (fun _ => .error (.toml "m" 0 0)) .standard [] rfl [.errorAt 1 1 "m"] rfl
  exact absurd hfresh (by simp [run, ofSettings])

end Session

end TomlEditor.Editor
