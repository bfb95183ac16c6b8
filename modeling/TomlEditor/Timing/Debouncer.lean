/-!
# Debouncing

A debouncer holds at most one call back. A new call takes the place of the one
held back and starts the wait again, so of a burst of calls only the last is
delivered, and only once no call has come for the whole wait. Times are counted
from the start of the clock, which only moves when told to.
-/

namespace TomlEditor.Timing

/-- A time or a duration in nanoseconds. -/
abbrev Nanoseconds := Nat

/-- The wait between the last change of a text and its check. -/
def defaultWait : Nanoseconds :=
  200 * 1000 * 1000

/-- Names one call, by its place in the order of calls. -/
structure Ticket where
  number : Nat
deriving DecidableEq, Repr

/-- A call that is held back. -/
structure Pending (α : Type) where
  /-- The time from which on the call is due. -/
  deadline : Nanoseconds
  argument : α
  ticket : Ticket
deriving DecidableEq, Repr

structure Debouncer (α : Type) where
  wait : Nanoseconds
  now : Nanoseconds
  pending : Option (Pending α)
  /-- The number of calls so far. -/
  issued : Nat
deriving DecidableEq, Repr

namespace Debouncer

variable {α : Type}

def ofWait (wait : Nanoseconds) : Debouncer α :=
  ⟨wait, 0, none, 0⟩

/-- Lets time pass. -/
def advance (debouncer : Debouncer α) (time : Nanoseconds) : Debouncer α :=
  { debouncer with now := debouncer.now + time }

/-- Holds a call back, in place of one that was held back before. -/
def call (debouncer : Debouncer α) (argument : α) : Ticket × Debouncer α :=
  let ticket : Ticket := ⟨debouncer.issued + 1⟩
  (ticket,
    { debouncer with
      pending := some ⟨debouncer.now + debouncer.wait, argument, ticket⟩
      issued := debouncer.issued + 1 })

def isPending (debouncer : Debouncer α) : Bool :=
  debouncer.pending.isSome

/-- Whether the call of a ticket is the one held back. -/
def isCurrent (debouncer : Debouncer α) (ticket : Ticket) : Bool :=
  debouncer.pending.any fun pending => pending.ticket = ticket

def deadline (debouncer : Debouncer α) : Option Nanoseconds :=
  debouncer.pending.map Pending.deadline

/-- The time until the call held back is due, zero if it is. -/
def timeUntilDue (debouncer : Debouncer α) : Option Nanoseconds :=
  debouncer.deadline.map (· - debouncer.now)

/-- Delivers the call held back if it is due. -/
def takeDue (debouncer : Debouncer α) : Option α × Debouncer α :=
  match debouncer.pending with
  | none => (none, debouncer)
  | some pending =>
    if debouncer.now < pending.deadline then (none, debouncer)
    else (some pending.argument, { debouncer with pending := none })

end Debouncer

/-! ## Runs -/

/-- What can happen to a debouncer. -/
inductive Event (α : Type)
  | call (argument : α)
  | advance (time : Nanoseconds)
  | take
deriving DecidableEq, Repr

/-- What an event answers. -/
inductive Answer (α : Type)
  | issued (ticket : Ticket)
  | passed
  | taken (argument : Option α)
deriving DecidableEq, Repr

namespace Debouncer

variable {α : Type}

def step (debouncer : Debouncer α) : Event α → Answer α × Debouncer α
  | .call argument =>
    let called := debouncer.call argument
    (.issued called.1, called.2)
  | .advance time => (.passed, debouncer.advance time)
  | .take =>
    let taken := debouncer.takeDue
    (.taken taken.1, taken.2)

/-- The answers to a sequence of events, and what they lead to. -/
def run (debouncer : Debouncer α) : List (Event α) → List (Answer α) × Debouncer α
  | [] => ([], debouncer)
  | event :: more =>
    let first := debouncer.step event
    let rest := first.2.run more
    (first.1 :: rest.1, rest.2)

end Debouncer

end TomlEditor.Timing
