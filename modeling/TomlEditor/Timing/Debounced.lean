import TomlEditor.Timing.Debouncer

/-!
# Debounced effects

An effect on a state of any kind, wrapped so that it is run with the argument
of the last call of a burst only, when a poll finds that call due.
-/

namespace TomlEditor.Timing

structure Debounced (α σ : Type) where
  debouncer : Debouncer α
  /-- What running with an argument does to the state. -/
  effect : α → σ → σ
  state : σ

namespace Debounced

variable {α σ : Type}

def ofEffect (wait : Nanoseconds) (effect : α → σ → σ) (state : σ) : Debounced α σ :=
  ⟨.ofWait wait, effect, state⟩

def advance (debounced : Debounced α σ) (time : Nanoseconds) : Debounced α σ :=
  { debounced with debouncer := debounced.debouncer.advance time }

def call (debounced : Debounced α σ) (argument : α) : Ticket × Debounced α σ :=
  let called := debounced.debouncer.call argument
  (called.1, { debounced with debouncer := called.2 })

/-- Runs the effect if a call is due, and says whether it ran. -/
def poll (debounced : Debounced α σ) : Bool × Debounced α σ :=
  match debounced.debouncer.takeDue with
  | (none, _) => (false, debounced)
  | (some argument, debouncer) =>
    (true,
      { debounced with
        debouncer := debouncer
        state := debounced.effect argument debounced.state })

/-- Does what an event says; polls where it says to take. -/
def step (debounced : Debounced α σ) : Event α → Debounced α σ
  | .call argument => (debounced.call argument).2
  | .advance time => debounced.advance time
  | .take => debounced.poll.2

end Debounced

/-- An effect that writes its arguments down in the order in which it is run. -/
def record {α : Type} (argument : α) (log : List α) : List α :=
  log ++ [argument]

end TomlEditor.Timing
