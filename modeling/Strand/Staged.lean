import Strand.Value

/-! # Staged — lists of stages

    A list of stages runs one stage each time it is fed, and finishes with
    what it is fed once the stages have run out. A stage that finishes, an
    exit and running past the end all finish the list for good.

    * `Staged.enter` says what feeding a list does, up to the code that it
      runs.
    * `Staged.exit` says what making it return does: its cleanup runs only if
      a stage was entered and the list has not finished.

    Both move the list on before any code runs, so a panic in a stage leaves
    the list past that stage. -/

namespace Strand

/-- One stage of a `Staged` script. -/
inductive Stage (C : Type) where
  /-- Run `code` on whatever outcome is fed in. -/
  | always (code : C)
  /-- Run `code` on a success; a failure finishes the script with it. -/
  | onSuccess (code : C)
  /-- Finish with an outcome fixed in advance. -/
  | constant (outcome : Outcome Value)

/-- A list of stages with a position in it. -/
structure Staged (C : Type) where
  stages : List (Stage C)
  /-- Cleanup for a forced return of a started, unfinished script. -/
  onExit : Option C
  /-- How many stages have been entered. -/
  position : Nat
  /-- Set by a stage that finishes, by an exit, and by running past the end. -/
  finished : Bool

/-- What a list of stages does with an outcome that it is fed. -/
inductive Entering (C : Type) where
  /-- Finishes with the outcome itself. -/
  | pass
  /-- Finishes with another outcome. -/
  | constant (outcome : Outcome Value)
  /-- Runs the code of a stage on it. -/
  | run (code : C)

namespace Staged

variable {C : Type}

/-- A script without stages. -/
def empty : Staged C := ⟨[], none, 0, false⟩

/-- A script that finishes at once with `outcome`. -/
def returning (outcome : Outcome Value) : Staged C := ⟨[.constant outcome], none, 0, false⟩

/-- The list after it has finished. -/
def finish (s : Staged C) : Staged C := { s with finished := true }

/-- Enter the next stage. -/
def enter (s : Staged C) (input : Outcome Value) : Entering C × Staged C :=
  if s.finished then (.pass, s)
  else
    match s.stages[s.position]? with
    | none => (.pass, s.finish)
    | some stage =>
      let entered := { s with position := s.position + 1 }
      match stage, input with
      | .always code, _ => (.run code, entered)
      | .onSuccess code, .success _ => (.run code, entered)
      | .onSuccess _, .failure _ => (.pass, entered.finish)
      | .constant o, _ => (.constant o, entered.finish)

/-- Return before the end; the cleanup, if it is due, is handed out. -/
def exit (s : Staged C) : Option C × Staged C :=
  (if 0 < s.position && !s.finished then s.onExit else none, s.finish)

end Staged

end Strand
