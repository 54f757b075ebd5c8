import Strand.Machine.Step
import Strand.Language.Evaluation
import Strand.Language.Reading

/-! # Programs — running a list of operations

    A program is a list of expressions that are evaluated one after the
    other in one store. Each gives a result and the events that happened
    meanwhile; the result is shown first and let go of afterwards, and what
    that brings about still belongs to it. -/

open Strand.Language

namespace Strand

/-- A program, ready to run. -/
structure Program where
  operations : List Term
  definitions : Definitions
  /-- The least important records that are shown; without a level, none
      are. -/
  level : Option Level

/-- What became of an operation. -/
inductive Result where
  /-- It returned an outcome. -/
  | returned (o : Outcome View)
  /-- A panic came out of it. -/
  | panicked (text : String)
  /-- It did not come to an end. -/
  | unfinished

/-- The result of an operation, and the events in the order in which they
    happened. -/
structure Turn where
  result : Result
  events : List Event

namespace Program

/-- Whether an event is shown at a level. -/
def shows (level : Option Level) : Event → Bool
  | .record r =>
    match level with
    | some l => l.rank ≤ r.level.rank
    | none => false
  | _ => true

/-- A machine that evaluates an expression at top level. -/
def machine (definitions : Definitions) (store : Store Code) (t : Term) :
    Machine Code Running where
  store := { store with events := [] }
  control := []
  focus := .release [] (.begin (.block t ⟨⟨definitions, []⟩, .unit⟩) .begin)

/-- Show the outcome of a halted machine, and let go of it. -/
def settle (fuel : Nat) (m : Machine Code Running) : Result × Store Code :=
  match m.focus with
  | .release [] (.give (.outcome o)) =>
    let shown := o.map m.store.view
    let m := Machine.run behavior fuel { m with focus := .release o.handles (.give .nothing) }
    match m.focus with
    | .release [] (.give _) => (.returned shown, m.store)
    | .release [] (.unwind payload _) => (.panicked payload.message, m.store)
    | _ => (.unfinished, m.store)
  | .release [] (.unwind payload _) => (.panicked payload.message, m.store)
  | _ => (.unfinished, m.store)

/-- Evaluate the operations of a program in order, each with at most `fuel`
    moves. -/
def runFrom (fuel : Nat) (definitions : Definitions) (level : Option Level) :
    List Term → Store Code → List Turn
  | [], _ => []
  | t :: ts, store =>
    let (result, store) := settle fuel (Machine.run behavior fuel (machine definitions store t))
    ⟨result, store.events.reverse.filter (shows level)⟩
      :: runFrom fuel definitions level ts store

/-- Run a program from an empty store. -/
def run (fuel : Nat) (p : Program) : List Turn :=
  runFrom fuel p.definitions p.level p.operations .empty

end Program

end Strand
