import Strand.Script
import Strand.Settings

/-! # Behaviors — the program's side of the conversation

    The library never looks into the program's code. It knows code at rest
    (`C`: blocks, stages, callbacks, the program's own coroutines) and code
    that is running (`R`). Code at rest starts on an `Entry`; running code is
    an automaton that answers each `Signal` with a `Reaction`. A reaction may
    be a `Request` to the library, whose `Reply` is the next signal.

    A behavior also says how its own coroutines move on, what happens when
    one is copied, and which handles it holds. The library counts handles by
    what is held before and after code acts, so code cannot forget or
    duplicate one. -/

namespace Strand

/-- What a program leaves in the record of events. -/
inductive Note where
  /-- An outcome worth showing. -/
  | outcome (o : Outcome Value)
  /-- A callback or job ended in a failure that nobody receives. -/
  | callbackFailed (error : Error)
  /-- A coroutine was copied at a position. -/
  | copied (tag : String) (position : Nat)

/-- The handles of a note. -/
def Note.handles : Note → List Handle
  | .outcome o => o.handles
  | _ => []

/-- What the program can ask of the library. -/
inductive Request (C : Type) where
  /-- Write an event. -/
  | record (note : Note)
  /-- Read a shared variable. -/
  | readVariable (name : String)
  /-- Write a shared variable. -/
  | writeVariable (name : String) (value : Value)
  /-- Remove a shared variable. -/
  | removeVariable (name : String)
  /-- Run code, and survive its panic. -/
  | attempt (code : C)
  /-- A new completion with its settler. -/
  | newCompletion
  /-- A completion that has settled already. -/
  | settledCompletion (outcome : Outcome Value)
  /-- Settle a completion. -/
  | settle (settler : Nat) (outcome : Outcome Value)
  /-- Whether the completion behind a completion or settler has settled. -/
  | isSettled (side : Handle)
  /-- The outcome of a completion. -/
  | outcome (completion : Nat)
  /-- Run code when a completion settles. -/
  | onSettle (completion : Nat) (code : C)
  /-- A new job queue. -/
  | newQueue
  /-- Put a job at the end of a queue. -/
  | defer (queue : Nat) (job : C)
  /-- A completion that a later drain settles. -/
  | settleLater (queue : Nat) (outcome : Outcome Value)
  /-- How many jobs wait. -/
  | queueLength (queue : Nat)
  /-- Run jobs until none is left. -/
  | drain (queue : Nat)
  /-- A new scheduler. -/
  | newScheduler (settings : Settings)
  /-- Run the script that `code` builds to the end of a pass. -/
  | evaluate (scheduler : Nat) (code : C)
  /-- Run the script that `code` builds, reporting to a completion. -/
  | start (scheduler : Nat) (code : C)
  /-- Sweep an idle scheduler and count its routines. -/
  | countRoutines (scheduler : Nat)
  /-- Whether a scheduler or a bridge is running. -/
  | isRunning (runner : Handle)
  /-- Take the failures that re-entered passes ended in. -/
  | takeFailures (scheduler : Nat)
  /-- How many frames a continuation captured. -/
  | depth (continuation : Nat)
  /-- Reinstate captured frames. -/
  | invoke (continuation : Nat) (value : Value)
  /-- Invoke a continuation from outside the pass that captured it. -/
  | reenter (scheduler continuation : Nat) (value : Value)
  /-- A new bridge. -/
  | newBridge (settings : Settings)
  /-- Start the task that `code` builds on a bridge. -/
  | run (bridge : Nat) (code : C)
  /-- How many actions of a bridge wait. -/
  | countActions (bridge : Nat)
  /-- Keep a script to advance it by hand. -/
  | keep (script : Script C) (positioned : Bool)
  /-- Advance a kept script; without input, make it exit. -/
  | advance (coroutine : Nat) (input : Option (Outcome Value))
  /-- Copy a kept script. -/
  | copy (coroutine : Nat)
  /-- The position of a kept list of stages. -/
  | position (coroutine : Nat)

/-- What the library answers. -/
inductive Reply (C : Type) where
  /-- A value, or the failure of the request. -/
  | outcome (o : Outcome Value)
  /-- There is nothing to answer with: no such variable, not settled yet, no
      position. -/
  | nothing
  /-- The kept script is being advanced already. -/
  | busy
  /-- Failures that were waiting. -/
  | errors (list : List Error)
  /-- The attempted code panicked. -/
  | unwound (payload : Payload)
  /-- The kept script moved on. -/
  | stepped (step : Step C)

/-- How code is started. -/
inductive Entry where
  /-- Without input. -/
  | begin
  /-- With an outcome. -/
  | feed (o : Outcome Value)
  /-- As a shift handler. -/
  | handle (continuation : Nat) (scheduler : Nat)

/-- What running code is told. -/
inductive Signal (C : Type) where
  /-- Go on. -/
  | proceed
  /-- The answer to the last request. -/
  | reply (r : Reply C)

/-- What running code does next. -/
inductive Reaction (C R : Type) where
  /-- Think on. -/
  | proceed (next : R)
  /-- Ask the library, and go on as `next` with its reply. -/
  | ask (request : Request C) (next : R)
  /-- Return an outcome. -/
  | finish (outcome : Outcome Value)
  /-- Return an instruction. -/
  | yield (instruction : Instruction C)
  /-- Return a script. -/
  | build (script : Script C)
  /-- Panic. -/
  | panic (payload : Payload)

/-- A program, seen from the library. -/
structure Behavior (C R : Type) where
  /-- Start code. -/
  start : C → Entry → R
  /-- What running code does on a signal. -/
  react : R → Signal C → Reaction C R
  /-- How an own coroutine moves on when it is resumed, or made to exit: its
      state from then on, and the code that performs the step. -/
  move : C → (exiting : Bool) → C × C
  /-- What an own coroutine does when it is copied. -/
  onCopy : C → Option C
  /-- The handles that code at rest holds, in the order of letting go. -/
  held : C → List Handle
  /-- The handles that running code holds, in the order of letting go. -/
  heldRunning : R → List Handle

/-! ### What is held -/

variable {C : Type}

/-- The handles that a request brings with it. -/
def Request.handles (held : C → List Handle) : Request C → List Handle
  | .record note => note.handles
  | .readVariable _ => []
  | .writeVariable _ value => value.handles
  | .removeVariable _ => []
  | .attempt code => held code
  | .newCompletion => []
  | .settledCompletion o => o.handles
  | .settle c o => .settler c :: o.handles
  | .isSettled side => [side]
  | .outcome c => [.completion c]
  | .onSettle c code => .completion c :: held code
  | .newQueue => []
  | .defer q job => .queue q :: held job
  | .settleLater q o => .queue q :: o.handles
  | .queueLength q => [.queue q]
  | .drain q => [.queue q]
  | .newScheduler _ => []
  | .evaluate p code => .scheduler p :: held code
  | .start p code => .scheduler p :: held code
  | .countRoutines p => [.scheduler p]
  | .isRunning runner => [runner]
  | .takeFailures p => [.scheduler p]
  | .depth k => [.continuation k]
  | .invoke k value => .continuation k :: value.handles
  | .reenter p k value => .reenter p :: .continuation k :: value.handles
  | .newBridge _ => []
  | .run b code => .bridge b :: held code
  | .countActions b => [.bridge b]
  | .keep script _ => script.handles held
  | .advance x input => .coroutine x :: (input.map Outcome.handles).getD []
  | .copy x => [.coroutine x]
  | .position x => [.coroutine x]

/-- The handles in a reply. -/
def Reply.handles (held : C → List Handle) : Reply C → List Handle
  | .outcome o => o.handles
  | .stepped step => step.handles held
  | _ => []

/-- The handles that come with an entry. -/
def Entry.handles : Entry → List Handle
  | .feed o => o.handles
  | .handle k p => [.continuation k, .reenter p]
  | .begin => []

/-- The handles in a signal. -/
def Signal.handles (held : C → List Handle) : Signal C → List Handle
  | .reply r => r.handles held
  | .proceed => []

/-- The handles in a reaction; for a request, those that go on in `next` come
    last. -/
def Reaction.handles {R : Type} (B : Behavior C R) : Reaction C R → List Handle
  | .proceed next => B.heldRunning next
  | .ask request next => request.handles B.held ++ B.heldRunning next
  | .finish o => o.handles
  | .yield instruction => instruction.handles B.held
  | .build script => script.handles B.held
  | .panic _ => []

end Strand
