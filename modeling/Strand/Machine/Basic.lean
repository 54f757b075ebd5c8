import Strand.Store

/-! # Machine — program code, the library and the stack between them

    One machine runs everything. Its `focus` says what happens next and its
    `control` stack what has been left undone, innermost first: program code
    that waits for a reply, passes of schedulers, drives of bridges, scripts
    in the middle of a step.

    A panic is a focus of its own that travels down the control stack. What
    a frame holds is let go of while the panic passes it, and frames that
    guard something put it in order.

    Every step is a total function of the machine (`Strand.Machine.Step`),
    so a run is a sequence of machines and an invariant is proved step by
    step. -/

namespace Strand

/-- What is handed to the frame on top of the control stack. -/
inductive Answer (C : Type) where
  /-- Done, with nothing to hand over. -/
  | nothing
  /-- Code or a pass ended in an outcome. -/
  | outcome (o : Outcome Value)
  /-- Code ended in an instruction. -/
  | yield (instruction : Instruction C)
  /-- Code built a script, or a script was copied. -/
  | built (script : Script C)
  /-- A script was advanced; it goes on as `script`. -/
  | stepped (step : Step C) (script : Script C)
  /-- The reply to a request. -/
  | reply (r : Reply C)

/-- What happens once nothing is left to let go of. -/
inductive Onward (C R : Type) where
  /-- Hand an answer to the top frame. -/
  | give (a : Answer C)
  /-- Start code. -/
  | begin (code : C) (entry : Entry)
  /-- Tell running code something. -/
  | tell (state : R) (signal : Signal C)
  /-- Carry out a reaction of the program. -/
  | act (reaction : Reaction C R)
  /-- Let a panic pass the top frame. `salvage` is the script it came out of,
      as the panic left it. -/
  | unwind (payload : Payload) (salvage : Option (Script C))

/-- What the machine does next. -/
inductive Focus (C R : Type) where
  /-- A script is fed an outcome. -/
  | advance (script : Script C) (input : Outcome Value)
  /-- A script is made to return. -/
  | exit (script : Script C)
  /-- A script is copied. -/
  | copy (script : Script C)
  /-- Handles are let go of, first one first. -/
  | release (handles : List Handle) (onward : Onward C R)
  /-- A panic came out of a clean-up for another panic: nothing more
      happens. -/
  | aborted

/-- What has been left undone. -/
inductive Frame (C R : Type) where
  /-- Running code waits for a reply. -/
  | code (next : R)
  /-- These handles are kept while an operation runs. -/
  | holding (handles : List Handle)
  /-- Letting go of handles was interrupted by callbacks. -/
  | releasing (rest : List Handle) (onward : Onward C R)
  /-- A panic ends here and becomes a reply. -/
  | attempting
  /-- Whatever comes back is dropped. -/
  | ignoring
  /-- Whatever comes back is dropped, and the caller receives this value. -/
  | replying (value : Value)
  -- scripts in the middle of a step
  /-- A stage or the cleanup of a list of stages. -/
  | inStaged (s : Staged C)
  /-- A coroutine of the program. -/
  | inOwn (state : C)
  /-- A forced return. -/
  | inExit (progress : ForcedReturn)
  /-- A root. -/
  | inRoot (settler : Nat)
  /-- A root that tells its completion how it ended. -/
  | reporting (inner : Script C) (settler : Nat) (outcome : Outcome Value)
  /-- The invocation of a continuation by a re-entry. -/
  | inReentry (continuation : Nat)
  /-- What a coroutine does on being copied. -/
  | copying (script : Script C)
  -- completions and queues
  /-- These listeners are still to be told. -/
  | notifying (listeners : List (Listener C)) (outcome : Outcome Value)
  /-- So many jobs of a queue have run. -/
  | draining (queue : Nat) (ran : Nat)
  -- schedulers
  /-- A pass. -/
  | pass (scheduler : Nat)
  /-- A pass advances a routine. -/
  | stepping (scheduler : Nat) (id : RoutineId)
  /-- A block or a handler builds the script of a child. -/
  | building (scheduler : Nat) (id : RoutineId) (origin : Origin)
  /-- Lifted frames are copied for a handler. -/
  | capturing (scheduler : Nat) (id : RoutineId) (handler : C) (frames : List (Lifted C))
      (copies : List (Script C)) (left : List (Lifted C))
  /-- A scheduler is swept. -/
  | sweeping (scheduler : Nat)
  /-- The script of a root is built; with a settler, the root will report. -/
  | opening (scheduler : Nat) (settler : Option Nat)
  /-- The first pass of a reporting root. -/
  | firstPass (scheduler : Nat)
  /-- A pass entered from outside. -/
  | reentered (scheduler : Nat)
  /-- Routines are counted after a sweep. -/
  | counting (scheduler : Nat)
  /-- Copies for a reinstatement are made. -/
  | reinstating (continuation : Nat) (value : Value) (copies : List (Script C))
      (left : List (FrameCopy C))
  -- bridges
  /-- The loop of a bridge. -/
  | driving (bridge : Nat)
  /-- A task is built. -/
  | starting (bridge : Nat) (settler : Nat)
  /-- A task is advanced. -/
  | resuming (bridge : Nat) (id : UInt64) (settler : Nat)
  -- kept scripts
  /-- A kept script is advanced. -/
  | advancing (coroutine : Nat)
  /-- A kept script is copied; it is put back afterwards. -/
  | keepingCopy (coroutine : Nat) (script : Script C)

/-- Everything there is. -/
structure Machine (C R : Type) where
  store : Store C
  /-- What has been left undone, innermost first. -/
  control : List (Frame C R)
  focus : Focus C R

/-- What remains of `hs` when the handles of `taken` are taken out of it, each
    as often as it occurs there. -/
def withoutHandles (hs taken : List Handle) : List Handle := taken.foldl List.erase hs

/-- The handles in an answer. -/
def Answer.handles {C : Type} (held : C → List Handle) : Answer C → List Handle
  | .nothing => []
  | .outcome o => o.handles
  | .yield i => i.handles held
  | .built s => s.handles held
  | .stepped step s => step.handles held ++ s.handles held
  | .reply r => r.handles held

/-- The handles that wait with what happens next. -/
def Onward.handles {C R : Type} (B : Behavior C R) : Onward C R → List Handle
  | .give a => a.handles B.held
  | .begin code entry => B.held code ++ entry.handles
  | .tell state signal => B.heldRunning state ++ signal.handles B.held
  | .act reaction => reaction.handles B
  | .unwind _ salvage => (salvage.map (Script.handles B.held)).getD []

namespace Frame

variable {C R : Type}

/-- Whether the frame belongs to a clean-up after a panic. -/
def cleansUp : Frame C R → Bool
  | releasing _ (.unwind _ _) => true
  | _ => false

end Frame

namespace Machine

variable {C R : Type}

/-- Whether a panic is under way further out. -/
def panicking (m : Machine C R) : Bool := m.control.any Frame.cleansUp

/-! ### Small moves -/

def push (m : Machine C R) (f : Frame C R) : Machine C R := { m with control := f :: m.control }

def withStore (m : Machine C R) (f : Store C → Store C) : Machine C R := { m with store := f m.store }

/-- Hand an answer to the top frame. -/
def give (m : Machine C R) (a : Answer C) : Machine C R := { m with focus := .release [] (.give a) }

/-- Let go of handles, then hand an answer to the top frame. -/
def drop (m : Machine C R) (hs : List Handle) (a : Answer C) : Machine C R :=
  { m with focus := .release hs (.give a) }

/-- Reply to the code below. -/
def reply (m : Machine C R) (r : Reply C) : Machine C R := m.give (.reply r)

/-- Reply with a value. -/
def replyValue (m : Machine C R) (v : Value) : Machine C R := m.reply (.outcome (.success v))

/-- Let go of handles, then reply with a value. -/
def dropReply (m : Machine C R) (hs : List Handle) (v : Value) : Machine C R :=
  m.drop hs (.reply (.outcome (.success v)))

/-- Start code. -/
def begin (m : Machine C R) (code : C) (entry : Entry) : Machine C R :=
  { m with focus := .release [] (.begin code entry) }

/-- Feed a script. -/
def advance (m : Machine C R) (script : Script C) (input : Outcome Value) : Machine C R :=
  { m with focus := .advance script input }

/-- Copy a script. -/
def copy (m : Machine C R) (script : Script C) : Machine C R := { m with focus := .copy script }

/-- Unwind, after letting go of handles. -/
def unwind (m : Machine C R) (hs : List Handle) (payload : Payload)
    (salvage : Option (Script C)) : Machine C R :=
  { m with focus := .release hs (.unwind payload salvage) }

/-- Count more holders. -/
def retain (m : Machine C R) (hs : List Handle) : Machine C R := m.withStore (·.retainAll hs)

/-- Count anew what used to be held as `before` and is now held as `after`;
    what nobody holds any more is handed out, to be let go of. -/
def recount (m : Machine C R) (before after : List Handle) : List Handle × Machine C R :=
  (withoutHandles before after, m.retain (withoutHandles after before))

/-- Change a scheduler. -/
def onScheduler (m : Machine C R) (p : Nat) (f : Scheduler C → Scheduler C) : Machine C R :=
  m.withStore (·.onScheduler p f)

/-- What a scheduler says, if it is still there. -/
def scheduler? (m : Machine C R) (p : Nat) : Option (Scheduler C) := m.store.schedulers.find? p

/-- The handles in the register of a scheduler. -/
def registerHandles (m : Machine C R) (p : Nat) : List Handle :=
  ((m.scheduler? p).map fun s => s.register.handles).getD []

end Machine

end Strand
