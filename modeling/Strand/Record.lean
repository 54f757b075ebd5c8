import Strand.Error
import Strand.Roster

/-! # Records — what the library writes to its log

    A record is written as data and turned into text only when it is shown.
    `Record.level` says how important it is and `Record.text` what is read. -/

namespace Strand

/-- How a routine came to be. -/
inductive Origin where
  /-- Started from outside. -/
  | root
  /-- The script of a reset block. -/
  | reset
  /-- The script of a shift handler. -/
  | shift
  /-- A script run in place. -/
  | splice
  /-- A continuation invoked from outside its pass. -/
  | reenter
  /-- A result kept back during a sweep. -/
  | settled
  /-- The forced return of a child. -/
  | exit
deriving DecidableEq, Repr, Inhabited

/-- The name under which a routine is shown. -/
def Origin.name : Origin → String
  | root => "root"
  | reset => "reset"
  | shift => "shift"
  | splice => "splice"
  | reenter => "reenter"
  | settled => "settled"
  | exit => "exit"

/-- Importance, least first. -/
inductive Level where
  | trace | debug | warn
deriving DecidableEq, Repr, Inhabited

namespace Level

def name : Level → String
  | trace => "TRACE"
  | debug => "DEBUG"
  | warn => "WARN"

/-- Levels by importance. -/
def rank : Level → Nat
  | trace => 0
  | debug => 1
  | warn => 2

end Level

/-- What a scheduler or bridge reports about its work. -/
inductive Report where
  | boundaryConsumed
  | skippingStale (id : RoutineId)
  | resuming (origin : Origin) (id : RoutineId)
  | spawned (parent : RoutineId) (origin : Origin) (id : RoutineId)
  | captured (frames : Nat)
  | finished (origin : Origin) (id : RoutineId) (success : Bool)
  | forcingExit (origin : Origin) (id : RoutineId) (children : Nat)
  | freed (origin : Origin) (id : RoutineId)
  | abandoning (routines : Nat)
  | startingRoot (id : RoutineId)
  | firstPassFailed (error : Error)
  | reinstating (frames : Nat)
  | reentering
  | reentryFailed (error : Error)
  | taskStarted (id : UInt64)
  | taskNotStarted (error : Error)
  | taskFinished (id : UInt64) (success : Bool)
  | taskAwaiting (id : UInt64)
  | drivingAgain
deriving DecidableEq, Repr

namespace Report

def level : Report → Level
  | captured _ | forcingExit .. | startingRoot _ | firstPassFailed _ | reinstating _
  | reentering | taskNotStarted _ => .debug
  | abandoning _ | reentryFailed _ => .warn
  | _ => .trace

private def successText (b : Bool) : String :=
  "(success: " ++ (if b then "true" else "false") ++ ")"

def text : Report → String
  | boundaryConsumed => "boundary consumed"
  | skippingStale id => "skipping stale " ++ id.text
  | resuming origin id => "resuming " ++ origin.name ++ " " ++ id.text
  | spawned parent origin id => parent.text ++ " spawned " ++ origin.name ++ " " ++ id.text
  | captured frames => "captured " ++ toString frames ++ " frame(s)"
  | finished origin id success =>
    origin.name ++ " " ++ id.text ++ " finished " ++ successText success
  | forcingExit origin id children =>
    origin.name ++ " " ++ id.text ++ " left " ++ toString children
      ++ " live child(ren); forcing exit"
  | freed origin id => "freed " ++ origin.name ++ " " ++ id.text
  | abandoning routines =>
    "pass unwound; abandoning " ++ toString routines ++ " scheduled routine(s)"
  | startingRoot id => "starting root " ++ id.text
  | firstPassFailed error => "first pass ended in failure: " ++ error.message
  | reinstating frames => "reinstating " ++ toString frames ++ " captured frame(s)"
  | reentering => "re-entering reduction"
  | reentryFailed error => "re-entered reduction ended in failure: " ++ error.message
  | taskStarted id => "started routine #" ++ toString id
  | taskNotStarted error => "routine failed to start: " ++ error.message
  | taskFinished id success => "routine #" ++ toString id ++ " finished " ++ successText success
  | taskAwaiting id => "routine #" ++ toString id ++ " awaiting"
  | drivingAgain => "re-entering trampoline"

end Report

/-- One entry of the log. -/
inductive Record where
  /-- A report under the name of the scheduler or bridge that made it. -/
  | by (name : String) (report : Report)
  /-- A continuation's own routines are gone, so copies take their place. -/
  | replayingSnapshot
  /-- A continuation outlived its scheduler. -/
  | continuationDetached
  /-- A re-entry came after its scheduler had gone. -/
  | reentryDetached
deriving DecidableEq, Repr

namespace Record

def level : Record → Level
  | .by _ report => report.level
  | _ => .debug

def text : Record → String
  | .by name report => name ++ ": " ++ report.text
  | replayingSnapshot => "captured frames were swept; replaying from snapshot"
  | continuationDetached => "continuation invoked after its scheduler was dropped"
  | reentryDetached => "re-entry after scheduler was dropped"

/-- A record as it is shown, after its level. -/
def line (r : Record) : String := r.level.name ++ " " ++ r.text

end Record

end Strand
