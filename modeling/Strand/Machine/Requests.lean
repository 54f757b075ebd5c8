import Strand.Machine.Advance
import Strand.Machine.Bridges

/-! # Requests — what the program can ask for

    `Machine.perform` begins the operation that a request asks for. The
    handles of the request belong to the operation: those that it keeps
    while it runs are put into a `holding` frame, the others go where the
    operation puts them. -/

namespace Strand.Machine

variable {C R : Type}

/-- Show a note among the events. -/
def record (m : Machine C R) (note : Note) : Machine C R :=
  let event := match note with
    | .outcome o => Event.outcome (o.map m.store.view)
    | .callbackFailed e => .callbackFailed e
    | .copied tag position => .copied tag position
  m.withStore (·.tell event) |>.dropReply note.handles .unit

/-- Whether the completion behind a handle has settled. -/
def isSettled (m : Machine C R) : Handle → Bool
  | .completion c | .settler c =>
    match m.store.completions.find? c with
    | some ⟨.settled _, _⟩ => true
    | _ => false
  | _ => false

/-- Whether the scheduler or bridge behind a handle is running. -/
def isRunning (m : Machine C R) : Handle → Bool
  | .scheduler p => ((m.scheduler? p).map Scheduler.running).getD false
  | .bridge b => m.bridgeRunning b
  | _ => false

/-! ### Shared variables -/

/-- Read a shared variable. -/
def readVariable (m : Machine C R) (name : String) : Machine C R :=
  match m.store.shared? name with
  | some v => m.retain v.handles |>.replyValue v
  | none => m.reply .nothing

/-- Write a shared variable; its old value is let go of afterwards. -/
def writeVariable (m : Machine C R) (name : String) (v : Value) : Machine C R :=
  let (old, store) := m.store.writeShared name v
  { m with store }.dropReply ((old.map Value.handles).getD []) .unit

/-- Remove a shared variable; the reply says whether there was one. -/
def removeVariable (m : Machine C R) (name : String) : Machine C R :=
  let (old, store) := m.store.removeShared name
  { m with store }.dropReply ((old.map Value.handles).getD []) (.bool old.isSome)

/-! ### Schedulers -/

/-- Run the script that `code` builds to the end of a pass, unless a pass is
    under way. -/
def evaluate (m : Machine C R) (held : C → List Handle) (p : Nat) (code : C) : Machine C R :=
  let m := m.push (.holding [.scheduler p])
  if m.isRunning (.scheduler p) then m.drop (held code) (.reply (.outcome (.failure .reentrant)))
  else m.push (.opening p none) |>.begin code .begin

/-- Run the script that `code` builds as a root that reports to a new
    completion, unless a pass is under way. -/
def start (m : Machine C R) (held : C → List Handle) (p : Nat) (code : C) : Machine C R :=
  let m := m.push (.holding [.scheduler p])
  if m.isRunning (.scheduler p) then
    let (c, m) := m.newSettled (.failure .reentrant)
    m.dropReply (held code) (.handle (.completion c))
  else
    let (c, m) := m.newCompletion
    m.push (.replying (.handle (.completion c))) |>.push (.opening p (some c))
      |>.begin code .begin

/-- Count the routines of a scheduler, which is swept first if it is idle. -/
def countRoutines (m : Machine C R) (p : Nat) : Machine C R :=
  let running := m.isRunning (.scheduler p)
  let m := m.push (.holding [.scheduler p]) |>.push (.counting p)
  (if running then m else m.push (.sweeping p)).give .nothing

/-- Take the failures that nobody received. -/
def takeFailures (m : Machine C R) (p : Nat) : Machine C R :=
  let errors := ((m.scheduler? p).map Scheduler.unhandled).getD []
  m.onScheduler p (fun s => { s with unhandled := [] })
    |>.drop [.scheduler p] (.reply (.errors errors))

/-! ### Kept scripts -/

/-- Put a kept script back. -/
def putBack (m : Machine C R) (x : Nat) (script : Script C) : Machine C R :=
  m.withStore fun s =>
    { s with kept := s.kept.modify x fun k => { k with script := some script } }

/-- Take a kept script out to do something with it; while it is out, it is
    busy. -/
def takeKept (m : Machine C R) (x : Nat) (dropped : List Handle)
    (f : Script C → Machine C R → Machine C R) : Machine C R :=
  match m.store.kept.find? x with
  | some ⟨some script, positioned⟩ =>
    f script (m.withStore (fun s => { s with kept := s.kept.set x ⟨none, positioned⟩ })
      |>.push (.holding [.coroutine x]))
  | _ => m.drop (dropped ++ [.coroutine x]) (.reply .busy)

/-- Keep a script. -/
def keep (m : Machine C R) (script : Script C) (positioned : Bool) : Machine C R :=
  let (x, kept) := m.store.kept.alloc 1 ⟨some script, positioned⟩
  m.withStore (fun s => { s with kept }) |>.replyValue (.handle (.coroutine x))

/-- Advance a kept script; without input, make it return. -/
def advanceKept (m : Machine C R) (x : Nat) (input : Option (Outcome Value)) : Machine C R :=
  m.takeKept x ((input.map Outcome.handles).getD []) fun script m =>
    match input with
    | some o => m.push (.advancing x) |>.advance script o
    | none => m.push (.advancing x) |>.exit script

/-- The position of a kept list of stages. -/
def positionKept (m : Machine C R) (x : Nat) : Machine C R :=
  match m.store.kept.find? x with
  | some ⟨some (.staged s), true⟩ => m.dropReply [.coroutine x] (.int (Int64.ofNat s.position))
  | some ⟨some _, _⟩ => m.drop [.coroutine x] (.reply .nothing)
  | _ => m.drop [.coroutine x] (.reply .busy)

/-! ### All requests -/

/-- Begin the operation that a request asks for. -/
def perform (m : Machine C R) (B : Behavior C R) : Request C → Machine C R
  | .record note => m.record note
  | .readVariable name => m.readVariable name
  | .writeVariable name v => m.writeVariable name v
  | .removeVariable name => m.removeVariable name
  | .attempt code => m.push .attempting |>.begin code .begin
  | .newCompletion =>
    let (c, m) := m.newCompletion
    m.replyValue (.list [.handle (.completion c), .handle (.settler c)])
  | .settledCompletion o =>
    let (c, m) := m.newSettled o
    m.replyValue (.handle (.completion c))
  | .settle c o => m.push (.holding [.settler c]) |>.settle c o
  | .isSettled side => m.dropReply [side] (.bool (m.isSettled side))
  | .outcome c =>
    match m.store.completions.find? c with
    | some ⟨.settled o, _⟩ => m.retain o.handles |>.drop [.completion c] (.reply (.outcome o))
    | _ => m.drop [.completion c] (.reply .nothing)
  | .onSettle c code => m.push (.holding [.completion c]) |>.await B.held c (.call code)
  | .newQueue =>
    let (q, queues) := m.store.queues.alloc 1 []
    m.withStore (fun s => { s with queues }) |>.replyValue (.handle (.queue q))
  | .defer q job => m.defer q (.call job) |>.dropReply [.queue q] .unit
  | .settleLater q o =>
    let (c, m) := m.newCompletion
    m.defer q (.settle c o) |>.dropReply [.queue q] (.handle (.completion c))
  | .queueLength q =>
    m.dropReply [.queue q] (.int (Int64.ofNat ((m.store.queues.find? q).getD []).length))
  | .drain q => m.push (.holding [.queue q]) |>.push (.draining q 0) |>.give .nothing
  | .newScheduler settings =>
    let (p, schedulers) := m.store.schedulers.alloc 1 (.new settings)
    m.withStore (fun s => { s with schedulers }) |>.replyValue (.handle (.scheduler p))
  | .evaluate p code => m.evaluate B.held p code
  | .start p code => m.start B.held p code
  | .countRoutines p => m.countRoutines p
  | .isRunning runner => m.dropReply [runner] (.bool (m.isRunning runner))
  | .takeFailures p => m.takeFailures p
  | .depth k =>
    let depth := ((m.store.snapshots.find? k).map fun c => c.frames.length).getD 0
    m.dropReply [.continuation k] (.int (Int64.ofNat depth))
  | .invoke k v => m.push (.holding [.continuation k]) |>.invoke k v
  | .reenter p k v => m.push (.holding [.continuation k]) |>.reenter p k v
  | .newBridge settings =>
    let (b, bridges) := m.store.bridges.alloc 1 ⟨settings, [], false, 0⟩
    m.withStore (fun s => { s with bridges }) |>.replyValue (.handle (.bridge b))
  | .run b code => m.runTask b code
  | .countActions b =>
    let count := ((m.store.bridges.find? b).map fun x => x.stack.length).getD 0
    m.dropReply [.bridge b] (.int (Int64.ofNat count))
  | .keep script positioned => m.keep script positioned
  | .advance x input => m.advanceKept x input
  | .copy x =>
    m.takeKept x [] fun script m => m.push (.keepingCopy x script) |>.copy script
  | .position x => m.positionKept x

end Strand.Machine
