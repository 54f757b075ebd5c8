import Strand.Machine.Completions
import Strand.Snapshot

/-! # Passes — the reduce loop of a scheduler

    A pass pops the next routine, advances its script and acts on the result,
    until the stack is empty; the register is then the result of the pass.
    After every step the scheduler is swept: scripts of removed routines are
    let go of, and captured routines that nothing can reach are freed, until
    there is nothing of either. -/

namespace Strand.Machine

variable {C R : Type}

/-! ### The loop -/

/-- Enter a pass, after letting go of handles. -/
def enterPass (m : Machine C R) (p : Nat) (dropped : List Handle) : Machine C R :=
  m.onScheduler p (fun s => { s with running := true }) |>.push (.pass p) |>.drop dropped .nothing

/-- The head of the reduce loop: advance the next routine, or leave the pass
    with the register. -/
def passHead (m : Machine C R) (p : Nat) : Machine C R :=
  match m.scheduler? p with
  | none => m.give .nothing
  | some s =>
    match s.pick with
    | (some (id, script), s) =>
      m.onScheduler p (fun _ => { s with register := .unit }) |>.push (.pass p)
        |>.push (.stepping p id) |>.advance script s.register
    | (none, s) =>
      m.onScheduler p (fun _ => { s with register := .unit }.leave m.panicking)
        |>.give (.outcome s.register)

/-- A step is over: let go of what it replaced in the register, and sweep. -/
def endStep (m : Machine C R) (p : Nat) (dropped : List Handle) : Machine C R :=
  m.push (.sweeping p) |>.drop dropped .nothing

/-- Sweep once, and again if that freed a routine or let go of scripts. -/
def sweep (m : Machine C R) (held : C → List Handle) (p : Nat) : Machine C R :=
  match m.scheduler? p with
  | none => m.give .nothing
  | some s =>
    let (freed, s) := s.freeUnclaimed
    let m := m.onScheduler p fun _ => { s with current := none, retired := [] }
    if freed = 0 ∧ s.retired.isEmpty then m.give .nothing
    else m.push (.sweeping p) |>.drop (s.retired.flatMap (Script.handles held)) .nothing

/-! ### Steps of routines -/

/-- A routine has finished. -/
def concludeStep (m : Machine C R) (p : Nat) (id : RoutineId) (script : Script C)
    (o : Outcome Value) : Machine C R :=
  let keeps := ((m.scheduler? p).map fun s => s.keepsResult id).getD false
  let dropped := m.registerHandles p
  m.retain (if keeps then o.handles else [])
    |>.onScheduler p (fun s => s.conclude id script o) |>.endStep p dropped

/-- Put the script of a child on the stack. -/
def startChild (m : Machine C R) (p : Nat) (id : RoutineId) (origin : Origin)
    (script : Script C) : Machine C R :=
  let dropped := m.registerHandles p
  m.onScheduler p (fun s => s.scheduleChild origin script id) |>.endStep p dropped

/-- Go on copying lifted frames; when all are copied, give the frames their
    scripts back and call the handler with the continuation. -/
def captureNext (m : Machine C R) (p : Nat) (id : RoutineId) (handler : C)
    (frames : List (Lifted C)) (copies : List (Script C)) (left : List (Lifted C)) :
    Machine C R :=
  match left with
  | frame :: left => m.push (.capturing p id handler frames copies left) |>.copy frame.script
  | [] =>
    let m := m.onScheduler p fun s => s.giveBackAll frames
    let (k, snapshots) := m.store.snapshots.alloc 1 (.of p frames copies)
    m.withStore (fun s => { s with snapshots }) |>.push (.building p id .shift)
      |>.begin handler (.handle k p)

/-- Act on the instruction that a routine yielded. -/
def obey (m : Machine C R) (p : Nat) (id : RoutineId) (script : Script C) :
    Instruction C → Machine C R
  | .reset block =>
    m.onScheduler p (fun s => (s.shelve id script).push .boundary)
      |>.push (.building p id .reset) |>.begin block .begin
  | .shift handler =>
    match m.scheduler? p with
    | none => m.endStep p []
    | some s =>
      let (frames, s) := (s.shelve id script).lift
      m.onScheduler p (fun _ => s) |>.captureNext p id handler frames [] frames
  | .suspend => m.onScheduler p (fun s => s.suspend id script) |>.endStep p []
  | .splice nested =>
    m.onScheduler p (fun s => s.shelve id script) |>.startChild p id .splice nested
  | .await c => m.onScheduler p (fun s => s.suspend id script) |>.endStep p [.completion c]

/-- A routine was advanced. -/
def routineStepped (m : Machine C R) (p : Nat) (id : RoutineId) (script : Script C) :
    Step C → Machine C R
  | .done o => m.concludeStep p id script o
  | .yield i => m.obey p id script i

/-! ### Roots -/

/-- The script of a root was built: schedule it and enter a pass. With a
    settler, the root reports to it. -/
def openRoot (m : Machine C R) (p : Nat) (settler : Option Nat) (script : Script C) :
    Machine C R :=
  let dropped := m.registerHandles p
  match settler with
  | none => m.onScheduler p (fun s => s.scheduleRoot script) |>.enterPass p dropped
  | some c =>
    m.onScheduler p (fun s => s.scheduleRoot (.root script c)) |>.push (.firstPass p)
      |>.enterPass p dropped

/-! ### Continuations -/

/-- Put reinstated frames on the stack. -/
def reinstate (m : Machine C R) (p : Nat) (frames : List RoutineId) (v : Value) : Machine C R :=
  let dropped := m.registerHandles p
  m.onScheduler p (fun s => s.reinstate frames v) |>.dropReply dropped .unit

/-- Go on copying frames; when all are copied, put the copies on the stack. -/
def reinstateNext (m : Machine C R) (k : Nat) (v : Value) (copies : List (Script C))
    (left : List (FrameCopy C)) : Machine C R :=
  match left with
  | frame :: left => m.push (.reinstating k v copies left) |>.copy frame.script
  | [] =>
    match m.store.snapshots.find? k with
    | none => m.give .nothing
    | some snapshot =>
      match m.scheduler? snapshot.home with
      | none => m.give .nothing
      | some s =>
        let (ids, s) := s.plant snapshot.frames copies
        m.onScheduler snapshot.home (fun _ => s) |>.reinstate snapshot.home ids v

/-- Invoke a continuation: the first time its own routines go back on the
    stack if all of them are still there, otherwise copies of them. -/
def invoke (m : Machine C R) (k : Nat) (v : Value) : Machine C R :=
  match m.store.snapshots.find? k with
  | none => m.dropReply v.handles .unit
  | some snapshot =>
    match m.scheduler? snapshot.home with
    | none => m.withStore (·.log .continuationDetached) |>.dropReply v.handles .unit
    | some s =>
      let m := m.retain [.scheduler snapshot.home] |>.push (.holding [.scheduler snapshot.home])
        |>.withStore fun t =>
          { t with snapshots := t.snapshots.set k { snapshot with routines := none } }
      match snapshot.routines with
      | none => m.reinstateNext k v [] snapshot.frames
      | some ids =>
        if ids.all s.routines.contains then m.reinstate snapshot.home ids v
        else m.withStore (·.log .replayingSnapshot) |>.reinstateNext k v [] snapshot.frames

/-- Invoke a continuation from outside: by a routine of its own, in the pass
    that is under way or else in a new one. -/
def reenter (m : Machine C R) (p k : Nat) (v : Value) : Machine C R :=
  match m.scheduler? p with
  | none => m.withStore (·.log .reentryDetached) |>.dropReply v.handles .unit
  | some s =>
    let m := m.retain (.scheduler p :: .continuation k :: v.handles)
      |>.push (.holding [.scheduler p])
    let (id, s) := s.add .reenter (.reentry k (some v))
    let s := s.push (.routine id)
    if s.running then m.onScheduler p (fun _ => s) |>.dropReply v.handles .unit
    else
      m.onScheduler p (fun _ => { s with register := .success v }.report .reentering)
        |>.push (.reentered p) |>.enterPass p s.register.handles

end Strand.Machine
