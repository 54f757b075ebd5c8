import Strand.Record
import Strand.Behavior

/-! # Scheduler — routines, a work stack and one register

    The state of one delimited-continuation scheduler and everything it does
    without running program code:

    * **routines** form an ownership forest in a roster; a routine whose
      script is out (`none`) is being advanced;
    * **the stack** of routines and boundaries decides what runs next, top
      first;
    * **the register** carries the outcome that the next routine is fed.

    Operations that remove routines leave their scripts in `retired`, and
    captured frames whose continuation died unused wait in `unclaimed`; a
    sweep disposes of both. Log reports collect in `reports`, newest first,
    until the store takes them over. -/

namespace Strand

/-- One started execution of a script. -/
structure Routine (C : Type) where
  origin : Origin
  /-- Out while the routine is being advanced. -/
  script : Option (Script C)
  parent : Option RoutineId
  /-- The live children in the order in which they were spawned. -/
  children : List RoutineId

/-- An entry of the work stack. -/
inductive StackEntry where
  | routine (id : RoutineId)
  | boundary
deriving DecidableEq, Repr

/-- The routine that an entry stands for. -/
def StackEntry.routine? : StackEntry → Option RoutineId
  | routine id => some id
  | boundary => none

/-- A routine lifted off the stack by a shift, with its script taken out. -/
structure Lifted (C : Type) where
  id : RoutineId
  origin : Origin
  script : Script C
  parent : Option RoutineId

/-- The state of one scheduler. -/
structure Scheduler (C : Type) where
  settings : Settings
  routines : Roster (Routine C)
  /-- What is still to run, top first. -/
  stack : List StackEntry
  /-- What the next routine is fed. -/
  register : Outcome Value
  /-- Whether a pass is under way. -/
  running : Bool
  /-- Failures of re-entered passes that nobody received. -/
  unhandled : List Error
  /-- The routine whose step is under way. -/
  current : Option RoutineId
  /-- Scripts of removed routines. -/
  retired : List (Script C)
  /-- Captured routines whose continuation died without being invoked. -/
  unclaimed : List RoutineId
  /-- Reports not yet taken over by the log, newest first. -/
  reports : List Report

namespace Scheduler

variable {C : Type}

/-- An idle scheduler without routines. -/
def new (settings : Settings) : Scheduler C where
  settings
  routines := .empty
  stack := []
  register := .unit
  running := false
  unhandled := []
  current := none
  retired := []
  unclaimed := []
  reports := []

/-- Write a report. -/
def report (s : Scheduler C) (r : Report) : Scheduler C :=
  { s with reports := r :: s.reports }

/-- Change a live routine. -/
def modify (s : Scheduler C) (id : RoutineId) (f : Routine C → Routine C) : Scheduler C :=
  { s with routines := s.routines.modify id f }

/-- Put work on top of the stack. -/
def push (s : Scheduler C) (work : StackEntry) : Scheduler C :=
  { s with stack := work :: s.stack }

/-- Put a script among those to be disposed of. -/
def retire (s : Scheduler C) (script : Script C) : Scheduler C :=
  { s with retired := s.retired ++ [script] }

/-- Whether a routine is on the stack. -/
def onStack (s : Scheduler C) (id : RoutineId) : Bool := s.stack.contains (.routine id)

/-- The live routine that a parent link leads to. -/
def liveParent (s : Scheduler C) (parent : Option RoutineId) : Option RoutineId :=
  parent.filter s.routines.contains

/-! ### Family links -/

/-- Add to a list of children, each of which is listed once. -/
def addChild (children : List RoutineId) (child : RoutineId) : List RoutineId :=
  if child ∈ children then children else children ++ [child]

/-- Put `child` under `parent`; a dead parent leaves it parentless. -/
def link (s : Scheduler C) (child : RoutineId) (parent : Option RoutineId) : Scheduler C :=
  let parent := s.liveParent parent
  let s := match parent with
    | some p => s.modify p fun r => { r with children := addChild r.children child }
    | none => s
  s.modify child fun r => { r with parent }

/-- Strike `child` from the children of its parent. -/
def unlink (s : Scheduler C) (parent : Option RoutineId) (child : RoutineId) : Scheduler C :=
  match parent with
  | some p => s.modify p fun r => { r with children := r.children.erase child }
  | none => s

/-- Insert a parentless routine. -/
def add (s : Scheduler C) (origin : Origin) (script : Script C) :
    RoutineId × Scheduler C :=
  let (id, routines) := s.routines.insert ⟨origin, some script, none, []⟩
  (id, { s with routines })

/-- Insert a routine under a parent. -/
def addUnder (s : Scheduler C) (origin : Origin) (script : Script C)
    (parent : Option RoutineId) : RoutineId × Scheduler C :=
  let (id, s) := s.add origin script
  (id, s.link id parent)

/-! ### Choosing and parking routines -/

/-- Pop until a live routine turns up, consuming boundaries on the way; its
    script is taken out. -/
def pickFrom : List StackEntry → Scheduler C → Option (RoutineId × Script C) × Scheduler C
  | [], s => (none, { s with stack := [] })
  | .boundary :: rest, s => pickFrom rest (s.report .boundaryConsumed)
  | .routine id :: rest, s =>
    match s.routines.find? id with
    | none => pickFrom rest (s.report (.skippingStale id))
    | some r =>
      match r.script with
      | none => pickFrom rest s
      | some script =>
        (some (id, script),
          ({ s with stack := rest, current := some id }.modify id
            fun r => { r with script := none }).report (.resuming r.origin id))

/-- The next routine to advance. -/
def pick (s : Scheduler C) : Option (RoutineId × Script C) × Scheduler C :=
  pickFrom s.stack s

/-- Give a script back to its routine, or retire it if the routine is gone. -/
def giveBack (s : Scheduler C) (id : RoutineId) (script : Script C) : Scheduler C :=
  if s.routines.contains id then s.modify id fun r => { r with script := some script }
  else s.retire script

/-- Put a suspended routine back on the stack. -/
def shelve (s : Scheduler C) (id : RoutineId) (script : Script C) : Scheduler C :=
  if s.routines.contains id then (s.giveBack id script).push (.routine id)
  else s.retire script

/-- Put a fresh child of `parent` on the stack, to be fed unit. -/
def scheduleChild (s : Scheduler C) (origin : Origin) (script : Script C) (parent : RoutineId) :
    Scheduler C :=
  let (child, s) := s.addUnder origin script (some parent)
  { (s.report (.spawned parent origin child)).push (.routine child) with register := .unit }

/-- Put a fresh root on the stack, to be fed unit. -/
def scheduleRoot (s : Scheduler C) (script : Script C) : Scheduler C :=
  let (id, s) := s.addUnder .root script none
  { (s.report (.startingRoot id)).push (.routine id) with register := .unit }

/-! ### Lifting and reinstating frames -/

/-- Take the frames down to the nearest boundary off the stack, which is
    consumed, and their scripts out of the roster; lowest frame first. -/
def liftFrom : List StackEntry → List (Lifted C) → Scheduler C → List (Lifted C) × Scheduler C
  | [], lifted, s => (lifted, { s with stack := [] })
  | .boundary :: rest, lifted, s => (lifted, { s with stack := rest })
  | .routine id :: rest, lifted, s =>
    match s.routines.find? id with
    | none => liftFrom rest lifted s
    | some r =>
      match r.script with
      | none => liftFrom rest lifted s
      | some script =>
        liftFrom rest (⟨id, r.origin, script, r.parent⟩ :: lifted)
          (s.modify id fun r => { r with script := none })

/-- Lift the frames above the nearest boundary. -/
def lift (s : Scheduler C) : List (Lifted C) × Scheduler C :=
  let (frames, s) := liftFrom s.stack [] s
  (frames, s.report (.captured frames.length))

/-- Hand lifted frames their scripts back; they stay off the stack. -/
def giveBackAll (s : Scheduler C) (frames : List (Lifted C)) : Scheduler C :=
  frames.foldl (fun s frame => s.giveBack frame.id frame.script) s

/-- Put reinstated frames above a fresh boundary, the last one on top, to be
    fed `value`. -/
def reinstate (s : Scheduler C) (frames : List RoutineId) (value : Value) : Scheduler C :=
  let s := (s.report (.reinstating frames.length)).push .boundary
  { s with
    register := .success value
    stack := (frames.map StackEntry.routine).reverse ++ s.stack }

/-! ### Removal -/

/-- An upper bound for the number of children in the whole forest. -/
def childCount (s : Scheduler C) : Nat :=
  (s.routines.entries.map fun r => r.children.length).foldr (· + ·) 0

/-- Free the pending routines, first pending first, and every descendant that
    is not on the stack. `fuel` bounds how many identifiers are looked at:
    each is pending once to begin with or is a child of a routine that was
    removed, so the pending ones and all children are enough. -/
def freeAll : (fuel : Nat) → (pending : List RoutineId) → Scheduler C → Scheduler C
  | 0, _, s => s
  | _ + 1, [], s => s
  | fuel + 1, id :: pending, s =>
    match s.routines.remove id with
    | none => freeAll fuel pending s
    | some (r, routines) =>
      let s := { s with routines }.report (.freed r.origin id)
      let s := match r.script with
        | some script => s.retire script
        | none => s
      let s := s.unlink r.parent id
      let (kept, lost) := r.children.partition s.onStack
      freeAll fuel (lost.reverse ++ pending) (kept.foldl (fun s c => s.link c none) s)

/-- Free a routine and every descendant that is not on the stack. -/
def free (s : Scheduler C) (id : RoutineId) : Scheduler C :=
  freeAll (1 + s.childCount) [id] s

/-- Suspend a routine: with a live parent it waits to be swept, otherwise
    nothing can reach it and it is freed. -/
def suspend (s : Scheduler C) (id : RoutineId) (script : Script C) : Scheduler C :=
  match s.routines.find? id with
  | some r =>
    match s.liveParent r.parent with
    | some _ => s.giveBack id script
    | none => (s.retire script).free id
  | none => (s.retire script).free id

/-- Replace a live child by a parentless routine that makes it exit and
    takes over its children. -/
def replaceByExit (s : Scheduler C) (child : RoutineId) : Option RoutineId × Scheduler C :=
  match s.routines.remove child with
  | none => (none, s)
  | some (r, routines) =>
    let s := { s with routines }
    match r.script with
    | none => (none, r.children.foldl (fun s c => s.link c none) s)
    | some script =>
      let (wrapper, s) := s.add .exit (.exit script .initial)
      let s := r.children.foldl
        (fun s c => s.modify c fun g => { g with parent := some wrapper }) s
      (some wrapper, s.modify wrapper fun w => { w with children := r.children })

/-- Force a child to exit next. -/
def scheduleExit (s : Scheduler C) (child : RoutineId) : Scheduler C :=
  match s.replaceByExit child with
  | (some wrapper, s) => s.push (.routine wrapper)
  | (none, s) => s

/-- A routine has finished: unlink it and publish its result, after its live
    children have been made to exit. -/
def conclude (s : Scheduler C) (id : RoutineId) (script : Script C)
    (outcome : Outcome Value) : Scheduler C :=
  let s := s.retire script
  match s.routines.remove id with
  | none => { s with register := outcome }
  | some (r, routines) =>
    let s := { s with routines }.report (.finished r.origin id outcome.isSuccess)
    let s := s.unlink r.parent id
    let s :=
      if r.children.isEmpty then s
      else
        let s := s.report (.forcingExit r.origin id r.children.length)
        let (settled, s) := s.addUnder .settled (.settled outcome) none
        r.children.foldl scheduleExit (s.push (.routine settled))
    { s with register := outcome }

/-- How many copies of its outcome a finishing routine leaves behind: one in
    the register, and one kept back if there are children to sweep. -/
def keepsResult (s : Scheduler C) (id : RoutineId) : Bool :=
  match s.routines.find? id with
  | some r => !r.children.isEmpty
  | none => false

/-- A panic left the pass: free all that was scheduled or being advanced. -/
def abandon (s : Scheduler C) : Scheduler C :=
  let ids := s.stack.reverse.filterMap StackEntry.routine? ++ s.current.toList
  let s := { s with stack := [], current := none }.report (.abandoning ids.length)
  { ids.foldl free s with register := .unit }

/-- Leave the pass, by its end or by a panic. -/
def leave (s : Scheduler C) (panicking : Bool) : Scheduler C :=
  let s := { s with running := false }
  if panicking then s.abandon else s

/-! ### Sweeping -/

/-- Whether a live routine has neither a live parent nor a place on the
    stack. -/
def isLost (s : Scheduler C) (id : RoutineId) : Bool :=
  match s.routines.find? id with
  | some r => (s.liveParent r.parent).isNone && !s.onStack id
  | none => false

/-- Free the unclaimed routines that nothing can reach, counting them. -/
def freeUnclaimed (s : Scheduler C) : Nat × Scheduler C :=
  s.unclaimed.foldl
    (fun (freed, s) id => if s.isLost id then (freed + 1, s.free id) else (freed, s))
    (0, { s with unclaimed := [] })

/-! ### What is held -/

/-- Every handle in a scheduler: its scripts in slot order, then the
    register and the retired scripts. -/
def handles (held : C → List Handle) (s : Scheduler C) : List Handle :=
  s.routines.entries.flatMap (fun r => (r.script.map (Script.handles held)).getD [])
    ++ s.register.handles ++ s.retired.flatMap (Script.handles held)

end Scheduler

end Strand
