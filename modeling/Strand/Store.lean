import Strand.Scheduler
import Strand.Table
import Strand.Text

/-! # Store — everything that handles refer to

    * `Completion` settles once and then keeps its outcome.
    * `Snapshot` is what a continuation refers to: the routines that a shift
      took off the stack, and a copy of each made at that moment.
    * `Bridge` is a trampoline over tasks that wait for completions.
    * `Kept` is a script that the program advances by hand.

    The store counts holders. `Store.letGo` says what the last holder's
    going away brings about: either more handles to let go of, or a
    completion that nobody can settle any more. -/

namespace Strand

/-! ### Completions and queues -/

/-- A bridged task between two steps. -/
structure Task (C : Type) where
  id : UInt64
  script : Script C
  /-- The completion that the task settles. -/
  settler : Nat

/-- What waits for a completion. -/
inductive Listener (C : Type) where
  /-- Code of the program. -/
  | call (code : C)
  /-- A task, to be resumed on its bridge. -/
  | resume (bridge : Nat) (task : Task C)

/-- Whether a completion has settled. -/
inductive Progress (C : Type) where
  /-- Not yet; the listeners in order of registration. -/
  | pending (listeners : List (Listener C))
  /-- For good. -/
  | settled (outcome : Outcome Value)

/-- A one-shot result. -/
structure Completion (C : Type) where
  progress : Progress C
  /-- How many of the holders can settle it. -/
  settlers : Nat

/-- A deferred job. -/
inductive Job (C : Type) where
  /-- Code of the program. -/
  | call (code : C)
  /-- Settle a completion. -/
  | settle (settler : Nat) (outcome : Outcome Value)

/-! ### Captures -/

/-- Where the parent of a captured frame is. -/
inductive ParentPlace where
  /-- Another frame of the snapshot, by position. -/
  | inside (position : Nat)
  /-- Outside of the snapshot, or nowhere. -/
  | outside (parent : Option RoutineId)

/-- The copy of a captured frame. -/
structure FrameCopy (C : Type) where
  origin : Origin
  script : Script C
  parent : ParentPlace

/-- The frames between a shift and its boundary. -/
structure Snapshot (C : Type) where
  /-- The scheduler that the frames belong to. -/
  home : Nat
  /-- The captured routines, lowest first, until the first invocation. -/
  routines : Option (List RoutineId)
  frames : List (FrameCopy C)

/-! ### Bridges and kept scripts -/

/-- Work of a bridge. -/
inductive Action (C : Type) where
  /-- Build a task and settle a completion with what becomes of it. -/
  | start (code : C) (settler : Nat)
  /-- Resume a task; without outcome, for the first time. -/
  | resume (task : Task C) (outcome : Option (Outcome Value))

/-- A trampoline over tasks. -/
structure Bridge (C : Type) where
  settings : Settings
  /-- What is still to do, most recent first. -/
  stack : List (Action C)
  running : Bool
  nextId : UInt64

/-- A script advanced by hand. -/
structure Kept (C : Type) where
  /-- Out while it is being advanced. -/
  script : Option (Script C)
  /-- Whether its position can be asked for. -/
  positioned : Bool

/-! ### What is held -/

section Handles

variable {C : Type} (held : C → List Handle)

def Task.handles (task : Task C) : List Handle :=
  task.script.handles held ++ [.settler task.settler]

def Listener.handles : Listener C → List Handle
  | .call code => held code
  | .resume b task => .bridge b :: task.handles held

def Progress.handles : Progress C → List Handle
  | .pending listeners => listeners.flatMap (Listener.handles held)
  | .settled outcome => outcome.handles

def Job.handles : Job C → List Handle
  | .call code => held code
  | .settle c outcome => .settler c :: outcome.handles

def FrameCopy.handles (t : FrameCopy C) : List Handle := t.script.handles held

def Snapshot.handles (c : Snapshot C) : List Handle := c.frames.flatMap (FrameCopy.handles held)

def Action.handles : Action C → List Handle
  | .start code settler => held code ++ [.settler settler]
  | .resume task outcome => task.handles held ++ (outcome.map Outcome.handles).getD []

def Bridge.handles (b : Bridge C) : List Handle :=
  b.stack.reverse.flatMap (Action.handles held)

def Kept.handles (k : Kept C) : List Handle := (k.script.map (Script.handles held)).getD []

end Handles

/-! ### Events -/

/-- A value as it is shown. -/
inductive View where
  | nothing
  | int (n : Int)
  | bool (b : Bool)
  | text (s : String)
  | list (items : List View)
  /-- A value shown together with its type. -/
  | typed (type : String) (v : View)
  /-- A value shown by a description only. -/
  | described (text : String)

/-- What happened, as a program or the log tells it. -/
inductive Event where
  | outcome (o : Outcome View)
  | callbackFailed (error : Error)
  | copied (tag : String) (position : Nat)
  | record (r : Record)

/-! ### The store -/

/-- All shared state. -/
structure Store (C : Type) where
  completions : Table (Completion C)
  queues : Table (List (Job C))
  snapshots : Table (Snapshot C)
  schedulers : Table (Scheduler C)
  bridges : Table (Bridge C)
  kept : Table (Kept C)
  /-- The shared variables, each named once. -/
  shared : List (String × Value)
  /-- What has happened, latest first. -/
  events : List Event

namespace Store

variable {C : Type}

def empty : Store C := ⟨.empty, .empty, .empty, .empty, .empty, .empty, [], []⟩

instance : Inhabited (Store C) := ⟨empty⟩

/-! ### Log -/

def tell (s : Store C) (e : Event) : Store C := { s with events := e :: s.events }

def log (s : Store C) (r : Record) : Store C := s.tell (.record r)

/-- Change a scheduler, and take its reports over into the log. -/
def onScheduler (s : Store C) (p : Nat) (f : Scheduler C → Scheduler C) : Store C :=
  match s.schedulers.find? p with
  | some scheduler =>
    let scheduler := f scheduler
    { s with
      schedulers := s.schedulers.set p { scheduler with reports := [] }
      events := scheduler.reports.map (fun r => .record (.by scheduler.settings.name r)) ++ s.events }
  | none => s

/-- Write a report of a bridge. -/
def bridgeReport (s : Store C) (b : Nat) (r : Report) : Store C :=
  match s.bridges.find? b with
  | some bridge => s.log (.by bridge.settings.name r)
  | none => s

/-! ### Counting -/

/-- Count one more holder of what `h` refers to. -/
def retain (s : Store C) : Handle → Store C
  | .completion c => { s with completions := s.completions.retain c }
  | .settler c =>
    { s with
      completions := (s.completions.retain c).modify c fun x =>
        { x with settlers := x.settlers + 1 } }
  | .queue q => { s with queues := s.queues.retain q }
  | .continuation k => { s with snapshots := s.snapshots.retain k }
  | .reenter _ => s
  | .scheduler p => { s with schedulers := s.schedulers.retain p }
  | .bridge b => { s with bridges := s.bridges.retain b }
  | .coroutine x => { s with kept := s.kept.retain x }

def retainAll (s : Store C) (hs : List Handle) : Store C := hs.foldl retain s

/-- What follows from letting go of a handle. -/
inductive Aftermath where
  /-- These handles are to be let go of next. -/
  | release (hs : List Handle)
  /-- Nobody can settle this completion any more. -/
  | abandoned (completion : Nat)

/-- Count one reader of a completion less. -/
def letGoReader (held : C → List Handle) (s : Store C) (c : Nat) : Aftermath × Store C :=
  let (gone, completions) := s.completions.letGo c
  (.release ((gone.map fun x => x.progress.handles held).getD []), { s with completions })

/-- Count one holder less of what `h` refers to. The last settler of a
    pending completion leaves its own share of the cell behind, for whoever
    settles the completion in its stead. -/
def letGo (held : C → List Handle) (s : Store C) : Handle → Aftermath × Store C
  | .completion c => s.letGoReader held c
  | .settler c =>
    match s.completions.find? c with
    | none => (.release [], s)
    | some x =>
      let s := { s with
        completions := s.completions.set c { x with settlers := x.settlers - 1 } }
      match x.progress with
      | .pending _ => if x.settlers ≤ 1 then (.abandoned c, s) else s.letGoReader held c
      | .settled _ => s.letGoReader held c
  | .queue q =>
    let (gone, queues) := s.queues.letGo q
    (.release ((gone.map (List.flatMap (Job.handles held))).getD []), { s with queues })
  | .continuation k =>
    let (gone, snapshots) := s.snapshots.letGo k
    let s := { s with snapshots }
    match gone with
    | none => (.release [], s)
    | some snapshot =>
      (.release (snapshot.handles held),
        match snapshot.routines with
        | some ids => s.onScheduler snapshot.home fun p =>
            { p with unclaimed := p.unclaimed ++ ids }
        | none => s)
  | .reenter _ => (.release [], s)
  | .scheduler p =>
    let (gone, schedulers) := s.schedulers.letGo p
    (.release ((gone.map (Scheduler.handles held)).getD []), { s with schedulers })
  | .bridge b =>
    let (gone, bridges) := s.bridges.letGo b
    (.release ((gone.map (Bridge.handles held)).getD []), { s with bridges })
  | .coroutine x =>
    let (gone, kept) := s.kept.letGo x
    (.release ((gone.map (Kept.handles held)).getD []), { s with kept })

/-! ### Variables -/

def shared? (s : Store C) (name : String) : Option Value := s.shared.lookup name

/-- Write a variable, and hand out the value that it had. -/
def writeShared (s : Store C) (name : String) (v : Value) : Option Value × Store C :=
  (s.shared? name,
    { s with shared := (name, v) :: s.shared.filter fun entry => entry.1 ≠ name })

/-- Remove a variable, and hand out the value that it had. -/
def removeShared (s : Store C) (name : String) : Option Value × Store C :=
  (s.shared? name, { s with shared := s.shared.filter fun entry => entry.1 ≠ name })

/-! ### How values are shown -/

/-- The state of a completion in words. -/
def Progress.text : Progress C → String
  | .pending listeners => "pending (" ++ toString listeners.length ++ " waiters)"
  | .settled (.success _) => "succeeded"
  | .settled (.failure e) => "failed: " ++ e.message

/-- A record with one field, as it is shown. -/
def fieldText (type field value : String) : String :=
  type ++ " \x7b " ++ field ++ ": " ++ value ++ " \x7d"

/-- The truth value's word. -/
def boolText (b : Bool) : String := if b then "true" else "false"

/-- How a handle is shown. -/
def describe (s : Store C) : Handle → String
  | .completion c =>
    fieldText "Completion" "state"
      (Text.quote (((s.completions.find? c).map fun x => Progress.text x.progress).getD ""))
  | .settler c =>
    let settled := match s.completions.find? c with
      | some ⟨.settled _, _⟩ => true
      | _ => false
    fieldText "Settler" "settled" (boolText settled)
  | .queue q => fieldText "JobQueue" "len" (toString ((s.queues.find? q).getD []).length)
  | .continuation k =>
    fieldText "Continuation" "depth"
      (toString (((s.snapshots.find? k).map fun x => x.frames.length).getD 0))
  | .reenter p => fieldText "Reenter" "attached" (boolText (s.schedulers.contains p))
  | h => "Value<" ++ h.type.name ++ ">"

mutual

/-- How a value is shown. -/
def view (s : Store C) : Value → View
  | .unit => .nothing
  | .int n => .int n.toInt
  | .int32 n => .typed ValueType.int32.name (.int n.toInt)
  | .byte n => .typed ValueType.byte.name (.int n.toNat)
  | .bool b => .bool b
  | .text t => .text t
  | .label t => .typed ValueType.label.name (.text t)
  | .list items => .list (s.viewList items)
  | .handle h => .described (s.describe h)

/-- How a list of values is shown, item by item. -/
def viewList (s : Store C) : List Value → List View
  | [] => []
  | v :: vs => s.view v :: s.viewList vs

end

end Store

end Strand
