import Strand.Machine.Completions

/-! # Bridges at work

    A bridge takes its most recent action first: it builds a task, or
    resumes one. A task that awaits a completion leaves the bridge and comes
    back as an action when the completion settles. -/

namespace Strand.Machine

variable {C R : Type}

/-- Leave the loop of a bridge; what it still had to do stays. -/
def leaveBridge (m : Machine C R) (b : Nat) : Machine C R :=
  m.onBridge b fun x => { x with running := false }

/-- Carry out an action of a bridge. -/
def runAction (m : Machine C R) (b : Nat) : Action C → Machine C R
  | .start code settler => m.push (.starting b settler) |>.begin code .begin
  | .resume task outcome =>
    m.push (.resuming b task.id task.settler) |>.advance task.script (outcome.getD .unit)

/-- The head of a bridge's loop: the most recent action, or out. -/
def bridgeHead (m : Machine C R) (b : Nat) : Machine C R :=
  match m.store.bridges.find? b with
  | none => m.give .nothing
  | some bridge =>
    match bridge.stack with
    | [] => m.leaveBridge b |>.give .nothing
    | action :: rest =>
      m.onBridge b (fun x => { x with stack := rest }) |>.push (.driving b) |>.runAction b action

/-- A task was built: its first step is the next action. -/
def taskBuilt (m : Machine C R) (b settler : Nat) (script : Script C) : Machine C R :=
  match m.store.bridges.find? b with
  | none => m.give .nothing
  | some bridge =>
    let id := bridge.nextId
    m.onBridge b (fun x => { x with nextId := id + 1 })
      |>.withStore (·.bridgeReport b (.taskStarted id))
      |>.pushAction b (.resume ⟨id, script, settler⟩ none) |>.give .nothing

/-- A task could not be built. -/
def taskNotBuilt (m : Machine C R) (b settler : Nat) (error : Error) : Machine C R :=
  m.withStore (·.bridgeReport b (.taskNotStarted error)) |>.push (.holding [.settler settler])
    |>.settle settler (.failure error)

/-- A task was advanced. -/
def taskStepped (m : Machine C R) (held : C → List Handle) (b : Nat) (id : UInt64)
    (settler : Nat) (script : Script C) : Step C → Machine C R
  | .done o =>
    m.withStore (·.bridgeReport b (.taskFinished id o.isSuccess))
      |>.push (.holding (.settler settler :: script.handles held)) |>.settle settler o
  | .yield (.await c) =>
    m.withStore (·.bridgeReport b (.taskAwaiting id)) |>.retain [.bridge b]
      |>.push (.holding [.completion c]) |>.await held c (.resume b ⟨id, script, settler⟩)
  | .yield i => m.drop (.settler settler :: script.handles held ++ i.handles held) .nothing

/-- Start a task on a bridge. -/
def runTask (m : Machine C R) (b : Nat) (code : C) : Machine C R :=
  let (c, m) := m.newCompletion
  let m := m.push (.holding [.bridge b]) |>.push (.replying (.handle (.completion c)))
    |>.pushAction b (.start code c)
  if m.bridgeRunning b then m.give .nothing else m.enterBridge b

end Strand.Machine
