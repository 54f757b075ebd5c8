import Strand.Machine.Passes

/-! # Advancing scripts

    What feeding, exiting and copying a script does. A wrapper advances its
    inner script with a frame on the control stack that remembers the
    wrapper, so that the script can be put together again when the step ends
    or a panic comes out of it. -/

namespace Strand.Machine

variable {C R : Type}

/-- A step is over without any code having run. -/
def stepDone (m : Machine C R) (dropped : List Handle) (o : Outcome Value) (script : Script C) :
    Machine C R :=
  m.drop dropped (.stepped (.done o) script)

/-- Make the script in focus return. -/
def exit (m : Machine C R) (script : Script C) : Machine C R := { m with focus := .exit script }

/-- Feed a list of stages. -/
def enterStage (m : Machine C R) (held : C → List Handle) (s : Staged C)
    (input : Outcome Value) : Machine C R :=
  match s.enter input with
  | (.pass, s) => m.stepDone [] input (.staged s)
  | (.constant o, s) => m.retain o.handles |>.stepDone input.handles o (.staged s)
  | (.run code, s) => m.retain (held code) |>.push (.inStaged s) |>.begin code (.feed input)

/-- Make a list of stages return. -/
def exitStages (m : Machine C R) (held : C → List Handle) (s : Staged C) : Machine C R :=
  match s.exit with
  | (some code, s) => m.retain (held code) |>.push (.inStaged s) |>.begin code .begin
  | (none, s) => m.stepDone [] .unit (.staged s)

/-- Move an own coroutine on and run the code of its step. What the state
    and the code hold together is counted anew. -/
def moveOwn (m : Machine C R) (B : Behavior C R) (state : C) (exiting : Bool)
    (input : Outcome Value) : Machine C R :=
  let (next, code) := B.move state exiting
  let (lost, m) := m.recount (B.held state) (B.held next ++ B.held code)
  { m.push (.inOwn next) with focus := .release lost (.begin code (.feed input)) }

/-- Feed a script. -/
def advanceScript (m : Machine C R) (B : Behavior C R) (script : Script C)
    (input : Outcome Value) : Machine C R :=
  match script with
  | .staged s => m.enterStage B.held s input
  | .own state => m.moveOwn B state false input
  | .exit inner progress =>
    let after := Frame.inExit (progress.next input)
    let input := ForcedReturn.passOn input
    if progress.started then m.push after |>.advance inner input
    else m.push (.holding input.handles) |>.push after |>.exit inner
  | .settled stored =>
    match input with
    | .failure e => m.stepDone [] (.failure e) (.settled stored)
    | .success v => m.retain stored.handles |>.stepDone v.handles stored (.settled stored)
  | .reentry k none => m.stepDone [] input (.reentry k none)
  | .reentry k (some v) => m.push (.inReentry k) |>.push (.holding input.handles) |>.invoke k v
  | .root inner settler => m.push (.inRoot settler) |>.advance inner input

/-- Make a script return. Scripts that have nothing to clean up are done at
    once. -/
def exitScript (m : Machine C R) (B : Behavior C R) (script : Script C) : Machine C R :=
  match script with
  | .staged s => m.exitStages B.held s
  | .own state => m.moveOwn B state true .unit
  | .root inner settler => m.push (.inRoot settler) |>.exit inner
  | script => m.stepDone [] .unit script

/-- Copy a script: its own coroutine, if any, is told before the copy is
    made. -/
def copyScript (m : Machine C R) (B : Behavior C R) (script : Script C) : Machine C R :=
  match script.core.bind B.onCopy with
  | some code =>
    m.retain (B.held code) |>.push (.copying script) |>.push .ignoring |>.begin code .begin
  | none => m.retain (script.handles B.held) |>.give (.built script)

end Strand.Machine
