import Strand.Machine.Basic

/-! # Completions and queues at work

    Settling stores the outcome first and tells the listeners afterwards, one
    after the other, so a listener finds the completion settled. A drain
    takes a job off its queue before it runs it, so a job may defer more jobs
    or drain the queue itself. -/

namespace Strand.Machine

variable {C R : Type}

/-! ### Bridges, as far as completions wake their tasks -/

/-- Whether a bridge is in its loop. -/
def bridgeRunning (m : Machine C R) (b : Nat) : Bool :=
  ((m.store.bridges.find? b).map Bridge.running).getD false

/-- Change a bridge. -/
def onBridge (m : Machine C R) (b : Nat) (f : Bridge C → Bridge C) : Machine C R :=
  m.withStore fun s => { s with bridges := s.bridges.modify b f }

/-- Enter the loop of a bridge. -/
def enterBridge (m : Machine C R) (b : Nat) : Machine C R :=
  m.onBridge b (fun x => { x with running := true }) |>.push (.driving b) |>.give .nothing

/-- Put work on a bridge. -/
def pushAction (m : Machine C R) (b : Nat) (action : Action C) : Machine C R :=
  m.onBridge b fun x => { x with stack := action :: x.stack }

/-- The completion of a task has settled: resume the task next, and enter the
    loop of its bridge if it has been left. The listener's share of the
    bridge is let go of in the end. -/
def wakeTask (m : Machine C R) (b : Nat) (task : Task C) (o : Outcome Value) : Machine C R :=
  let m := m.pushAction b (.resume task (some o))
  if m.bridgeRunning b then m.drop [.bridge b] .nothing
  else
    m.withStore (·.bridgeReport b .drivingAgain) |>.push (.holding [.bridge b]) |>.enterBridge b

/-! ### Completions -/

/-- Put a new state of a completion in its place. -/
def setCompletion (m : Machine C R) (c : Nat) (x : Completion C) : Machine C R :=
  m.withStore fun s => { s with completions := s.completions.set c x }

/-- Tell one listener. -/
def tellListener (m : Machine C R) (w : Listener C) (o : Outcome Value) : Machine C R :=
  match w with
  | .call code => m.push .ignoring |>.begin code (.feed o)
  | .resume b task => m.wakeTask b task o

/-- Settle a completion, if that has not been done; the reply says whether it
    took effect. -/
def settle (m : Machine C R) (c : Nat) (o : Outcome Value) : Machine C R :=
  match m.store.completions.find? c with
  | some ⟨.pending listeners, settlers⟩ =>
    m.retain o.handles |>.setCompletion c ⟨.settled o, settlers⟩
      |>.push (.notifying listeners o) |>.give .nothing
  | _ => m.dropReply o.handles (.bool false)

/-- Go on telling listeners. -/
def notify (m : Machine C R) (listeners : List (Listener C)) (o : Outcome Value) :
    Machine C R :=
  match listeners with
  | [] => m.dropReply o.handles (.bool true)
  | w :: rest => m.retain o.handles |>.push (.notifying rest o) |>.tellListener w o

/-- Register a listener; it is told at once if the completion has settled. -/
def await (m : Machine C R) (held : C → List Handle) (c : Nat) (w : Listener C) :
    Machine C R :=
  match m.store.completions.find? c with
  | some ⟨.pending listeners, settlers⟩ =>
    m.setCompletion c ⟨.pending (listeners ++ [w]), settlers⟩ |>.replyValue .unit
  | some ⟨.settled o, _⟩ => m.retain o.handles |>.push (.replying .unit) |>.tellListener w o
  | none => m.dropReply (w.handles held) .unit

/-- A new pending completion with one reader and one settler. -/
def newCompletion (m : Machine C R) : Nat × Machine C R :=
  let (c, completions) := m.store.completions.alloc 2 ⟨.pending [], 1⟩
  (c, m.withStore fun s => { s with completions })

/-- A new settled completion with one reader. -/
def newSettled (m : Machine C R) (o : Outcome Value) : Nat × Machine C R :=
  let (c, completions) := m.store.completions.alloc 1 ⟨.settled o, 0⟩
  (c, m.withStore fun s => { s with completions })

/-! ### Queues -/

/-- Put a job at the end of a queue. -/
def defer (m : Machine C R) (q : Nat) (job : Job C) : Machine C R :=
  m.withStore fun s => { s with queues := s.queues.modify q (· ++ [job]) }

/-- Run a job. -/
def runJob (m : Machine C R) : Job C → Machine C R
  | .call code => m.push .ignoring |>.begin code .begin
  | .settle c o => m.push (.holding [.settler c]) |>.settle c o

/-- Go on draining a queue of which `ran` jobs have run. -/
def drainNext (m : Machine C R) (q : Nat) (ran : Nat) : Machine C R :=
  match m.store.queues.find? q with
  | some (job :: rest) =>
    m.withStore (fun s => { s with queues := s.queues.set q rest })
      |>.push (.draining q (ran + 1)) |>.runJob job
  | _ => m.replyValue (.int (Int64.ofNat ran))

end Strand.Machine
