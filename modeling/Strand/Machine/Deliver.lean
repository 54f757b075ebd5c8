import Strand.Machine.Requests

/-! # Deliver — handing an answer to a frame

    What the frame on top of the control stack does with an answer. Code
    that returns something else than its place calls for is read in the
    nearest sense: a step that returns a script runs it in place, a block
    that returns an outcome builds the script that finishes with it. -/

namespace Strand

variable {C R : Type}

/-- The reply that code receives for an answer. -/
def Answer.reply? : Answer C → Option (Reply C)
  | .nothing => some (.outcome .unit)
  | .outcome o => some (.outcome o)
  | .reply r => some r
  | _ => none

/-- An answer as the result of a step. -/
def Answer.step : Answer C → Step C
  | .outcome o => .done o
  | .yield i => .yield i
  | .built s => .yield (.splice s)
  | .stepped step _ => step
  | _ => .done .unit

/-- A list of stages after a step with this result. -/
def Staged.after (s : Staged C) : Step C → Staged C
  | .done _ => s.finish
  | .yield _ => s

/-- An answer as the script that a block builds. -/
def Answer.script : Answer C → Script C
  | .built s => s
  | .outcome o => .returning o
  | _ => .returning .unit

namespace Machine

/-- A forced return has advanced its inner script. -/
def exitStepped (m : Machine C R) (progress : ForcedReturn) (inner : Script C) :
    Step C → Machine C R
  | .done (.success v) =>
    m.retain progress.output.handles
      |>.drop v.handles (.stepped (.done (progress.result (.success v))) (.exit inner progress))
  | step => m.give (.stepped step (.exit inner progress))

/-- A root has advanced its inner script. -/
def rootStepped (m : Machine C R) (settler : Nat) (inner : Script C) : Step C → Machine C R
  | .done o => m.retain o.handles |>.push (.reporting inner settler o) |>.settle settler o
  | step => m.give (.stepped step (.root inner settler))

/-- The result of a step that a panic came out of, where panics are caught. -/
def failed (payload : Payload) : Step C := .done (.failure (.panicked payload.message))

/-- Hand an answer to a frame. -/
def deliver (m : Machine C R) (B : Behavior C R) (a : Answer C) : Frame C R → Machine C R
  | .code next =>
    match a.reply? with
    | some r => { m with focus := .release [] (.tell next (.reply r)) }
    | none => m.push (.code next) |>.drop (a.handles B.held) .nothing
  | .holding hs => m.drop hs a
  | .releasing rest onward => { m with focus := .release (a.handles B.held ++ rest) onward }
  | .attempting => m.give a
  | .ignoring => m.drop (a.handles B.held) .nothing
  | .replying v => m.dropReply (a.handles B.held) v
  | .inStaged s => m.give (.stepped a.step (.staged (s.after a.step)))
  | .inOwn state => m.give (.stepped a.step (.own state))
  | .inExit progress =>
    match a with
    | .stepped step inner => m.exitStepped progress inner step
    | a => m.give a
  | .inRoot settler =>
    match a with
    | .stepped step inner => m.rootStepped settler inner step
    | a => m.give a
  | .reporting inner settler o => m.give (.stepped (.done o) (.root inner settler))
  | .inReentry k => m.give (.stepped (.yield .suspend) (.reentry k none))
  | .copying script => m.retain (script.handles B.held) |>.give (.built script)
  | .notifying listeners o => m.notify listeners o
  | .draining q ran => m.drainNext q ran
  | .pass p => m.passHead p
  | .stepping p id =>
    match a with
    | .stepped step script => m.routineStepped p id script step
    | a => m.endStep p (a.handles B.held)
  | .building p id origin => m.startChild p id origin a.script
  | .capturing p id handler frames copies left =>
    m.captureNext p id handler frames (copies ++ [a.script]) left
  | .sweeping p => m.sweep B.held p
  | .opening p settler => m.openRoot p settler a.script
  | .firstPass p =>
    match a with
    | .outcome (.failure e) =>
      m.onScheduler p (fun s => s.report (.firstPassFailed e)) |>.give .nothing
    | a => m.give a
  | .reentered p =>
    match a with
    | .outcome (.failure e) =>
      m.onScheduler p (fun s =>
        { s with unhandled := s.unhandled ++ [e] }.report (.reentryFailed e)) |>.give .nothing
    | a => m.drop (a.handles B.held) .nothing
  | .counting p =>
    m.replyValue (.int (Int64.ofNat (((m.scheduler? p).map fun s => s.routines.size).getD 0)))
  | .reinstating k v copies left => m.reinstateNext k v (copies ++ [a.script]) left
  | .driving b => m.bridgeHead b
  | .starting b settler =>
    match a with
    | .outcome (.failure e) => m.taskNotBuilt b settler e
    | a => m.taskBuilt b settler a.script
  | .resuming b id settler =>
    match a with
    | .stepped step script => m.taskStepped B.held b id settler script step
    | a => m.drop (.settler settler :: a.handles B.held) .nothing
  | .advancing x =>
    match a with
    | .stepped step script => m.putBack x script |>.reply (.stepped step)
    | a => m.give a
  | .keepingCopy x script =>
    let positioned := ((m.store.kept.find? x).map Kept.positioned).getD false
    m.putBack x script |>.keep a.script positioned

end Machine

end Strand
