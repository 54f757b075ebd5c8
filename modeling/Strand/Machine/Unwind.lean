import Strand.Machine.Deliver

/-! # Unwind — a panic passes a frame

    Frames let go of what they hold, and the ones that guard something put it
    in order: a pass frees what it had scheduled, a bridge leaves its loop, a
    kept script is put back as the panic left it. Where panics are caught, in
    an attempt and in the steps and blocks of schedulers and bridges that
    catch them, the panic ends. -/

namespace Strand.Machine

variable {C R : Type}

/-- Whether a scheduler turns panics into failures. -/
def catches (m : Machine C R) (p : Nat) : Bool :=
  ((m.scheduler? p).map fun s => s.settings.catchPanics).getD false

/-- Whether a bridge turns panics into failures. -/
def bridgeCatches (m : Machine C R) (b : Nat) : Bool :=
  ((m.store.bridges.find? b).map fun x => x.settings.catchPanics).getD false

/-- Let a panic pass a frame. -/
def unwindFrame (m : Machine C R) (B : Behavior C R) (payload : Payload)
    (salvage : Option (Script C)) : Frame C R → Machine C R
  | .code next => m.unwind (B.heldRunning next) payload none
  | .holding hs => m.unwind hs payload salvage
  | .releasing rest onward =>
    match onward with
    | .unwind _ _ => { m with focus := .aborted }
    | onward => m.unwind (rest ++ onward.handles B) payload salvage
  | .attempting => m.reply (.unwound payload)
  | .ignoring => m.unwind [] payload salvage
  | .replying v => m.unwind v.handles payload salvage
  | .inStaged s => m.unwind [] payload (some (.staged s))
  | .inOwn state => m.unwind [] payload (some (.own state))
  | .inExit progress => m.unwind [] payload (salvage.map fun inner => .exit inner progress)
  | .inRoot settler => m.unwind [] payload (salvage.map fun inner => .root inner settler)
  | .reporting inner settler o => m.unwind o.handles payload (some (.root inner settler))
  | .inReentry k => m.unwind [] payload (some (.reentry k none))
  | .copying _ => m.unwind [] payload none
  | .notifying listeners o =>
    m.unwind (listeners.flatMap (Listener.handles B.held) ++ o.handles) payload salvage
  | .draining _ _ => m.unwind [] payload salvage
  | .pass p =>
    let dropped := m.registerHandles p
    m.onScheduler p (fun s => s.leave true) |>.unwind dropped payload none
  | .stepping p id =>
    let script := salvage.getD (.returning .unit)
    if m.catches p then m.routineStepped p id script (failed payload)
    else m.unwind (script.handles B.held) payload none
  | .building p id origin =>
    if m.catches p then
      m.startChild p id origin (.returning (.failure (.panicked payload.message)))
    else m.unwind [] payload none
  | .capturing _ _ handler frames copies _ =>
    m.unwind (copies.flatMap (Script.handles B.held)
      ++ frames.flatMap (fun frame => frame.script.handles B.held) ++ B.held handler) payload none
  | .sweeping _ => m.unwind [] payload none
  | .opening p settler =>
    if m.catches p then
      m.openRoot p settler (.returning (.failure (.panicked payload.message)))
    else m.unwind (settler.toList.map .settler) payload none
  | .firstPass _ | .reentered _ | .counting _ => m.unwind [] payload none
  | .reinstating _ v copies _ =>
    m.unwind (copies.flatMap (Script.handles B.held) ++ v.handles) payload none
  | .driving b => m.leaveBridge b |>.unwind [] payload none
  | .starting b settler =>
    if m.bridgeCatches b then
      m.taskNotBuilt b settler (.panicked payload.message)
    else m.unwind [.settler settler] payload none
  | .resuming b id settler =>
    let script := salvage.getD (.returning .unit)
    if m.bridgeCatches b then m.taskStepped B.held b id settler script (failed payload)
    else m.unwind (.settler settler :: script.handles B.held) payload none
  | .advancing x =>
    (match salvage with
      | some script => m.putBack x script
      | none => m).unwind [] payload none
  | .keepingCopy x script => m.putBack x script |>.unwind [] payload none

end Strand.Machine
