import Mathlib
import Strand.Machine.Step

/-! # Control — a move works at the top of the control stack

    Every operation of the machine pushes frames, and only `goOn` takes one
    off: what is beneath the top frame stays (`tail_suffix_step`). So a run
    that comes back to a height without having been lower comes back to the
    same stack. -/

namespace Strand.Machine

variable {C R : Type} (m : Machine C R)

/-! ### Small moves -/

@[simp] theorem control_push (f : Frame C R) : (m.push f).control = f :: m.control := rfl

@[simp] theorem control_withStore (f : Store C → Store C) :
    (m.withStore f).control = m.control := rfl

@[simp] theorem control_drop (hs : List Handle) (a : Answer C) :
    (m.drop hs a).control = m.control := rfl

@[simp] theorem control_give (a : Answer C) : (m.give a).control = m.control := rfl

@[simp] theorem control_reply (r : Reply C) : (m.reply r).control = m.control := rfl

@[simp] theorem control_replyValue (v : Value) : (m.replyValue v).control = m.control := rfl

@[simp] theorem control_dropReply (hs : List Handle) (v : Value) :
    (m.dropReply hs v).control = m.control := rfl

@[simp] theorem control_begin (code : C) (entry : Entry) :
    (m.begin code entry).control = m.control := rfl

@[simp] theorem control_advance (script : Script C) (input : Outcome Value) :
    (m.advance script input).control = m.control := rfl

@[simp] theorem control_exit (script : Script C) : (m.exit script).control = m.control := rfl

@[simp] theorem control_copy (script : Script C) : (m.copy script).control = m.control := rfl

@[simp] theorem control_unwind (hs : List Handle) (payload : Payload)
    (salvage : Option (Script C)) : (m.unwind hs payload salvage).control = m.control := rfl

@[simp] theorem control_retain (hs : List Handle) : (m.retain hs).control = m.control := rfl

@[simp] theorem control_onScheduler (p : Nat) (f : Scheduler C → Scheduler C) :
    (m.onScheduler p f).control = m.control := rfl

@[simp] theorem control_onBridge (b : Nat) (f : Bridge C → Bridge C) :
    (m.onBridge b f).control = m.control := rfl

@[simp] theorem control_pushAction (b : Nat) (action : Action C) :
    (m.pushAction b action).control = m.control := rfl

@[simp] theorem control_setCompletion (c : Nat) (x : Completion C) :
    (m.setCompletion c x).control = m.control := rfl

@[simp] theorem control_stepDone (dropped : List Handle) (o : Outcome Value)
    (script : Script C) : (m.stepDone dropped o script).control = m.control := rfl

@[simp] theorem control_putBack (x : Nat) (script : Script C) :
    (m.putBack x script).control = m.control := rfl

@[simp] theorem control_defer (q : Nat) (job : Job C) : (m.defer q job).control = m.control := rfl

/-! ### Completions, queues and bridges -/

theorem suffix_enterBridge (b : Nat) : m.control <:+ (m.enterBridge b).control := by
  simp [enterBridge]

theorem suffix_settle (c : Nat) (o : Outcome Value) : m.control <:+ (m.settle c o).control := by
  unfold settle
  split <;> simp

theorem suffix_wakeTask (b : Nat) (task : Task C) (o : Outcome Value) :
    m.control <:+ (m.wakeTask b task o).control := by
  unfold wakeTask
  dsimp only
  split
  · simp
  · refine List.IsSuffix.trans ?_ (suffix_enterBridge _ b)
    simp

theorem suffix_tellListener (w : Listener C) (o : Outcome Value) :
    m.control <:+ (m.tellListener w o).control := by
  cases w with
  | call code => simp [tellListener]
  | resume b task => exact suffix_wakeTask m b task o

theorem suffix_notify (listeners : List (Listener C)) (o : Outcome Value) :
    m.control <:+ (m.notify listeners o).control := by
  cases listeners with
  | nil => simp [notify]
  | cons w rest =>
    refine List.IsSuffix.trans ?_ (suffix_tellListener _ w o)
    simp

theorem suffix_await (held : C → List Handle) (c : Nat) (w : Listener C) :
    m.control <:+ (m.await held c w).control := by
  unfold await
  split
  · simp
  · refine List.IsSuffix.trans ?_ (suffix_tellListener _ w _)
    simp
  · simp

theorem suffix_runJob (job : Job C) : m.control <:+ (m.runJob job).control := by
  cases job with
  | call code => simp [runJob]
  | settle c o =>
    refine List.IsSuffix.trans ?_ (suffix_settle _ c o)
    simp

theorem suffix_drainNext (q ran : Nat) : m.control <:+ (m.drainNext q ran).control := by
  unfold drainNext
  split
  · refine List.IsSuffix.trans ?_ (suffix_runJob _ _)
    simp
  · simp

theorem suffix_runAction (b : Nat) (action : Action C) :
    m.control <:+ (m.runAction b action).control := by
  cases action <;> simp [runAction]

theorem suffix_bridgeHead (b : Nat) : m.control <:+ (m.bridgeHead b).control := by
  unfold bridgeHead
  split
  · simp
  · split
    · simp [leaveBridge]
    · refine List.IsSuffix.trans ?_ (suffix_runAction _ b _)
      simp

theorem suffix_taskBuilt (b settler : Nat) (script : Script C) :
    m.control <:+ (m.taskBuilt b settler script).control := by
  unfold taskBuilt
  split <;> simp

theorem suffix_taskNotBuilt (b settler : Nat) (error : Error) :
    m.control <:+ (m.taskNotBuilt b settler error).control := by
  refine List.IsSuffix.trans ?_ (suffix_settle _ settler _)
  simp

theorem suffix_taskStepped (held : C → List Handle) (b : Nat) (id : UInt64) (settler : Nat)
    (script : Script C) (step : Step C) :
    m.control <:+ (m.taskStepped held b id settler script step).control := by
  unfold taskStepped
  split
  · refine List.IsSuffix.trans ?_ (suffix_settle _ settler _)
    simp
  · refine List.IsSuffix.trans ?_ (suffix_await _ held _ _)
    simp
  · simp

theorem suffix_runTask (b : Nat) (code : C) : m.control <:+ (m.runTask b code).control := by
  unfold runTask newCompletion
  dsimp only
  split
  · simp [List.suffix_cons_iff]
  · refine List.IsSuffix.trans ?_ (suffix_enterBridge _ b)
    simp [List.suffix_cons_iff]

/-! ### Passes -/

theorem suffix_enterPass (p : Nat) (dropped : List Handle) :
    m.control <:+ (m.enterPass p dropped).control := by
  simp [enterPass]

theorem suffix_passHead (p : Nat) : m.control <:+ (m.passHead p).control := by
  unfold passHead
  split
  · simp
  · split <;> simp [List.suffix_cons_iff]

theorem suffix_endStep (p : Nat) (dropped : List Handle) :
    m.control <:+ (m.endStep p dropped).control := by
  simp [endStep]

theorem suffix_sweep (held : C → List Handle) (p : Nat) :
    m.control <:+ (m.sweep held p).control := by
  unfold sweep
  split
  · simp
  · dsimp only
    split <;> simp

theorem suffix_concludeStep (p : Nat) (id : RoutineId) (script : Script C) (o : Outcome Value) :
    m.control <:+ (m.concludeStep p id script o).control := by
  simp [concludeStep, endStep]

theorem suffix_startChild (p : Nat) (id : RoutineId) (origin : Origin) (script : Script C) :
    m.control <:+ (m.startChild p id origin script).control := by
  simp [startChild, endStep]

theorem suffix_captureNext (p : Nat) (id : RoutineId) (handler : C) (frames : List (Lifted C))
    (copies : List (Script C)) (left : List (Lifted C)) :
    m.control <:+ (m.captureNext p id handler frames copies left).control := by
  cases left <;> simp [captureNext]

theorem suffix_obey (p : Nat) (id : RoutineId) (script : Script C) (i : Instruction C) :
    m.control <:+ (m.obey p id script i).control := by
  cases i with
  | reset block => simp [obey]
  | shift handler =>
    unfold obey
    dsimp only
    split
    · exact suffix_endStep m p _
    · exact suffix_captureNext (m.onScheduler p _) p id handler _ _ _
  | suspend => exact suffix_endStep (m.onScheduler p _) p _
  | splice nested => exact suffix_startChild (m.onScheduler p _) p id _ _
  | await c => exact suffix_endStep (m.onScheduler p _) p _

theorem suffix_routineStepped (p : Nat) (id : RoutineId) (script : Script C) (step : Step C) :
    m.control <:+ (m.routineStepped p id script step).control := by
  cases step with
  | done o => exact suffix_concludeStep m p id script o
  | yield i => exact suffix_obey m p id script i

theorem suffix_openRoot (p : Nat) (settler : Option Nat) (script : Script C) :
    m.control <:+ (m.openRoot p settler script).control := by
  cases settler with
  | none => exact suffix_enterPass (m.onScheduler p _) p _
  | some c =>
    refine List.IsSuffix.trans ?_ (suffix_enterPass _ p _)
    simp

theorem suffix_reinstate (p : Nat) (frames : List RoutineId) (v : Value) :
    m.control <:+ (m.reinstate p frames v).control := by
  simp [reinstate]

theorem suffix_reinstateNext (k : Nat) (v : Value) (copies : List (Script C))
    (left : List (FrameCopy C)) : m.control <:+ (m.reinstateNext k v copies left).control := by
  cases left with
  | cons frame left => simp [reinstateNext]
  | nil =>
    unfold reinstateNext
    dsimp only
    split
    · simp
    · split
      · simp
      · exact suffix_reinstate (m.onScheduler _ _) _ _ _

theorem suffix_invoke (k : Nat) (v : Value) : m.control <:+ (m.invoke k v).control := by
  unfold invoke
  split
  · simp
  · split
    · simp
    · dsimp only
      split
      · refine List.IsSuffix.trans ?_ (suffix_reinstateNext _ k v _ _)
        simp
      · split
        · refine List.IsSuffix.trans ?_ (suffix_reinstate _ _ _ _)
          simp
        · refine List.IsSuffix.trans ?_ (suffix_reinstateNext _ k v _ _)
          simp

theorem suffix_reenter (p k : Nat) (v : Value) : m.control <:+ (m.reenter p k v).control := by
  unfold reenter
  split
  · simp
  · dsimp only
    split
    · simp
    · refine List.IsSuffix.trans ?_ (suffix_enterPass _ p _)
      simp [List.suffix_cons_iff]

/-! ### Scripts -/

theorem suffix_enterStage (held : C → List Handle) (s : Staged C) (input : Outcome Value) :
    m.control <:+ (m.enterStage held s input).control := by
  unfold enterStage
  split <;> simp

theorem suffix_exitStages (held : C → List Handle) (s : Staged C) :
    m.control <:+ (m.exitStages held s).control := by
  unfold exitStages
  split <;> simp

theorem suffix_moveOwn (B : Behavior C R) (state : C) (exiting : Bool) (input : Outcome Value) :
    m.control <:+ (m.moveOwn B state exiting input).control := by
  simp [moveOwn, recount]

theorem suffix_advanceScript (B : Behavior C R) (script : Script C) (input : Outcome Value) :
    m.control <:+ (m.advanceScript B script input).control := by
  unfold advanceScript
  split
  · exact suffix_enterStage m B.held _ input
  · exact suffix_moveOwn m B _ false input
  · dsimp only
    split <;> simp [List.suffix_cons_iff]
  · split <;> simp
  · simp
  · refine List.IsSuffix.trans ?_ (suffix_invoke _ _ _)
    simp [List.suffix_cons_iff]
  · simp

theorem suffix_exitScript (B : Behavior C R) (script : Script C) :
    m.control <:+ (m.exitScript B script).control := by
  unfold exitScript
  split
  · exact suffix_exitStages m B.held _
  · exact suffix_moveOwn m B _ true .unit
  · simp
  · simp

theorem suffix_copyScript (B : Behavior C R) (script : Script C) :
    m.control <:+ (m.copyScript B script).control := by
  unfold copyScript
  split <;> simp [List.suffix_cons_iff]

/-! ### Requests -/

theorem suffix_evaluate (held : C → List Handle) (p : Nat) (code : C) :
    m.control <:+ (m.evaluate held p code).control := by
  unfold evaluate
  dsimp only
  split <;> simp [List.suffix_cons_iff]

theorem suffix_start (held : C → List Handle) (p : Nat) (code : C) :
    m.control <:+ (m.start held p code).control := by
  unfold start newSettled newCompletion
  dsimp only
  split <;> simp [List.suffix_cons_iff]

theorem suffix_countRoutines (p : Nat) : m.control <:+ (m.countRoutines p).control := by
  unfold countRoutines
  dsimp only
  split <;> simp [List.suffix_cons_iff]

theorem suffix_takeKept (x : Nat) (dropped : List Handle)
    (f : Script C → Machine C R → Machine C R)
    (hf : ∀ script n, n.control <:+ (f script n).control) :
    m.control <:+ (m.takeKept x dropped f).control := by
  unfold takeKept
  split
  · refine List.IsSuffix.trans ?_ (hf _ _)
    simp
  · simp

theorem suffix_advanceKept (x : Nat) (input : Option (Outcome Value)) :
    m.control <:+ (m.advanceKept x input).control := by
  refine suffix_takeKept m x _ _ ?_
  intro script n
  cases input <;> simp

theorem suffix_positionKept (x : Nat) : m.control <:+ (m.positionKept x).control := by
  unfold positionKept
  split <;> simp

theorem suffix_perform (B : Behavior C R) (request : Request C) :
    m.control <:+ (m.perform B request).control := by
  unfold perform
  split
  case h_2 => unfold readVariable; split <;> simp
  case h_8 => exact List.IsSuffix.trans (by simp) (suffix_settle _ _ _)
  case h_10 => split <;> simp
  case h_11 => exact List.IsSuffix.trans (by simp) (suffix_await _ B.held _ _)
  case h_18 => exact suffix_evaluate m B.held _ _
  case h_19 => exact suffix_start m B.held _ _
  case h_20 => exact suffix_countRoutines m _
  case h_24 => exact List.IsSuffix.trans (by simp) (suffix_invoke _ _ _)
  case h_25 => exact List.IsSuffix.trans (by simp) (suffix_reenter _ _ _ _)
  case h_27 => exact suffix_runTask m _ _
  case h_30 => exact suffix_advanceKept m _ _
  case h_31 =>
    refine suffix_takeKept m _ _ _ ?_
    intro script n
    simp
  case h_32 => exact suffix_positionKept m _
  all_goals simp [record, writeVariable, removeVariable, newCompletion, newSettled, takeFailures,
    keep, List.suffix_cons_iff]

/-! ### Moves -/

theorem suffix_deliver (B : Behavior C R) (a : Answer C) (f : Frame C R) :
    m.control <:+ (m.deliver B a f).control := by
  cases f with
  | code next =>
    unfold deliver
    dsimp only
    split <;> simp
  | inExit progress =>
    unfold deliver
    dsimp only
    split
    · unfold exitStepped
      split <;> simp
    · simp
  | inRoot settler =>
    unfold deliver
    dsimp only
    split
    · unfold rootStepped
      split
      · refine List.IsSuffix.trans ?_ (suffix_settle _ settler _)
        simp
      · simp
    · simp
  | notifying listeners o => exact suffix_notify m listeners o
  | draining q ran => exact suffix_drainNext m q ran
  | pass p => exact suffix_passHead m p
  | stepping p id =>
    unfold deliver
    dsimp only
    split
    · exact suffix_routineStepped m p id _ _
    · exact suffix_endStep m p _
  | building p id origin => exact suffix_startChild m p id origin _
  | capturing p id handler frames copies left => exact suffix_captureNext m p id handler frames _ left
  | sweeping p => exact suffix_sweep m B.held p
  | opening p settler => exact suffix_openRoot m p settler _
  | firstPass p =>
    unfold deliver
    dsimp only
    split <;> simp
  | reentered p =>
    unfold deliver
    dsimp only
    split <;> simp
  | reinstating k v copies left => exact suffix_reinstateNext m k v _ left
  | driving b => exact suffix_bridgeHead m b
  | starting b settler =>
    unfold deliver
    dsimp only
    split
    · exact suffix_taskNotBuilt m b settler _
    · exact suffix_taskBuilt m b settler _
  | resuming b id settler =>
    unfold deliver
    dsimp only
    split
    · exact suffix_taskStepped m B.held b id settler _ _
    · simp
  | advancing x =>
    unfold deliver
    dsimp only
    split <;> simp
  | _ => simp [deliver, keep]

theorem suffix_unwindFrame (B : Behavior C R) (payload : Payload) (salvage : Option (Script C))
    (f : Frame C R) : m.control <:+ (m.unwindFrame B payload salvage f).control := by
  cases f with
  | releasing rest onward => cases onward <;> simp [unwindFrame]
  | stepping p id =>
    unfold unwindFrame
    dsimp only
    split
    · exact suffix_routineStepped m p id _ _
    · simp
  | building p id origin =>
    unfold unwindFrame
    dsimp only
    split
    · exact suffix_startChild m p id origin _
    · simp
  | opening p settler =>
    unfold unwindFrame
    dsimp only
    split
    · exact suffix_openRoot m p settler _
    · simp
  | starting b settler =>
    unfold unwindFrame
    dsimp only
    split
    · exact suffix_taskNotBuilt m b settler _
    · simp
  | resuming b id settler =>
    unfold unwindFrame
    dsimp only
    split
    · exact suffix_taskStepped m B.held b id settler _ _
    · simp
  | advancing x =>
    unfold unwindFrame
    dsimp only
    split <;> simp
  | driving b => simp [unwindFrame, leaveBridge]
  | _ => simp [unwindFrame]

/-- The focus lets the top frame go on. -/
def popping (m : Machine C R) : Bool :=
  match m.focus with
  | .release [] (.give _) | .release [] (.unwind _ _) => true
  | _ => false

/-- A move that does not hand anything to the top frame leaves the whole
    control stack. -/
theorem suffix_step (B : Behavior C R) (h : m.popping = false) :
    m.control <:+ (m.step B).control := by
  unfold popping at h
  unfold step
  split
  · exact suffix_advanceScript m B _ _
  · exact suffix_exitScript m B _
  · exact suffix_copyScript m B _
  · unfold letGo
    split
    · simp
    · refine List.IsSuffix.trans ?_ (suffix_settle _ _ _)
      simp
  · next onward hf =>
    rw [hf] at h
    cases onward with
    | give a => cases h
    | unwind payload salvage => cases h
    | begin code entry => simp [goOn, startCode, recount]
    | tell state signal =>
      simp only [goOn, tell, recount]
      split <;> simp
    | act reaction =>
      cases reaction with
      | ask request next =>
        refine List.IsSuffix.trans ?_ (suffix_perform _ B request)
        simp
      | _ => simp [goOn, act]
  · exact List.suffix_rfl

/-- Every move leaves what is beneath the top frame. -/
theorem tail_suffix_step (B : Behavior C R) : m.control.tail <:+ (m.step B).control := by
  cases hpop : m.popping with
  | false => exact (List.tail_suffix _).trans (suffix_step m B hpop)
  | true =>
    unfold popping at hpop
    unfold step
    split at hpop
    · next a hf =>
      simp only [hf, goOn]
      cases hc : m.control with
      | nil => simp [hc]
      | cons f control => exact suffix_deliver ⟨m.store, control, _⟩ B a f
    · next payload salvage hf =>
      simp only [hf, goOn]
      cases hc : m.control with
      | nil => simp [hc]
      | cons f control => exact suffix_unwindFrame ⟨m.store, control, _⟩ B payload salvage f
    · cases hpop

end Strand.Machine
