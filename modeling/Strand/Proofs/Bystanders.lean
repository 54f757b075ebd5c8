import Strand.Proofs.Edits

/-! # Bystanders — moves that are no business of completions and bridges

    Completions settle, bridges drive, and frames on the control stack are in the
    middle of both: a listener is being told, a loop is under way, a task is built or
    advanced (`Frame.seated`). Most of what the machine does has nothing to do with
    any of this. `Untouched` says so of a move, and there is one lemma for each
    operation of schedulers, continuations, scripts and shared variables. -/

namespace Strand

variable {C R : Type}

/-- Whether the frame is in the middle of settling a completion or of driving a
    bridge. -/
def Frame.seated : Frame C R → Bool
  | .notifying _ _ => true
  | .driving _ => true
  | .starting _ _ => true
  | .resuming _ _ _ => true
  | _ => false

/-- Whether the request makes or settles a completion, listens to one, or has to do
    with a bridge. -/
def Request.concerns : Request C → Bool
  | .newCompletion => true
  | .settledCompletion _ => true
  | .settle _ _ => true
  | .onSettle _ _ => true
  | .settleLater _ _ => true
  | .start _ _ => true
  | .newBridge _ => true
  | .run _ _ => true
  | _ => false

/-- Whether the frame may settle a completion or drive a bridge when it is handed an
    answer. -/
def Frame.concerns : Frame C R → Bool
  | .inRoot _ => true
  | .draining _ _ => true
  | f => f.seated

/-- Whether letting go of the handle may do something to a completion or a bridge. -/
def Handle.concerns : Handle → Bool
  | .completion _ => true
  | .settler _ => true
  | .bridge _ => true
  | _ => false

namespace Machine

/-- How a completion stands, if it is there. -/
def progress? (c : Nat) (m : Machine C R) : Option (Progress C) :=
  (m.store.completions.find? c).map Completion.progress

/-- `n` is `m` but for what completions and bridges have nothing to do with. -/
structure Untouched (m n : Machine C R) : Prop where
  bridges : ∀ b, n.store.bridges.find? b = m.store.bridges.find? b
  progress : ∀ c, n.progress? c = m.progress? c
  numbers : n.store.completions.cells.size = m.store.completions.cells.size
  control : ∃ fs, n.control = fs ++ m.control ∧ ∀ f ∈ fs, f.seated = false

section Untouched

variable {m n o : Machine C R}

theorem Untouched.of_store {f : Focus C R} {st : Store C}
    (hbridges : ∀ b, st.bridges.find? b = m.store.bridges.find? b)
    (hprogress : ∀ c, (st.completions.find? c).map Completion.progress = m.progress? c)
    (hnumbers : st.completions.cells.size = m.store.completions.cells.size) :
    Untouched m ⟨st, m.control, f⟩ :=
  ⟨hbridges, hprogress, hnumbers, [], rfl, List.forall_mem_nil _⟩

theorem Untouched.of_same (fs : List (Frame C R)) (hbridges : n.store.bridges = m.store.bridges)
    (hcompletions : n.store.completions = m.store.completions)
    (hcontrol : n.control = fs ++ m.control) (hfs : ∀ f ∈ fs, f.seated = false) :
    Untouched m n where
  bridges b := by rw [hbridges]
  progress c := by rw [progress?, hcompletions]; rfl
  numbers := by rw [hcompletions]
  control := ⟨fs, hcontrol, hfs⟩

/-- Another focus. -/
theorem Untouched.focus (m : Machine C R) (f : Focus C R) : Untouched m ⟨m.store, m.control, f⟩ :=
  .of_store (fun _ => rfl) (fun _ => rfl) rfl

theorem Untouched.trans (h : Untouched m n) (h' : Untouched n o) : Untouched m o where
  bridges b := (h'.bridges b).trans (h.bridges b)
  progress c := (h'.progress c).trans (h.progress c)
  numbers := h'.numbers.trans h.numbers
  control := by
    obtain ⟨fs, hfs, hquiet⟩ := h.control
    obtain ⟨gs, hgs, hquiet'⟩ := h'.control
    refine ⟨gs ++ fs, by rw [hgs, hfs, List.append_assoc], ?_⟩
    rw [List.forall_mem_append]
    exact ⟨hquiet', hquiet⟩

/-- Frames that are not in the middle of anything may be put on. -/
theorem Untouched.push (h : Untouched m n) {f : Frame C R} (hf : f.seated = false) :
    Untouched m (n.push f) :=
  h.trans ⟨fun _ => rfl, fun _ => rfl, rfl, [f], rfl, fun g hg => by rw [List.mem_singleton.mp hg, hf]⟩

/-- And the focus may be another one. -/
theorem Untouched.refocus (h : Untouched m n) (f : Focus C R) :
    Untouched m ⟨n.store, n.control, f⟩ :=
  h.trans (.focus n f)

end Untouched

variable (m : Machine C R)

theorem untouched_push {f : Frame C R} (hf : f.seated = false) : Untouched m (m.push f) :=
  (Untouched.focus m m.focus).push hf

theorem find?_bridges_retainAll (st : Store C) (hs : List Handle) (b : Nat) :
    (st.retainAll hs).bridges.find? b = st.bridges.find? b := by
  have hone : ∀ (t : Store C) (h : Handle), (t.retain h).bridges.find? b = t.bridges.find? b := by
    intro t h
    cases h with
    | bridge q => exact Table.find?_retain t.bridges q b
    | _ => rfl
  unfold Store.retainAll
  induction hs generalizing st with
  | nil => rfl
  | cons h hs ih => exact (ih (st.retain h)).trans (hone st h)

theorem size_completions_retainAll (st : Store C) (hs : List Handle) :
    (st.retainAll hs).completions.cells.size = st.completions.cells.size := by
  have hone : ∀ (t : Store C) (h : Handle),
      (t.retain h).completions.cells.size = t.completions.cells.size := by
    intro t h
    cases h <;> simp [Store.retain]
  unfold Store.retainAll
  induction hs generalizing st with
  | nil => rfl
  | cons h hs ih => exact (ih (st.retain h)).trans (hone st h)

theorem untouched_retain (hs : List Handle) : Untouched m (m.retain hs) :=
  .of_store (fun b => find?_bridges_retainAll m.store hs b)
    (fun c => Store.progress_retainAll m.store hs c) (size_completions_retainAll m.store hs)

theorem untouched_onScheduler (p : Nat) (f : Scheduler C → Scheduler C) :
    Untouched m (m.onScheduler p f) := by
  have hstore : (m.store.onScheduler p f).bridges = m.store.bridges ∧
      (m.store.onScheduler p f).completions = m.store.completions := by
    unfold Store.onScheduler
    split <;> exact ⟨rfl, rfl⟩
  refine .of_store (fun b => ?_) (fun c => ?_) (by rw [hstore.2])
  · rw [hstore.1]
  · rw [hstore.2]
    rfl

theorem untouched_bridgeReport (b' : Nat) (r : Report) :
    Untouched m (m.withStore (·.bridgeReport b' r)) := by
  have hstore : (m.store.bridgeReport b' r).bridges = m.store.bridges ∧
      (m.store.bridgeReport b' r).completions = m.store.completions := by
    unfold Store.bridgeReport
    split <;> exact ⟨rfl, rfl⟩
  refine .of_store (fun b => ?_) (fun c => ?_) (by rw [hstore.2])
  · rw [hstore.1]
  · rw [hstore.2]
    rfl

/-! ### Schedulers -/

theorem untouched_passHead (p : Nat) : Untouched m (m.passHead p) := by
  unfold passHead
  split
  · exact .focus m _
  · split
    · exact (((untouched_onScheduler m p _).push rfl).push rfl).refocus _
    · exact (untouched_onScheduler m p _).refocus _

theorem untouched_endStep (p : Nat) (dropped : List Handle) : Untouched m (m.endStep p dropped) :=
  (untouched_push m rfl).refocus _

theorem untouched_sweep (held : C → List Handle) (p : Nat) : Untouched m (m.sweep held p) := by
  unfold sweep
  split
  · exact .focus m _
  · dsimp only
    split
    · exact (untouched_onScheduler m p _).refocus _
    · exact ((untouched_onScheduler m p _).push rfl).refocus _

theorem untouched_concludeStep (p : Nat) (id : RoutineId) (script : Script C) (o : Outcome Value) :
    Untouched m (m.concludeStep p id script o) :=
  (untouched_retain m _).trans ((untouched_onScheduler _ p _).trans (untouched_endStep _ p _))

theorem untouched_startChild (p : Nat) (id : RoutineId) (origin : Origin) (script : Script C) :
    Untouched m (m.startChild p id origin script) :=
  (untouched_onScheduler m p _).trans (untouched_endStep _ p _)

theorem untouched_captureNext (p : Nat) (id : RoutineId) (handler : C) (frames : List (Lifted C))
    (copies : List (Script C)) (left : List (Lifted C)) :
    Untouched m (m.captureNext p id handler frames copies left) := by
  cases left with
  | nil =>
    refine (untouched_onScheduler m p _).trans (.of_same [.building p id .shift] rfl rfl rfl ?_)
    simp [Frame.seated]
  | cons frame left => exact (untouched_push m rfl).refocus _

theorem untouched_obey (p : Nat) (id : RoutineId) (script : Script C) (i : Instruction C) :
    Untouched m (m.obey p id script i) := by
  cases i with
  | shift handler =>
    unfold obey
    dsimp only
    split
    · exact untouched_endStep m p []
    · exact (untouched_onScheduler m p _).trans (untouched_captureNext _ p id handler _ [] _)
  | splice nested =>
    exact (untouched_onScheduler m p _).trans (untouched_startChild _ p id .splice nested)
  | reset block => exact ((untouched_onScheduler m p _).push rfl).refocus _
  | _ => exact (untouched_onScheduler m p _).trans (untouched_endStep _ p _)

theorem untouched_routineStepped (p : Nat) (id : RoutineId) (script : Script C) (step : Step C) :
    Untouched m (m.routineStepped p id script step) := by
  cases step with
  | done o => exact untouched_concludeStep m p id script o
  | yield i => exact untouched_obey m p id script i

theorem untouched_enterPass (p : Nat) (dropped : List Handle) :
    Untouched m (m.enterPass p dropped) :=
  ((untouched_onScheduler m p _).push rfl).refocus _

theorem untouched_openRoot (p : Nat) (settler : Option Nat) (script : Script C) :
    Untouched m (m.openRoot p settler script) := by
  cases settler with
  | none => exact (untouched_onScheduler m p _).trans (untouched_enterPass _ p _)
  | some c => exact ((untouched_onScheduler m p _).push rfl).trans (untouched_enterPass _ p _)

/-! ### Continuations -/

theorem untouched_reinstate (p : Nat) (frames : List RoutineId) (v : Value) :
    Untouched m (m.reinstate p frames v) :=
  (untouched_onScheduler m p _).refocus _

theorem untouched_reinstateNext (k : Nat) (v : Value) (copies : List (Script C))
    (left : List (FrameCopy C)) : Untouched m (m.reinstateNext k v copies left) := by
  cases left with
  | cons frame left => exact (untouched_push m rfl).refocus _
  | nil =>
    unfold reinstateNext
    dsimp only
    split
    · exact .focus m _
    · split
      · exact .focus m _
      · exact (untouched_onScheduler m _ _).trans (untouched_reinstate _ _ _ v)

theorem untouched_invoke (k : Nat) (v : Value) : Untouched m (m.invoke k v) := by
  unfold invoke
  split
  · exact .focus m _
  · next snapshot _ =>
    split
    · exact .of_same [] rfl rfl rfl (List.forall_mem_nil _)
    · have hheld : Untouched m (((m.retain [.scheduler snapshot.home]).push
          (.holding [.scheduler snapshot.home])).withStore fun t =>
            { t with snapshots := t.snapshots.set k { snapshot with routines := none } }) :=
        ((untouched_retain m _).push rfl).trans (.of_same [] rfl rfl rfl (List.forall_mem_nil _))
      dsimp only
      split
      · exact hheld.trans (untouched_reinstateNext _ k v [] _)
      · split
        · exact hheld.trans (untouched_reinstate _ _ _ v)
        · refine (hheld.trans ?_).trans (untouched_reinstateNext _ k v [] _)
          exact .of_same [] rfl rfl rfl (List.forall_mem_nil _)

theorem untouched_reenter (p k : Nat) (v : Value) : Untouched m (m.reenter p k v) := by
  unfold reenter
  split
  · exact .of_same [] rfl rfl rfl (List.forall_mem_nil _)
  · have hheld : Untouched m ((m.retain (.scheduler p :: .continuation k :: v.handles)).push
        (.holding [.scheduler p])) := (untouched_retain m _).push rfl
    dsimp only
    split
    · exact (hheld.trans (untouched_onScheduler _ p _)).refocus _
    · exact ((hheld.trans (untouched_onScheduler _ p _)).push rfl).trans
        (untouched_enterPass _ p _)

/-! ### Scripts -/

theorem untouched_enterStage (held : C → List Handle) (s : Staged C) (input : Outcome Value) :
    Untouched m (m.enterStage held s input) := by
  unfold enterStage
  split
  · exact .focus m _
  · exact (untouched_retain m _).refocus _
  · exact ((untouched_retain m _).push rfl).refocus _

theorem untouched_moveOwn (B : Behavior C R) (state : C) (exiting : Bool) (input : Outcome Value) :
    Untouched m (m.moveOwn B state exiting input) :=
  ((untouched_retain m _).push rfl).refocus _

theorem untouched_exitScript (B : Behavior C R) (script : Script C) :
    Untouched m (m.exitScript B script) := by
  cases script with
  | staged s =>
    show Untouched m (m.exitStages B.held s)
    unfold exitStages
    split
    · exact ((untouched_retain m _).push rfl).refocus _
    · exact .focus m _
  | own state => exact untouched_moveOwn m B state true .unit
  | root inner settler => exact (untouched_push m rfl).refocus _
  | _ => exact .focus m _

theorem untouched_copyScript (B : Behavior C R) (script : Script C) :
    Untouched m (m.copyScript B script) := by
  unfold copyScript
  split
  · exact (((untouched_retain m _).push rfl).push rfl).refocus _
  · exact (untouched_retain m _).refocus _

theorem untouched_advanceScript (B : Behavior C R) (script : Script C) (input : Outcome Value) :
    Untouched m (m.advanceScript B script input) := by
  cases script with
  | staged s => exact untouched_enterStage m B.held s input
  | own state => exact untouched_moveOwn m B state false input
  | exit inner progress =>
    unfold advanceScript
    dsimp only
    split
    · exact (untouched_push m rfl).refocus _
    · exact ((untouched_push m rfl).push rfl).refocus _
  | settled stored =>
    cases input with
    | success v => exact (untouched_retain m _).refocus _
    | failure e => exact .focus m _
  | reentry k value =>
    cases value with
    | none => exact .focus m _
    | some v => exact ((untouched_push m rfl).push rfl).trans (untouched_invoke _ k v)
  | root inner settler => exact (untouched_push m rfl).refocus _

theorem untouched_exitStepped (progress : ForcedReturn) (inner : Script C) (step : Step C) :
    Untouched m (m.exitStepped progress inner step) := by
  unfold exitStepped
  split
  · exact (untouched_retain m _).refocus _
  · exact .focus m _

/-! ### Requests -/

theorem untouched_readVariable (name : String) : Untouched m (m.readVariable name) := by
  unfold readVariable
  split
  · exact (untouched_retain m _).refocus _
  · exact .focus m _

theorem untouched_keep (script : Script C) (positioned : Bool) :
    Untouched m (m.keep script positioned) :=
  .of_same [] rfl rfl rfl (List.forall_mem_nil _)

theorem untouched_takeKept (x : Nat) (dropped : List Handle)
    {f : Script C → Machine C R → Machine C R} (hf : ∀ script n, Untouched n (f script n)) :
    Untouched m (m.takeKept x dropped f) := by
  unfold takeKept
  split
  · refine .trans ?_ (hf _ _)
    refine .of_same [.holding [.coroutine x]] rfl rfl rfl ?_
    simp [Frame.seated]
  · exact .focus m _

theorem untouched_advanceKept (x : Nat) (input : Option (Outcome Value)) :
    Untouched m (m.advanceKept x input) := by
  refine untouched_takeKept m x _ fun script n => ?_
  cases input with
  | none => exact (untouched_push n rfl).refocus _
  | some o => exact (untouched_push n rfl).refocus _

theorem untouched_positionKept (x : Nat) : Untouched m (m.positionKept x) := by
  unfold positionKept
  split <;> exact .focus m _

theorem untouched_evaluate (held : C → List Handle) (p : Nat) (code : C) :
    Untouched m (m.evaluate held p code) := by
  unfold evaluate
  dsimp only
  split
  · exact (untouched_push m rfl).refocus _
  · exact ((untouched_push m rfl).push rfl).refocus _

theorem untouched_countRoutines (p : Nat) : Untouched m (m.countRoutines p) := by
  unfold countRoutines
  dsimp only
  split
  · exact ((untouched_push m rfl).push rfl).refocus _
  · exact (((untouched_push m rfl).push rfl).push rfl).refocus _

theorem untouched_perform (B : Behavior C R) {request : Request C}
    (h : request.concerns = false) : Untouched m (m.perform B request) := by
  cases request with
  | outcome c =>
    unfold perform
    dsimp only
    split
    · exact (untouched_retain m _).refocus _
    · exact .focus m _
  | readVariable name => exact untouched_readVariable m name
  | evaluate p code => exact untouched_evaluate m B.held p code
  | countRoutines p => exact untouched_countRoutines m p
  | takeFailures p => exact (untouched_onScheduler m p _).refocus _
  | attempt code => exact (untouched_push m rfl).refocus _
  | drain q => exact ((untouched_push m rfl).push rfl).refocus _
  | invoke k v => exact (untouched_push m rfl).trans (untouched_invoke _ k v)
  | reenter p k v => exact (untouched_push m rfl).trans (untouched_reenter _ p k v)
  | keep script positioned => exact untouched_keep m script positioned
  | advance x input => exact untouched_advanceKept m x input
  | copy x => exact untouched_takeKept m x _ fun script n => (untouched_push n rfl).refocus _
  | position x => exact untouched_positionKept m x
  | newCompletion => cases h
  | settledCompletion o => cases h
  | settle c o => cases h
  | onSettle c code => cases h
  | settleLater q o => cases h
  | start p code => cases h
  | newBridge settings => cases h
  | run b code => cases h
  | _ => exact .of_same [] rfl rfl rfl (List.forall_mem_nil _)

/-! ### Letting go, answers and panics -/

theorem untouched_letGo (B : Behavior C R) {h : Handle} (hh : h.concerns = false)
    (rest : List Handle) (onward : Onward C R) : Untouched m (m.letGo B h rest onward) := by
  cases h with
  | completion c => cases hh
  | settler c => cases hh
  | bridge b => cases hh
  | continuation k =>
    obtain ⟨hs, st, hletGo, hbridges, hcompletions⟩ : ∃ hs st,
        m.store.letGo B.held (.continuation k) = (.release hs, st) ∧
          st.bridges = m.store.bridges ∧ st.completions = m.store.completions := by
      unfold Store.letGo
      dsimp only
      cases (m.store.snapshots.letGo k).1 with
      | none => exact ⟨_, _, rfl, rfl, rfl⟩
      | some snapshot =>
        refine ⟨_, _, rfl, ?_⟩
        cases snapshot.routines with
        | none => exact ⟨rfl, rfl⟩
        | some ids =>
          unfold Store.onScheduler
          dsimp only
          split <;> exact ⟨rfl, rfl⟩
    rw [letGo, hletGo]
    exact .of_same [] hbridges hcompletions rfl (List.forall_mem_nil _)
  | _ => exact .of_same [] rfl rfl rfl (List.forall_mem_nil _)

theorem untouched_deliver (B : Behavior C R) (a : Answer C) {f : Frame C R}
    (hf : f.concerns = false) : Untouched m (m.deliver B a f) := by
  cases f with
  | code next =>
    unfold deliver
    dsimp only
    split
    · exact .focus m _
    · exact (untouched_push m rfl).refocus _
  | inExit progress =>
    unfold deliver
    dsimp only
    split
    · exact untouched_exitStepped m progress _ _
    · exact .focus m _
  | copying script => exact (untouched_retain m _).refocus _
  | pass p => exact untouched_passHead m p
  | stepping p id =>
    unfold deliver
    dsimp only
    split
    · exact untouched_routineStepped m p id _ _
    · exact untouched_endStep m p _
  | building p id origin => exact untouched_startChild m p id origin _
  | capturing p id handler frames copies left =>
    exact untouched_captureNext m p id handler frames _ left
  | sweeping p => exact untouched_sweep m B.held p
  | opening p settler => exact untouched_openRoot m p settler _
  | firstPass p =>
    unfold deliver
    dsimp only
    split
    · exact (untouched_onScheduler m p _).refocus _
    · exact .focus m _
  | reentered p =>
    unfold deliver
    dsimp only
    split
    · exact (untouched_onScheduler m p _).refocus _
    · exact .focus m _
  | reinstating k v copies left => exact untouched_reinstateNext m k v _ left
  | advancing x =>
    unfold deliver
    dsimp only
    split
    · exact .of_same [] rfl rfl rfl (List.forall_mem_nil _)
    · exact .focus m _
  | inRoot settler => cases hf
  | draining q ran => cases hf
  | notifying listeners o => cases hf
  | driving b => cases hf
  | starting b c => cases hf
  | resuming b id c => cases hf
  | _ => exact .of_same [] rfl rfl rfl (List.forall_mem_nil _)

theorem untouched_unwindFrame (B : Behavior C R) (payload : Payload) (salvage : Option (Script C))
    {f : Frame C R} (hf : f.seated = false) :
    Untouched m (m.unwindFrame B payload salvage f) := by
  cases f with
  | releasing rest onward =>
    unfold unwindFrame
    dsimp only
    split <;> exact .focus m _
  | pass p => exact (untouched_onScheduler m p _).refocus _
  | stepping p id =>
    unfold unwindFrame
    dsimp only
    split
    · exact untouched_routineStepped m p id _ _
    · exact .focus m _
  | building p id origin =>
    unfold unwindFrame
    dsimp only
    split
    · exact untouched_startChild m p id origin _
    · exact .focus m _
  | opening p settler =>
    unfold unwindFrame
    dsimp only
    split
    · exact untouched_openRoot m p settler _
    · exact .focus m _
  | advancing x => cases salvage <;> exact .of_same [] rfl rfl rfl (List.forall_mem_nil _)
  | notifying listeners o => cases hf
  | driving b => cases hf
  | starting b c => cases hf
  | resuming b id c => cases hf
  | _ => exact .of_same [] rfl rfl rfl (List.forall_mem_nil _)

/-- Code is started or told something. -/
theorem untouched_startCode (B : Behavior C R) (code : C) (entry : Entry) :
    Untouched m (m.startCode B code entry) :=
  (untouched_retain m _).refocus _

theorem untouched_tell (B : Behavior C R) (state : R) (signal : Signal C) :
    Untouched m (m.tell B state signal) := by
  unfold tell
  dsimp only [recount]
  split <;> exact (untouched_retain m _).refocus _

end Machine

end Strand
