import Strand.Proofs.Control
import Strand.Proofs.Runs

/-! # Acts — what one move does to a scheduler

    Most of what a machine does is no business of a given scheduler. What is,
    shows in its `Realm`: the scheduler itself, the frames of its passes and
    the snapshots of its routines.

    * `Act` lists everything that can be done to a realm in one move, with the
      frames that are taken off the control stack for it and those that are put
      there instead.
    * `moves_step` says that a move of the machine is at most one act.

    What holds of a scheduler at all times follows from what acts preserve. -/

namespace Strand

variable {C R : Type}

/-- The passes of scheduler `p`, and the routines that they are busy with. -/
def Frame.of (p : Nat) : Frame C R → Bool
  | .pass q => q = p
  | .stepping q _ => q = p
  | .building q _ _ => q = p
  | .capturing q _ _ _ _ _ => q = p
  | _ => false

/-- What concerns one scheduler. -/
structure Realm (C R : Type) where
  scheduler : Option (Scheduler C)
  /-- Its frames on the control stack. -/
  frames : List (Frame C R)
  /-- The snapshots of its routines. -/
  captures : Nat → Option (Snapshot C)

/-- The scheduler, once the log has taken its reports over. -/
def Scheduler.told (s : Scheduler C) : Scheduler C := { s with reports := [] }

/-- A re-entry is put on the stack. -/
def Scheduler.queue (s : Scheduler C) (k : Nat) (v : Value) : Scheduler C :=
  (s.add .reenter (.reentry k (some v))).2.push
    (.routine (s.add .reenter (.reentry k (some v))).1)

/-- What is done to a realm in one move. The frames are those that the move takes
    off and those that it puts on. -/
inductive Act (p : Nat) (panicked : Prop) : Realm C R → Realm C R → Prop where
  /-- Nothing. -/
  | still (s : Option (Scheduler C)) (t : Nat → Option (Snapshot C)) :
      Act p panicked ⟨s, [], t⟩ ⟨s, [], t⟩
  /-- Failures that nobody received are noted or taken. -/
  | note (s : Scheduler C) (t : Nat → Option (Snapshot C)) (unhandled : List Error) :
      Act p panicked ⟨some s, [], t⟩ ⟨some { s with unhandled }.told, [], t⟩
  | create (settings : Settings) (t : Nat → Option (Snapshot C)) :
      Act p panicked ⟨none, [], t⟩ ⟨some (.new settings), [], t⟩
  /-- Nobody holds the scheduler any more. -/
  | vanish (s : Scheduler C) (t : Nat → Option (Snapshot C)) :
      Act p panicked ⟨some s, [], t⟩ ⟨none, [], t⟩
  -- passes
  | pick {s s' : Scheduler C} {id : RoutineId} {script : Script C}
      (h : s.pick = (some (id, script), s')) (t : Nat → Option (Snapshot C)) :
      Act p panicked ⟨some s, [.pass p], t⟩
        ⟨some { s' with register := .unit }.told, [.stepping p id, .pass p], t⟩
  /-- There is nothing to pick, and the pass is over. -/
  | leave {s s' : Scheduler C} (h : s.pick = (none, s')) (unwinding : Bool)
      (t : Nat → Option (Snapshot C)) :
      Act p panicked ⟨some s, [.pass p], t⟩
        ⟨some ({ s' with register := .unit }.leave unwinding).told, [], t⟩
  /-- A panic leaves the pass. -/
  | abandon (h : panicked) (s : Option (Scheduler C)) (t : Nat → Option (Snapshot C)) :
      Act p panicked ⟨s, [.pass p], t⟩ ⟨s.map fun s => (s.leave true).told, [], t⟩
  | sweep (s : Scheduler C) (t : Nat → Option (Snapshot C)) :
      Act p panicked ⟨some s, [], t⟩
        ⟨some { s.freeUnclaimed.2 with current := none, retired := [] }.told, [], t⟩
  /-- A frame is given up. -/
  | drop (s : Option (Scheduler C)) (f : Frame C R) (t : Nat → Option (Snapshot C)) :
      Act p panicked ⟨s, [f], t⟩ ⟨s, [], t⟩
  -- steps of routines
  | conclude (s : Option (Scheduler C)) (id : RoutineId) (script : Script C) (o : Outcome Value)
      (t : Nat → Option (Snapshot C)) :
      Act p panicked ⟨s, [.stepping p id], t⟩
        ⟨s.map fun s => (s.conclude id script o).told, [], t⟩
  | suspend (s : Option (Scheduler C)) (id : RoutineId) (script : Script C)
      (t : Nat → Option (Snapshot C)) :
      Act p panicked ⟨s, [.stepping p id], t⟩ ⟨s.map fun s => (s.suspend id script).told, [], t⟩
  | reset (s : Option (Scheduler C)) (id : RoutineId) (script : Script C)
      (t : Nat → Option (Snapshot C)) :
      Act p panicked ⟨s, [.stepping p id], t⟩
        ⟨s.map fun s => ((s.shelve id script).push .boundary).told, [.building p id .reset], t⟩
  | splice (s : Option (Scheduler C)) (id : RoutineId) (script nested : Script C)
      (t : Nat → Option (Snapshot C)) :
      Act p panicked ⟨s, [.stepping p id], t⟩
        ⟨s.map fun s => ((s.shelve id script).told.scheduleChild .splice nested id).told, [], t⟩
  /-- A block or a handler has built the script of a child. -/
  | build (s : Option (Scheduler C)) (id : RoutineId) (origin : Origin) (script : Script C)
      (t : Nat → Option (Snapshot C)) :
      Act p panicked ⟨s, [.building p id origin], t⟩
        ⟨s.map fun s => (s.scheduleChild origin script id).told, [], t⟩
  -- captures
  | lift {s s' : Scheduler C} {id : RoutineId} {script : Script C} {frames : List (Lifted C)}
      (h : (s.shelve id script).lift = (frames, s')) (handler : C) (left : List (Lifted C))
      (t : Nat → Option (Snapshot C)) :
      Act p panicked ⟨some s, [.stepping p id], t⟩
        ⟨some s'.told, [.capturing p id handler frames [] left], t⟩
  /-- The shift finds nothing to lift. -/
  | liftNothing {s s' : Scheduler C} {id : RoutineId} {script : Script C} {k : Nat}
      {t : Nat → Option (Snapshot C)} (h : (s.shelve id script).lift = ([], s'))
      (hk : t k = none) :
      Act p panicked ⟨some s, [.stepping p id], t⟩
        ⟨some s'.told, [.building p id .shift], Function.update t k (some (.of p [] []))⟩
  /-- One more frame has been copied. -/
  | copied (s : Option (Scheduler C)) (id : RoutineId) (handler : C) (frames : List (Lifted C))
      (copies copies' : List (Script C)) (left left' : List (Lifted C))
      (t : Nat → Option (Snapshot C)) :
      Act p panicked ⟨s, [.capturing p id handler frames copies left], t⟩
        ⟨s, [.capturing p id handler frames copies' left'], t⟩
  | capture (s : Option (Scheduler C)) (id : RoutineId) (handler : C) (frames : List (Lifted C))
      (copies copies' : List (Script C)) (left : List (Lifted C)) {k : Nat}
      {t : Nat → Option (Snapshot C)} (hk : t k = none) :
      Act p panicked ⟨s, [.capturing p id handler frames copies left], t⟩
        ⟨s.map fun s => (s.giveBackAll frames).told, [.building p id .shift],
          Function.update t k (some (.of p frames copies'))⟩
  -- work from outside
  | root (s : Option (Scheduler C)) (script : Script C) (t : Nat → Option (Snapshot C)) :
      Act p panicked ⟨s, [], t⟩
        ⟨s.map fun s => { (s.scheduleRoot script).told with running := true }.told, [.pass p], t⟩
  /-- A re-entry during a pass. -/
  | queue {s : Scheduler C} (h : s.running = true) (k : Nat) (v : Value)
      (t : Nat → Option (Snapshot C)) :
      Act p panicked ⟨some s, [], t⟩ ⟨some (s.queue k v).told, [], t⟩
  /-- A re-entry from outside, which begins a pass. -/
  | reenter {s : Scheduler C} (h : s.running = false) (k : Nat) (v : Value)
      (t : Nat → Option (Snapshot C)) :
      Act p panicked ⟨some s, [], t⟩
        ⟨some { s.queue k v with register := .success v, running := true }.told, [.pass p], t⟩
  -- continuations
  /-- The captured routines themselves go back on the stack. -/
  | reinstate {s : Scheduler C} {k : Nat} {snapshot : Snapshot C} {ids : List RoutineId}
      {t : Nat → Option (Snapshot C)} (hk : t k = some snapshot)
      (hids : snapshot.routines = some ids) (hlive : ids.all s.routines.contains = true)
      (v : Value) :
      Act p panicked ⟨some s, [], t⟩
        ⟨some (s.reinstate ids v).told, [],
          Function.update t k (some { snapshot with routines := none })⟩
  /-- Copies are to go on the stack. -/
  | claim {s : Scheduler C} {k : Nat} {snapshot : Snapshot C} {t : Nat → Option (Snapshot C)}
      (hk : t k = some snapshot)
      (hgone : ∀ ids, snapshot.routines = some ids → ids.all s.routines.contains = false) :
      Act p panicked ⟨some s, [], t⟩
        ⟨some s, [], Function.update t k (some { snapshot with routines := none })⟩
  | plant {s s' : Scheduler C} {k : Nat} {snapshot : Snapshot C} {copies : List (Script C)}
      {ids : List RoutineId} {t : Nat → Option (Snapshot C)} (hk : t k = some snapshot)
      (h : s.plant snapshot.frames copies = (ids, s')) (v : Value) :
      Act p panicked ⟨some s, [], t⟩ ⟨some (s'.told.reinstate ids v).told, [], t⟩
  /-- There is nothing to copy. -/
  | plantNothing {s : Scheduler C} {k : Nat} {snapshot : Snapshot C}
      {t : Nat → Option (Snapshot C)} (hk : t k = some snapshot) (hnone : snapshot.frames = [])
      (hgone : ∀ ids, snapshot.routines = some ids → ids.all s.routines.contains = false)
      (v : Value) :
      Act p panicked ⟨some s, [], t⟩
        ⟨some (s.told.reinstate [] v).told, [],
          Function.update t k (some { snapshot with routines := none })⟩
  /-- The continuation has died without having been invoked. -/
  | unclaim (s : Option (Scheduler C)) {k : Nat} {snapshot : Snapshot C} {ids : List RoutineId}
      {t : Nat → Option (Snapshot C)} (hk : t k = some snapshot)
      (hids : snapshot.routines = some ids) :
      Act p panicked ⟨s, [], t⟩
        ⟨s.map fun s => { s with unclaimed := s.unclaimed ++ ids }.told, [],
          Function.update t k none⟩
  | forget (s : Option (Scheduler C)) {k : Nat} {snapshot : Snapshot C}
      {t : Nat → Option (Snapshot C)} (hk : t k = some snapshot)
      (hnone : snapshot.routines = none) :
      Act p panicked ⟨s, [], t⟩ ⟨s, [], Function.update t k none⟩

/-- At most one act is done to a realm, with the topmost of its frames. What is
    taken off has been popped from the whole control stack. -/
def Moves (p : Nat) (panicked : Prop) (popped : Frame C R → Prop) (x y : Realm C R) : Prop :=
  ∃ top top' below, x.frames = top ++ below ∧ y.frames = top' ++ below ∧ (∀ f ∈ top, popped f) ∧
    Act p panicked ⟨x.scheduler, top, x.captures⟩ ⟨y.scheduler, top', y.captures⟩

theorem Moves.still {p : Nat} {panicked : Prop} {popped : Frame C R → Prop} {x y : Realm C R}
    (h : y = x) : Moves p panicked popped x y := by
  subst h
  exact ⟨[], [], y.frames, rfl, rfl, nofun, .still _ _⟩

namespace Machine

variable {p : Nat} {panicked : Prop} {popped : Frame C R → Prop} (m : Machine C R)

/-- What concerns scheduler `p` in a machine. -/
def realm (p : Nat) (m : Machine C R) : Realm C R where
  scheduler := m.scheduler? p
  frames := m.control.filter (Frame.of p)
  captures k := (m.store.snapshots.find? k).filter fun snapshot => snapshot.home = p

/-! ### Moves that are no business of a scheduler -/

theorem realm_eq {m n : Machine C R} (hsched : n.scheduler? p = m.scheduler? p)
    (hframes : n.control.filter (Frame.of p) = m.control.filter (Frame.of p))
    (hsnap : ∀ k, n.store.snapshots.find? k = m.store.snapshots.find? k) :
    n.realm p = m.realm p := by
  simp only [realm, hsched, hframes, hsnap]

@[simp] theorem realm_retain (hs : List Handle) : (m.retain hs).realm p = m.realm p :=
  realm_eq (scheduler?_retain m hs p) rfl (Store.find?_snapshots_retainAll m.store hs)

theorem realm_bridgeReport (b : Nat) (r : Report) :
    (m.withStore (·.bridgeReport b r)).realm p = m.realm p := by
  have hstore : (m.store.bridgeReport b r).schedulers = m.store.schedulers ∧
      (m.store.bridgeReport b r).snapshots = m.store.snapshots := by
    unfold Store.bridgeReport
    split <;> exact ⟨rfl, rfl⟩
  refine realm_eq ?_ rfl ?_
  · show (m.store.bridgeReport b r).schedulers.find? p = _
    rw [hstore.1]
    rfl
  · intro k
    show (m.store.bridgeReport b r).snapshots.find? k = _
    rw [hstore.2]

theorem realm_settle (c : Nat) (o : Outcome Value) : (m.settle c o).realm p = m.realm p := by
  unfold settle
  split
  · exact realm_retain m o.handles
  · rfl

theorem realm_wakeTask (b : Nat) (task : Task C) (o : Outcome Value) :
    (m.wakeTask b task o).realm p = m.realm p := by
  unfold wakeTask
  dsimp only
  split
  · rfl
  · exact realm_bridgeReport (m.pushAction b (.resume task (some o))) b .drivingAgain

theorem realm_tellListener (w : Listener C) (o : Outcome Value) :
    (m.tellListener w o).realm p = m.realm p := by
  cases w with
  | call code => rfl
  | resume b task => exact realm_wakeTask m b task o

theorem realm_notify (listeners : List (Listener C)) (o : Outcome Value) :
    (m.notify listeners o).realm p = m.realm p := by
  cases listeners with
  | nil => rfl
  | cons w rest =>
    exact (realm_tellListener ((m.retain o.handles).push (.notifying rest o)) w o).trans
      (realm_retain m o.handles)

theorem realm_await (held : C → List Handle) (c : Nat) (w : Listener C) :
    (m.await held c w).realm p = m.realm p := by
  unfold await
  split
  · rfl
  · next o _ _ =>
    exact (realm_tellListener ((m.retain o.handles).push (.replying .unit)) w o).trans
      (realm_retain m o.handles)
  · rfl

theorem realm_runJob (job : Job C) : (m.runJob job).realm p = m.realm p := by
  cases job with
  | call code => rfl
  | settle c o => exact realm_settle (m.push (.holding [.settler c])) c o

theorem realm_drainNext (q ran : Nat) : (m.drainNext q ran).realm p = m.realm p := by
  unfold drainNext
  split
  · next job rest _ =>
    exact realm_runJob ((m.withStore fun s =>
      { s with queues := s.queues.set q rest }).push (.draining q (ran + 1))) job
  · rfl

theorem realm_bridgeHead (b : Nat) : (m.bridgeHead b).realm p = m.realm p := by
  unfold bridgeHead
  split
  · rfl
  · split
    · rfl
    · next action rest _ => cases action <;> rfl

theorem realm_taskBuilt (b settler : Nat) (script : Script C) :
    (m.taskBuilt b settler script).realm p = m.realm p := by
  unfold taskBuilt
  split
  · rfl
  · next bridge _ =>
    exact realm_bridgeReport (m.onBridge b fun x => { x with nextId := bridge.nextId + 1 }) b
      (.taskStarted bridge.nextId)

theorem realm_taskNotBuilt (b settler : Nat) (error : Error) :
    (m.taskNotBuilt b settler error).realm p = m.realm p :=
  (realm_settle ((m.withStore (·.bridgeReport b (.taskNotStarted error))).push
    (.holding [.settler settler])) settler (.failure error)).trans
      (realm_bridgeReport m b (.taskNotStarted error))

theorem realm_taskStepped (held : C → List Handle) (b : Nat) (id : UInt64) (settler : Nat)
    (script : Script C) (step : Step C) :
    (m.taskStepped held b id settler script step).realm p = m.realm p := by
  cases step with
  | done o =>
    exact (realm_settle ((m.withStore (·.bridgeReport b (.taskFinished id o.isSuccess))).push
      (.holding (.settler settler :: script.handles held))) settler o).trans
        (realm_bridgeReport m b (.taskFinished id o.isSuccess))
  | yield i =>
    cases i with
    | await c =>
      refine (realm_await (((m.withStore (·.bridgeReport b (.taskAwaiting id))).retain
        [.bridge b]).push (.holding [.completion c])) held c (.resume b ⟨id, script, settler⟩)).trans
        ?_
      exact (realm_retain (m.withStore (·.bridgeReport b (.taskAwaiting id))) [.bridge b]).trans
        (realm_bridgeReport m b (.taskAwaiting id))
    | _ => rfl

theorem realm_runTask (b : Nat) (code : C) : (m.runTask b code).realm p = m.realm p := by
  unfold runTask
  dsimp only
  split <;> rfl

theorem realm_enterStage (held : C → List Handle) (s : Staged C) (input : Outcome Value) :
    (m.enterStage held s input).realm p = m.realm p := by
  unfold enterStage
  split
  · rfl
  · next o _ _ => exact realm_retain m o.handles
  · next code _ _ => exact realm_retain m (held code)

theorem realm_moveOwn (B : Behavior C R) (state : C) (exiting : Bool) (input : Outcome Value) :
    (m.moveOwn B state exiting input).realm p = m.realm p :=
  realm_retain m _

theorem realm_exitScript (B : Behavior C R) (script : Script C) :
    (m.exitScript B script).realm p = m.realm p := by
  cases script with
  | staged s =>
    show (m.exitStages B.held s).realm p = _
    unfold exitStages
    split
    · next code _ _ => exact realm_retain m (B.held code)
    · rfl
  | own state => exact realm_moveOwn m B state true .unit
  | _ => rfl

theorem realm_copyScript (B : Behavior C R) (script : Script C) :
    (m.copyScript B script).realm p = m.realm p := by
  unfold copyScript
  split
  · next code _ => exact realm_retain m (B.held code)
  · exact realm_retain m (script.handles B.held)

theorem realm_evaluate (held : C → List Handle) (q : Nat) (code : C) :
    (m.evaluate held q code).realm p = m.realm p := by
  unfold evaluate
  dsimp only
  split <;> rfl

theorem realm_start (held : C → List Handle) (q : Nat) (code : C) :
    (m.start held q code).realm p = m.realm p := by
  unfold start
  dsimp only
  split <;> rfl

theorem realm_countRoutines (q : Nat) : (m.countRoutines q).realm p = m.realm p := by
  unfold countRoutines
  dsimp only
  split <;> rfl

theorem realm_takeKept (x : Nat) (dropped : List Handle) {f : Script C → Machine C R → Machine C R}
    (hf : ∀ script n, (f script n).realm p = n.realm p) :
    (m.takeKept x dropped f).realm p = m.realm p := by
  unfold takeKept
  split
  · exact hf _ _
  · rfl

theorem realm_advanceKept (x : Nat) (input : Option (Outcome Value)) :
    (m.advanceKept x input).realm p = m.realm p := by
  unfold advanceKept
  exact realm_takeKept m x _ fun script n => by cases input <;> rfl

theorem realm_positionKept (x : Nat) : (m.positionKept x).realm p = m.realm p := by
  unfold positionKept
  split <;> rfl

theorem realm_exitStepped (progress : ForcedReturn) (inner : Script C) (step : Step C) :
    (m.exitStepped progress inner step).realm p = m.realm p := by
  unfold exitStepped
  split
  · exact realm_retain m _
  · rfl

theorem realm_rootStepped (settler : Nat) (inner : Script C) (step : Step C) :
    (m.rootStepped settler inner step).realm p = m.realm p := by
  cases step with
  | done o =>
    exact (realm_settle ((m.retain o.handles).push (.reporting inner settler o)) settler o).trans
      (realm_retain m o.handles)
  | yield i => rfl

/-! ### Schedulers -/

theorem scheduler?_onScheduler_of_ne {q : Nat} (hq : q ≠ p) (f : Scheduler C → Scheduler C) :
    (m.onScheduler q f).scheduler? p = m.scheduler? p := by
  show (m.store.onScheduler q f).schedulers.find? p = m.store.schedulers.find? p
  unfold Store.onScheduler
  split
  · exact (Table.find?_set _ q _ p).trans (if_neg (Ne.symm hq))
  · rfl

theorem snapshots_onScheduler (q : Nat) (f : Scheduler C → Scheduler C) :
    (m.onScheduler q f).store.snapshots = m.store.snapshots := by
  show (m.store.onScheduler q f).snapshots = m.store.snapshots
  unfold Store.onScheduler
  split <;> rfl

theorem realm_onScheduler_of_ne {q : Nat} (hq : q ≠ p) (f : Scheduler C → Scheduler C) :
    (m.onScheduler q f).realm p = m.realm p :=
  realm_eq (scheduler?_onScheduler_of_ne m hq f) rfl fun k => by rw [snapshots_onScheduler]

theorem realm_onScheduler (f : Scheduler C → Scheduler C) :
    (m.onScheduler p f).realm p =
      { m.realm p with scheduler := (m.scheduler? p).map fun s => (f s).told } := by
  simp only [realm, scheduler?_onScheduler, snapshots_onScheduler]
  rfl

theorem realm_push_of_ne {f : Frame C R} (hf : f.of p = false) :
    (m.push f).realm p = m.realm p := by
  simp only [realm, push, List.filter_cons, hf]
  rfl

theorem realm_push_of {f : Frame C R} (hf : f.of p = true) :
    (m.push f).realm p = { m.realm p with frames := f :: (m.realm p).frames } := by
  simp only [realm, push, List.filter_cons, hf]
  rfl

/-- A frame of another scheduler is taken off, and nothing is done. -/
theorem Moves.of_other {f : Frame C R} {n : Machine C R} (hf : f.of p = false)
    (h : n.realm p = m.realm p) : Moves p panicked popped ((m.push f).realm p) (n.realm p) :=
  .still (h.trans (realm_push_of_ne m hf).symm)

/-- A frame is taken off, and the scheduler is changed. -/
theorem Moves.of_frame {f : Frame C R} {top : List (Frame C R)} {n : Machine C R}
    {s s' : Option (Scheduler C)} {t : Nat → Option (Snapshot C)} (hpop : popped f)
    (hf : f.of p = true) (hs : m.scheduler? p = s)
    (hact : Act p panicked ⟨s, [f], (m.realm p).captures⟩ ⟨s', top, t⟩)
    (hn : n.realm p = ⟨s', top ++ (m.realm p).frames, t⟩) :
    Moves p panicked popped ((m.push f).realm p) (n.realm p) := by
  subst hs
  rw [realm_push_of m hf, hn]
  exact ⟨[f], top, (m.realm p).frames, rfl, rfl, by simpa using hpop, hact⟩

/-- Something is done from outside of the passes. -/
theorem Moves.of_outside {top : List (Frame C R)} {n : Machine C R} {s s' : Option (Scheduler C)}
    {t : Nat → Option (Snapshot C)} (hs : m.scheduler? p = s)
    (hact : Act p panicked ⟨s, [], (m.realm p).captures⟩ ⟨s', top, t⟩)
    (hn : n.realm p = ⟨s', top ++ (m.realm p).frames, t⟩) :
    Moves p panicked popped (m.realm p) (n.realm p) := by
  subst hs
  rw [hn]
  exact ⟨[], top, (m.realm p).frames, rfl, rfl, by simp, hact⟩

/-! ### Moves of passes -/

theorem moves_passHead (q : Nat) (hpop : popped (.pass q)) :
    Moves p panicked popped ((m.push (.pass q)).realm p) ((m.passHead q).realm p) := by
  by_cases hq : q = p
  · subst hq
    have hf : (Frame.pass q : Frame C R).of q = true := by simp [Frame.of]
    unfold passHead
    split
    · exact Moves.of_frame m hpop hf rfl (.drop _ _ _) rfl
    · next s hs =>
      split
      · next id script s' hpick =>
        refine Moves.of_frame m hpop hf hs (.pick hpick _) ?_
        show (((m.onScheduler q _).push _).push _).realm q = _
        rw [realm_push_of _ (by simp [Frame.of]), realm_push_of _ hf, realm_onScheduler, hs]
        rfl
      · next s' hpick =>
        refine Moves.of_frame m hpop hf hs (.leave hpick m.panicking _) ?_
        show (m.onScheduler q _).realm q = _
        rw [realm_onScheduler, hs]
        rfl
  · have hf : (Frame.pass q : Frame C R).of p = false := by simp [Frame.of, hq]
    refine Moves.of_other m hf ?_
    unfold passHead
    split
    · rfl
    · split
      · show (((m.onScheduler q _).push _).push _).realm p = _
        rw [realm_push_of_ne _ (by simp [Frame.of, hq]), realm_push_of_ne _ hf,
          realm_onScheduler_of_ne m hq]
      · exact realm_onScheduler_of_ne m hq _

theorem moves_sweep (held : C → List Handle) (q : Nat) :
    Moves p panicked popped (m.realm p) ((m.sweep held q).realm p) := by
  by_cases hq : q = p
  · subst hq
    unfold sweep
    split
    · exact .still rfl
    · next s hs =>
      refine Moves.of_outside m hs (.sweep s _) ?_
      dsimp only
      have hrealm := realm_onScheduler (p := q) m fun _ : Scheduler C =>
        { s.freeUnclaimed.2 with current := none, retired := [] }
      rw [hs] at hrealm
      split
      · exact hrealm
      · exact hrealm
  · refine .still ?_
    unfold sweep
    split
    · rfl
    · dsimp only
      split
      · exact realm_onScheduler_of_ne m hq _
      · exact realm_onScheduler_of_ne m hq _

theorem moves_concludeStep (q : Nat) (id : RoutineId) (script : Script C) (o : Outcome Value)
    (hpop : popped (.stepping q id)) :
    Moves p panicked popped ((m.push (.stepping q id)).realm p)
      ((m.concludeStep q id script o).realm p) := by
  unfold concludeStep
  by_cases hq : q = p
  · subst hq
    refine Moves.of_frame m hpop (by simp [Frame.of]) rfl (.conclude _ id script o _) ?_
    show ((m.retain _).onScheduler q _).realm q = _
    rw [realm_onScheduler, realm_retain, scheduler?_retain]
    rfl
  · refine Moves.of_other m (by simp [Frame.of, hq]) ?_
    exact (realm_onScheduler_of_ne (m.retain _) hq _).trans (realm_retain m _)

theorem moves_startChild (q : Nat) (id : RoutineId) (origin : Origin) (script : Script C)
    (hpop : popped (.building q id origin)) :
    Moves p panicked popped ((m.push (.building q id origin)).realm p)
      ((m.startChild q id origin script).realm p) := by
  unfold startChild
  by_cases hq : q = p
  · subst hq
    refine Moves.of_frame m hpop (by simp [Frame.of]) rfl (.build _ id origin script _) ?_
    exact realm_onScheduler m _
  · exact Moves.of_other m (by simp [Frame.of, hq]) (realm_onScheduler_of_ne m hq _)

/-! ### Captures -/

theorem captures_fresh : (m.realm p).captures m.store.snapshots.cells.size = none := by
  cases h : m.store.snapshots.find? m.store.snapshots.cells.size with
  | none => simp [realm, h]
  | some _ => exact absurd (Table.lt_size_of_find? h) (Nat.lt_irrefl _)

/-- A new snapshot has a number that none has had before. -/
theorem realm_alloc (snapshot : Snapshot C) :
    (m.withStore fun s =>
        { s with snapshots := (m.store.snapshots.alloc 1 snapshot).2 }).realm p =
      if snapshot.home = p then
        { m.realm p with
          captures := Function.update (m.realm p).captures m.store.snapshots.cells.size
            (some snapshot) }
      else m.realm p := by
  have hcaptures : ∀ k, ((m.store.snapshots.alloc 1 snapshot).2.find? k).filter
      (fun snapshot => decide (snapshot.home = p)) =
        if snapshot.home = p then
          Function.update (m.realm p).captures m.store.snapshots.cells.size (some snapshot) k
        else (m.realm p).captures k := by
    intro k
    rw [Table.find?_alloc]
    by_cases hk : k = m.store.snapshots.cells.size
    · subst hk
      have hfresh := captures_fresh (p := p) m
      by_cases hhome : snapshot.home = p
      · simp [hhome]
      · simp [hhome, hfresh]
    · by_cases hhome : snapshot.home = p
      · simp [hhome, hk, realm]
      · simp [hhome, hk, realm]
  by_cases hhome : snapshot.home = p
  · simp only [if_pos hhome] at hcaptures ⊢
    exact congrArg (Realm.mk _ _) (funext hcaptures)
  · simp only [if_neg hhome] at hcaptures ⊢
    exact congrArg (Realm.mk _ _) (funext hcaptures)

/-- The last frame has been copied, and the handler is called. -/
theorem realm_captureNext_nil (q : Nat) (id : RoutineId) (handler : C) (frames : List (Lifted C))
    (copies : List (Script C)) :
    (m.captureNext q id handler frames copies []).realm p =
      if q = p then
        ⟨(m.scheduler? p).map fun s => (s.giveBackAll frames).told,
          .building p id .shift :: (m.realm p).frames,
          Function.update (m.realm p).captures m.store.snapshots.cells.size
            (some (.of p frames copies))⟩
      else m.realm p := by
  have hdone : (m.captureNext q id handler frames copies []).realm p =
      (((m.onScheduler q fun s => s.giveBackAll frames).withStore fun s =>
        { s with snapshots := ((m.onScheduler q fun s => s.giveBackAll frames).store.snapshots.alloc
          1 (.of q frames copies)).2 }).push (.building q id .shift)).realm p := rfl
  have hcopied := realm_alloc (p := p) (m.onScheduler q fun s => s.giveBackAll frames)
    (.of q frames copies)
  have hsame : (m.onScheduler q fun s => s.giveBackAll frames).store.snapshots =
      m.store.snapshots := snapshots_onScheduler m q _
  have hhome : (Snapshot.of q frames copies).home = q := rfl
  by_cases hq : q = p
  · subst hq
    rw [hdone, realm_push_of _ (by simp [Frame.of]), hcopied, hhome, if_pos rfl, if_pos rfl, hsame,
      realm_onScheduler]
  · rw [hdone, realm_push_of_ne _ (by simp [Frame.of, hq]), hcopied, hhome, if_neg hq, if_neg hq,
      realm_onScheduler_of_ne m hq]

theorem moves_captureNext (q : Nat) (id : RoutineId) (handler : C) (frames : List (Lifted C))
    (copies copies' : List (Script C)) (left left' : List (Lifted C))
    (hpop : popped (.capturing q id handler frames copies left)) :
    Moves p panicked popped ((m.push (.capturing q id handler frames copies left)).realm p)
      ((m.captureNext q id handler frames copies' left').realm p) := by
  by_cases hq : q = p
  · subst hq
    cases left' with
    | nil =>
      refine Moves.of_frame m hpop (by simp [Frame.of]) rfl
        (.capture _ id handler frames copies copies' left (captures_fresh m)) ?_
      exact (realm_captureNext_nil m q id handler frames copies').trans (if_pos rfl)
    | cons frame left' =>
      refine Moves.of_frame m hpop (by simp [Frame.of]) rfl
        (.copied _ id handler frames copies copies' left left' _) ?_
      show (m.push _).realm q = _
      rw [realm_push_of _ (by simp [Frame.of])]
      rfl
  · refine Moves.of_other m (by simp [Frame.of, hq]) ?_
    cases left' with
    | nil => exact (realm_captureNext_nil m q id handler frames copies').trans (if_neg hq)
    | cons frame left' => exact realm_push_of_ne m (by simp [Frame.of, hq])

/-! ### Steps of routines -/

theorem moves_obey (q : Nat) (id : RoutineId) (script : Script C) (i : Instruction C)
    (hpop : popped (.stepping q id)) :
    Moves p panicked popped ((m.push (.stepping q id)).realm p) ((m.obey q id script i).realm p) := by
  by_cases hq : q = p
  · subst hq
    have hf : (Frame.stepping q id : Frame C R).of q = true := by simp [Frame.of]
    cases i with
    | reset block =>
      refine Moves.of_frame m hpop hf rfl (.reset _ id script _) ?_
      show ((m.onScheduler q _).push _).realm q = _
      rw [realm_push_of _ (by simp [Frame.of]), realm_onScheduler]
      rfl
    | shift handler =>
      cases hs : m.scheduler? q with
      | none =>
        simp only [obey, hs]
        exact Moves.of_frame m hpop hf hs (.drop _ _ _) (by rw [← hs]; rfl)
      | some s =>
        obtain ⟨⟨frames, s'⟩, hlift⟩ : ∃ out, (s.shelve id script).lift = out := ⟨_, rfl⟩
        have hlifted := realm_onScheduler (p := q) m fun _ => s'
        rw [hs] at hlifted
        simp only [obey, hs, hlift]
        cases frames with
        | nil =>
          refine Moves.of_frame m hpop hf hs (.liftNothing hlift (captures_fresh m)) ?_
          rw [realm_captureNext_nil, if_pos rfl, hlifted, snapshots_onScheduler,
            scheduler?_onScheduler, hs]
          rfl
        | cons frame left =>
          refine Moves.of_frame m hpop hf hs (.lift hlift handler left _) ?_
          show ((m.onScheduler q _).push _).realm q = _
          rw [realm_push_of _ (by simp [Frame.of]), hlifted]
          rfl
    | suspend => exact Moves.of_frame m hpop hf rfl (.suspend _ id script _) (realm_onScheduler m _)
    | splice nested =>
      refine Moves.of_frame m hpop hf rfl (.splice _ id script nested _) ?_
      show ((m.onScheduler q _).onScheduler q _).realm q = _
      rw [realm_onScheduler, realm_onScheduler, scheduler?_onScheduler]
      cases m.scheduler? q <;> rfl
    | await c => exact Moves.of_frame m hpop hf rfl (.suspend _ id script _) (realm_onScheduler m _)
  · refine Moves.of_other m (by simp [Frame.of, hq]) ?_
    cases i with
    | reset block =>
      show ((m.onScheduler q _).push _).realm p = _
      rw [realm_push_of_ne _ (by simp [Frame.of, hq]), realm_onScheduler_of_ne m hq]
    | shift handler =>
      cases hs : m.scheduler? q with
      | none =>
        simp only [obey, hs]
        rfl
      | some s =>
        obtain ⟨⟨frames, s'⟩, hlift⟩ : ∃ out, (s.shelve id script).lift = out := ⟨_, rfl⟩
        simp only [obey, hs, hlift]
        cases frames with
        | nil =>
          rw [realm_captureNext_nil, if_neg hq]
          exact realm_onScheduler_of_ne m hq _
        | cons frame left =>
          show ((m.onScheduler q _).push _).realm p = _
          rw [realm_push_of_ne _ (by simp [Frame.of, hq]), realm_onScheduler_of_ne m hq]
    | suspend => exact realm_onScheduler_of_ne m hq _
    | splice nested =>
      exact (realm_onScheduler_of_ne _ hq _).trans (realm_onScheduler_of_ne m hq _)
    | await c => exact realm_onScheduler_of_ne m hq _

theorem moves_routineStepped (q : Nat) (id : RoutineId) (script : Script C) (step : Step C)
    (hpop : popped (.stepping q id)) :
    Moves p panicked popped ((m.push (.stepping q id)).realm p)
      ((m.routineStepped q id script step).realm p) := by
  cases step with
  | done o => exact moves_concludeStep m q id script o hpop
  | yield i => exact moves_obey m q id script i hpop

/-! ### Work from outside -/

theorem moves_openRoot (q : Nat) (settler : Option Nat) (script : Script C) :
    Moves p panicked popped (m.realm p) ((m.openRoot q settler script).realm p) := by
  by_cases hq : q = p
  · subst hq
    have hroot : ∀ script : Script C, Moves q panicked popped (m.realm q)
        (((((m.onScheduler q fun s => s.scheduleRoot script).onScheduler q fun s =>
          { s with running := true }).push (.pass q))).realm q) := by
      intro script
      refine Moves.of_outside m rfl (.root _ script _) ?_
      rw [realm_push_of _ (by simp [Frame.of]), realm_onScheduler, realm_onScheduler,
        scheduler?_onScheduler]
      cases m.scheduler? q <;> rfl
    cases settler with
    | none => exact hroot script
    | some c => exact hroot (.root script c)
  · refine .still ?_
    have hroot : ∀ script : Script C,
        (((((m.onScheduler q fun s => s.scheduleRoot script).onScheduler q fun s =>
          { s with running := true }).push (.pass q))).realm p) = m.realm p := by
      intro script
      rw [realm_push_of_ne _ (by simp [Frame.of, hq]), realm_onScheduler_of_ne _ hq,
        realm_onScheduler_of_ne _ hq]
    cases settler with
    | none => exact hroot script
    | some c => exact hroot (.root script c)

theorem moves_reenter (q k : Nat) (v : Value) :
    Moves p panicked popped (m.realm p) ((m.reenter q k v).realm p) := by
  unfold reenter
  split
  · exact .still rfl
  · next s hs =>
    have hretain := realm_retain (p := p) m (.scheduler q :: .continuation k :: v.handles)
    dsimp only
    by_cases hq : q = p
    · subst hq
      have hfound := scheduler?_retain m (.scheduler q :: .continuation k :: v.handles) q
      rw [hs] at hfound
      split
      · next h =>
        have hrunning : s.running = true := h
        refine Moves.of_outside m hs (.queue hrunning k v _) ?_
        show (((m.retain _).push _).onScheduler q _).realm q = _
        rw [realm_onScheduler, realm_push_of_ne _ rfl, hretain]
        show Realm.mk (Option.map _ ((m.retain _).scheduler? q)) _ _ = _
        rw [hfound]
        rfl
      · next h =>
        have hidle : s.running = false := Bool.eq_false_iff.mpr h
        refine Moves.of_outside m hs (.reenter hidle k v _) ?_
        show ((((((m.retain _).push _).onScheduler q _).push _).onScheduler q _).push _).realm q = _
        rw [realm_push_of _ (by simp [Frame.of]), realm_onScheduler, realm_push_of_ne _ rfl,
          realm_onScheduler, realm_push_of_ne _ rfl, hretain]
        show Realm.mk (Option.map _ (scheduler? (onScheduler _ q _) q)) _ _ = _
        rw [scheduler?_onScheduler]
        show Realm.mk (Option.map _ (Option.map _ ((m.retain _).scheduler? q))) _ _ = _
        rw [hfound]
        rfl
    · refine .still ?_
      split
      · exact (realm_onScheduler_of_ne _ hq _).trans hretain
      · show ((((((m.retain _).push _).onScheduler q _).push _).onScheduler q _).push _).realm p = _
        rw [realm_push_of_ne _ (by simp [Frame.of, hq]), realm_onScheduler_of_ne _ hq,
          realm_push_of_ne _ rfl, realm_onScheduler_of_ne _ hq, realm_push_of_ne _ rfl, hretain]

/-! ### Continuations -/

/-- The routines of a snapshot have been claimed. -/
theorem realm_claimed {k : Nat} {snapshot : Snapshot C}
    (hk : m.store.snapshots.find? k = some snapshot) :
    (m.withStore fun s =>
        { s with
          snapshots := s.snapshots.set k { snapshot with routines := none } }).realm p =
      if snapshot.home = p then
        { m.realm p with
          captures := Function.update (m.realm p).captures k
            (some { snapshot with routines := none }) }
      else m.realm p := by
  have hcaptures : ∀ j, ((m.store.snapshots.set k { snapshot with routines := none }).find? j).filter
      (fun snapshot => decide (snapshot.home = p)) =
        if snapshot.home = p then
          Function.update (m.realm p).captures k (some { snapshot with routines := none }) j
        else (m.realm p).captures j := by
    intro j
    rw [Table.find?_set]
    by_cases hj : j = k
    · subst hj
      by_cases hhome : snapshot.home = p
      · simp [hhome, hk]
      · simp [hhome, hk, realm, Option.filter]
    · by_cases hhome : snapshot.home = p
      · simp [hhome, hj, realm]
      · simp [hhome, hj, realm]
  by_cases hhome : snapshot.home = p
  · simp only [if_pos hhome] at hcaptures ⊢
    exact congrArg (Realm.mk _ _) (funext hcaptures)
  · simp only [if_neg hhome] at hcaptures ⊢
    exact congrArg (Realm.mk _ _) (funext hcaptures)

theorem realm_reinstate {q : Nat} (hq : q ≠ p) (frames : List RoutineId) (v : Value) :
    (m.reinstate q frames v).realm p = m.realm p :=
  realm_onScheduler_of_ne m hq _

/-- The last frame has been copied, and the copies go on the stack. -/
theorem realm_planted {k : Nat} {v : Value} {copies : List (Script C)} {snapshot : Snapshot C}
    {s s' : Scheduler C} {ids : List RoutineId} (hk : m.store.snapshots.find? k = some snapshot)
    (hs : m.scheduler? snapshot.home = some s)
    (hplant : s.plant snapshot.frames copies = (ids, s')) :
    (m.reinstateNext k v copies []).realm p =
      if snapshot.home = p then { m.realm p with scheduler := some (s'.told.reinstate ids v).told }
      else m.realm p := by
  simp only [reinstateNext, hk, hs, hplant]
  by_cases hhome : snapshot.home = p
  · subst hhome
    rw [if_pos rfl]
    show ((m.onScheduler _ _).onScheduler _ _).realm _ = _
    rw [realm_onScheduler, realm_onScheduler, scheduler?_onScheduler, hs]
    rfl
  · rw [if_neg hhome]
    exact (realm_reinstate _ hhome ids v).trans (realm_onScheduler_of_ne m hhome _)

theorem moves_reinstateNext (k : Nat) (v : Value) (copies : List (Script C))
    (left : List (FrameCopy C)) :
    Moves p panicked popped (m.realm p) ((m.reinstateNext k v copies left).realm p) := by
  cases left with
  | cons frame left => exact .still rfl
  | nil =>
    cases hk : m.store.snapshots.find? k with
    | none =>
      simp only [reinstateNext, hk]
      exact .still rfl
    | some snapshot =>
      cases hs : m.scheduler? snapshot.home with
      | none =>
        simp only [reinstateNext, hk, hs]
        exact .still rfl
      | some s =>
        obtain ⟨⟨ids, s'⟩, hplant⟩ : ∃ out, s.plant snapshot.frames copies = out := ⟨_, rfl⟩
        rw [realm_planted m hk hs hplant]
        by_cases hhome : snapshot.home = p
        · subst hhome
          have hcapture : (m.realm snapshot.home).captures k = some snapshot := by simp [realm, hk]
          rw [if_pos rfl]
          exact ⟨[], [], (m.realm snapshot.home).frames, rfl, rfl, by simp,
            show Act _ _ ⟨m.scheduler? snapshot.home, [], _⟩ _ from hs ▸ .plant hcapture hplant v⟩
        · rw [if_neg hhome]
          exact .still rfl

/-- A continuation is invoked by way of copies. -/
theorem moves_copies {k : Nat} {v : Value} {snapshot : Snapshot C} {s : Scheduler C}
    {n : Machine C R} (hk : m.store.snapshots.find? k = some snapshot)
    (hs : m.scheduler? snapshot.home = some s)
    (hgone : ∀ ids, snapshot.routines = some ids → ids.all s.routines.contains = false)
    (hsched : ∀ p, n.scheduler? p = m.scheduler? p)
    (hfound : n.store.snapshots.find? k = some { snapshot with routines := none })
    (hn : n.realm p = if snapshot.home = p then
        { m.realm p with
          captures := Function.update (m.realm p).captures k
            (some { snapshot with routines := none }) }
      else m.realm p) :
    Moves p panicked popped (m.realm p) ((n.reinstateNext k v [] snapshot.frames).realm p) := by
  by_cases hhome : snapshot.home = p
  · subst hhome
    have hcapture : (m.realm snapshot.home).captures k = some snapshot := by simp [realm, hk]
    rw [if_pos rfl] at hn
    cases hframes : snapshot.frames with
    | nil =>
      refine Moves.of_outside m hs (.plantNothing hcapture hframes hgone v) ?_
      have hplant : s.plant [] [] = ([], s) := rfl
      rw [← hframes] at hplant
      have hplanted := realm_planted (p := snapshot.home) (v := v) n hfound
        ((hsched _).trans hs) hplant
      rw [if_pos rfl, hn] at hplanted
      exact hplanted
    | cons frame left =>
      refine Moves.of_outside m hs (.claim hcapture hgone) ?_
      refine hn.trans ?_
      rw [← hs]
      rfl
  · rw [if_neg hhome] at hn
    refine .still ?_
    cases hframes : snapshot.frames with
    | nil =>
      obtain ⟨⟨ids, s'⟩, hplant⟩ : ∃ out, s.plant snapshot.frames [] = out := ⟨_, rfl⟩
      have hplanted := realm_planted (p := p) (v := v) n hfound ((hsched _).trans hs) hplant
      rw [if_neg hhome] at hplanted
      exact hplanted.trans hn
    | cons frame left => exact hn

theorem moves_invoke (k : Nat) (v : Value) :
    Moves p panicked popped (m.realm p) ((m.invoke k v).realm p) := by
  unfold invoke
  split
  · exact .still rfl
  · next snapshot hk =>
    split
    · exact .still rfl
    · next s hs =>
      -- a share of the scheduler is taken, and the routines are claimed
      obtain ⟨n, hn⟩ : ∃ n : Machine C R, n = (((m.retain [.scheduler snapshot.home]).push
          (.holding [.scheduler snapshot.home])).withStore fun t =>
            { t with snapshots := t.snapshots.set k { snapshot with routines := none } }) :=
        ⟨_, rfl⟩
      have hsame := realm_retain (p := p) m [.scheduler snapshot.home]
      have hfound := Store.find?_snapshots_retainAll m.store [.scheduler snapshot.home] k
      have hclaimed : n.realm p = if snapshot.home = p then
          { m.realm p with
            captures := Function.update (m.realm p).captures k
              (some { snapshot with routines := none }) }
          else m.realm p := by
        rw [hn, realm_claimed ((m.retain [.scheduler snapshot.home]).push
          (.holding [.scheduler snapshot.home])) (hfound.trans hk), realm_push_of_ne _ rfl, hsame]
      have hsched : ∀ p, n.scheduler? p = m.scheduler? p := by
        intro p
        rw [hn]
        exact scheduler?_retain m _ p
      have hk' : n.store.snapshots.find? k = some { snapshot with routines := none } := by
        rw [hn]
        show ((m.store.retainAll _).snapshots.set k _).find? k = _
        rw [Table.find?_set, if_pos rfl, hfound, hk]
        rfl
      dsimp only
      rw [← hn]
      split
      · next hnone =>
        refine moves_copies m hk hs (fun ids hids => ?_) hsched hk' hclaimed
        rw [hnone] at hids
        cases hids
      · next ids hids =>
        split
        · next hlive =>
          by_cases hhome : snapshot.home = p
          · subst hhome
            have hcapture : (m.realm snapshot.home).captures k = some snapshot := by simp [realm, hk]
            refine Moves.of_outside m hs (.reinstate hcapture hids hlive v) ?_
            show (n.onScheduler _ _).realm _ = _
            rw [realm_onScheduler, hclaimed, if_pos rfl, hsched, hs]
            rfl
          · rw [if_neg hhome] at hclaimed
            exact .still ((realm_reinstate n hhome ids v).trans hclaimed)
        · next hdead =>
          have hgone : ∀ ids', snapshot.routines = some ids' →
              ids'.all s.routines.contains = false := by
            intro ids' hids'
            rw [hids] at hids'
            cases hids'
            exact Bool.eq_false_iff.mpr hdead
          exact moves_copies m (n := n.withStore (·.log .replayingSnapshot)) hk hs hgone hsched hk'
            hclaimed

/-! ### Letting go -/

theorem moves_forgotten {k : Nat} {snapshot : Snapshot C}
    (hgone : (m.store.snapshots.letGo k).1 = some snapshot) (held : C → List Handle) :
    Moves p panicked popped (m.realm p)
      (({ m with store := (m.store.letGo held (.continuation k)).2 } : Machine C R).realm p) := by
  obtain ⟨hk, hfind⟩ := Table.find?_letGo_of_some hgone
  obtain ⟨n, hn⟩ : ∃ n : Machine C R, n = m.withStore fun s =>
    { s with snapshots := (m.store.snapshots.letGo k).2 } := ⟨_, rfl⟩
  have hcaptures : ∀ j, (n.realm p).captures j =
      if snapshot.home = p then Function.update (m.realm p).captures k none j
      else (m.realm p).captures j := by
    intro j
    have hj : n.store.snapshots.find? j = if j = k then none else m.store.snapshots.find? j := by
      rw [hn]
      exact hfind j
    simp only [realm, hj]
    by_cases hjk : j = k
    · subst hjk
      by_cases hhome : snapshot.home = p
      · simp [hhome]
      · simp [hhome, hk, Option.filter]
    · by_cases hhome : snapshot.home = p
      · simp [hhome, hjk]
      · simp [hhome, hjk]
  have hrealm : n.realm p = if snapshot.home = p then
      { m.realm p with captures := Function.update (m.realm p).captures k none }
      else m.realm p := by
    have hsched : n.scheduler? p = m.scheduler? p := by rw [hn]; rfl
    have hcontrol : n.control = m.control := by rw [hn]; rfl
    by_cases hhome : snapshot.home = p
    · simp only [if_pos hhome] at hcaptures ⊢
      have hmk : n.realm p = ⟨n.scheduler? p, n.control.filter (Frame.of p), (n.realm p).captures⟩ :=
        rfl
      rw [hmk, funext hcaptures, hsched, hcontrol]
      rfl
    · simp only [if_neg hhome] at hcaptures ⊢
      have hmk : n.realm p = ⟨n.scheduler? p, n.control.filter (Frame.of p), (n.realm p).captures⟩ :=
        rfl
      rw [hmk, funext hcaptures, hsched, hcontrol]
      rfl
  cases hids : snapshot.routines with
  | none =>
    have hletGo : ({ m with store := (m.store.letGo held (.continuation k)).2 } :
        Machine C R) = n := by
      rw [hn]
      simp only [Store.letGo, hgone, hids]
      rfl
    rw [hletGo]
    by_cases hhome : snapshot.home = p
    · subst hhome
      have hcapture : (m.realm snapshot.home).captures k = some snapshot := by simp [realm, hk]
      rw [if_pos rfl] at hrealm
      exact Moves.of_outside m rfl (.forget _ hcapture hids) hrealm
    · rw [if_neg hhome] at hrealm
      exact .still hrealm
  | some ids =>
    have hletGo : ({ m with store := (m.store.letGo held (.continuation k)).2 } : Machine C R) =
        n.onScheduler snapshot.home fun s => { s with unclaimed := s.unclaimed ++ ids } := by
      rw [hn]
      simp only [Store.letGo, hgone, hids]
      rfl
    rw [hletGo]
    by_cases hhome : snapshot.home = p
    · subst hhome
      have hcapture : (m.realm snapshot.home).captures k = some snapshot := by simp [realm, hk]
      have hsched : n.scheduler? snapshot.home = m.scheduler? snapshot.home := by rw [hn]; rfl
      rw [if_pos rfl] at hrealm
      refine Moves.of_outside m rfl (.unclaim _ hcapture hids) ?_
      rw [realm_onScheduler, hrealm, hsched]
      rfl
    · rw [if_neg hhome] at hrealm
      exact .still ((realm_onScheduler_of_ne n hhome _).trans hrealm)

theorem moves_dropped (held : C → List Handle) (h : Handle) :
    Moves p panicked popped (m.realm p)
      (({ m with store := (m.store.letGo held h).2 } : Machine C R).realm p) := by
  cases h with
  | settler c =>
    refine .still ?_
    unfold Store.letGo
    dsimp only
    split
    · rfl
    · split
      · split <;> rfl
      · rfl
  | continuation k =>
    cases hgone : (m.store.snapshots.letGo k).1 with
    | none =>
      refine .still (realm_eq ?_ rfl fun j => ?_)
      · simp only [Store.letGo, hgone]
        rfl
      · simp only [Store.letGo, hgone]
        exact Table.find?_letGo_of_none hgone j
    | some snapshot => exact moves_forgotten m hgone held
  | scheduler q =>
    rcases Table.find?_letGo m.store.schedulers q p with hsame | ⟨rfl, hnone⟩
    · exact .still (realm_eq hsame rfl fun _ => rfl)
    · cases hs : m.scheduler? p with
      | none => exact .still (realm_eq (hnone.trans hs.symm) rfl fun _ => rfl)
      | some s =>
        refine Moves.of_outside m hs (.vanish s _) ?_
        exact congrArg (Realm.mk · _ _) hnone
  | completion | queue | reenter | bridge | coroutine => exact .still rfl

theorem moves_letGo (B : Behavior C R) (h : Handle) (rest : List Handle) (onward : Onward C R) :
    Moves p panicked popped (m.realm p) ((m.letGo B h rest onward).realm p) := by
  have hdropped : Moves p panicked popped (m.realm p)
      (({ m with store := (m.store.letGo B.held h).2 } : Machine C R).realm p) :=
    moves_dropped m B.held h
  unfold letGo
  split
  · next hs store heq =>
    rw [heq] at hdropped
    exact hdropped
  · next c store heq =>
    rw [heq] at hdropped
    rw [realm_settle, realm_push_of_ne _ rfl]
    exact hdropped

/-! ### Requests, scripts and answers -/

theorem moves_advanceScript (B : Behavior C R) (script : Script C) (input : Outcome Value) :
    Moves p panicked popped (m.realm p) ((m.advanceScript B script input).realm p) := by
  cases script with
  | staged s => exact .still (realm_enterStage m B.held s input)
  | own state => exact .still (realm_moveOwn m B state false input)
  | exit inner progress =>
    refine .still ?_
    unfold advanceScript
    dsimp only
    split <;> rfl
  | settled stored =>
    cases input with
    | failure e => exact .still rfl
    | success v => exact .still (realm_retain m stored.handles)
  | reentry k value =>
    cases value with
    | none => exact .still rfl
    | some v => exact moves_invoke ((m.push (.inReentry k)).push (.holding input.handles)) k v
  | root inner settler => exact .still rfl

theorem moves_newScheduler (settings : Settings) :
    Moves p panicked popped (m.realm p) ((m.withStore fun s =>
      { s with schedulers := (m.store.schedulers.alloc 1 (.new settings)).2 }).realm p) := by
  by_cases hp : p = m.store.schedulers.cells.size
  · have hnone : m.scheduler? p = none := by
      cases hs : m.scheduler? p with
      | none => rfl
      | some s => exact absurd (Table.lt_size_of_find? hs) (by omega)
    refine Moves.of_outside m hnone (.create settings _) ?_
    exact congrArg (Realm.mk · _ _) ((Table.find?_alloc _ 1 _ p).trans (if_pos hp))
  · refine .still (realm_eq ?_ rfl fun _ => rfl)
    exact (Table.find?_alloc _ 1 _ p).trans (if_neg hp)

theorem moves_onScheduler_note (q : Nat) (unhandled : Scheduler C → List Error)
    {f : Scheduler C → Scheduler C}
    (hf : ∀ s, (f s).told = { s with unhandled := unhandled s }.told) :
    Moves p panicked popped (m.realm p) ((m.onScheduler q f).realm p) := by
  by_cases hq : q = p
  · subst hq
    cases hs : m.scheduler? q with
    | none =>
      refine .still ?_
      rw [realm_onScheduler, hs, Option.map_none, ← hs]
      rfl
    | some s =>
      refine Moves.of_outside m hs (.note s _ (unhandled s)) ?_
      rw [realm_onScheduler, hs, Option.map_some, hf]
      rfl
  · exact .still (realm_onScheduler_of_ne m hq f)

theorem moves_perform (B : Behavior C R) (request : Request C) :
    Moves p panicked popped (m.realm p) ((m.perform B request).realm p) := by
  cases request with
  | readVariable name =>
    refine .still ?_
    show (m.readVariable name).realm p = _
    unfold readVariable
    split
    · exact realm_retain m _
    · rfl
  | settle c o => exact .still (realm_settle (m.push (.holding [.settler c])) c o)
  | outcome c =>
    refine .still ?_
    unfold perform
    dsimp only
    split
    · exact realm_retain m _
    · rfl
  | onSettle c code =>
    exact .still (realm_await (m.push (.holding [.completion c])) B.held c (.call code))
  | newScheduler settings => exact moves_newScheduler m settings
  | evaluate q code => exact .still (realm_evaluate m B.held q code)
  | start q code => exact .still (realm_start m B.held q code)
  | countRoutines q => exact .still (realm_countRoutines m q)
  | takeFailures q => exact moves_onScheduler_note m q (fun _ => []) fun _ => rfl
  | invoke k v => exact moves_invoke (m.push (.holding [.continuation k])) k v
  | reenter q k v => exact moves_reenter (m.push (.holding [.continuation k])) q k v
  | run b code => exact .still (realm_runTask m b code)
  | advance x input => exact .still (realm_advanceKept m x input)
  | copy x => exact .still (realm_takeKept m x [] fun _ _ => rfl)
  | position x => exact .still (realm_positionKept m x)
  | _ => exact .still rfl

theorem moves_deliver (B : Behavior C R) (a : Answer C) (f : Frame C R) (hpop : popped f) :
    Moves p panicked popped ((m.push f).realm p) ((m.deliver B a f).realm p) := by
  cases f with
  | code next =>
    refine .still ?_
    unfold deliver
    dsimp only
    split <;> rfl
  | inExit progress =>
    refine .still ?_
    cases a with
    | stepped step inner => exact realm_exitStepped m progress inner step
    | _ => rfl
  | inRoot settler =>
    refine .still ?_
    cases a with
    | stepped step inner => exact realm_rootStepped m settler inner step
    | _ => rfl
  | copying script => exact .still (realm_retain m _)
  | notifying listeners o => exact .still (realm_notify m listeners o)
  | draining q ran => exact .still (realm_drainNext m q ran)
  | pass q => exact moves_passHead m q hpop
  | stepping q id =>
    cases a with
    | stepped step script => exact moves_routineStepped m q id script step hpop
    | _ =>
      by_cases hq : q = p
      · subst hq
        exact Moves.of_frame m hpop (by simp [Frame.of]) rfl (.drop _ _ _) rfl
      · exact Moves.of_other m (by simp [Frame.of, hq]) rfl
  | building q id origin => exact moves_startChild m q id origin a.script hpop
  | capturing q id handler frames copies left =>
    exact moves_captureNext m q id handler frames copies _ left left hpop
  | sweeping q => exact moves_sweep m B.held q
  | opening q settler => exact moves_openRoot m q settler a.script
  | firstPass q =>
    unfold deliver
    dsimp only
    split
    · exact moves_onScheduler_note m q Scheduler.unhandled fun _ => rfl
    · exact .still rfl
  | reentered q =>
    unfold deliver
    dsimp only
    split
    · next e => exact moves_onScheduler_note m q (fun s => s.unhandled ++ [e]) fun _ => rfl
    · exact .still rfl
  | reinstating k v copies left => exact moves_reinstateNext m k v (copies ++ [a.script]) left
  | driving b => exact .still (realm_bridgeHead m b)
  | starting b settler =>
    refine .still ?_
    unfold deliver
    dsimp only
    split
    · exact realm_taskNotBuilt m b settler _
    · exact realm_taskBuilt m b settler _
  | resuming b id settler =>
    refine .still ?_
    cases a with
    | stepped step script => exact realm_taskStepped m B.held b id settler script step
    | _ => rfl
  | advancing x => cases a <;> exact .still rfl
  | _ => exact .still rfl

/-- The frame on top of the control stack is about to be taken off. -/
def Pops (m : Machine C R) (f : Frame C R) : Prop :=
  m.popping = true ∧ ∃ control, m.control = f :: control

/-- A panic that has reached the innermost frame is about to leave a pass of the
    scheduler. -/
def Escapes (p : Nat) (m : Machine C R) : Prop :=
  ∃ payload salvage control,
    m.focus = .release [] (.unwind payload salvage) ∧ m.control = .pass p :: control

theorem moves_unwindFrame (B : Behavior C R) (payload : Payload) (salvage : Option (Script C))
    (f : Frame C R) (hpop : popped f) (hpass : f = .pass p → panicked) :
    Moves p panicked popped ((m.push f).realm p) ((m.unwindFrame B payload salvage f).realm p) := by
  cases f with
  | releasing rest onward => cases onward <;> exact .still rfl
  | pass q =>
    by_cases hq : q = p
    · subst hq
      refine Moves.of_frame m hpop (by simp [Frame.of]) rfl (.abandon (hpass rfl) _ _) ?_
      exact realm_onScheduler m _
    · exact Moves.of_other m (by simp [Frame.of, hq]) (realm_onScheduler_of_ne m hq _)
  | stepping q id =>
    unfold unwindFrame
    dsimp only
    split
    · exact moves_routineStepped m q id _ _ hpop
    · by_cases hq : q = p
      · subst hq
        exact Moves.of_frame m hpop (by simp [Frame.of]) rfl (.drop _ _ _) rfl
      · exact Moves.of_other m (by simp [Frame.of, hq]) rfl
  | building q id origin =>
    unfold unwindFrame
    dsimp only
    split
    · exact moves_startChild m q id origin _ hpop
    · by_cases hq : q = p
      · subst hq
        exact Moves.of_frame m hpop (by simp [Frame.of]) rfl (.drop _ _ _) rfl
      · exact Moves.of_other m (by simp [Frame.of, hq]) rfl
  | capturing q id handler frames copies left =>
    by_cases hq : q = p
    · subst hq
      exact Moves.of_frame m hpop (by simp [Frame.of]) rfl (.drop _ _ _) rfl
    · exact Moves.of_other m (by simp [Frame.of, hq]) rfl
  | opening q settler =>
    unfold unwindFrame
    dsimp only
    split
    · exact moves_openRoot m q settler _
    · exact .still rfl
  | starting b settler =>
    refine .still ?_
    unfold unwindFrame
    dsimp only
    split
    · exact realm_taskNotBuilt m b settler _
    · rfl
  | resuming b id settler =>
    refine .still ?_
    unfold unwindFrame
    dsimp only
    split
    · exact realm_taskStepped m B.held b id settler _ _
    · rfl
  | advancing x =>
    refine .still ?_
    unfold unwindFrame
    dsimp only
    split <;> rfl
  | _ => exact .still rfl

theorem moves_goOn (B : Behavior C R) (onward : Onward C R)
    (hfocus : m.focus = .release [] onward) :
    Moves p (m.Escapes p) m.Pops (m.realm p) ((m.goOn B onward).realm p) := by
  cases onward with
  | begin code entry => exact .still (realm_retain m _)
  | tell state signal =>
    refine .still ?_
    unfold goOn tell
    dsimp only [recount]
    split <;> exact realm_retain m _
  | act reaction =>
    cases reaction with
    | ask request next => exact moves_perform (m.push (.code next)) B request
    | _ => exact .still rfl
  | give a =>
    have hpopping : m.popping = true := by simp [popping, hfocus]
    unfold goOn
    dsimp only
    split
    · exact .still rfl
    · next f control hcontrol =>
      have hpush : m.realm p = (push { m with control } f).realm p := by
        simp only [realm, push, hcontrol]
        rfl
      rw [hpush]
      exact moves_deliver { m with control } B a f ⟨hpopping, control, hcontrol⟩
  | unwind payload salvage =>
    have hpopping : m.popping = true := by simp [popping, hfocus]
    unfold goOn
    dsimp only
    split
    · exact .still rfl
    · next f control hcontrol =>
      have hpush : m.realm p = (push { m with control } f).realm p := by
        simp only [realm, push, hcontrol]
        rfl
      rw [hpush]
      refine moves_unwindFrame { m with control } B payload salvage f ⟨hpopping, control, hcontrol⟩ ?_
      rintro rfl
      exact ⟨payload, salvage, control, hfocus, hcontrol⟩

/-- A move of the machine does at most one thing to a scheduler. -/
theorem moves_step (B : Behavior C R) :
    Moves p (m.Escapes p) m.Pops (m.realm p) ((m.step B).realm p) := by
  unfold step
  split
  · exact moves_advanceScript m B _ _
  · exact .still (realm_exitScript m B _)
  · exact .still (realm_copyScript m B _)
  · exact moves_letGo m B _ _ _
  · next onward hfocus => exact moves_goOn m B onward hfocus
  · exact .still rfl

end Machine

end Strand
