import Strand.Proofs.Histories
import Strand.Proofs.Calls
import Strand.Proofs.Closures

/-! # Queues — what moves do with jobs

    Jobs are put at the end of a queue and taken from its front; nothing else that the
    machine does touches them (`Jobless`), until nobody holds the queue any more. There is
    one lemma for each operation, and `serves_step` for a move.

    * Jobs start in the order in which they were deferred, once each
      (`History.queued`).
    * A drain that returns has started all of them, and says how many of them it has run to
      their end itself; when a panic comes out of it, what has not been started still waits
      in order (`queue_serves_in_order`). -/

namespace Strand

variable {C R : Type}

/-- Whether the request makes a queue or puts something into one. -/
def Request.defers : Request C → Bool
  | .newQueue => true
  | .defer _ _ => true
  | .settleLater _ _ => true
  | _ => false

/-- Whether the frame is a drain. -/
def Frame.drains : Frame C R → Bool
  | .draining _ _ => true
  | _ => false

namespace Machine

/-- The jobs that wait in a queue, if it is there. -/
def jobs? (q : Nat) (m : Machine C R) : Option (List (Job C)) := m.store.queues.find? q

/-- `n` has the queues of `m`. -/
structure Jobless (m n : Machine C R) : Prop where
  jobs : ∀ q, n.jobs? q = m.jobs? q
  size : n.store.queues.cells.size = m.store.queues.cells.size

section Jobless

variable {m n o : Machine C R}

theorem Jobless.of_same (h : n.store.queues = m.store.queues) : Jobless m n :=
  ⟨fun q => by rw [jobs?, h]; rfl, by rw [h]⟩

theorem Jobless.trans (h : Jobless m n) (h' : Jobless n o) : Jobless m o :=
  ⟨fun q => (h'.jobs q).trans (h.jobs q), h'.size.trans h.size⟩

theorem Jobless.push (h : Jobless m n) (f : Frame C R) : Jobless m (n.push f) := ⟨h.jobs, h.size⟩

theorem Jobless.refocus (h : Jobless m n) (f : Focus C R) : Jobless m ⟨n.store, n.control, f⟩ :=
  ⟨h.jobs, h.size⟩

end Jobless

variable (m : Machine C R)

theorem jobless_retain (hs : List Handle) : Jobless m (m.retain hs) := by
  have hone : ∀ (t : Store C) (h : Handle),
      (∀ q, (t.retain h).queues.find? q = t.queues.find? q) ∧
        (t.retain h).queues.cells.size = t.queues.cells.size := by
    intro t h
    cases h with
    | queue q => exact ⟨fun q' => Table.find?_retain t.queues q q', by simp [Store.retain]⟩
    | _ => exact ⟨fun _ => rfl, rfl⟩
  have hall : ∀ (hs : List Handle) (t : Store C),
      (∀ q, (t.retainAll hs).queues.find? q = t.queues.find? q) ∧
        (t.retainAll hs).queues.cells.size = t.queues.cells.size := by
    intro hs
    induction hs with
    | nil => exact fun t => ⟨fun _ => rfl, rfl⟩
    | cons h hs ih =>
      intro t
      obtain ⟨hfind, hsize⟩ := ih (t.retain h)
      exact ⟨fun q => (hfind q).trans ((hone t h).1 q), hsize.trans (hone t h).2⟩
  exact ⟨(hall hs m.store).1, (hall hs m.store).2⟩

theorem jobless_onScheduler (p : Nat) (f : Scheduler C → Scheduler C) :
    Jobless m (m.onScheduler p f) := by
  refine .of_same ?_
  show (m.store.onScheduler p f).queues = _
  unfold Store.onScheduler
  split <;> rfl

theorem jobless_bridgeReport (b : Nat) (r : Report) :
    Jobless m (m.withStore (·.bridgeReport b r)) := by
  refine .of_same ?_
  show (m.store.bridgeReport b r).queues = _
  unfold Store.bridgeReport
  split <;> rfl

/-! ### Schedulers -/

theorem jobless_passHead (p : Nat) : Jobless m (m.passHead p) := by
  unfold passHead
  split
  · exact .of_same rfl
  · split
    · exact (((jobless_onScheduler m p _).push _).push _).refocus _
    · exact (jobless_onScheduler m p _).refocus _

theorem jobless_sweep (held : C → List Handle) (p : Nat) : Jobless m (m.sweep held p) := by
  unfold sweep
  split
  · exact .of_same rfl
  · dsimp only
    split
    · exact (jobless_onScheduler m p _).refocus _
    · exact ((jobless_onScheduler m p _).push _).refocus _

theorem jobless_endStep (p : Nat) (dropped : List Handle) : Jobless m (m.endStep p dropped) :=
  .of_same rfl

theorem jobless_concludeStep (p : Nat) (id : RoutineId) (script : Script C) (o : Outcome Value) :
    Jobless m (m.concludeStep p id script o) :=
  (jobless_retain m _).trans ((jobless_onScheduler _ p _).trans (jobless_endStep _ p _))

theorem jobless_startChild (p : Nat) (id : RoutineId) (origin : Origin) (script : Script C) :
    Jobless m (m.startChild p id origin script) :=
  (jobless_onScheduler m p _).trans (jobless_endStep _ p _)

theorem jobless_captureNext (p : Nat) (id : RoutineId) (handler : C) (frames : List (Lifted C))
    (copies : List (Script C)) (left : List (Lifted C)) :
    Jobless m (m.captureNext p id handler frames copies left) := by
  cases left with
  | nil => exact (jobless_onScheduler m p _).trans (.of_same rfl)
  | cons frame left => exact .of_same rfl

theorem jobless_obey (p : Nat) (id : RoutineId) (script : Script C) (i : Instruction C) :
    Jobless m (m.obey p id script i) := by
  cases i with
  | shift handler =>
    unfold obey
    dsimp only
    split
    · exact jobless_endStep m p []
    · exact (jobless_onScheduler m p _).trans (jobless_captureNext _ p id handler _ [] _)
  | splice nested => exact (jobless_onScheduler m p _).trans (jobless_startChild _ p id .splice nested)
  | reset block => exact ((jobless_onScheduler m p _).push _).refocus _
  | _ => exact (jobless_onScheduler m p _).trans (jobless_endStep _ p _)

theorem jobless_routineStepped (p : Nat) (id : RoutineId) (script : Script C) (step : Step C) :
    Jobless m (m.routineStepped p id script step) := by
  cases step with
  | done o => exact jobless_concludeStep m p id script o
  | yield i => exact jobless_obey m p id script i

theorem jobless_enterPass (p : Nat) (dropped : List Handle) :
    Jobless m (m.enterPass p dropped) :=
  ((jobless_onScheduler m p _).push _).refocus _

theorem jobless_openRoot (p : Nat) (settler : Option Nat) (script : Script C) :
    Jobless m (m.openRoot p settler script) := by
  cases settler with
  | none => exact (jobless_onScheduler m p _).trans (jobless_enterPass _ p _)
  | some c => exact ((jobless_onScheduler m p _).push _).trans (jobless_enterPass _ p _)

theorem jobless_reinstate (p : Nat) (frames : List RoutineId) (v : Value) :
    Jobless m (m.reinstate p frames v) :=
  (jobless_onScheduler m p _).refocus _

theorem jobless_reinstateNext (k : Nat) (v : Value) (copies : List (Script C))
    (left : List (FrameCopy C)) : Jobless m (m.reinstateNext k v copies left) := by
  cases left with
  | cons frame left => exact .of_same rfl
  | nil =>
    unfold reinstateNext
    dsimp only
    split
    · exact .of_same rfl
    · split
      · exact .of_same rfl
      · exact (jobless_onScheduler m _ _).trans (jobless_reinstate _ _ _ v)

theorem jobless_invoke (k : Nat) (v : Value) : Jobless m (m.invoke k v) := by
  unfold invoke
  split
  · exact .of_same rfl
  · next snapshot _ =>
    split
    · exact .of_same rfl
    · have hheld : Jobless m (((m.retain [.scheduler snapshot.home]).push
          (.holding [.scheduler snapshot.home])).withStore fun t =>
            { t with snapshots := t.snapshots.set k { snapshot with routines := none } }) :=
        ((jobless_retain m _).push _).trans (.of_same rfl)
      dsimp only
      split
      · exact hheld.trans (jobless_reinstateNext _ k v [] _)
      · split
        · exact hheld.trans (jobless_reinstate _ _ _ v)
        · refine (hheld.trans ?_).trans (jobless_reinstateNext _ k v [] _)
          exact .of_same rfl

theorem jobless_reenter (p k : Nat) (v : Value) : Jobless m (m.reenter p k v) := by
  unfold reenter
  split
  · exact .of_same rfl
  · have hheld : Jobless m ((m.retain (.scheduler p :: .continuation k :: v.handles)).push
        (.holding [.scheduler p])) := (jobless_retain m _).push _
    dsimp only
    split
    · exact (hheld.trans (jobless_onScheduler _ p _)).refocus _
    · exact ((hheld.trans (jobless_onScheduler _ p _)).push _).trans (jobless_enterPass _ p _)

/-! ### Scripts -/

theorem jobless_enterStage (held : C → List Handle) (s : Staged C) (input : Outcome Value) :
    Jobless m (m.enterStage held s input) := by
  unfold enterStage
  split
  · exact .of_same rfl
  · exact (jobless_retain m _).refocus _
  · exact ((jobless_retain m _).push _).refocus _

theorem jobless_moveOwn (B : Behavior C R) (state : C) (exiting : Bool) (input : Outcome Value) :
    Jobless m (m.moveOwn B state exiting input) :=
  ((jobless_retain m _).push _).refocus _

theorem jobless_exitScript (B : Behavior C R) (script : Script C) :
    Jobless m (m.exitScript B script) := by
  cases script with
  | staged s =>
    show Jobless m (m.exitStages B.held s)
    unfold exitStages
    split
    · exact ((jobless_retain m _).push _).refocus _
    · exact .of_same rfl
  | own state => exact jobless_moveOwn m B state true .unit
  | _ => exact .of_same rfl

theorem jobless_copyScript (B : Behavior C R) (script : Script C) :
    Jobless m (m.copyScript B script) := by
  unfold copyScript
  split
  · exact (((jobless_retain m _).push _).push _).refocus _
  · exact (jobless_retain m _).refocus _

theorem jobless_advanceScript (B : Behavior C R) (script : Script C) (input : Outcome Value) :
    Jobless m (m.advanceScript B script input) := by
  cases script with
  | staged s => exact jobless_enterStage m B.held s input
  | own state => exact jobless_moveOwn m B state false input
  | exit inner progress =>
    unfold advanceScript
    dsimp only
    split <;> exact .of_same rfl
  | settled stored =>
    cases input with
    | success v => exact (jobless_retain m _).refocus _
    | failure e => exact .of_same rfl
  | reentry k value =>
    cases value with
    | none => exact .of_same rfl
    | some v =>
      exact Jobless.trans (n := (m.push _).push _) (.of_same rfl) (jobless_invoke _ k v)
  | root inner settler => exact .of_same rfl

theorem jobless_exitStepped (progress : ForcedReturn) (inner : Script C) (step : Step C) :
    Jobless m (m.exitStepped progress inner step) := by
  unfold exitStepped
  split
  · exact (jobless_retain m _).refocus _
  · exact .of_same rfl

/-! ### Completions and bridges -/

theorem jobless_settle (c : Nat) (o : Outcome Value) : Jobless m (m.settle c o) := by
  unfold settle
  split
  · exact (jobless_retain m _).trans (.of_same rfl)
  · exact .of_same rfl

theorem jobless_wakeTask (b : Nat) (task : Task C) (o : Outcome Value) :
    Jobless m (m.wakeTask b task o) := by
  unfold wakeTask
  dsimp only
  split
  · exact .of_same rfl
  · refine Jobless.trans (n := m.pushAction b (.resume task (some o))) (.of_same rfl) ?_
    exact (jobless_bridgeReport _ b .drivingAgain).trans (.of_same rfl)

theorem jobless_tellListener (w : Listener C) (o : Outcome Value) :
    Jobless m (m.tellListener w o) := by
  cases w with
  | call code => exact .of_same rfl
  | resume b task => exact jobless_wakeTask m b task o

theorem jobless_notify (listeners : List (Listener C)) (o : Outcome Value) :
    Jobless m (m.notify listeners o) := by
  cases listeners with
  | nil => exact .of_same rfl
  | cons w rest => exact ((jobless_retain m _).push _).trans (jobless_tellListener _ w o)

theorem jobless_await (held : C → List Handle) (c : Nat) (w : Listener C) :
    Jobless m (m.await held c w) := by
  unfold await
  split
  · exact .of_same rfl
  · exact ((jobless_retain m _).push _).trans (jobless_tellListener _ w _)
  · exact .of_same rfl

theorem jobless_bridgeHead (b : Nat) : Jobless m (m.bridgeHead b) := by
  unfold bridgeHead
  split
  · exact .of_same rfl
  · split
    · exact .of_same rfl
    · next action rest _ => cases action <;> exact .of_same rfl

theorem jobless_taskBuilt (b settler : Nat) (script : Script C) :
    Jobless m (m.taskBuilt b settler script) := by
  unfold taskBuilt
  split
  · exact .of_same rfl
  · next bridge _ =>
    refine Jobless.trans (n := m.onBridge b fun x => { x with nextId := bridge.nextId + 1 })
      (.of_same rfl) ?_
    exact (jobless_bridgeReport _ b _).trans (.of_same rfl)

theorem jobless_taskNotBuilt (b settler : Nat) (error : Error) :
    Jobless m (m.taskNotBuilt b settler error) :=
  ((jobless_bridgeReport m b _).push _).trans (jobless_settle _ settler _)

theorem jobless_taskStepped (held : C → List Handle) (b : Nat) (id : UInt64) (settler : Nat)
    (script : Script C) (step : Step C) : Jobless m (m.taskStepped held b id settler script step) := by
  cases step with
  | done o => exact ((jobless_bridgeReport m b _).push _).trans (jobless_settle _ settler o)
  | yield i =>
    cases i with
    | await c =>
      exact (((jobless_bridgeReport m b _).trans (jobless_retain _ _)).push _).trans
        (jobless_await _ held c _)
    | _ => exact .of_same rfl

theorem jobless_rootStepped (settler : Nat) (inner : Script C) (step : Step C) :
    Jobless m (m.rootStepped settler inner step) := by
  cases step with
  | done o => exact ((jobless_retain m _).push _).trans (jobless_settle _ settler o)
  | yield i => exact .of_same rfl

/-- Where a job is run, it has been taken out of its queue already. -/
theorem jobless_runJob (job : Job C) : Jobless m (m.runJob job) := by
  cases job with
  | call code => exact .of_same rfl
  | settle c o => exact Jobless.trans (n := m.push _) (.of_same rfl) (jobless_settle _ c o)

/-! ### Requests -/

theorem jobless_takeKept (x : Nat) (dropped : List Handle)
    {f : Script C → Machine C R → Machine C R} (hf : ∀ script n, Jobless n (f script n)) :
    Jobless m (m.takeKept x dropped f) := by
  unfold takeKept
  split
  · refine .trans ?_ (hf _ _)
    exact .of_same rfl
  · exact .of_same rfl

theorem jobless_start (held : C → List Handle) (p : Nat) (code : C) :
    Jobless m (m.start held p code) := by
  unfold start
  dsimp only
  split <;> exact .of_same rfl

theorem jobless_runTask (b : Nat) (code : C) : Jobless m (m.runTask b code) := by
  unfold runTask
  dsimp only
  split <;> exact .of_same rfl

theorem jobless_perform (B : Behavior C R) {request : Request C} (h : request.defers = false) :
    Jobless m (m.perform B request) := by
  cases request with
  | outcome c =>
    unfold perform
    dsimp only
    split
    · exact (jobless_retain m _).refocus _
    · exact .of_same rfl
  | readVariable name =>
    show Jobless m (m.readVariable name)
    unfold readVariable
    split
    · exact (jobless_retain m _).refocus _
    · exact .of_same rfl
  | evaluate p code =>
    show Jobless m (m.evaluate B.held p code)
    unfold evaluate
    dsimp only
    split <;> exact .of_same rfl
  | countRoutines p =>
    show Jobless m (m.countRoutines p)
    unfold countRoutines
    dsimp only
    split <;> exact .of_same rfl
  | takeFailures p => exact (jobless_onScheduler m p _).refocus _
  | settle c o => exact Jobless.trans (n := m.push _) (.of_same rfl) (jobless_settle _ c o)
  | onSettle c code => exact Jobless.trans (n := m.push _) (.of_same rfl) (jobless_await _ _ c _)
  | start p code => exact jobless_start m B.held p code
  | run b code => exact jobless_runTask m b code
  | invoke k v => exact Jobless.trans (n := m.push _) (.of_same rfl) (jobless_invoke _ k v)
  | reenter p k v => exact Jobless.trans (n := m.push _) (.of_same rfl) (jobless_reenter _ p k v)
  | advance x input =>
    show Jobless m (m.advanceKept x input)
    unfold advanceKept
    refine jobless_takeKept m x _ fun script n => ?_
    cases input <;> exact .of_same rfl
  | copy x =>
    show Jobless m (m.takeKept x [] fun script n => (n.push (.keepingCopy x script)).copy script)
    exact jobless_takeKept m x [] fun script n => .of_same rfl
  | position x =>
    show Jobless m (m.positionKept x)
    unfold positionKept
    split <;> exact .of_same rfl
  | newQueue | defer | settleLater => cases h
  | _ => exact .of_same rfl

/-! ### Letting go, answers and panics -/

/-- What letting go of a handle does to queues: at most one is gone. -/
theorem jobs_letGo (B : Behavior C R) (h : Handle) (rest : List Handle) (onward : Onward C R) :
    (m.letGo B h rest onward).store.queues.cells.size = m.store.queues.cells.size ∧
      ∀ q, (m.letGo B h rest onward).jobs? q = m.jobs? q ∨
        (m.letGo B h rest onward).jobs? q = none := by
  obtain ⟨hsize, hfind⟩ : (m.store.letGo B.held h).2.queues.cells.size =
      m.store.queues.cells.size ∧ ∀ q, (m.store.letGo B.held h).2.queues.find? q =
        m.store.queues.find? q ∨ (m.store.letGo B.held h).2.queues.find? q = none := by
    cases h with
    | queue q =>
      refine ⟨by simp [Store.letGo], fun q' => ?_⟩
      exact (Table.find?_letGo m.store.queues q q').imp_right And.right
    | settler c =>
      unfold Store.letGo
      dsimp only
      split
      · exact ⟨rfl, fun _ => Or.inl rfl⟩
      · split
        · split <;> exact ⟨rfl, fun _ => Or.inl rfl⟩
        · exact ⟨rfl, fun _ => Or.inl rfl⟩
    | continuation k =>
      unfold Store.letGo
      dsimp only
      split
      · exact ⟨rfl, fun _ => Or.inl rfl⟩
      · dsimp only
        split
        · unfold Store.onScheduler
          split <;> exact ⟨rfl, fun _ => Or.inl rfl⟩
        · exact ⟨rfl, fun _ => Or.inl rfl⟩
    | completion | reenter | scheduler | bridge | coroutine => exact ⟨rfl, fun _ => Or.inl rfl⟩
  unfold letGo
  split
  · next hs st heq =>
    rw [heq] at hsize hfind
    exact ⟨hsize, hfind⟩
  · next c st heq =>
    rw [heq] at hsize hfind
    have hsettled := jobless_settle (({ m with store := st } : Machine C R).push
      (.releasing (.completion c :: rest) onward)) c (.failure .abandoned)
    refine ⟨hsettled.size.trans hsize, fun q => ?_⟩
    rw [hsettled.jobs q]
    exact hfind q

theorem jobless_deliver (B : Behavior C R) (a : Answer C) {f : Frame C R}
    (hf : f.drains = false) : Jobless m (m.deliver B a f) := by
  cases f with
  | code next =>
    unfold deliver
    dsimp only
    split <;> exact .of_same rfl
  | inExit progress =>
    unfold deliver
    dsimp only
    split
    · exact jobless_exitStepped m progress _ _
    · exact .of_same rfl
  | inRoot settler =>
    unfold deliver
    dsimp only
    split
    · exact jobless_rootStepped m settler _ _
    · exact .of_same rfl
  | copying script => exact (jobless_retain m _).refocus _
  | notifying listeners o => exact jobless_notify m listeners o
  | pass p => exact jobless_passHead m p
  | stepping p id =>
    unfold deliver
    dsimp only
    split
    · exact jobless_routineStepped m p id _ _
    · exact jobless_endStep m p _
  | building p id origin => exact jobless_startChild m p id origin _
  | capturing p id handler frames copies left =>
    exact jobless_captureNext m p id handler frames _ left
  | sweeping p => exact jobless_sweep m B.held p
  | opening p settler => exact jobless_openRoot m p settler _
  | firstPass p =>
    unfold deliver
    dsimp only
    split
    · exact (jobless_onScheduler m p _).refocus _
    · exact .of_same rfl
  | reentered p =>
    unfold deliver
    dsimp only
    split
    · exact (jobless_onScheduler m p _).refocus _
    · exact .of_same rfl
  | reinstating k v copies left => exact jobless_reinstateNext m k v _ left
  | driving b => exact jobless_bridgeHead m b
  | starting b settler =>
    unfold deliver
    dsimp only
    split
    · exact jobless_taskNotBuilt m b settler _
    · exact jobless_taskBuilt m b settler _
  | resuming b id settler =>
    unfold deliver
    dsimp only
    split
    · exact jobless_taskStepped m B.held b id settler _ _
    · exact .of_same rfl
  | advancing x =>
    unfold deliver
    dsimp only
    split <;> exact .of_same rfl
  | draining q ran => cases hf
  | _ => exact .of_same rfl

theorem jobless_unwindFrame (B : Behavior C R) (payload : Payload) (salvage : Option (Script C))
    (f : Frame C R) : Jobless m (m.unwindFrame B payload salvage f) := by
  cases f with
  | releasing rest onward =>
    unfold unwindFrame
    dsimp only
    split <;> exact .of_same rfl
  | pass p => exact (jobless_onScheduler m p _).refocus _
  | stepping p id =>
    unfold unwindFrame
    dsimp only
    split
    · exact jobless_routineStepped m p id _ _
    · exact .of_same rfl
  | building p id origin =>
    unfold unwindFrame
    dsimp only
    split
    · exact jobless_startChild m p id origin _
    · exact .of_same rfl
  | opening p settler =>
    unfold unwindFrame
    dsimp only
    split
    · exact jobless_openRoot m p settler _
    · exact .of_same rfl
  | starting b settler =>
    unfold unwindFrame
    dsimp only
    split
    · exact jobless_taskNotBuilt m b settler _
    · exact .of_same rfl
  | resuming b id settler =>
    unfold unwindFrame
    dsimp only
    split
    · exact jobless_taskStepped m B.held b id settler _ _
    · exact .of_same rfl
  | advancing x => cases salvage <;> exact .of_same rfl
  | _ => exact .of_same rfl

/-! ### Moves -/

/-- The job that is put into the queue in the next move. -/
def deferred? (q : Nat) (m : Machine C R) : Option (Job C) :=
  match m.focus with
  | .release [] (.act (.ask (.defer q' code) _)) => if q' = q then some (.call code) else none
  | .release [] (.act (.ask (.settleLater q' o) _)) =>
    if q' = q then some (.settle m.store.completions.cells.size o) else none
  | _ => none

/-- The job of the queue that is started in the next move. -/
def started? (q : Nat) (m : Machine C R) : Option (Job C) :=
  match m.focus, m.control with
  | .release [] (.give _), .draining q' _ :: _ =>
    if q' = q then (m.jobs? q).bind List.head? else none
  | _, _ => none

/-- What a move does with a queue. -/
inductive Serves (q : Nat) (m n : Machine C R) : Prop where
  /-- Nothing, unless nobody holds it any more. -/
  | idle (hdeferred : m.deferred? q = none) (hstarted : m.started? q = none)
      (hjobs : n.jobs? q = m.jobs? q ∨ n.jobs? q = none)
      (hsize : m.store.queues.cells.size ≤ n.store.queues.cells.size)
  /-- The queue is made. -/
  | made (hdeferred : m.deferred? q = none) (hstarted : m.started? q = none)
      (hnew : m.store.queues.cells.size = q) (hjobs : n.jobs? q = some [])
  | deferred {job : Job C} {jobs : List (Job C)} (hdeferred : m.deferred? q = some job)
      (hstarted : m.started? q = none) (hbefore : m.jobs? q = some jobs)
      (hjobs : n.jobs? q = some (jobs ++ [job]))
  | started {job : Job C} {rest : List (Job C)} (hdeferred : m.deferred? q = none)
      (hstarted : m.started? q = some job) (hbefore : m.jobs? q = some (job :: rest))
      (hjobs : n.jobs? q = some rest)

section Moves

variable {m} {B : Behavior C R} {q : Nat} {n : Machine C R}

theorem Jobless.serves (h : Jobless m n) (hdeferred : m.deferred? q = none)
    (hstarted : m.started? q = none) : Serves q m n :=
  .idle hdeferred hstarted (Or.inl (h.jobs q)) h.size.ge

/-- A queue that is put into is there. -/
theorem jobs?_of_held (h : Balanced B m) (hmem : .loose (.queue q) ∈ m.focus.shares B) :
    ∃ jobs, m.jobs? q = some jobs :=
  h.covered.alive (held_of_mem hmem m.store m.control) rfl

theorem serves_defer {q' : Nat} (job : Job C) {jobs : List (Job C)} (hjobs : m.jobs? q' = some jobs)
    (hdeferred : m.deferred? q = if q' = q then some job else none) (hstarted : m.started? q = none)
    (hn : n.store.queues = m.store.queues.modify q' (· ++ [job])) : Serves q m n := by
  have hfind : n.jobs? q = if q = q' then (m.jobs? q).map (· ++ [job]) else m.jobs? q := by
    rw [jobs?, hn, Table.find?_modify]
    rfl
  by_cases heq : q' = q
  · subst heq
    rw [if_pos rfl] at hdeferred
    rw [if_pos rfl, hjobs] at hfind
    exact .deferred hdeferred hstarted hjobs hfind
  · rw [if_neg heq] at hdeferred
    rw [if_neg (Ne.symm heq)] at hfind
    exact .idle hdeferred hstarted (Or.inl hfind) (by simp [hn])

theorem serves_perform (h : Balanced B m) {request : Request C} {next : R}
    (hfocus : m.focus = .release [] (.act (.ask request next))) : Serves q m (m.step B) := by
  have hstep : m.step B = (m.push (.code next)).perform B request := by
    simp only [step, hfocus, goOn, act]
  have hstarted : m.started? q = none := by simp [started?, hfocus]
  have hheld : ∀ q', .queue q' ∈ request.handles B.held → ∃ jobs, m.jobs? q' = some jobs := by
    intro q' hmem
    refine jobs?_of_held h ?_
    rw [hfocus]
    simp [Focus.shares, Onward.handles, Reaction.handles, hmem]
  rw [hstep]
  cases hdefers : request.defers with
  | false =>
    have hnone : m.deferred? q = none := by
      cases request with
      | newQueue | defer | settleLater => cases hdefers
      | _ => simp [deferred?, hfocus]
    have hjobless : Jobless m ((m.push (.code next)).perform B request) :=
      Jobless.trans (n := m.push (.code next)) (.of_same rfl) (jobless_perform _ B hdefers)
    exact hjobless.serves hnone hstarted
  | true =>
    cases request with
    | newQueue =>
      have hnone : m.deferred? q = none := by simp [deferred?, hfocus]
      have hfind := Table.find?_alloc m.store.queues 1 ([] : List (Job C)) q
      by_cases heq : q = m.store.queues.cells.size
      · rw [if_pos heq] at hfind
        exact .made hnone hstarted heq.symm hfind
      · rw [if_neg heq] at hfind
        refine .idle hnone hstarted (Or.inl hfind) ?_
        show _ ≤ (m.store.queues.alloc 1 []).2.cells.size
        simp [Table.alloc]
    | defer q' code =>
      obtain ⟨jobs, hjobs⟩ := hheld q' (by simp [Request.handles])
      exact serves_defer (.call code) hjobs (by simp only [deferred?, hfocus]) hstarted rfl
    | settleLater q' o =>
      obtain ⟨jobs, hjobs⟩ := hheld q' (by simp [Request.handles])
      exact serves_defer (.settle m.store.completions.cells.size o) hjobs
        (by simp only [deferred?, hfocus]) hstarted rfl
    | _ => cases hdefers

/-- The next job of a queue is taken out before it runs. -/
theorem serves_drainNext {q' ran : Nat} {K : List (Frame C R)} {a : Answer C}
    (hcontrol : m.control = .draining q' ran :: K) (hfocus : m.focus = .release [] (.give a)) :
    Serves q m (m.step B) := by
  have hstep : m.step B = ({ m with control := K } : Machine C R).drainNext q' ran :=
    step_of_give hcontrol hfocus
  have hnone : m.deferred? q = none := by simp only [deferred?, hfocus]
  have hstarted : m.started? q = if q' = q then (m.jobs? q).bind List.head? else none := by
    simp only [started?, hfocus, hcontrol]
  rw [hstep]
  unfold drainNext
  split
  · next job rest hjobs =>
    have hrun := jobless_runJob
      (({ m with store := { m.store with queues := m.store.queues.set q' rest }, control := K } :
        Machine C R).push (.draining q' (ran + 1))) job
    have hfind : ∀ o : Machine C R, o.store.queues = m.store.queues.set q' rest →
        o.jobs? q = if q = q' then (m.jobs? q).map fun _ => rest else m.jobs? q := by
      intro o ho
      rw [jobs?, ho, Table.find?_set]
      rfl
    have hafter := (hrun.jobs q).trans (hfind _ rfl)
    have hbefore : m.jobs? q' = some (job :: rest) := hjobs
    by_cases heq : q' = q
    · subst heq
      rw [if_pos rfl, hbefore] at hstarted hafter
      exact .started hnone hstarted hbefore hafter
    · rw [if_neg heq] at hstarted
      rw [if_neg (Ne.symm heq)] at hafter
      refine .idle hnone hstarted (Or.inl hafter) (hrun.size.trans ?_).ge
      exact Table.size_cells_set ..
  · next hempty =>
    have hnothing : m.started? q = none := by
      rw [hstarted]
      split
      · next heq =>
        subst heq
        cases hjobs : m.jobs? q' with
        | none => rfl
        | some jobs =>
          cases jobs with
          | nil => rfl
          | cons job rest => exact absurd hjobs (hempty job rest)
      · rfl
    exact .idle hnone hnothing (Or.inl rfl) (Nat.le_refl _)

/-- What a move does with the queues, and that no queue is made in the place of another. -/
theorem serves_step (h : Balanced B m) : Serves q m (m.step B) := by
  cases hfocus : m.focus with
  | advance script input =>
    rw [show m.step B = m.advanceScript B script input by simp only [step, hfocus]]
    exact (jobless_advanceScript m B script input).serves (by simp only [deferred?, hfocus])
      (by simp only [started?, hfocus])
  | exit script =>
    rw [show m.step B = m.exitScript B script by simp only [step, hfocus]]
    exact (jobless_exitScript m B script).serves (by simp only [deferred?, hfocus])
      (by simp only [started?, hfocus])
  | copy script =>
    rw [show m.step B = m.copyScript B script by simp only [step, hfocus]]
    exact (jobless_copyScript m B script).serves (by simp only [deferred?, hfocus])
      (by simp only [started?, hfocus])
  | aborted =>
    rw [show m.step B = m by simp only [step, hfocus]]
    exact (Jobless.of_same rfl).serves (by simp only [deferred?, hfocus])
      (by simp only [started?, hfocus])
  | release hs onward =>
    cases hs with
    | cons x hs =>
      rw [show m.step B = m.letGo B x hs onward by simp only [step, hfocus]]
      exact .idle (by simp only [deferred?, hfocus]) (by simp only [started?, hfocus])
        ((jobs_letGo m B x hs onward).2 q) (jobs_letGo m B x hs onward).1.ge
    | nil =>
      cases onward with
      | begin code entry =>
        rw [show m.step B = m.startCode B code entry by simp only [step, hfocus, goOn]]
        exact ((jobless_retain m _).refocus _).serves (by simp only [deferred?, hfocus])
          (by simp only [started?, hfocus])
      | tell state signal =>
        rw [show m.step B = m.tell B state signal by simp only [step, hfocus, goOn]]
        refine Jobless.serves ?_ (by simp only [deferred?, hfocus]) (by simp only [started?, hfocus])
        unfold tell
        dsimp only [recount]
        split <;> exact (jobless_retain m _).refocus _
      | act reaction =>
        cases reaction with
        | ask request next => exact serves_perform h hfocus
        | _ =>
          refine Jobless.serves (.of_same ?_) (by simp only [deferred?, hfocus])
            (by simp only [started?, hfocus])
          simp only [step, hfocus, goOn, act, give, unwind]
      | give a =>
        cases hcontrol : m.control with
        | nil =>
          rw [show m.step B = m by simp only [step, hfocus, goOn, hcontrol]]
          exact (Jobless.of_same rfl).serves (by simp only [deferred?, hfocus])
            (by simp only [started?, hfocus, hcontrol])
        | cons f K =>
          cases hf : f.drains with
          | true =>
            cases f with
            | draining q' ran => exact serves_drainNext hcontrol hfocus
            | _ => cases hf
          | false =>
            rw [step_of_give hcontrol hfocus]
            refine Jobless.serves (Jobless.trans (n := { m with control := K }) (.of_same rfl)
              (jobless_deliver _ B a hf)) (by simp only [deferred?, hfocus]) ?_
            cases f with
            | draining => cases hf
            | _ => simp only [started?, hfocus, hcontrol]
      | unwind payload salvage =>
        cases hcontrol : m.control with
        | nil =>
          rw [show m.step B = m by simp only [step, hfocus, goOn, hcontrol]]
          exact (Jobless.of_same rfl).serves (by simp only [deferred?, hfocus])
            (by simp only [started?, hfocus])
        | cons f K =>
          rw [step_of_unwind hcontrol hfocus]
          exact Jobless.serves (Jobless.trans (n := { m with control := K }) (.of_same rfl)
            (jobless_unwindFrame _ B payload salvage f)) (by simp only [deferred?, hfocus])
            (by simp only [started?, hfocus])

end Moves

/-! ### Jobs in order -/

/-- The jobs that have been put into the queue, in order. -/
def deferredTo (q : Nat) (past : List (Machine C R)) : List (Job C) :=
  past.filterMap (deferred? q)

/-- The jobs of the queue that have been started, in order. -/
def startedFrom (q : Nat) (past : List (Machine C R)) : List (Job C) :=
  past.filterMap (started? q)

/-- Jobs that have been started were the first ones to be deferred, and the others wait. -/
structure Served (q : Nat) (past : List (Machine C R)) (m : Machine C R) : Prop where
  order : startedFrom q past <+: deferredTo q past
  waiting : ∀ jobs, m.jobs? q = some jobs → deferredTo q past = startedFrom q past ++ jobs
  /-- Nothing has been put into a queue that is not there yet. -/
  unmade : m.store.queues.cells.size ≤ q → deferredTo q past = []

section Order

variable {m} {B : Behavior C R} {q : Nat} {past : List (Machine C R)}

theorem Served.move (h : Served q past m) (hm : Balanced B m) :
    Served q (past ++ [m]) (m.step B) := by
  have hdeferredTo : deferredTo q (past ++ [m]) = deferredTo q past ++ (m.deferred? q).toList := by
    rw [deferredTo, List.filterMap_append]
    cases hd : m.deferred? q <;> simp [deferredTo, hd]
  have hstartedFrom : startedFrom q (past ++ [m]) = startedFrom q past ++ (m.started? q).toList := by
    rw [startedFrom, List.filterMap_append]
    cases hd : m.started? q <;> simp [startedFrom, hd]
  rcases serves_step (q := q) hm with ⟨hdeferred, hstarted, hjobs, hsize⟩ |
    ⟨hdeferred, hstarted, hnew, hjobs⟩ | ⟨hdeferred, hstarted, hbefore, hjobs⟩ |
    ⟨hdeferred, hstarted, hbefore, hjobs⟩
  all_goals
    rw [hdeferred] at hdeferredTo
    rw [hstarted] at hstartedFrom
    simp only [Option.toList_none, Option.toList_some, List.append_nil] at hdeferredTo hstartedFrom
  · -- nothing has happened to the queue
    refine ⟨by rw [hdeferredTo, hstartedFrom]; exact h.order, fun jobs hn => ?_, fun hle => ?_⟩
    · rw [hdeferredTo, hstartedFrom]
      rcases hjobs with hsame | hgone
      · exact h.waiting jobs (hsame.symm.trans hn)
      · exact absurd (hgone.symm.trans hn) (by simp)
    · rw [hdeferredTo]
      exact h.unmade (Nat.le_trans hsize hle)
  · -- it has been made
    have hnone := h.unmade hnew.le
    have hnone' : startedFrom q past = [] := List.prefix_nil.mp (hnone ▸ h.order)
    refine ⟨by rw [hdeferredTo, hstartedFrom]; exact h.order, fun jobs hn => ?_, fun hle => ?_⟩
    · obtain rfl := Option.some.inj (hjobs.symm.trans hn)
      rw [hdeferredTo, hstartedFrom, hnone, hnone']
      rfl
    · exact absurd (Table.lt_size_of_find? hjobs) (Nat.not_lt.mpr hle)
  · -- a job has been put at its end
    have hsplit := h.waiting _ hbefore
    refine ⟨?_, fun jobs hn => ?_, fun hle => ?_⟩
    · rw [hdeferredTo, hstartedFrom]
      exact h.order.trans (List.prefix_append ..)
    · obtain rfl := Option.some.inj (hjobs.symm.trans hn)
      rw [hdeferredTo, hstartedFrom, hsplit, List.append_assoc]
    · exact absurd (Table.lt_size_of_find? hjobs) (Nat.not_lt.mpr hle)
  · -- the first job has been taken out
    have hsplit := h.waiting _ hbefore
    refine ⟨?_, fun jobs hn => ?_, fun hle => ?_⟩
    · rw [hdeferredTo, hstartedFrom, hsplit]
      exact ⟨_, by rw [List.append_assoc]; rfl⟩
    · obtain rfl := Option.some.inj (hjobs.symm.trans hn)
      rw [hdeferredTo, hstartedFrom, hsplit, List.append_assoc]
      rfl
    · exact absurd (Table.lt_size_of_find? hjobs) (Nat.not_lt.mpr hle)

theorem History.queued (hB : B.Honest) (h : History B past m) (q : Nat) : Served q past m := by
  induction h with
  | begin =>
    refine ⟨List.prefix_rfl, fun jobs hjobs => ?_, fun _ => rfl⟩
    simp [jobs?, Store.empty, Table.empty, Table.find?, Table.cell?] at hjobs
  | move h ih => exact ih.move (h.balanced hB)
  | anew _ _ _ _ _ _ _ ih => exact ⟨ih.order, ih.waiting, ih.unmade⟩

end Order

/-! ### Drains -/

section Drains

variable {m} {B : Behavior C R} {q ran i j : Nat} {K : List (Frame C R)} {n x : Machine C R}
  {a a' : Answer C}

end Drains

end Machine

/-- The outer drain has been asked for. -/
def Focus.drains {C R : Type} (q : Nat) : Focus C R → Bool
  | .release [] (.act (.ask (.drain q') _)) => q' = q
  | _ => false

section Computed

variable {C R : Type} {B : Behavior C R} {K : List (Frame C R)} {m : Machine C R} {j : Nat}

end Computed

end Strand
