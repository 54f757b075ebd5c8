import Strand.Proofs.Rework
import Strand.Proofs.Settlements

/-! # Entrances — who has entered a pass, and what becomes of its end

    A pass is entered by a call: to evaluate a script, to start a root, or to invoke a
    continuation from outside. `Supported` says that every pass on the control stack stands
    on such a call. Moreover,

    * a routine that finishes leaves its outcome in the register of its scheduler, and no
      other failure comes to be there;
    * whoever reports that a root is done has asked its completion to settle;
    * failures that nobody has received are kept until they are taken.

    `course_step` says all this of one move. Most moves do nothing of the kind: they are
    `Plain`. -/

namespace Strand

variable {C R : Type}

/-! ### What stands on what -/

/-- A root to be opened stands on the call that opens it. -/
inductive Opens (p : Nat) : Option Nat → List (Frame C R) → Prop where
  | evaluated (next : R) (K : List (Frame C R)) :
      Opens p none (.holding [.scheduler p] :: .code next :: K)
  | started (c : Nat) (next : R) (K : List (Frame C R)) :
      Opens p (some c)
        (.replying (.handle (.completion c)) :: .holding [.scheduler p] :: .code next :: K)

/-- A pass stands on the call that has entered it. -/
inductive Entrance (p : Nat) : List (Frame C R) → Prop where
  | evaluated (next : R) (K : List (Frame C R)) :
      Entrance p (.holding [.scheduler p] :: .code next :: K)
  | started (c : Nat) (next : R) (K : List (Frame C R)) :
      Entrance p (.firstPass p :: .replying (.handle (.completion c)) ::
        .holding [.scheduler p] :: .code next :: K)
  | reentered (k : Nat) (next : R) (K : List (Frame C R)) :
      Entrance p (.reentered p :: .holding [.scheduler p] :: .holding [.continuation k] ::
        .code next :: K)

def Frame.Stands (K : List (Frame C R)) : Frame C R → Prop
  | .pass p => Entrance p K
  | .opening p settler => Opens p settler K
  | _ => True

/-- Every pass and every root to be opened stands on a call. -/
def Supported : List (Frame C R) → Prop
  | [] => True
  | f :: K => f.Stands K ∧ Supported K

theorem Supported.of_suffix {K L : List (Frame C R)} (h : Supported L) (hs : K <:+ L) :
    Supported K := by
  obtain ⟨fs, rfl⟩ := hs
  induction fs with
  | nil => exact h
  | cons f fs ih => exact ih h.2

/-! ### Who reports a root -/

/-- The answer that the script of a root is done: its completion, and the outcome. -/
def Answer.report? : Answer C → Option (Nat × Outcome Value)
  | .stepped (.done o) (.root _ c) => some (c, o)
  | _ => none

def Onward.report? : Onward C R → Option (Nat × Outcome Value)
  | .give a => a.report?
  | _ => none

def Focus.report? : Focus C R → Option (Nat × Outcome Value)
  | .release _ onward => onward.report?
  | _ => none

def Frame.report? : Frame C R → Option (Nat × Outcome Value)
  | .releasing _ onward => onward.report?
  | .reporting _ c o => some (c, o)
  | _ => none

/-- The frame neither enters a pass nor reports a root. -/
def Frame.passive : Frame C R → Bool
  | .pass _ => false
  | .opening _ _ => false
  | .reporting _ _ _ => false
  | .releasing _ onward => onward.report?.isNone
  | _ => true

theorem Frame.stands_of_passive {f : Frame C R} (hf : f.passive = true) (K : List (Frame C R)) :
    f.Stands K := by
  cases f <;> trivial

theorem Frame.report?_of_passive {f : Frame C R} (hf : f.passive = true) : f.report? = none := by
  cases f with
  | releasing rest onward => exact Option.isNone_iff_eq_none.mp hf
  | reporting inner c o => cases hf
  | _ => rfl

theorem Supported.push {fs K : List (Frame C R)} (h : Supported K)
    (hfs : ∀ f ∈ fs, f.passive = true) : Supported (fs ++ K) := by
  induction fs with
  | nil => exact h
  | cons f fs ih =>
    rw [List.forall_mem_cons] at hfs
    exact ⟨Frame.stands_of_passive hfs.1 _, ih hfs.2⟩

/-! ### What comes into the register -/

namespace Scheduler

/-- No failure has come into the register, and those that wait are the same. -/
structure Unfailing (s t : Scheduler C) : Prop where
  unhandled : t.unhandled = s.unhandled
  register : ∀ e, t.register = .failure e → s.register = .failure e

theorem Unfailing.refl (s : Scheduler C) : Unfailing s s := ⟨rfl, fun _ h => h⟩

theorem Unfailing.trans {s t u : Scheduler C} (h : Unfailing s t) (h' : Unfailing t u) :
    Unfailing s u :=
  ⟨h'.unhandled.trans h.unhandled, fun e he => h.register e (h'.register e he)⟩

theorem Unfailing.of_eq {s t : Scheduler C} (hunhandled : t.unhandled = s.unhandled)
    (hregister : t.register = s.register) : Unfailing s t :=
  ⟨hunhandled, fun _ he => hregister.symm.trans he⟩

theorem Reworks.unfailing {s t : Scheduler C} (h : Reworks s t) : Unfailing s t :=
  .of_eq h.unhandled h.register

/-- A success comes into the register. -/
theorem Unfailing.of_success {s t : Scheduler C} {v : Value} (hunhandled : t.unhandled = s.unhandled)
    (hregister : t.register = .success v) : Unfailing s t :=
  ⟨hunhandled, fun _ he => nomatch hregister.symm.trans he⟩

theorem unfailing_scheduleChild (s : Scheduler C) (origin : Origin) (script : Script C)
    (parent : RoutineId) : Unfailing s (s.scheduleChild origin script parent) :=
  .of_success (reworks_addUnder s origin script (some parent)).unhandled rfl

theorem unfailing_scheduleRoot (s : Scheduler C) (script : Script C) :
    Unfailing s (s.scheduleRoot script) :=
  .of_success (reworks_addUnder s .root script none).unhandled rfl

theorem unfailing_sweep (s : Scheduler C) :
    Unfailing s { s.freeUnclaimed.2 with current := none, retired := [] } :=
  .of_eq (reworks_freeUnclaimed s).unhandled (reworks_freeUnclaimed s).register

theorem unfailing_leave (s : Scheduler C) (panicking : Bool) :
    Unfailing s (s.leave panicking) := by
  cases panicking with
  | false => exact .of_eq rfl rfl
  | true => exact .of_success (reworks_foldl (f := free) reworks_free _ _).unhandled rfl

theorem unhandled_pickFrom (stack : List StackEntry) (s : Scheduler C) :
    (pickFrom stack s).2.unhandled = s.unhandled := by
  induction stack generalizing s with
  | nil => rfl
  | cons work stack ih =>
    cases work with
    | boundary => exact ih (s.report .boundaryConsumed)
    | routine id =>
      unfold pickFrom
      split
      · exact ih (s.report (.skippingStale id))
      · split
        · exact ih s
        · rfl

end Scheduler

namespace Machine

variable (m : Machine C R)

/-- What moves that neither enter a pass, nor report a root, nor do anything to failures
    leave behind. -/
structure Plain (m n : Machine C R) : Prop where
  schedulers : ∀ p s', n.scheduler? p = some s' → ∃ s, m.scheduler? p = some s ∧ s.Unfailing s'
  control : ∃ fs, n.control = fs ++ m.control ∧ ∀ f ∈ fs, f.passive = true
  focus : n.focus.report? = none ∨ n.focus.report? = m.focus.report?

section Plain

variable {m} {n o : Machine C R}

theorem Plain.of_schedulers (fs : List (Frame C R))
    (hsched : ∀ p, n.scheduler? p = m.scheduler? p) (hcontrol : n.control = fs ++ m.control)
    (hfs : ∀ f ∈ fs, f.passive = true)
    (hfocus : n.focus.report? = none ∨ n.focus.report? = m.focus.report?) : Plain m n where
  schedulers p s' hs' := ⟨s', (hsched p).symm.trans hs', .refl s'⟩
  control := ⟨fs, hcontrol, hfs⟩
  focus := hfocus

/-- Nothing but the focus is another one. -/
theorem Plain.focused {f : Focus C R} (hf : f.report? = none) : Plain m ⟨m.store, m.control, f⟩ :=
  .of_schedulers [] (fun _ => rfl) rfl (List.forall_mem_nil _) (Or.inl hf)

theorem Plain.trans (h : Plain m n) (h' : Plain n o) : Plain m o where
  schedulers p s' hs' := by
    obtain ⟨t, ht, hnext⟩ := h'.schedulers p s' hs'
    obtain ⟨s, hs, hfirst⟩ := h.schedulers p t ht
    exact ⟨s, hs, hfirst.trans hnext⟩
  control := by
    obtain ⟨fs, hfs, hplain⟩ := h.control
    obtain ⟨gs, hgs, hplain'⟩ := h'.control
    refine ⟨gs ++ fs, by rw [hgs, hfs, List.append_assoc], ?_⟩
    rw [List.forall_mem_append]
    exact ⟨hplain', hplain⟩
  focus := by
    rcases h'.focus with hnone | hsame
    · exact Or.inl hnone
    · rw [hsame]
      exact h.focus

theorem Plain.push (h : Plain m n) {f : Frame C R} (hf : f.passive = true) : Plain m (n.push f) :=
  h.trans (.of_schedulers [f] (fun _ => rfl) rfl
    (fun g hg => by rw [List.mem_singleton.mp hg, hf]) (Or.inr rfl))

theorem Plain.refocus (h : Plain m n) {f : Focus C R} (hf : f.report? = none) :
    Plain m ⟨n.store, n.control, f⟩ :=
  h.trans (.focused hf)

end Plain

theorem plain_push {f : Frame C R} (hf : f.passive = true) : Plain m (m.push f) :=
  .of_schedulers [f] (fun _ => rfl) rfl (fun g hg => by rw [List.mem_singleton.mp hg, hf])
    (Or.inr rfl)

theorem plain_retain (hs : List Handle) : Plain m (m.retain hs) :=
  .of_schedulers [] (fun p => scheduler?_retain m hs p) rfl (List.forall_mem_nil _) (Or.inr rfl)

theorem plain_onScheduler (p : Nat) {f : Scheduler C → Scheduler C}
    (hf : ∀ s, m.scheduler? p = some s → s.Unfailing (f s)) : Plain m (m.onScheduler p f) where
  schedulers q s' hs' := by
    by_cases hq : p = q
    · subst hq
      rw [scheduler?_onScheduler] at hs'
      obtain ⟨s, hs, rfl⟩ := Option.map_eq_some_iff.mp hs'
      exact ⟨s, hs, (hf s hs).trans (.of_eq rfl rfl)⟩
    · rw [scheduler?_onScheduler_of_ne m hq] at hs'
      exact ⟨s', hs', .refl s'⟩
  control := ⟨[], rfl, List.forall_mem_nil _⟩
  focus := Or.inr rfl

/-- Something else in the store is changed. -/
theorem plain_withStore {f : Store C → Store C}
    (hf : (f m.store).schedulers = m.store.schedulers) : Plain m (m.withStore f) :=
  .of_schedulers [] (fun p => by rw [scheduler?, scheduler?]; exact congrArg (·.find? p) hf) rfl
    (List.forall_mem_nil _) (Or.inr rfl)

/-! ### Completions, queues and bridges -/

theorem plain_onBridge (b : Nat) (f : Bridge C → Bridge C) : Plain m (m.onBridge b f) :=
  plain_withStore m rfl

theorem plain_bridgeReport (b : Nat) (r : Report) :
    Plain m (m.withStore (·.bridgeReport b r)) := by
  refine plain_withStore m ?_
  unfold Store.bridgeReport
  split <;> rfl

theorem plain_settle (c : Nat) (o : Outcome Value) : Plain m (m.settle c o) := by
  unfold settle
  split
  · exact (((plain_retain m _).trans (plain_withStore _ rfl)).push rfl).refocus rfl
  · exact .focused rfl

theorem plain_enterBridge (b : Nat) : Plain m (m.enterBridge b) :=
  ((plain_onBridge m b _).push rfl).refocus rfl

theorem plain_tellListener (w : Listener C) (o : Outcome Value) : Plain m (m.tellListener w o) := by
  cases w with
  | call code => exact (plain_push m rfl).refocus rfl
  | resume b task =>
    unfold tellListener wakeTask
    dsimp only
    split
    · exact (plain_onBridge m b _).refocus rfl
    · exact (((plain_onBridge m b _).trans (plain_bridgeReport _ b _)).push rfl).trans
        (plain_enterBridge _ b)

theorem plain_notify (listeners : List (Listener C)) (o : Outcome Value) :
    Plain m (m.notify listeners o) := by
  cases listeners with
  | nil => exact .focused rfl
  | cons w rest => exact ((plain_retain m _).push rfl).trans (plain_tellListener _ w o)

theorem plain_await (held : C → List Handle) (c : Nat) (w : Listener C) :
    Plain m (m.await held c w) := by
  unfold await
  split
  · exact (plain_withStore m rfl).refocus rfl
  · exact ((plain_retain m _).push rfl).trans (plain_tellListener _ w _)
  · exact .focused rfl

theorem plain_drainNext (q ran : Nat) : Plain m (m.drainNext q ran) := by
  unfold drainNext
  split
  · next job rest _ =>
    have htaken : Plain m ((m.withStore fun s => { s with queues := s.queues.set q rest }).push
        (.draining q (ran + 1))) := (plain_withStore m rfl).push rfl
    cases job with
    | call code => exact (htaken.push rfl).refocus rfl
    | settle c o => exact (htaken.push rfl).trans (plain_settle _ c o)
  · exact .focused rfl

theorem plain_bridgeHead (b : Nat) : Plain m (m.bridgeHead b) := by
  unfold bridgeHead
  split
  · exact .focused rfl
  · split
    · exact (plain_onBridge m b _).refocus rfl
    · next action rest _ =>
      have htaken : Plain m ((m.onBridge b fun x => { x with stack := rest }).push (.driving b)) :=
        (plain_onBridge m b _).push rfl
      cases action <;> exact (htaken.push rfl).refocus rfl

theorem plain_taskBuilt (b settler : Nat) (script : Script C) :
    Plain m (m.taskBuilt b settler script) := by
  unfold taskBuilt
  split
  · exact .focused rfl
  · exact (((plain_onBridge m b _).trans (plain_bridgeReport _ b _)).trans
      (plain_onBridge _ b _)).refocus rfl

theorem plain_taskNotBuilt (b settler : Nat) (error : Error) :
    Plain m (m.taskNotBuilt b settler error) :=
  ((plain_bridgeReport m b _).push rfl).trans (plain_settle _ settler _)

theorem plain_taskStepped (held : C → List Handle) (b : Nat) (id : UInt64) (settler : Nat)
    (script : Script C) (step : Step C) :
    Plain m (m.taskStepped held b id settler script step) := by
  cases step with
  | done o => exact ((plain_bridgeReport m b _).push rfl).trans (plain_settle _ settler o)
  | yield i =>
    cases i with
    | await c =>
      exact (((plain_bridgeReport m b _).trans (plain_retain _ _)).push rfl).trans
        (plain_await _ held c _)
    | _ => exact .focused rfl

theorem plain_runTask (b : Nat) (code : C) : Plain m (m.runTask b code) := by
  have hpushed : Plain m ((((m.newCompletion.2.push (.holding [.bridge b])).push
      (.replying (.handle (.completion m.newCompletion.1)))).pushAction b
        (.start code m.newCompletion.1))) :=
    (((plain_withStore m rfl).push rfl).push rfl).trans (plain_onBridge _ b _)
  unfold runTask
  dsimp only
  split
  · exact hpushed.refocus rfl
  · exact hpushed.trans (plain_enterBridge _ b)

/-! ### Passes -/

theorem plain_endStep (p : Nat) (dropped : List Handle) : Plain m (m.endStep p dropped) :=
  (plain_push m rfl).refocus rfl

theorem plain_sweep (held : C → List Handle) (p : Nat) : Plain m (m.sweep held p) := by
  unfold sweep
  split
  · exact .focused rfl
  · next s hs =>
    have hswept := plain_onScheduler m p
      (f := fun _ => { s.freeUnclaimed.2 with current := none, retired := [] })
      fun s' hs' => by
        cases hs.symm.trans hs'
        exact Scheduler.unfailing_sweep s
    dsimp only
    split
    · exact hswept.refocus rfl
    · exact (hswept.push rfl).refocus rfl

theorem plain_startChild (p : Nat) (id : RoutineId) (origin : Origin) (script : Script C) :
    Plain m (m.startChild p id origin script) :=
  (plain_onScheduler m p fun s _ => Scheduler.unfailing_scheduleChild s origin script id).trans
    (plain_endStep _ p _)

theorem plain_captureNext (p : Nat) (id : RoutineId) (handler : C) (frames : List (Lifted C))
    (copies : List (Script C)) (left : List (Lifted C)) :
    Plain m (m.captureNext p id handler frames copies left) := by
  cases left with
  | nil =>
    exact (((plain_onScheduler m p fun s _ => (Scheduler.reworks_giveBackAll s frames).unfailing).trans
      (plain_withStore _ rfl)).push rfl).refocus rfl
  | cons frame left => exact (plain_push m rfl).refocus rfl

theorem plain_obey (p : Nat) (id : RoutineId) (script : Script C) (i : Instruction C) :
    Plain m (m.obey p id script i) := by
  have hshelved (s : Scheduler C) : s.Unfailing (s.shelve id script) :=
    (Scheduler.reworks_shelve s id script).unfailing
  have hsuspended := plain_onScheduler m p fun s _ =>
    (Scheduler.reworks_suspend s id script).unfailing
  cases i with
  | reset block =>
    have hpushed := plain_onScheduler m p (f := fun s => (s.shelve id script).push .boundary)
      fun s _ => (hshelved s).trans (.of_eq rfl rfl)
    exact (hpushed.push rfl).refocus rfl
  | shift handler =>
    unfold obey
    dsimp only
    split
    · exact plain_endStep m p []
    · next s hs =>
      refine (plain_onScheduler m p fun s' hs' => ?_).trans (plain_captureNext _ p id handler _ [] _)
      cases hs.symm.trans hs'
      exact (hshelved s).trans (Scheduler.reworks_lift _).unfailing
  | suspend => exact hsuspended.trans (plain_endStep _ p [])
  | splice nested =>
    exact (plain_onScheduler m p fun s _ => hshelved s).trans (plain_startChild _ p id .splice nested)
  | await c => exact hsuspended.trans (plain_endStep _ p _)

theorem plain_reinstate (p : Nat) (frames : List RoutineId) (v : Value) :
    Plain m (m.reinstate p frames v) :=
  (plain_onScheduler m p (f := fun s => s.reinstate frames v)
    fun _ _ => .of_success rfl rfl).refocus rfl

theorem plain_reinstateNext (k : Nat) (v : Value) (copies : List (Script C))
    (left : List (FrameCopy C)) : Plain m (m.reinstateNext k v copies left) := by
  cases left with
  | cons frame left => exact (plain_push m rfl).refocus rfl
  | nil =>
    unfold reinstateNext
    dsimp only
    split
    · exact .focused rfl
    · next snapshot _ =>
      split
      · exact .focused rfl
      · next s hs =>
        refine (plain_onScheduler m _ fun s' hs' => ?_).trans (plain_reinstate _ _ _ v)
        cases hs.symm.trans hs'
        exact (Scheduler.reworks_plant s snapshot.frames copies).unfailing

theorem plain_invoke (k : Nat) (v : Value) : Plain m (m.invoke k v) := by
  unfold invoke
  split
  · exact .focused rfl
  · next snapshot _ =>
    split
    · exact (plain_withStore m rfl).refocus rfl
    · have hheld : Plain m (((m.retain [.scheduler snapshot.home]).push
          (.holding [.scheduler snapshot.home])).withStore fun t =>
            { t with snapshots := t.snapshots.set k { snapshot with routines := none } }) :=
        ((plain_retain m _).push rfl).trans (plain_withStore _ rfl)
      dsimp only
      split
      · exact hheld.trans (plain_reinstateNext _ k v [] _)
      · split
        · exact hheld.trans (plain_reinstate _ _ _ v)
        · exact (hheld.trans (plain_withStore _ rfl)).trans (plain_reinstateNext _ k v [] _)

/-! ### Scripts -/

theorem plain_enterStage (held : C → List Handle) (s : Staged C) (input : Outcome Value) :
    Plain m (m.enterStage held s input) := by
  unfold enterStage
  split
  · exact .focused rfl
  · exact (plain_retain m _).refocus rfl
  · exact ((plain_retain m _).push rfl).refocus rfl

theorem plain_moveOwn (B : Behavior C R) (state : C) (exiting : Bool) (input : Outcome Value) :
    Plain m (m.moveOwn B state exiting input) :=
  ((plain_retain m _).push rfl).refocus rfl

theorem plain_exitScript (B : Behavior C R) (script : Script C) :
    Plain m (m.exitScript B script) := by
  cases script with
  | staged s =>
    show Plain m (m.exitStages B.held s)
    unfold exitStages
    split
    · exact ((plain_retain m _).push rfl).refocus rfl
    · exact .focused rfl
  | own state => exact plain_moveOwn m B state true .unit
  | root inner settler => exact (plain_push m rfl).refocus rfl
  | _ => exact .focused rfl

theorem plain_copyScript (B : Behavior C R) (script : Script C) :
    Plain m (m.copyScript B script) := by
  unfold copyScript
  split
  · exact (((plain_retain m _).push rfl).push rfl).refocus rfl
  · exact (plain_retain m _).refocus rfl

theorem plain_advanceScript (B : Behavior C R) (script : Script C) (input : Outcome Value) :
    Plain m (m.advanceScript B script input) := by
  cases script with
  | staged s => exact plain_enterStage m B.held s input
  | own state => exact plain_moveOwn m B state false input
  | exit inner progress =>
    unfold advanceScript
    dsimp only
    split
    · exact (plain_push m rfl).refocus rfl
    · exact ((plain_push m rfl).push rfl).refocus rfl
  | settled stored =>
    cases input with
    | success v => exact (plain_retain m _).refocus rfl
    | failure e => exact .focused rfl
  | reentry k value =>
    cases value with
    | none => exact .focused rfl
    | some v => exact ((plain_push m rfl).push rfl).trans (plain_invoke _ k v)
  | root inner settler => exact (plain_push m rfl).refocus rfl

theorem plain_exitStepped (progress : ForcedReturn) (inner : Script C) (step : Step C) :
    Plain m (m.exitStepped progress inner step) := by
  unfold exitStepped
  split
  · exact (plain_retain m _).refocus rfl
  · refine .focused ?_
    cases step <;> rfl

/-! ### Requests -/

theorem plain_takeKept (x : Nat) (dropped : List Handle)
    {f : Script C → Machine C R → Machine C R} (hf : ∀ script n, Plain n (f script n)) :
    Plain m (m.takeKept x dropped f) := by
  unfold takeKept
  split
  · exact ((plain_withStore m rfl).push rfl).trans (hf _ _)
  · exact .focused rfl

theorem plain_advanceKept (x : Nat) (input : Option (Outcome Value)) :
    Plain m (m.advanceKept x input) := by
  refine plain_takeKept m x _ fun script n => ?_
  cases input <;> exact (plain_push n rfl).refocus rfl

theorem plain_countRoutines (p : Nat) : Plain m (m.countRoutines p) := by
  unfold countRoutines
  dsimp only
  split
  · exact ((plain_push m rfl).push rfl).refocus rfl
  · exact (((plain_push m rfl).push rfl).push rfl).refocus rfl

end Machine

/-- The request neither enters a pass nor has to do with the failures of a scheduler. -/
def Request.plain : Request C → Bool
  | .evaluate _ _ => false
  | .start _ _ => false
  | .reenter _ _ _ => false
  | .newScheduler _ => false
  | .takeFailures _ => false
  | _ => true

namespace Machine

variable (m : Machine C R)

theorem plain_perform (B : Behavior C R) {request : Request C} (h : request.plain = true) :
    Plain m (m.perform B request) := by
  cases request with
  | readVariable name =>
    show Plain m (m.readVariable name)
    unfold readVariable
    split
    · exact (plain_retain m _).refocus rfl
    · exact .focused rfl
  | record note => exact (plain_withStore m rfl).refocus rfl
  | writeVariable name v =>
    exact (plain_withStore m (f := fun s => (s.writeShared name v).2) rfl).refocus rfl
  | removeVariable name =>
    exact (plain_withStore m (f := fun s => (s.removeShared name).2) rfl).refocus rfl
  | attempt code => exact (plain_push m rfl).refocus rfl
  | newCompletion => exact (plain_withStore m rfl).refocus rfl
  | settledCompletion o => exact (plain_withStore m rfl).refocus rfl
  | settle c o => exact (plain_push m rfl).trans (plain_settle _ c o)
  | outcome c =>
    unfold perform
    dsimp only
    split
    · exact (plain_retain m _).refocus rfl
    · exact .focused rfl
  | onSettle c code => exact (plain_push m rfl).trans (plain_await _ B.held c _)
  | newQueue => exact (plain_withStore m rfl).refocus rfl
  | defer q job => exact (plain_withStore m rfl).refocus rfl
  | settleLater q o =>
    exact ((plain_withStore m rfl).trans (plain_withStore _ rfl)).refocus rfl
  | drain q => exact ((plain_push m rfl).push rfl).refocus rfl
  | countRoutines p => exact plain_countRoutines m p
  | invoke k v => exact (plain_push m rfl).trans (plain_invoke _ k v)
  | newBridge settings => exact (plain_withStore m rfl).refocus rfl
  | run b code => exact plain_runTask m b code
  | keep script positioned => exact (plain_withStore m rfl).refocus rfl
  | advance x input => exact plain_advanceKept m x input
  | copy x => exact plain_takeKept m x _ fun script n => (plain_push n rfl).refocus rfl
  | position x =>
    show Plain m (m.positionKept x)
    unfold positionKept
    split <;> exact .focused rfl
  | evaluate p code => cases h
  | start p code => cases h
  | reenter p k v => cases h
  | newScheduler settings => cases h
  | takeFailures p => cases h
  | _ => exact .focused rfl

/-! ### Answers and panics -/

end Machine

/-- What is handed to the frame neither ends or enters a pass, nor reports a root, nor has
    to do with the failures of a scheduler. -/
def Frame.ordinary : Frame C R → Bool
  | .pass _ => false
  | .opening _ _ => false
  | .stepping _ _ => false
  | .inRoot _ => false
  | .reporting _ _ _ => false
  | .releasing _ _ => false
  | .reentered _ => false
  | _ => true

namespace Machine

variable (m : Machine C R)

theorem plain_deliver (B : Behavior C R) {a : Answer C} {f : Frame C R} (hf : f.ordinary = true)
    (hfocus : m.focus.report? = a.report?) : Plain m (m.deliver B a f) := by
  have hpass (hs : List Handle) : Plain m (m.drop hs a) :=
    .of_schedulers [] (fun _ => rfl) rfl (List.forall_mem_nil _) (Or.inr hfocus.symm)
  cases f with
  | code next =>
    unfold deliver
    dsimp only
    split
    · exact .focused rfl
    · exact (plain_push m rfl).refocus rfl
  | holding hs => exact hpass hs
  | attempting => exact hpass []
  | inExit progress =>
    unfold deliver
    dsimp only
    split
    · exact plain_exitStepped m progress _ _
    · exact hpass []
  | inStaged s => exact .focused (by cases a <;> first | rfl | (next step _ => cases step <;> rfl))
  | inOwn state => exact .focused (by cases a <;> first | rfl | (next step _ => cases step <;> rfl))
  | copying script => exact (plain_retain m _).refocus rfl
  | notifying listeners o => exact plain_notify m listeners o
  | draining q ran => exact plain_drainNext m q ran
  | building p id origin => exact plain_startChild m p id origin _
  | capturing p id handler frames copies left => exact plain_captureNext m p id handler frames _ left
  | sweeping p => exact plain_sweep m B.held p
  | firstPass p =>
    unfold deliver
    dsimp only
    split
    · next e =>
      exact (plain_onScheduler m p (f := fun s => s.report (.firstPassFailed e))
        fun _ _ => .of_eq rfl rfl).refocus rfl
    · exact hpass []
  | reinstating k v copies left => exact plain_reinstateNext m k v _ left
  | driving b => exact plain_bridgeHead m b
  | starting b settler =>
    unfold deliver
    dsimp only
    split
    · exact plain_taskNotBuilt m b settler _
    · exact plain_taskBuilt m b settler _
  | resuming b id settler =>
    unfold deliver
    dsimp only
    split
    · exact plain_taskStepped m B.held b id settler _ _
    · exact .focused rfl
  | advancing x =>
    unfold deliver
    dsimp only
    split
    · exact (plain_withStore m rfl).refocus rfl
    · exact hpass []
  | keepingCopy x script => exact ((plain_withStore m rfl).trans (plain_withStore _ rfl)).refocus rfl
  | pass p => cases hf
  | opening p settler => cases hf
  | stepping p id => cases hf
  | inRoot c => cases hf
  | reporting inner c o => cases hf
  | releasing rest onward => cases hf
  | reentered p => cases hf
  | _ => exact .focused rfl

/-- Panics do not report roots. -/
theorem plain_unwindFrame (B : Behavior C R) (payload : Payload) (salvage : Option (Script C))
    {f : Frame C R} (hf : ∀ p settler, f ≠ .opening p settler)
    (hcaught : ∀ p id, f = .stepping p id → m.catches p = false) :
    Plain m (m.unwindFrame B payload salvage f) := by
  cases f with
  | releasing rest onward =>
    unfold unwindFrame
    dsimp only
    split <;> exact .focused rfl
  | pass p =>
    exact (plain_onScheduler m p fun s _ => Scheduler.unfailing_leave s true).refocus rfl
  | stepping p id =>
    unfold unwindFrame
    dsimp only
    rw [hcaught p id rfl]
    exact .focused rfl
  | building p id origin =>
    unfold unwindFrame
    dsimp only
    split
    · exact plain_startChild m p id origin _
    · exact .focused rfl
  | opening p settler => exact absurd rfl (hf p settler)
  | driving b => exact (plain_onBridge m b _).refocus rfl
  | starting b settler =>
    unfold unwindFrame
    dsimp only
    split
    · exact plain_taskNotBuilt m b settler _
    · exact .focused rfl
  | resuming b id settler =>
    unfold unwindFrame
    dsimp only
    split
    · exact plain_taskStepped m B.held b id settler _ _
    · exact .focused rfl
  | advancing x =>
    cases salvage with
    | none => exact .focused rfl
    | some script => exact (plain_withStore m rfl).refocus rfl
  | keepingCopy x script => exact (plain_withStore m rfl).refocus rfl
  | _ => exact .focused rfl

/-! ### One move -/

variable {m}

/-- The next move concludes a routine of `p`, with this outcome. -/
def concludes? (p : Nat) (m : Machine C R) : Option (Outcome Value) :=
  match m.focus, m.control with
  | .release [] (.give (.stepped (.done o) _)), .stepping q _ :: _ => if q = p then some o else none
  | .release [] (.unwind payload _), .stepping q _ :: _ =>
    if q = p ∧ m.catches p = true then some (.failure (.panicked payload.message)) else none
  | _, _ => none

/-- The next move takes the failures that wait at `p`. -/
def takes (p : Nat) (m : Machine C R) : Bool :=
  match m.focus with
  | .release [] (.act (.ask (.takeFailures q) _)) => q = p
  | _ => false

/-- The failure in which a pass of `p` has ended that was entered from outside. -/
def recovers? (p : Nat) (m : Machine C R) : Option Error :=
  match m.focus, m.control with
  | .release [] (.give (.outcome (.failure e))), .reentered q :: _ => if q = p then some e else none
  | _, _ => none

/-- Somebody is about to report that the root of completion `c` is done with `o`. -/
def Reports (m : Machine C R) (c : Nat) (o : Outcome Value) : Prop :=
  m.focus.report? = some (c, o) ∨ ∃ f ∈ m.control, f.report? = some (c, o)

/-- What a move does, as far as entrances, reports and failures are concerned. -/
structure Course (m n : Machine C R) : Prop where
  supported : Supported m.control → Supported n.control
  reports : ∀ c o, n.Reports c o → m.Reports c o ∨ m.asked? c = some (.settling o)
  schedulers : ∀ p s', n.scheduler? p = some s' →
    (m.scheduler? p = none ∧ ∃ settings, s' = .new settings) ∨
    ∃ s, m.scheduler? p = some s ∧
      s'.unhandled = (if m.takes p then [] else s.unhandled ++ (m.recovers? p).toList) ∧
      ∀ e, s'.register = .failure e →
        m.concludes? p = some (.failure e) ∨ m.concludes? p = none ∧ s.register = .failure e

/-- Nothing but reports is about failures in the move. -/
structure Unconcerned (m : Machine C R) : Prop where
  concludes : ∀ p, m.concludes? p = none
  takes : ∀ p, m.takes p = false
  recovers : ∀ p, m.recovers? p = none

section Course

variable {n : Machine C R} {K fs : List (Frame C R)}

/-- No failure comes into a register. -/
theorem schedulers_of_unfailing (hquiet : m.Unconcerned)
    (h : ∀ p s', n.scheduler? p = some s' → ∃ s, m.scheduler? p = some s ∧ s.Unfailing s') (p : Nat)
    (s' : Scheduler C) (hs' : n.scheduler? p = some s') :
    (m.scheduler? p = none ∧ ∃ settings, s' = .new settings) ∨
    ∃ s, m.scheduler? p = some s ∧
      s'.unhandled = (if m.takes p then [] else s.unhandled ++ (m.recovers? p).toList) ∧
      ∀ e, s'.register = .failure e →
        m.concludes? p = some (.failure e) ∨ m.concludes? p = none ∧ s.register = .failure e := by
  obtain ⟨s, hs, hunfailing⟩ := h p s' hs'
  refine Or.inr ⟨s, hs, ?_, fun e he => Or.inr ⟨hquiet.concludes p, hunfailing.register e he⟩⟩
  rw [hquiet.takes p, hquiet.recovers p, hunfailing.unhandled]
  exact (List.append_nil _).symm

variable (fs) in
/-- Frames that report nothing have been put on, and the focus reports nothing new. -/
theorem reports_of_push (hcontrol : n.control = fs ++ K) (hK : K <:+ m.control)
    (hfs : ∀ f ∈ fs, f.report? = none)
    (hfocus : n.focus.report? = none ∨ n.focus.report? = m.focus.report?) (c : Nat)
    (o : Outcome Value) (h : n.Reports c o) :
    m.Reports c o ∨ m.asked? c = some (.settling o) := by
  refine Or.inl ?_
  rcases h with h | ⟨f, hf, h⟩
  · rcases hfocus with hnone | hsame
    · cases hnone.symm.trans h
    · exact Or.inl (hsame ▸ h)
  · rw [hcontrol, List.mem_append] at hf
    rcases hf with hf | hf
    · cases (hfs f hf).symm.trans h
    · exact Or.inr ⟨f, hK.subset hf, h⟩

/-- A plain move, once a frame may have been taken off. -/
theorem Plain.course (h : Plain ⟨m.store, K, m.focus⟩ n) (hK : K <:+ m.control)
    (hquiet : m.Unconcerned) : Course m n where
  supported hsupported := by
    obtain ⟨fs, hfs, hplain⟩ := h.control
    rw [hfs]
    exact (hsupported.of_suffix hK).push hplain
  reports := by
    obtain ⟨fs, hfs, hplain⟩ := h.control
    exact reports_of_push fs hfs hK (fun f hf => Frame.report?_of_passive (hplain f hf)) h.focus
  schedulers := schedulers_of_unfailing hquiet h.schedulers

end Course

section Moves

variable {K : List (Frame C R)} {B : Behavior C R}

/-- A root is opened: its pass is entered. -/
theorem course_openRoot {p : Nat} {settler : Option Nat} (script : Script C)
    (hcontrol : m.control = .opening p settler :: K) (hquiet : m.Unconcerned) :
    Course m ((⟨m.store, K, m.focus⟩ : Machine C R).openRoot p settler script) := by
  have hK : K <:+ m.control := hcontrol ▸ List.suffix_cons _ _
  have hopened (script : Script C) (q : Nat) (s' : Scheduler C)
      (hs' : ((m.onScheduler p fun s => s.scheduleRoot script).onScheduler p fun s =>
        { s with running := true }).scheduler? q = some s') :
      ∃ s, m.scheduler? q = some s ∧ s.Unfailing s' := by
    have hplain := (plain_onScheduler m p fun s _ => Scheduler.unfailing_scheduleRoot s script).trans
      (plain_onScheduler _ p (f := fun s => { s with running := true }) fun _ _ => .of_eq rfl rfl)
    exact hplain.schedulers q s' hs'
  cases settler with
  | none =>
    refine ⟨fun hsupported => ?_, reports_of_push [.pass p] rfl hK ?_ (Or.inl rfl),
      schedulers_of_unfailing hquiet (hopened script)⟩
    · rw [hcontrol] at hsupported
      refine ⟨?_, hsupported.2⟩
      generalize hnone : (none : Option Nat) = settler at hsupported
      cases hsupported.1 with
      | evaluated next L => exact .evaluated next L
      | started => cases hnone
    · simp [Frame.report?]
  | some c =>
    refine ⟨fun hsupported => ?_, reports_of_push [.pass p, .firstPass p] rfl hK ?_
      (Or.inl rfl), schedulers_of_unfailing hquiet (hopened (.root script c))⟩
    · rw [hcontrol] at hsupported
      refine ⟨?_, trivial, hsupported.2⟩
      generalize hsome : some c = settler at hsupported
      cases hsupported.1 with
      | evaluated => cases hsome
      | started c next L => exact .started c next L
    · simp [Frame.report?]

/-- The head of the loop: the pass goes on, or it ends. -/
theorem course_passHead {p : Nat} (hcontrol : m.control = .pass p :: K) (hquiet : m.Unconcerned) :
    Course m ((⟨m.store, K, m.focus⟩ : Machine C R).passHead p) := by
  have hK : K <:+ m.control := hcontrol ▸ List.suffix_cons _ _
  unfold passHead
  split
  · exact Plain.course (.focused rfl) hK hquiet
  · next s hs =>
    have hunhandled : s.pick.2.unhandled = s.unhandled := Scheduler.unhandled_pickFrom s.stack s
    split
    · next id script s' hpick =>
      rw [hpick] at hunhandled
      refine ⟨fun hsupported => ?_, reports_of_push [.stepping p id, .pass p] rfl hK ?_
        (Or.inl rfl), schedulers_of_unfailing hquiet ?_⟩
      · rw [hcontrol] at hsupported
        exact ⟨trivial, hsupported⟩
      · simp [Frame.report?]
      · refine (plain_onScheduler m p fun t ht => ?_).schedulers
        cases hs.symm.trans ht
        exact .of_success hunhandled rfl
    · next s' hpick =>
      rw [hpick] at hunhandled
      refine (Plain.refocus (plain_onScheduler _ p fun t ht => ?_) rfl).course hK hquiet
      cases hs.symm.trans ht
      exact Scheduler.Unfailing.trans (t := { s' with register := .unit })
        (.of_success hunhandled rfl) (Scheduler.unfailing_leave _ _)

/-- A routine is concluded: its outcome comes into the register. -/
theorem course_concludeStep {p : Nat} {id : RoutineId} {o : Outcome Value} (script : Script C)
    (hcontrol : m.control = .stepping p id :: K)
    (hconcludes : ∀ q, m.concludes? q = if p = q then some o else none)
    (htakes : ∀ q, m.takes q = false) (hrecovers : ∀ q, m.recovers? q = none) :
    Course m ((⟨m.store, K, m.focus⟩ : Machine C R).concludeStep p id script o) := by
  have hK : K <:+ m.control := hcontrol ▸ List.suffix_cons _ _
  refine ⟨fun hsupported => ?_, reports_of_push [.sweeping p] rfl hK ?_ (Or.inl rfl),
    fun q s' hs' => Or.inr ?_⟩
  · exact ⟨trivial, hsupported.of_suffix hK⟩
  · simp [Frame.report?]
  · rw [htakes, hrecovers, hconcludes]
    simp only [Bool.false_eq_true, if_false, Option.toList_none, List.append_nil]
    -- the handles of the outcome are counted first
    change ((m.retain _).onScheduler p fun s => s.conclude id script o).scheduler? q = some s' at hs'
    by_cases hq : p = q
    · subst hq
      rw [scheduler?_onScheduler, scheduler?_retain] at hs'
      obtain ⟨s, hs, rfl⟩ := Option.map_eq_some_iff.mp hs'
      obtain ⟨t, ht, heq⟩ := Scheduler.reworks_conclude s id script o
      refine ⟨s, hs, ?_, fun e he => Or.inl ?_⟩
      · rw [heq]
        exact ht.unhandled
      · rw [heq] at he
        rw [if_pos rfl]
        exact congrArg some he
    · rw [scheduler?_onScheduler_of_ne _ hq, scheduler?_retain] at hs'
      exact ⟨s', hs', rfl, fun e he => Or.inr ⟨if_neg hq, he⟩⟩

variable (m) in
/-- Something is let go of. -/
theorem unfailing_letGo (held : C → List Handle) (h : Handle) (p : Nat) (s' : Scheduler C)
    (hs' : (m.store.letGo held h).2.schedulers.find? p = some s') :
    ∃ s, m.scheduler? p = some s ∧ s.Unfailing s' := by
  have hsame {st : Store C} (hst : st.schedulers = m.store.schedulers)
      (hs' : st.schedulers.find? p = some s') :
      ∃ s, m.scheduler? p = some s ∧ s.Unfailing s' := by
    rw [hst] at hs'
    exact ⟨s', hs', .refl s'⟩
  cases h with
  | settler c =>
    unfold Store.letGo at hs'
    dsimp only at hs'
    split at hs'
    · exact hsame rfl hs'
    · split at hs'
      · split at hs' <;> exact hsame rfl hs'
      · exact hsame rfl hs'
  | continuation k =>
    unfold Store.letGo at hs'
    dsimp only at hs'
    split at hs'
    · exact hsame rfl hs'
    · next snapshot _ =>
      dsimp only at hs'
      split at hs'
      · next ids _ =>
        have hplain := (plain_withStore m rfl).trans (plain_onScheduler
          (m.withStore fun st => { st with snapshots := (st.snapshots.letGo k).2 }) snapshot.home
          (f := fun s => { s with unclaimed := s.unclaimed ++ ids }) fun _ _ => .of_eq rfl rfl)
        exact hplain.schedulers p s' hs'
      · exact hsame rfl hs'
  | scheduler q =>
    rcases Table.find?_letGo m.store.schedulers q p with heq | ⟨-, hnone⟩
    · exact ⟨s', heq.symm.trans hs', .refl s'⟩
    · cases hnone.symm.trans hs'
  | _ => exact hsame rfl hs'

theorem course_letGo {h : Handle} {rest : List Handle} {onward : Onward C R}
    (hfocus : m.focus = .release (h :: rest) onward) : Course m (m.letGo B h rest onward) := by
  have hquiet : m.Unconcerned := by
    refine ⟨fun p => ?_, fun p => ?_, fun p => ?_⟩
    · simp only [concludes?, hfocus]
    · simp only [takes, hfocus]
    · simp only [recovers?, hfocus]
  have honward : m.focus.report? = onward.report? := by rw [hfocus]; rfl
  have hsched := unfailing_letGo m B.held h
  unfold letGo
  split
  · next hs st hletGo =>
    rw [hletGo] at hsched
    exact Plain.course (K := m.control) ⟨hsched, ⟨[], rfl, List.forall_mem_nil _⟩,
      Or.inr honward.symm⟩ (List.suffix_refl _) hquiet
  · next c st hletGo =>
    rw [hletGo] at hsched
    -- the answer waits in the frame until everybody has been told
    have hsettled := plain_settle (({ m with store := st } : Machine C R).push
      (.releasing (.completion c :: rest) onward)) c (.failure .abandoned)
    obtain ⟨fs, hfs, hplain⟩ := hsettled.control
    refine ⟨fun hsupported => ?_, fun c' o hreports => ?_, schedulers_of_unfailing hquiet ?_⟩
    · rw [hfs]
      exact Supported.push (K := .releasing (.completion c :: rest) onward :: m.control)
        ⟨trivial, hsupported⟩ hplain
    · refine Or.inl ?_
      have hwaits : onward.report? = some (c', o) → m.Reports c' o := fun h =>
        Or.inl (honward.trans h)
      rcases hreports with hreport | ⟨f, hf, hreport⟩
      · rcases hsettled.focus with hnone | hsame
        · cases hnone.symm.trans hreport
        · exact Or.inl (hsame ▸ hreport)
      · rw [hfs, List.mem_append] at hf
        rcases hf with hf | hf
        · cases (Frame.report?_of_passive (hplain f hf)).symm.trans hreport
        · rcases List.mem_cons.mp hf with rfl | hf
          · exact hwaits hreport
          · exact Or.inr ⟨f, hf, hreport⟩
    · intro p s' hs'
      obtain ⟨t, ht, hunfailing⟩ := hsettled.schedulers p s' hs'
      obtain ⟨s, hs, hletGo'⟩ := hsched p t ht
      exact ⟨s, hs, hletGo'.trans hunfailing⟩

/-- Code asks for something. -/
theorem course_perform {request : Request C} {next : R}
    (hfocus : m.focus = .release [] (.act (.ask request next))) :
    Course m ((m.push (.code next)).perform B request) := by
  have hconcludes (p : Nat) : m.concludes? p = none := by simp only [concludes?, hfocus]
  have hrecovers (p : Nat) : m.recovers? p = none := by simp only [recovers?, hfocus]
  have hquiet (hnot : ∀ p, request ≠ .takeFailures p) : m.Unconcerned := by
    refine ⟨hconcludes, fun p => ?_, hrecovers⟩
    cases request with
    | takeFailures q => exact absurd rfl (hnot q)
    | _ => simp only [takes, hfocus]
  have hasks : Plain m (m.push (.code next)) := plain_push m rfl
  by_cases hplain : request.plain = true
  · refine Plain.course (K := m.control) (hasks.trans (plain_perform _ B hplain))
      (List.suffix_refl _) (hquiet ?_)
    rintro p rfl
    cases hplain
  cases request with
  | evaluate p code =>
    have hheld : Plain m ((m.push (.code next)).push (.holding [.scheduler p])) := hasks.push rfl
    unfold perform evaluate
    dsimp only
    split
    · exact Plain.course (K := m.control) (hheld.refocus rfl) (List.suffix_refl _)
        (hquiet fun _ => nofun)
    · refine ⟨fun hsupported => ?_, reports_of_push (K := m.control)
        [.opening p none, .holding [.scheduler p], .code next] rfl (List.suffix_refl _) ?_
        (Or.inl rfl), schedulers_of_unfailing (hquiet fun _ => nofun) hheld.schedulers⟩
      · exact ⟨.evaluated next _, trivial, trivial, hsupported⟩
      · simp [Frame.report?]
  | start p code =>
    have hheld : Plain m ((m.push (.code next)).push (.holding [.scheduler p])) := hasks.push rfl
    unfold perform start
    dsimp only
    split
    · exact Plain.course (K := m.control) ((hheld.trans (plain_withStore _ rfl)).refocus rfl)
        (List.suffix_refl _) (hquiet fun _ => nofun)
    · have hnew := hheld.trans (plain_withStore _
        (f := fun s => { s with completions := (m.store.completions.alloc 2 ⟨.pending [], 1⟩).2 }) rfl)
      refine ⟨fun hsupported => ?_, reports_of_push (K := m.control)
        [.opening p _, .replying _, .holding [.scheduler p], .code next] rfl
        (List.suffix_refl _) ?_ (Or.inl rfl),
        schedulers_of_unfailing (hquiet fun _ => nofun) hnew.schedulers⟩
      · exact ⟨.started _ next _, trivial, trivial, trivial, hsupported⟩
      · simp [Frame.report?]
  | reenter p k v =>
    have hheld : Plain m ((m.push (.code next)).push (.holding [.continuation k])) := hasks.push rfl
    unfold perform reenter
    dsimp only
    split
    · exact Plain.course (K := m.control) ((hheld.trans (plain_withStore _ rfl)).refocus rfl)
        (List.suffix_refl _) (hquiet fun _ => nofun)
    · next s hs =>
      have hretained : Plain m ((((m.push (.code next)).push (.holding [.continuation k])).retain
          (.scheduler p :: .continuation k :: v.handles)).push (.holding [.scheduler p])) :=
        (hheld.trans (plain_retain _ _)).push rfl
      have hfound : (m.retain (.scheduler p :: .continuation k :: v.handles)).scheduler? p = some s := by
        rw [scheduler?_retain]
        exact hs
      split
      · refine Plain.course (K := m.control) ((hretained.trans
          (plain_onScheduler _ p fun t ht => ?_)).refocus rfl) (List.suffix_refl _)
          (hquiet fun _ => nofun)
        cases hfound.symm.trans ht
        exact .of_eq rfl rfl
      · have hentered := hretained.trans ((plain_onScheduler _ p (f := fun _ =>
            { (s.add .reenter (.reentry k (some v))).2.push
                (.routine (s.add .reenter (.reentry k (some v))).1) with
              register := .success v }.report .reentering) fun t ht => by
            cases hfound.symm.trans ht
            exact .of_success rfl rfl).trans
          (plain_onScheduler _ p (f := fun s => { s with running := true }) fun _ _ => .of_eq rfl rfl))
        refine ⟨fun hsupported => ?_, reports_of_push (K := m.control)
          [.pass p, .reentered p, .holding [.scheduler p], .holding [.continuation k],
            .code next] rfl (List.suffix_refl _) ?_ (Or.inl rfl),
          schedulers_of_unfailing (hquiet fun _ => nofun) hentered.schedulers⟩
        · exact ⟨.reentered k next _, trivial, trivial, trivial, trivial, hsupported⟩
        · simp [Frame.report?]
  | newScheduler settings =>
    have hcode : ∀ f ∈ [Frame.code (C := C) next], f.report? = none := by simp [Frame.report?]
    refine ⟨fun hsupported => ⟨trivial, hsupported⟩, reports_of_push (K := m.control)
      [.code next] rfl (List.suffix_refl _) hcode (Or.inl rfl), fun p s' hs' => ?_⟩
    -- a new scheduler has a number of its own
    change ((m.store.schedulers.alloc 1 (.new settings)).2).find? p = some s' at hs'
    rw [Table.find?_alloc] at hs'
    split at hs'
    · next hp =>
      cases hs'
      exact Or.inl ⟨Table.find?_of_size_le (Nat.le_of_eq hp.symm), settings, rfl⟩
    · exact schedulers_of_unfailing (hquiet fun _ => nofun) (n := m)
        (fun p s' hs' => ⟨s', hs', .refl s'⟩) p s' hs'
  | takeFailures p =>
    have hcode : ∀ f ∈ [Frame.code (C := C) next], f.report? = none := by simp [Frame.report?]
    refine ⟨fun hsupported => ⟨trivial, hsupported⟩, reports_of_push (K := m.control)
      [.code next] rfl (List.suffix_refl _) hcode (Or.inl rfl), fun q s' hs' => Or.inr ?_⟩
    change ((m.push (.code next)).onScheduler p fun s => { s with unhandled := [] }).scheduler? q =
      some s' at hs'
    by_cases hq : p = q
    · subst hq
      rw [scheduler?_onScheduler] at hs'
      obtain ⟨s, hs, rfl⟩ := Option.map_eq_some_iff.mp hs'
      refine ⟨s, hs, ?_, fun e he => Or.inr ⟨hconcludes p, he⟩⟩
      simp only [takes, hfocus, decide_true, if_true]
    · rw [scheduler?_onScheduler_of_ne _ hq] at hs'
      refine ⟨s', hs', ?_, fun e he => Or.inr ⟨hconcludes q, he⟩⟩
      simp only [takes, hfocus, decide_eq_false hq, Bool.false_eq_true, if_false, hrecovers,
        Option.toList_none, List.append_nil]
  | _ => exact absurd rfl hplain

/-- The script of a root is done: its completion is asked to settle before the outcome is
    reported. -/
theorem course_rootDone {c : Nat} {inner : Script C} {o : Outcome Value}
    (hfocus : m.focus = .release [] (.give (.stepped (.done o) inner)))
    (hcontrol : m.control = .inRoot c :: K) (hquiet : m.Unconcerned) :
    Course m ((⟨m.store, K, m.focus⟩ : Machine C R).rootStepped c inner (.done o)) := by
  have hK : K <:+ m.control := hcontrol ▸ List.suffix_cons _ _
  have hasked : m.asked? c = some (.settling o) := by
    simp only [asked?, hfocus, hcontrol, List.head?_cons, Option.bind_some, Frame.asks?,
      Step.rootAsks?, if_true]
  have hsettled := plain_settle ((((⟨m.store, K, m.focus⟩ : Machine C R).retain o.handles).push
    (.reporting inner c o))) c o
  obtain ⟨fs, hfs, hplain⟩ := hsettled.control
  refine ⟨fun hsupported => ?_, fun c' o' hreports => ?_, schedulers_of_unfailing hquiet ?_⟩
  · exact (congrArg Supported hfs).mpr
      (Supported.push (K := .reporting inner c o :: K) ⟨trivial, hsupported.of_suffix hK⟩ hplain)
  · rcases hreports with hnow | ⟨g, hg, hnow⟩
    · rcases hsettled.focus with hnone | hsame
      · cases hnone.symm.trans hnow
      · exact Or.inl (Or.inl (hsame.symm.trans hnow))
    · change g ∈ (Machine.settle _ c o).control at hg
      rw [hfs, List.mem_append] at hg
      rcases hg with hg | hg
      · cases (Frame.report?_of_passive (hplain g hg)).symm.trans hnow
      · rcases List.mem_cons.mp hg with rfl | hg
        · cases hnow
          exact Or.inr hasked
        · exact Or.inl (Or.inr ⟨g, hK.subset hg, hnow⟩)
  · intro p s' hs'
    obtain ⟨t, ht, hunfailing⟩ := hsettled.schedulers p s' hs'
    exact ⟨t, (scheduler?_retain _ _ p).symm.trans ht, hunfailing⟩

/-- A frame gives what has waited in it. -/
theorem course_of_waiting {n : Machine C R} {f : Frame C R} (hcontrol : m.control = f :: K)
    (hn : n.control = K) (hsched : ∀ p, n.scheduler? p = m.scheduler? p)
    (hreport : n.focus.report? = f.report?) (hquiet : m.Unconcerned) : Course m n := by
  have hK : K <:+ m.control := hcontrol ▸ List.suffix_cons _ _
  refine ⟨fun hsupported => hn ▸ hsupported.of_suffix hK, fun c o hreports => Or.inl (Or.inr ?_),
    schedulers_of_unfailing hquiet fun p s' hs' => ⟨s', (hsched p).symm.trans hs', .refl s'⟩⟩
  rcases hreports with hnow | ⟨g, hg, hnow⟩
  · exact ⟨f, hcontrol ▸ List.mem_cons_self, hreport.symm.trans hnow⟩
  · exact ⟨g, hK.subset (hn ▸ hg), hnow⟩

/-- A pass that was entered from outside has ended in a failure, which is kept. -/
theorem course_recovers {p : Nat} {e : Error}
    (hfocus : m.focus = .release [] (.give (.outcome (.failure e))))
    (hcontrol : m.control = .reentered p :: K) :
    Course m (((⟨m.store, K, m.focus⟩ : Machine C R).onScheduler p fun s =>
      { s with unhandled := s.unhandled ++ [e] }.report (.reentryFailed e)).give .nothing) := by
  have hK : K <:+ m.control := hcontrol ▸ List.suffix_cons _ _
  have hconcludes (q : Nat) : m.concludes? q = none := by simp only [concludes?, hfocus]
  have htakes (q : Nat) : m.takes q = false := by simp only [takes, hfocus]
  have hrecovers (q : Nat) : m.recovers? q = if p = q then some e else none := by
    simp only [recovers?, hfocus, hcontrol]
  refine ⟨fun hsupported => hsupported.of_suffix hK, reports_of_push [] rfl hK
    (List.forall_mem_nil _) (Or.inl rfl), fun q s' hs' => Or.inr ?_⟩
  simp only [htakes, hrecovers, Bool.false_eq_true, if_false]
  by_cases hq : p = q
  · subst hq
    obtain ⟨s, hs, rfl⟩ := Option.map_eq_some_iff.mp
      ((scheduler?_onScheduler (⟨m.store, K, m.focus⟩ : Machine C R) p _).symm.trans hs')
    refine ⟨s, hs, ?_, fun _ he => Or.inr ⟨hconcludes p, he⟩⟩
    rw [if_pos rfl]
    rfl
  · refine ⟨s', (scheduler?_onScheduler_of_ne _ hq _).symm.trans hs', ?_,
      fun _ he => Or.inr ⟨hconcludes q, he⟩⟩
    rw [if_neg hq]
    exact (List.append_nil _).symm

/-- An answer is handed to the frame on top. -/
theorem course_deliver {a : Answer C} {f : Frame C R} (hfocus : m.focus = .release [] (.give a))
    (hcontrol : m.control = f :: K) :
    Course m ((⟨m.store, K, m.focus⟩ : Machine C R).deliver B a f) := by
  have hK : K <:+ m.control := hcontrol ▸ List.suffix_cons _ _
  have hreport : m.focus.report? = a.report? := by rw [hfocus]; rfl
  have htakes (p : Nat) : m.takes p = false := by simp only [takes, hfocus]
  have hquiet (hstep : ∀ p id o script, f = .stepping p id → a ≠ .stepped (.done o) script)
      (hre : ∀ p e, f = .reentered p → a ≠ .outcome (.failure e)) : m.Unconcerned := by
    refine ⟨fun p => ?_, htakes, fun p => ?_⟩
    · unfold concludes?
      rw [hfocus, hcontrol]
      split
      · next o script q id rest heq hc =>
        cases heq
        cases hc
        exact absurd rfl (hstep q id o script rfl)
      · next heq _ => cases heq
      · rfl
    · unfold recovers?
      rw [hfocus, hcontrol]
      split
      · next e q rest heq hc =>
        cases heq
        cases hc
        exact absurd rfl (hre q e rfl)
      · rfl
  have hpass (hs : List Handle) (hcalm : m.Unconcerned) :
      Course m ((⟨m.store, K, m.focus⟩ : Machine C R).drop hs a) :=
    Plain.course (.of_schedulers [] (fun _ => rfl) rfl (List.forall_mem_nil _)
      (Or.inr hreport.symm)) hK hcalm
  by_cases hordinary : f.ordinary = true
  · refine (plain_deliver ⟨m.store, K, m.focus⟩ B hordinary hreport).course hK (hquiet ?_ ?_)
    · rintro p id o script rfl
      cases hordinary
    · rintro p e rfl
      cases hordinary
  cases f with
  | pass p => exact course_passHead hcontrol (hquiet (fun _ _ _ _ => nofun) fun _ _ => nofun)
  | opening p settler =>
    exact course_openRoot _ hcontrol (hquiet (fun _ _ _ _ => nofun) fun _ _ => nofun)
  | stepping p id =>
    cases a with
    | stepped step script =>
      cases step with
      | done o =>
        refine course_concludeStep script hcontrol (fun q => ?_) htakes fun q => ?_
        · simp only [concludes?, hfocus, hcontrol]
        · simp only [recovers?, hfocus]
      | yield i =>
        exact (plain_obey ⟨m.store, K, m.focus⟩ p id script i).course hK
          (hquiet (fun _ _ _ _ _ => nofun) fun _ _ => nofun)
    | _ =>
      exact (plain_endStep ⟨m.store, K, m.focus⟩ p _).course hK
        (hquiet (fun _ _ _ _ _ => nofun) fun _ _ => nofun)
  | inRoot c =>
    have hcalm := hquiet (fun _ _ _ _ => nofun) fun _ _ => nofun
    cases a with
    | stepped step inner =>
      cases step with
      | yield i => exact (Plain.focused rfl).course hK hcalm
      | done o => exact course_rootDone hfocus hcontrol hcalm
    | _ => exact hpass [] hcalm
  | reporting inner c o =>
    exact course_of_waiting hcontrol rfl (fun _ => rfl) rfl
      (hquiet (fun _ _ _ _ => nofun) fun _ _ => nofun)
  | releasing rest onward =>
    exact course_of_waiting hcontrol rfl (fun _ => rfl) rfl
      (hquiet (fun _ _ _ _ => nofun) fun _ _ => nofun)
  | reentered p =>
    by_cases hfailed : ∃ e, a = .outcome (.failure e)
    · obtain ⟨e, rfl⟩ := hfailed
      exact course_recovers hfocus hcontrol
    · have hcalm := hquiet (fun _ _ _ _ => nofun) fun _ e _ ha => hfailed ⟨e, ha⟩
      unfold deliver
      dsimp only
      split
      · next e => exact absurd ⟨e, rfl⟩ hfailed
      · exact (Plain.focused rfl).course hK hcalm
  | _ => exact absurd rfl hordinary

/-- A panic passes the frame on top. -/
theorem course_unwindFrame {payload : Payload} {salvage : Option (Script C)} {f : Frame C R}
    (hfocus : m.focus = .release [] (.unwind payload salvage)) (hcontrol : m.control = f :: K) :
    Course m ((⟨m.store, K, m.focus⟩ : Machine C R).unwindFrame B payload salvage f) := by
  have hK : K <:+ m.control := hcontrol ▸ List.suffix_cons _ _
  have htakes (p : Nat) : m.takes p = false := by simp only [takes, hfocus]
  have hrecovers (p : Nat) : m.recovers? p = none := by simp only [recovers?, hfocus]
  have hquiet (hstep : ∀ p id, f = .stepping p id → m.catches p = false) : m.Unconcerned := by
    refine ⟨fun p => ?_, htakes, hrecovers⟩
    unfold concludes?
    rw [hfocus, hcontrol]
    split
    · next heq _ => cases heq
    · next payload' salvage' q id rest heq hc =>
      cases heq
      cases hc
      refine if_neg ?_
      rintro ⟨rfl, hcatches⟩
      cases (hstep q id rfl).symm.trans hcatches
    · rfl
  by_cases hopening : ∃ p settler, f = .opening p settler
  · obtain ⟨p, settler, rfl⟩ := hopening
    have hquiet := hquiet fun _ _ => nofun
    unfold unwindFrame
    dsimp only
    split
    · exact course_openRoot _ hcontrol hquiet
    · exact (Plain.focused rfl).course hK hquiet
  by_cases hcaught : ∃ p id, f = .stepping p id ∧ m.catches p = true
  · obtain ⟨p, id, rfl, hcatches⟩ := hcaught
    have hconcludes (q : Nat) : m.concludes? q =
        if p = q then some (.failure (.panicked payload.message)) else none := by
      simp only [concludes?, hfocus, hcontrol]
      by_cases hq : p = q
      · subst hq
        rw [if_pos ⟨rfl, hcatches⟩, if_pos rfl]
      · rw [if_neg (fun h => hq h.1), if_neg hq]
    have hcourse := course_concludeStep (salvage.getD (.returning .unit)) hcontrol
      hconcludes htakes hrecovers
    unfold unwindFrame
    dsimp only
    rw [if_pos (show (⟨m.store, K, m.focus⟩ : Machine C R).catches p = true from hcatches)]
    exact hcourse
  · have hnot (p : Nat) (id : RoutineId) (hf : f = .stepping p id) : m.catches p = false :=
      Bool.eq_false_iff.mpr fun h => hcaught ⟨p, id, hf, h⟩
    exact (plain_unwindFrame ⟨m.store, K, m.focus⟩ B payload salvage
      (fun p settler hf => hopening ⟨p, settler, hf⟩) hnot).course hK (hquiet hnot)

/-- What one move does. -/
theorem course_step (m : Machine C R) (B : Behavior C R) : Course m (m.step B) := by
  -- wherever no answer, no panic and no request is in focus
  have hquiet (hgive : ∀ a, m.focus ≠ .release [] (.give a))
      (hunwind : ∀ payload salvage, m.focus ≠ .release [] (.unwind payload salvage))
      (hask : ∀ request next, m.focus ≠ .release [] (.act (.ask request next))) :
      m.Unconcerned := by
    refine ⟨fun p => ?_, fun p => ?_, fun p => ?_⟩
    · unfold concludes?
      split
      · next heq _ => exact absurd heq (hgive _)
      · next heq _ => exact absurd heq (hunwind _ _)
      · rfl
    · unfold takes
      split
      · next heq => exact absurd heq (hask _ _)
      · rfl
    · unfold recovers?
      split
      · next heq _ => exact absurd heq (hgive _)
      · rfl
  have hself : m.Unconcerned → Course m m := fun hquiet =>
    Plain.course (K := m.control) (.of_schedulers [] (fun _ => rfl) rfl (List.forall_mem_nil _)
      (Or.inr rfl)) (List.suffix_refl _) hquiet
  have hplain {n : Machine C R} (h : Plain m n) (hquiet : m.Unconcerned) : Course m n :=
    Plain.course (K := m.control) h (List.suffix_refl _) hquiet
  cases hf : m.focus with
  | advance script input =>
    simp only [step, hf]
    exact hplain (plain_advanceScript m B script input) (hquiet (by simp [hf]) (by simp [hf]) (by simp [hf]))
  | exit script =>
    simp only [step, hf]
    exact hplain (plain_exitScript m B script) (hquiet (by simp [hf]) (by simp [hf]) (by simp [hf]))
  | copy script =>
    simp only [step, hf]
    exact hplain (plain_copyScript m B script) (hquiet (by simp [hf]) (by simp [hf]) (by simp [hf]))
  | aborted =>
    simp only [step, hf]
    exact hself (hquiet (by simp [hf]) (by simp [hf]) (by simp [hf]))
  | release hs onward =>
    cases hs with
    | cons h rest =>
      simp only [step, hf]
      exact course_letGo hf
    | nil =>
      simp only [step, hf, goOn]
      cases onward with
      | begin code entry =>
        exact hplain ((plain_retain m _).refocus rfl) (hquiet (by simp [hf]) (by simp [hf]) (by simp [hf]))
      | tell state signal =>
        refine hplain ?_ (hquiet (by simp [hf]) (by simp [hf]) (by simp [hf]))
        unfold tell
        dsimp only [recount]
        split <;> exact (plain_retain m _).refocus rfl
      | act reaction =>
        cases reaction with
        | ask request next => exact course_perform hf
        | _ => exact hplain (.focused rfl) (hquiet (by simp [hf]) (by simp [hf]) (by simp [hf]))
      | give a =>
        cases hc : m.control with
        | nil =>
          refine hself ⟨fun p => ?_, fun p => ?_, fun p => ?_⟩
          · simp only [concludes?, hf, hc]
          · simp only [takes, hf]
          · simp only [recovers?, hf, hc]
        | cons f K =>
          have hcourse := course_deliver (B := B) hf hc
          rwa [hf] at hcourse
      | unwind payload salvage =>
        cases hc : m.control with
        | nil =>
          refine hself ⟨fun p => ?_, fun p => ?_, fun p => ?_⟩
          · simp only [concludes?, hf, hc]
          · simp only [takes, hf]
          · simp only [recovers?, hf]
        | cons f K =>
          have hcourse := course_unwindFrame (B := B) hf hc
          rwa [hf] at hcourse

end Moves

end Machine

end Strand
