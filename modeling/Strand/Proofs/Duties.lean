import Strand.Proofs.Acts

/-! # Duties — the frames with which a scheduler is at work

    Few frames of the control stack have to do with one scheduler, and few
    moves touch them.

    * `Machine.duties` are these frames, and `Scheduler.pace` is what the
      scheduler says about them itself.
    * A move that does not take one of these frames off leaves both alone, or
      begins or ends the work of the scheduler as a whole (`quiet_step`). -/

namespace Strand

variable {C R : Type}

/-- The frames with which scheduler `p` is at work, or about to be. -/
def Frame.attends (p : Nat) : Frame C R → Bool
  | .pass q => q = p
  | .stepping q _ => q = p
  | .building q _ _ => q = p
  | .capturing q _ _ _ _ _ => q = p
  | .sweeping q => q = p
  | .opening q _ => q = p
  | _ => false

theorem Frame.attends_of_of {p : Nat} {f : Frame C R} (h : f.of p = true) :
    f.attends p = true := by
  cases f <;> first | exact h | cases h

namespace Machine

variable {p : Nat} (m : Machine C R)

/-- The frames of a machine with which scheduler `p` is at work. -/
def duties (p : Nat) (m : Machine C R) : List (Frame C R) := m.control.filter (Frame.attends p)

/-! ### Moves that leave the work of a scheduler alone -/

theorem duties_settle (c : Nat) (o : Outcome Value) : (m.settle c o).duties p = m.duties p := by
  unfold settle
  split <;> rfl

theorem duties_wakeTask (b : Nat) (task : Task C) (o : Outcome Value) :
    (m.wakeTask b task o).duties p = m.duties p := by
  unfold wakeTask
  dsimp only
  split <;> rfl

theorem duties_tellListener (w : Listener C) (o : Outcome Value) :
    (m.tellListener w o).duties p = m.duties p := by
  cases w with
  | call code => rfl
  | resume b task => exact duties_wakeTask m b task o

theorem duties_notify (listeners : List (Listener C)) (o : Outcome Value) :
    (m.notify listeners o).duties p = m.duties p := by
  cases listeners with
  | nil => rfl
  | cons w rest => exact duties_tellListener ((m.retain o.handles).push (.notifying rest o)) w o

theorem duties_await (held : C → List Handle) (c : Nat) (w : Listener C) :
    (m.await held c w).duties p = m.duties p := by
  unfold await
  split
  · rfl
  · next o _ _ => exact duties_tellListener ((m.retain o.handles).push (.replying .unit)) w o
  · rfl

theorem duties_runJob (job : Job C) : (m.runJob job).duties p = m.duties p := by
  cases job with
  | call code => rfl
  | settle c o => exact duties_settle (m.push (.holding [.settler c])) c o

theorem duties_drainNext (q ran : Nat) : (m.drainNext q ran).duties p = m.duties p := by
  unfold drainNext
  split
  · next job rest _ =>
    exact duties_runJob ((m.withStore fun s =>
      { s with queues := s.queues.set q rest }).push (.draining q (ran + 1))) job
  · rfl

theorem duties_bridgeHead (b : Nat) : (m.bridgeHead b).duties p = m.duties p := by
  unfold bridgeHead
  split
  · rfl
  · split
    · rfl
    · next action rest _ => cases action <;> rfl

theorem duties_taskBuilt (b settler : Nat) (script : Script C) :
    (m.taskBuilt b settler script).duties p = m.duties p := by
  unfold taskBuilt
  split <;> rfl

theorem duties_taskNotBuilt (b settler : Nat) (error : Error) :
    (m.taskNotBuilt b settler error).duties p = m.duties p :=
  duties_settle ((m.withStore (·.bridgeReport b (.taskNotStarted error))).push
    (.holding [.settler settler])) settler (.failure error)

theorem duties_taskStepped (held : C → List Handle) (b : Nat) (id : UInt64) (settler : Nat)
    (script : Script C) (step : Step C) :
    (m.taskStepped held b id settler script step).duties p = m.duties p := by
  cases step with
  | done o =>
    exact duties_settle ((m.withStore (·.bridgeReport b (.taskFinished id o.isSuccess))).push
      (.holding (.settler settler :: script.handles held))) settler o
  | yield i =>
    cases i with
    | await c =>
      exact duties_await (((m.withStore (·.bridgeReport b (.taskAwaiting id))).retain
        [.bridge b]).push (.holding [.completion c])) held c (.resume b ⟨id, script, settler⟩)
    | _ => rfl

theorem duties_runTask (b : Nat) (code : C) : (m.runTask b code).duties p = m.duties p := by
  unfold runTask
  dsimp only
  split <;> rfl

theorem duties_enterStage (held : C → List Handle) (s : Staged C) (input : Outcome Value) :
    (m.enterStage held s input).duties p = m.duties p := by
  unfold enterStage
  split <;> rfl

theorem duties_exitScript (B : Behavior C R) (script : Script C) :
    (m.exitScript B script).duties p = m.duties p := by
  cases script with
  | staged s =>
    show (m.exitStages B.held s).duties p = _
    unfold exitStages
    split <;> rfl
  | _ => rfl

theorem duties_copyScript (B : Behavior C R) (script : Script C) :
    (m.copyScript B script).duties p = m.duties p := by
  unfold copyScript
  split <;> rfl

theorem duties_takeKept (x : Nat) (dropped : List Handle) {f : Script C → Machine C R → Machine C R}
    (hf : ∀ script n, (f script n).duties p = n.duties p) :
    (m.takeKept x dropped f).duties p = m.duties p := by
  unfold takeKept
  split
  · exact hf _ _
  · rfl

theorem duties_advanceKept (x : Nat) (input : Option (Outcome Value)) :
    (m.advanceKept x input).duties p = m.duties p := by
  unfold advanceKept
  exact duties_takeKept m x _ fun script n => by cases input <;> rfl

theorem duties_positionKept (x : Nat) : (m.positionKept x).duties p = m.duties p := by
  unfold positionKept
  split <;> rfl

theorem duties_exitStepped (progress : ForcedReturn) (inner : Script C) (step : Step C) :
    (m.exitStepped progress inner step).duties p = m.duties p := by
  unfold exitStepped
  split <;> rfl

theorem duties_rootStepped (settler : Nat) (inner : Script C) (step : Step C) :
    (m.rootStepped settler inner step).duties p = m.duties p := by
  cases step with
  | done o => exact duties_settle ((m.retain o.handles).push (.reporting inner settler o)) settler o
  | yield i => rfl

theorem duties_reinstateNext (k : Nat) (v : Value) (copies : List (Script C))
    (left : List (FrameCopy C)) : (m.reinstateNext k v copies left).duties p = m.duties p := by
  unfold reinstateNext
  split
  · rfl
  · split
    · rfl
    · split <;> rfl

theorem duties_invoke (k : Nat) (v : Value) : (m.invoke k v).duties p = m.duties p := by
  unfold invoke
  split
  · rfl
  · split
    · rfl
    · dsimp only
      split
      · exact duties_reinstateNext _ k v [] _
      · split
        · rfl
        · exact duties_reinstateNext _ k v [] _

theorem duties_advanceScript (B : Behavior C R) (script : Script C) (input : Outcome Value) :
    (m.advanceScript B script input).duties p = m.duties p := by
  cases script with
  | staged s => exact duties_enterStage m B.held s input
  | exit inner progress =>
    unfold advanceScript
    dsimp only
    split <;> rfl
  | settled stored => cases input <;> rfl
  | reentry k value =>
    cases value with
    | none => rfl
    | some v => exact duties_invoke ((m.push (.inReentry k)).push (.holding input.handles)) k v
  | _ => rfl

theorem duties_letGo (B : Behavior C R) (h : Handle) (rest : List Handle) (onward : Onward C R) :
    (m.letGo B h rest onward).duties p = m.duties p := by
  unfold letGo
  split
  · rfl
  · exact duties_settle _ _ _

end Machine

/-! ### Whether a pass is under way, and with which routine -/

namespace Scheduler

variable {p : Nat} {s : Scheduler C}

/-- Whether a pass is under way, and the routine whose step is. -/
def pace (s : Scheduler C) : Bool × Option RoutineId := (s.running, s.current)

/-- That, and the captured routines that nobody has claimed. -/
def badge (s : Scheduler C) : (Bool × Option RoutineId) × List RoutineId := (s.pace, s.unclaimed)

theorem pace_of_badge {t : Scheduler C} (h : t.badge = s.badge) : t.pace = s.pace :=
  congrArg Prod.fst h

theorem badge_link (c : RoutineId) (parent : Option RoutineId) : (s.link c parent).badge = s.badge := by
  unfold link
  cases s.liveParent parent <;> rfl

theorem badge_addCopies (frames : List (FrameCopy C × Script C)) (s : Scheduler C) :
    (addCopies frames s).2.badge = s.badge := by
  induction frames generalizing s with
  | nil => rfl
  | cons pair frames ih => exact ih (s.add pair.1.origin pair.2).2

theorem badge_plant (s : Scheduler C) (frames : List (FrameCopy C)) (copies : List (Script C)) :
    (s.plant frames copies).2.badge = s.badge := by
  have hlinks : ∀ (ids : List RoutineId) (pairs : List (FrameCopy C × RoutineId))
      (t : Scheduler C), (pairs.foldl (fun s pair =>
        s.link pair.2 (pair.1.parent.resolve ids)) t).badge = t.badge := by
    intro ids pairs
    induction pairs with
    | nil => exact fun t => rfl
    | cons pair pairs ih => exact fun t => (ih _).trans (badge_link _ _)
  exact (hlinks _ _ _).trans (badge_addCopies (frames.zip copies) s)

theorem badge_giveBack (s : Scheduler C) (id : RoutineId) (script : Script C) :
    (s.giveBack id script).badge = s.badge := by
  unfold giveBack
  split <;> rfl

theorem badge_shelve (s : Scheduler C) (id : RoutineId) (script : Script C) :
    (s.shelve id script).badge = s.badge := by
  unfold shelve
  split
  · exact badge_giveBack s id script
  · rfl

theorem badge_liftFrom (stack : List StackEntry) (lifted : List (Lifted C)) (s : Scheduler C) :
    (liftFrom stack lifted s).2.badge = s.badge := by
  induction stack generalizing lifted s with
  | nil => rfl
  | cons entry rest ih =>
    cases entry with
    | boundary => rfl
    | routine id =>
      unfold liftFrom
      split
      · exact ih lifted s
      · split
        · exact ih lifted s
        · exact ih _ _

theorem badge_lift (s : Scheduler C) : s.lift.2.badge = s.badge := badge_liftFrom s.stack [] s

theorem badge_giveBackAll (frames : List (Lifted C)) (s : Scheduler C) :
    (s.giveBackAll frames).badge = s.badge := by
  induction frames generalizing s with
  | nil => rfl
  | cons frame frames ih => exact (ih _).trans (badge_giveBack s frame.id frame.script)

theorem badge_scheduleChild (s : Scheduler C) (origin : Origin) (script : Script C)
    (parent : RoutineId) : (s.scheduleChild origin script parent).badge = s.badge :=
  badge_link (s := (s.add origin script).2) _ (some parent)

theorem badge_scheduleRoot (s : Scheduler C) (script : Script C) :
    (s.scheduleRoot script).badge = s.badge := rfl

theorem badge_unlink (s : Scheduler C) (parent : Option RoutineId) (c : RoutineId) :
    (s.unlink parent c).badge = s.badge := by
  unfold unlink
  split <;> rfl

theorem badge_cutAll (cs : List RoutineId) (s : Scheduler C) : (cutAll cs s).badge = s.badge := by
  induction cs generalizing s with
  | nil => rfl
  | cons c cs ih => exact (ih _).trans (badge_link c none)

theorem badge_freeAll (fuel : Nat) (pending : List RoutineId) (s : Scheduler C) :
    (freeAll fuel pending s).badge = s.badge := by
  induction fuel generalizing pending s with
  | zero => rfl
  | succ fuel ih =>
    cases pending with
    | nil => rfl
    | cons id pending =>
      cases h : s.routines.remove id with
      | none =>
        rw [freeAll_of_dead (Roster.remove_eq_none.mp h)]
        exact ih pending s
      | some pair =>
        obtain ⟨r, routines⟩ := pair
        rw [freeAll_of_remove h]
        refine (ih _ _).trans ((badge_cutAll _ _).trans ((badge_unlink _ _ _).trans ?_))
        cases r.script <;> rfl

theorem badge_free (s : Scheduler C) (id : RoutineId) : (s.free id).badge = s.badge :=
  badge_freeAll _ _ s

theorem badge_frees (ids : List RoutineId) (s : Scheduler C) : (ids.foldl free s).badge = s.badge := by
  induction ids generalizing s with
  | nil => rfl
  | cons id ids ih => exact (ih _).trans (badge_free s id)

theorem badge_suspend (s : Scheduler C) (id : RoutineId) (script : Script C) :
    (s.suspend id script).badge = s.badge := by
  unfold suspend
  split
  · split
    · exact badge_giveBack s id script
    · exact badge_free _ id
  · exact badge_free _ id

theorem badge_scheduleExit (s : Scheduler C) (c : RoutineId) : (s.scheduleExit c).badge = s.badge := by
  cases hr : s.routines.remove c with
  | none => rw [scheduleExit_of_dead (Roster.remove_eq_none.mp hr)]
  | some pair =>
    obtain ⟨r, routines⟩ := pair
    cases hscript : r.script with
    | none =>
      rw [scheduleExit_of_out hr hscript]
      exact badge_cutAll _ _
    | some script =>
      have hadopt : ∀ (cs : List RoutineId) (w : RoutineId) (t : Scheduler C),
          (adoptAll cs w t).badge = t.badge := by
        intro cs w
        induction cs with
        | nil => exact fun t => rfl
        | cons c cs ih => exact fun t => ih _
      rw [scheduleExit_eq hr hscript]
      exact hadopt _ _ _

theorem badge_scheduleExits (cs : List RoutineId) (s : Scheduler C) :
    (cs.foldl scheduleExit s).badge = s.badge := by
  induction cs generalizing s with
  | nil => rfl
  | cons c cs ih => exact (ih _).trans (badge_scheduleExit s c)

theorem badge_conclude (s : Scheduler C) (id : RoutineId) (script : Script C) (o : Outcome Value) :
    (s.conclude id script o).badge = s.badge := by
  cases hr : s.routines.remove id with
  | none => rw [conclude_of_dead (Roster.remove_eq_none.mp hr)]; rfl
  | some pair =>
    obtain ⟨r, routines⟩ := pair
    have hout : (s.takenOut id r routines script o).badge = s.badge := badge_unlink _ _ _
    by_cases hnone : r.children = []
    · rw [conclude_of_childless hr hnone]
      exact hout
    · rw [conclude_of_children hr hnone]
      exact (badge_scheduleExits _ _).trans hout

theorem pace_pickFrom (stack : List StackEntry) (s : Scheduler C) :
    (pickFrom stack s).2.running = s.running ∧
      (pickFrom stack s).2.current = ((pickFrom stack s).1.map Prod.fst).or s.current := by
  induction stack generalizing s with
  | nil => exact ⟨rfl, rfl⟩
  | cons work stack ih =>
    cases work with
    | boundary => exact ih (s.report .boundaryConsumed)
    | routine id =>
      unfold pickFrom
      split
      · exact ih (s.report (.skippingStale id))
      · split
        · exact ih s
        · exact ⟨rfl, rfl⟩

theorem unclaimed_pickFrom (stack : List StackEntry) (s : Scheduler C) :
    (pickFrom stack s).2.unclaimed = s.unclaimed := by
  induction stack generalizing s with
  | nil => rfl
  | cons work stack ih =>
    cases work with
    | boundary => exact ih (s.report .boundaryConsumed)
    | routine id =>
      unfold pickFrom
      split
      · exact ih (s.report (.skippingStale id))
      · split
        · exact ih s
        · rfl

theorem pace_freeUnclaimed (s : Scheduler C) : s.freeUnclaimed.2.pace = s.pace := by
  have hfold : ∀ (ids : List RoutineId) (freed : Nat × Scheduler C),
      (ids.foldl freeIfLost freed).2.pace = freed.2.pace := by
    intro ids
    induction ids with
    | nil => exact fun freed => rfl
    | cons id ids ih =>
      intro freed
      refine (ih _).trans ?_
      unfold freeIfLost
      split
      · exact pace_of_badge (badge_free _ id)
      · rfl
  exact hfold s.unclaimed (0, { s with unclaimed := [] })

theorem current_leave (s : Scheduler C) (panicking : Bool) (h : s.current = none) :
    (s.leave panicking).current = none := by
  unfold leave
  dsimp only
  split
  · exact congrArg Prod.snd (pace_of_badge (badge_frees _ _))
  · exact h

theorem running_leave (s : Scheduler C) (panicking : Bool) : (s.leave panicking).running = false := by
  unfold leave
  dsimp only
  split
  · exact congrArg Prod.fst (pace_of_badge (badge_frees _ _))
  · rfl

end Scheduler

/-- What a move does to a scheduler without taking a frame of its work off. -/
inductive Quiet (p : Nat) (m n : Machine C R) : Prop where
  /-- It leaves its work alone. -/
  | steady (work : n.duties p = m.duties p)
      (pace : (n.scheduler? p).map Scheduler.pace = (m.scheduler? p).map Scheduler.pace)
  /-- The script of a root is to be built. -/
  | opened (settler : Option Nat) (idle : m.isRunning (.scheduler p) = false)
      (work : n.duties p = .opening p settler :: m.duties p)
      (same : n.scheduler? p = m.scheduler? p)
  /-- Routines are to be counted, after a sweep. -/
  | counted (idle : m.isRunning (.scheduler p) = false)
      (work : n.duties p = .sweeping p :: m.duties p) (same : n.scheduler? p = m.scheduler? p)
  /-- A pass is entered from outside. -/
  | reentered {s s' : Scheduler C} {hs : List Handle} {control : List (Frame C R)}
      (found : m.scheduler? p = some s) (idle : s.running = false)
      (top : n.control = .pass p :: control) (beneath : control.filter (Frame.attends p) = m.duties p)
      (focus : n.focus = .release hs (.give .nothing)) (found' : n.scheduler? p = some s')
      (running : s'.running = true) (current : s'.current = s.current)
  | vanished (work : n.duties p = m.duties p) (found : ∃ s, m.scheduler? p = some s)
      (gone : n.scheduler? p = none)
  | created (settings : Settings) (work : n.duties p = m.duties p) (none : m.scheduler? p = none)
      (found : n.scheduler? p = some (.new settings))

theorem Quiet.of_realm {p : Nat} {m n : Machine C R} (hwork : n.duties p = m.duties p)
    (hrealm : n.realm p = m.realm p) : Quiet p m n :=
  .steady hwork (congrArg (fun x : Realm C R => x.scheduler.map Scheduler.pace) hrealm)

/-- What matters of the machine before is its store and the frames at work. -/
theorem Quiet.from {p : Nat} {m m' n : Machine C R} (h : Quiet p m' n)
    (hwork : m'.duties p = m.duties p) (hstore : m'.store = m.store) : Quiet p m n := by
  have hsched : m'.scheduler? p = m.scheduler? p := congrArg (·.schedulers.find? p) hstore
  have hidle : m'.isRunning (.scheduler p) = m.isRunning (.scheduler p) :=
    congrArg (fun o : Option (Scheduler C) => (o.map Scheduler.running).getD false) hsched
  cases h with
  | steady work pace => exact .steady (work.trans hwork) (hsched ▸ pace)
  | opened settler idle work same =>
    exact .opened settler (hidle ▸ idle) (hwork ▸ work) (same.trans hsched)
  | counted idle work same => exact .counted (hidle ▸ idle) (hwork ▸ work) (same.trans hsched)
  | reentered found idle top beneath focus found' running current =>
    exact .reentered (hsched ▸ found) idle top (beneath.trans hwork) focus found' running current
  | vanished work found gone => exact .vanished (work.trans hwork) (hsched ▸ found) gone
  | created settings work none found =>
    exact .created settings (work.trans hwork) (hsched ▸ none) found

namespace Machine

variable {p : Nat} (m : Machine C R)

theorem pace_onScheduler (q : Nat) {f : Scheduler C → Scheduler C} (hf : ∀ s, (f s).pace = s.pace) :
    ((m.onScheduler q f).scheduler? p).map Scheduler.pace = (m.scheduler? p).map Scheduler.pace := by
  by_cases hq : q = p
  · subst hq
    rw [scheduler?_onScheduler]
    cases m.scheduler? q with
    | none => rfl
    | some s => exact congrArg some (hf s)
  · rw [scheduler?_onScheduler_of_ne m hq]

/-- A scheduler is changed, and neither its work nor its pace is. -/
theorem quiet_onScheduler (q : Nat) {f : Scheduler C → Scheduler C} (hf : ∀ s, (f s).pace = s.pace)
    {n : Machine C R} (hwork : n.duties p = m.duties p) (hstore : n.store = (m.onScheduler q f).store) :
    Quiet p m n := by
  refine .steady hwork ?_
  rw [← pace_onScheduler m q hf]
  exact congrArg (fun st : Store C => (st.schedulers.find? p).map Scheduler.pace) hstore

theorem pace_reinstate (q : Nat) (frames : List RoutineId) (v : Value) :
    ((m.reinstate q frames v).scheduler? p).map Scheduler.pace =
      (m.scheduler? p).map Scheduler.pace :=
  pace_onScheduler m q (f := fun s => s.reinstate frames v) fun _ => rfl

theorem pace_reinstateNext (k : Nat) (v : Value) (copies : List (Script C))
    (left : List (FrameCopy C)) :
    ((m.reinstateNext k v copies left).scheduler? p).map Scheduler.pace =
      (m.scheduler? p).map Scheduler.pace := by
  unfold reinstateNext
  split
  · rfl
  · split
    · rfl
    · next snapshot _ =>
      split
      · rfl
      · next s hs =>
        refine (pace_reinstate _ _ _ v).trans ?_
        by_cases hq : snapshot.home = p
        · subst hq
          rw [scheduler?_onScheduler, hs]
          exact congrArg some (Scheduler.pace_of_badge (Scheduler.badge_plant s snapshot.frames copies))
        · rw [scheduler?_onScheduler_of_ne m hq]

theorem pace_invoke (k : Nat) (v : Value) :
    ((m.invoke k v).scheduler? p).map Scheduler.pace = (m.scheduler? p).map Scheduler.pace := by
  unfold invoke
  split
  · rfl
  · next snapshot _ =>
    split
    · rfl
    · have hsame := scheduler?_retain m [.scheduler snapshot.home] p
      dsimp only
      split
      · refine (pace_reinstateNext _ k v [] _).trans ?_
        exact congrArg (Option.map _) hsame
      · split
        · exact (pace_reinstate _ _ _ v).trans (congrArg (Option.map _) hsame)
        · refine (pace_reinstateNext _ k v [] _).trans ?_
          exact congrArg (Option.map _) hsame

theorem quiet_advanceScript (B : Behavior C R) (script : Script C) (input : Outcome Value) :
    Quiet p m (m.advanceScript B script input) := by
  refine .steady (duties_advanceScript m B script input) ?_
  cases script with
  | staged s => exact congrArg _ (congrArg Realm.scheduler (realm_enterStage (p := p) m B.held s input))
  | own state =>
    exact congrArg _ (congrArg Realm.scheduler (realm_moveOwn (p := p) m B state false input))
  | exit inner progress =>
    unfold advanceScript
    dsimp only
    split <;> rfl
  | settled stored =>
    cases input with
    | failure e => rfl
    | success v => exact congrArg _ (scheduler?_retain m stored.handles p)
  | reentry k value =>
    cases value with
    | none => rfl
    | some v => exact pace_invoke ((m.push (.inReentry k)).push (.holding input.handles)) k v
  | root inner settler => rfl

theorem quiet_letGo (B : Behavior C R) (h : Handle) (rest : List Handle) (onward : Onward C R) :
    Quiet p m (m.letGo B h rest onward) := by
  have hwork := duties_letGo (p := p) m B h rest onward
  have hsched : (m.letGo B h rest onward).scheduler? p =
      (m.store.letGo B.held h).2.schedulers.find? p := by
    unfold letGo
    split
    · next hs store heq => rw [heq]; rfl
    · next c store heq =>
      rw [heq]
      exact congrArg Realm.scheduler (realm_settle (p := p) _ c _)
  cases h with
  | settler c =>
    refine .steady hwork ?_
    rw [hsched]
    unfold Store.letGo
    dsimp only
    split
    · rfl
    · split
      · split <;> rfl
      · rfl
  | continuation k =>
    refine .steady hwork ?_
    rw [hsched]
    cases hgone : (m.store.snapshots.letGo k).1 with
    | none =>
      simp only [Store.letGo, hgone]
      rfl
    | some snapshot =>
      cases hids : snapshot.routines with
      | none =>
        simp only [Store.letGo, hgone, hids]
        rfl
      | some ids =>
        simp only [Store.letGo, hgone, hids]
        exact pace_onScheduler
          (m.withStore fun s => { s with snapshots := (m.store.snapshots.letGo k).2 })
          snapshot.home (f := fun s => { s with unclaimed := s.unclaimed ++ ids }) fun _ => rfl
  | scheduler q =>
    rcases Table.find?_letGo m.store.schedulers q p with hsame | ⟨rfl, hnone⟩
    · refine .steady hwork ?_
      rw [hsched]
      exact congrArg _ hsame
    · cases hs : m.scheduler? p with
      | none => exact .steady hwork (by rw [hsched, hs]; exact congrArg _ hnone)
      | some s => exact .vanished hwork ⟨s, hs⟩ (hsched.trans hnone)
  | completion | queue | reenter | bridge | coroutine => exact .steady hwork (by rw [hsched]; rfl)

theorem quiet_evaluate (held : C → List Handle) (q : Nat) (code : C) :
    Quiet p m (m.evaluate held q code) := by
  unfold evaluate
  dsimp only
  split
  · exact .of_realm rfl rfl
  · next hidle =>
    by_cases hq : q = p
    · subst hq
      refine .opened none (Bool.eq_false_iff.mpr hidle) ?_ rfl
      simp [duties, Frame.attends]
    · exact .of_realm (by simp [duties, Frame.attends, hq]) rfl

theorem quiet_start (held : C → List Handle) (q : Nat) (code : C) :
    Quiet p m (m.start held q code) := by
  unfold start
  dsimp only
  split
  · exact .of_realm rfl rfl
  · next hidle =>
    by_cases hq : q = p
    · subst hq
      refine .opened (some (m.push (.holding [.scheduler q])).newCompletion.1)
        (Bool.eq_false_iff.mpr hidle) ?_ rfl
      simp [duties, Frame.attends, newCompletion]
    · exact .of_realm (by simp [duties, Frame.attends, hq, newCompletion]) rfl

theorem quiet_countRoutines (q : Nat) : Quiet p m (m.countRoutines q) := by
  unfold countRoutines
  dsimp only
  split
  · exact .of_realm rfl rfl
  · next hidle =>
    by_cases hq : q = p
    · subst hq
      refine .counted (Bool.eq_false_iff.mpr hidle) ?_ rfl
      simp [duties, Frame.attends]
    · exact .of_realm (by simp [duties, Frame.attends, hq]) rfl

theorem quiet_newScheduler (B : Behavior C R) (settings : Settings) :
    Quiet p m (m.perform B (.newScheduler settings)) := by
  by_cases hp : p = m.store.schedulers.cells.size
  · have hnone : m.scheduler? p = none := by
      cases hs : m.scheduler? p with
      | none => rfl
      | some s => exact absurd (Table.lt_size_of_find? hs) (by omega)
    exact .created settings rfl hnone ((Table.find?_alloc _ 1 _ p).trans (if_pos hp))
  · exact .steady rfl (congrArg _ ((Table.find?_alloc _ 1 _ p).trans (if_neg hp)))

theorem quiet_reenter (q k : Nat) (v : Value) : Quiet p m (m.reenter q k v) := by
  unfold reenter
  split
  · exact .of_realm rfl rfl
  · next s hs =>
    have hfound : ∀ p, (m.retain (.scheduler q :: .continuation k :: v.handles)).scheduler? p =
        m.scheduler? p := scheduler?_retain m _
    dsimp only
    by_cases hq : q = p
    · subst hq
      split
      · refine .steady rfl ?_
        show Option.map _ (Machine.scheduler? (onScheduler _ q _) q) = _
        rw [scheduler?_onScheduler]
        show Option.map _ (Option.map _ ((m.retain _).scheduler? q)) = _
        rw [hfound, hs]
        rfl
      · next hidle =>
        have hidle := Bool.eq_false_iff.mpr hidle
        refine .reentered hs hidle rfl rfl rfl (?_ : Machine.scheduler? _ q = some
          { s.queue k v with register := .success v, running := true, reports := [] }) rfl rfl
        show Machine.scheduler? (onScheduler _ q _) q = _
        rw [scheduler?_onScheduler]
        show Option.map _ (Machine.scheduler? (onScheduler _ q _) q) = _
        rw [scheduler?_onScheduler]
        show Option.map _ (Option.map _ ((m.retain _).scheduler? q)) = _
        rw [hfound, hs]
        rfl
    · split
      · exact .steady rfl (congrArg _ ((scheduler?_onScheduler_of_ne _ hq _).trans (hfound p)))
      · refine .steady ?_ ?_
        · simp [duties, enterPass, Frame.attends, hq]
        · show Option.map _ (Machine.scheduler? (onScheduler _ q _) p) = _
          rw [scheduler?_onScheduler_of_ne _ hq]
          exact congrArg _ ((scheduler?_onScheduler_of_ne _ hq _).trans (hfound p))

/-! ### Moves of other schedulers -/

theorem quiet_onScheduler_of_ne {q : Nat} (hq : q ≠ p) (f : Scheduler C → Scheduler C)
    {n : Machine C R} (hwork : n.duties p = m.duties p) (hstore : n.store = (m.onScheduler q f).store) :
    Quiet p m n := by
  refine .steady hwork ?_
  rw [← scheduler?_onScheduler_of_ne m hq f]
  exact congrArg (fun st : Store C => (st.schedulers.find? p).map Scheduler.pace) hstore

theorem quiet_passHead {q : Nat} (hq : q ≠ p) : Quiet p m (m.passHead q) := by
  unfold passHead
  split
  · exact .of_realm rfl rfl
  · split
    · refine quiet_onScheduler_of_ne m hq _ ?_ rfl
      simp [duties, Frame.attends, hq]
    · exact quiet_onScheduler_of_ne m hq _ rfl rfl

theorem quiet_sweep (held : C → List Handle) {q : Nat} (hq : q ≠ p) :
    Quiet p m (m.sweep held q) := by
  unfold sweep
  split
  · exact .of_realm rfl rfl
  · dsimp only
    split
    · exact quiet_onScheduler_of_ne m hq _ rfl rfl
    · refine quiet_onScheduler_of_ne m hq _ ?_ rfl
      simp [duties, Frame.attends, hq]

theorem duties_endStep {q : Nat} (hq : q ≠ p) (dropped : List Handle) :
    (m.endStep q dropped).duties p = m.duties p := by
  simp [duties, endStep, Frame.attends, hq]

theorem quiet_concludeStep {q : Nat} (hq : q ≠ p) (id : RoutineId) (script : Script C)
    (o : Outcome Value) : Quiet p m (m.concludeStep q id script o) := by
  unfold concludeStep
  refine .steady (duties_endStep _ hq _) ?_
  refine congrArg (Option.map Scheduler.pace)
    ((scheduler?_onScheduler_of_ne (p := p) (m.retain _) hq _).trans ?_)
  exact scheduler?_retain m _ p

theorem quiet_startChild {q : Nat} (hq : q ≠ p) (id : RoutineId) (origin : Origin)
    (script : Script C) : Quiet p m (m.startChild q id origin script) :=
  quiet_onScheduler_of_ne m hq (fun s => s.scheduleChild origin script id) (duties_endStep _ hq _) rfl

theorem duties_captureNext {q : Nat} (hq : q ≠ p) (id : RoutineId) (handler : C)
    (frames : List (Lifted C)) (copies : List (Script C)) (left : List (Lifted C)) :
    (m.captureNext q id handler frames copies left).duties p = m.duties p := by
  cases left <;> simp [duties, captureNext, Frame.attends, hq]

theorem scheduler?_captureNext {q : Nat} (hq : q ≠ p) (id : RoutineId) (handler : C)
    (frames : List (Lifted C)) (copies : List (Script C)) (left : List (Lifted C)) :
    (m.captureNext q id handler frames copies left).scheduler? p = m.scheduler? p := by
  cases left with
  | cons frame left => rfl
  | nil => exact scheduler?_onScheduler_of_ne m hq fun s => s.giveBackAll frames

theorem quiet_obey {q : Nat} (hq : q ≠ p) (id : RoutineId) (script : Script C)
    (i : Instruction C) : Quiet p m (m.obey q id script i) := by
  cases i with
  | reset block =>
    exact quiet_onScheduler_of_ne m hq (fun s => (s.shelve id script).push .boundary)
      (by simp [duties, obey, Frame.attends, hq]) rfl
  | shift handler =>
    unfold obey
    dsimp only
    split
    · exact .of_realm (duties_endStep _ hq _) rfl
    · next s _ =>
      obtain ⟨⟨frames, s'⟩, hlift⟩ : ∃ out, (s.shelve id script).lift = out := ⟨_, rfl⟩
      simp only [hlift]
      refine .steady (duties_captureNext _ hq id handler frames [] frames) ?_
      refine congrArg (Option.map Scheduler.pace) ((scheduler?_captureNext _ hq ..).trans ?_)
      exact scheduler?_onScheduler_of_ne m hq fun _ => s'
  | suspend =>
    exact quiet_onScheduler_of_ne m hq (fun s => s.suspend id script) (duties_endStep _ hq _) rfl
  | splice nested =>
    refine .steady (duties_endStep _ hq _) (congrArg (Option.map Scheduler.pace) ?_)
    exact (scheduler?_onScheduler_of_ne _ hq _).trans (scheduler?_onScheduler_of_ne m hq _)
  | await c =>
    exact quiet_onScheduler_of_ne m hq (fun s => s.suspend id script) (duties_endStep _ hq _) rfl

theorem quiet_routineStepped {q : Nat} (hq : q ≠ p) (id : RoutineId) (script : Script C)
    (step : Step C) : Quiet p m (m.routineStepped q id script step) := by
  cases step with
  | done o => exact quiet_concludeStep m hq id script o
  | yield i => exact quiet_obey m hq id script i

theorem quiet_openRoot {q : Nat} (hq : q ≠ p) (settler : Option Nat) (script : Script C) :
    Quiet p m (m.openRoot q settler script) := by
  cases settler <;>
  · refine .steady (by simp [duties, openRoot, enterPass, Frame.attends, hq])
      (congrArg (Option.map Scheduler.pace) ?_)
    exact (scheduler?_onScheduler_of_ne _ hq _).trans (scheduler?_onScheduler_of_ne m hq _)

theorem quiet_perform (B : Behavior C R) (request : Request C) :
    Quiet p m (m.perform B request) := by
  cases request with
  | readVariable name =>
    show Quiet p m (m.readVariable name)
    unfold readVariable
    split
    · exact .of_realm rfl (realm_retain m _)
    · exact .of_realm rfl rfl
  | settle c o =>
    exact .of_realm (duties_settle (m.push (.holding [.settler c])) c o)
      (realm_settle (m.push (.holding [.settler c])) c o)
  | outcome c =>
    unfold perform
    dsimp only
    split
    · exact .of_realm rfl (realm_retain m _)
    · exact .of_realm rfl rfl
  | onSettle c code =>
    exact .of_realm (duties_await (m.push (.holding [.completion c])) B.held c (.call code))
      (realm_await (m.push (.holding [.completion c])) B.held c (.call code))
  | newScheduler settings => exact quiet_newScheduler m B settings
  | evaluate q code => exact quiet_evaluate m B.held q code
  | start q code => exact quiet_start m B.held q code
  | countRoutines q => exact quiet_countRoutines m q
  | takeFailures q =>
    exact quiet_onScheduler m q (f := fun s => { s with unhandled := [] }) (fun _ => rfl) rfl rfl
  | invoke k v =>
    exact .steady (duties_invoke (m.push (.holding [.continuation k])) k v)
      (pace_invoke (m.push (.holding [.continuation k])) k v)
  | reenter q k v => exact (quiet_reenter (m.push (.holding [.continuation k])) q k v).from rfl rfl
  | run b code => exact .of_realm (duties_runTask m b code) (realm_runTask m b code)
  | advance x input => exact .of_realm (duties_advanceKept m x input) (realm_advanceKept m x input)
  | copy x =>
    exact .of_realm (duties_takeKept m x [] fun _ _ => rfl) (realm_takeKept m x [] fun _ _ => rfl)
  | position x => exact .of_realm (duties_positionKept m x) (realm_positionKept m x)
  | _ => exact .of_realm rfl rfl

theorem quiet_deliver (B : Behavior C R) (a : Answer C) {f : Frame C R} (hf : f.attends p = false) :
    Quiet p m (m.deliver B a f) := by
  cases f with
  | code next =>
    unfold deliver
    dsimp only
    split <;> exact .of_realm rfl rfl
  | inExit progress =>
    cases a with
    | stepped step inner =>
      exact .of_realm (duties_exitStepped m progress inner step)
        (realm_exitStepped m progress inner step)
    | _ => exact .of_realm rfl rfl
  | inRoot settler =>
    cases a with
    | stepped step inner =>
      exact .of_realm (duties_rootStepped m settler inner step)
        (realm_rootStepped m settler inner step)
    | _ => exact .of_realm rfl rfl
  | copying script => exact .of_realm rfl (realm_retain m _)
  | notifying listeners o =>
    exact .of_realm (duties_notify m listeners o) (realm_notify m listeners o)
  | draining q ran => exact .of_realm (duties_drainNext m q ran) (realm_drainNext m q ran)
  | pass q => exact quiet_passHead m (of_decide_eq_false hf)
  | stepping q id =>
    have hq : q ≠ p := of_decide_eq_false hf
    cases a with
    | stepped step script => exact quiet_routineStepped m hq id script step
    | _ => exact .of_realm (duties_endStep m hq _) rfl
  | building q id origin => exact quiet_startChild m (of_decide_eq_false hf) id origin a.script
  | capturing q id handler frames copies left =>
    have hq : q ≠ p := of_decide_eq_false hf
    exact .steady (duties_captureNext m hq ..)
      (congrArg (Option.map Scheduler.pace) (scheduler?_captureNext m hq ..))
  | sweeping q => exact quiet_sweep m B.held (of_decide_eq_false hf)
  | opening q settler => exact quiet_openRoot m (of_decide_eq_false hf) settler a.script
  | firstPass q =>
    unfold deliver
    dsimp only
    split
    · next e =>
      exact quiet_onScheduler m q (f := fun s => s.report (.firstPassFailed e)) (fun _ => rfl) rfl rfl
    · exact .of_realm rfl rfl
  | reentered q =>
    unfold deliver
    dsimp only
    split
    · next e =>
      exact quiet_onScheduler m q (f := fun s =>
        { s with unhandled := s.unhandled ++ [e] }.report (.reentryFailed e)) (fun _ => rfl) rfl rfl
    · exact .of_realm rfl rfl
  | reinstating k v copies left =>
    exact .steady (duties_reinstateNext m k v (copies ++ [a.script]) left)
      (pace_reinstateNext m k v (copies ++ [a.script]) left)
  | driving b => exact .of_realm (duties_bridgeHead m b) (realm_bridgeHead m b)
  | starting b settler =>
    unfold deliver
    dsimp only
    split
    · exact .of_realm (duties_taskNotBuilt m b settler _) (realm_taskNotBuilt m b settler _)
    · exact .of_realm (duties_taskBuilt m b settler _) (realm_taskBuilt m b settler _)
  | resuming b id settler =>
    cases a with
    | stepped step script =>
      exact .of_realm (duties_taskStepped m B.held b id settler script step)
        (realm_taskStepped m B.held b id settler script step)
    | _ => exact .of_realm rfl rfl
  | advancing x => cases a <;> exact .of_realm rfl rfl
  | _ => exact .of_realm rfl rfl

theorem quiet_unwindFrame (B : Behavior C R) (payload : Payload) (salvage : Option (Script C))
    {f : Frame C R} (hf : f.attends p = false) :
    Quiet p m (m.unwindFrame B payload salvage f) := by
  cases f with
  | releasing rest onward => cases onward <;> exact .of_realm rfl rfl
  | pass q => exact quiet_onScheduler_of_ne m (of_decide_eq_false hf) (fun s => s.leave true) rfl rfl
  | stepping q id =>
    unfold unwindFrame
    dsimp only
    split
    · exact quiet_routineStepped m (of_decide_eq_false hf) id _ _
    · exact .of_realm rfl rfl
  | building q id origin =>
    unfold unwindFrame
    dsimp only
    split
    · exact quiet_startChild m (of_decide_eq_false hf) id origin _
    · exact .of_realm rfl rfl
  | opening q settler =>
    unfold unwindFrame
    dsimp only
    split
    · exact quiet_openRoot m (of_decide_eq_false hf) settler _
    · exact .of_realm rfl rfl
  | starting b settler =>
    unfold unwindFrame
    dsimp only
    split
    · exact .of_realm (duties_taskNotBuilt m b settler _) (realm_taskNotBuilt m b settler _)
    · exact .of_realm rfl rfl
  | resuming b id settler =>
    unfold unwindFrame
    dsimp only
    split
    · exact .of_realm (duties_taskStepped m B.held b id settler _ _)
        (realm_taskStepped m B.held b id settler _ _)
    · exact .of_realm rfl rfl
  | advancing x =>
    unfold unwindFrame
    dsimp only
    split <;> exact .of_realm rfl rfl
  | _ => exact .of_realm rfl rfl

variable {m : Machine C R} {B : Behavior C R}

/-- What the top frame is handed. -/
theorem handed_of_pops {f : Frame C R} {rest : List (Frame C R)} (hpopping : m.popping = true)
    (hcontrol : m.control = f :: rest) :
    (∃ a, m.focus = .release [] (.give a) ∧
      m.step B = ({ m with control := rest } : Machine C R).deliver B a f) ∨
    ∃ payload salvage, m.focus = .release [] (.unwind payload salvage) ∧
      m.step B = ({ m with control := rest } : Machine C R).unwindFrame B payload salvage f := by
  unfold popping at hpopping
  split at hpopping
  · next a hfocus => exact Or.inl ⟨a, hfocus, by simp only [step, hfocus, goOn, hcontrol]⟩
  · next payload salvage hfocus =>
    exact Or.inr ⟨payload, salvage, hfocus, by simp only [step, hfocus, goOn, hcontrol]⟩
  · cases hpopping

/-- A move that takes no frame of the work of a scheduler off. -/
theorem quiet_step (hpop : ∀ f, m.Pops f → f.attends p = false) : Quiet p m (m.step B) := by
  unfold step
  split
  · exact quiet_advanceScript m B _ _
  · exact .of_realm (duties_exitScript m B _) (realm_exitScript m B _)
  · exact .of_realm (duties_copyScript m B _) (realm_copyScript m B _)
  · exact quiet_letGo m B _ _ _
  · next onward hfocus =>
    cases onward with
    | begin code entry => exact .of_realm rfl (realm_retain m _)
    | tell state signal =>
      unfold goOn tell
      dsimp only [recount]
      split <;> exact .of_realm rfl (realm_retain m _)
    | act reaction =>
      cases reaction with
      | ask request next => exact (quiet_perform (m.push (.code next)) B request).from rfl rfl
      | _ => exact .of_realm rfl rfl
    | give a =>
      unfold goOn
      dsimp only
      split
      · exact .of_realm rfl rfl
      · next f control hcontrol =>
        have hf := hpop f ⟨by simp [popping, hfocus], control, hcontrol⟩
        refine (quiet_deliver { m with control } B a hf).from ?_ rfl
        simp [duties, hcontrol, hf]
    | unwind payload salvage =>
      unfold goOn
      dsimp only
      split
      · exact .of_realm rfl rfl
      · next f control hcontrol =>
        have hf := hpop f ⟨by simp [popping, hfocus], control, hcontrol⟩
        refine (quiet_unwindFrame { m with control } B payload salvage hf).from ?_ rfl
        simp [duties, hcontrol, hf]
  · exact .of_realm rfl rfl

end Machine

end Strand
