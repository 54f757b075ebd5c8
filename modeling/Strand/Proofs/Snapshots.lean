import Strand.Proofs.Posts

/-! # Snapshots — a continuation stays as it was captured

    What a continuation remembers is changed by two things only: its invocation,
    after which it has no routines of its own any more, and its end.

    * `Machine.Invokes` says that the next move invokes a continuation. There are
      two ways to do that, the program's and that of a re-entry.
    * No other move changes a snapshot (`snapshot?_step`).
    * So as long as a continuation is there, it has its routines exactly until
      it is invoked (`LaterWhile.uninvoked`, `Invokes.spends`). -/

namespace Strand

variable {C R : Type}

namespace Machine

variable {B : Behavior C R} {k : Nat} {m n : Machine C R} {snapshot snapshot' : Snapshot C}

/-- What a continuation has captured, as long as it is there. -/
def snapshot? (m : Machine C R) (k : Nat) : Option (Snapshot C) := m.store.snapshots.find? k

/-- The next move invokes continuation `k` with `v`. -/
def Invokes (m : Machine C R) (k : Nat) (v : Value) : Prop :=
  (∃ next, m.focus = .release [] (.act (.ask (.invoke k v) next))) ∨
    ∃ input, m.focus = .advance (.reentry k (some v)) input

/-- Snapshots are seen in the realms of their schedulers. -/
theorem snapshot?_of_realm (h : ∀ p, n.realm p = m.realm p) : n.snapshot? = m.snapshot? := by
  funext k
  have hcaptures : ∀ p, (n.snapshot? k).filter (fun x => decide (x.home = p)) =
      (m.snapshot? k).filter (fun x => decide (x.home = p)) :=
    fun p => congrFun (congrArg Realm.captures (h p)) k
  cases hm : m.snapshot? k with
  | none =>
    cases hn : n.snapshot? k with
    | none => rfl
    | some x =>
      have hx := hcaptures x.home
      rw [hm, hn] at hx
      simp [Option.filter] at hx
  | some x =>
    have hx := hcaptures x.home
    rw [hm] at hx
    cases hn : n.snapshot? k with
    | none =>
      rw [hn] at hx
      simp [Option.filter] at hx
    | some y =>
      rw [hn] at hx
      by_cases hhome : y.home = x.home
      · simpa [Option.filter, hhome] using hx
      · simp [Option.filter, hhome] at hx

theorem snapshot?_onScheduler (m : Machine C R) (p : Nat) (f : Scheduler C → Scheduler C) :
    (m.onScheduler p f).snapshot? = m.snapshot? :=
  funext fun k => congrArg (·.find? k) (snapshots_onScheduler m p f)

theorem snapshot?_retain (m : Machine C R) (hs : List Handle) :
    (m.retain hs).snapshot? = m.snapshot? :=
  funext fun k => Store.find?_snapshots_retainAll m.store hs k

theorem snapshot?_passHead (m : Machine C R) (p : Nat) :
    (m.passHead p).snapshot? = m.snapshot? := by
  unfold passHead
  split
  · rfl
  · split
    · exact snapshot?_onScheduler m p _
    · exact snapshot?_onScheduler m p _

theorem snapshot?_sweep (m : Machine C R) (held : C → List Handle) (p : Nat) :
    (m.sweep held p).snapshot? = m.snapshot? := by
  unfold sweep
  split
  · rfl
  · dsimp only
    split
    · exact snapshot?_onScheduler m p _
    · exact snapshot?_onScheduler m p _

theorem snapshot?_concludeStep (m : Machine C R) (p : Nat) (id : RoutineId) (script : Script C)
    (o : Outcome Value) : (m.concludeStep p id script o).snapshot? = m.snapshot? :=
  (snapshot?_onScheduler (m.retain _) p _).trans (snapshot?_retain m _)

theorem snapshot?_startChild (m : Machine C R) (p : Nat) (id : RoutineId) (origin : Origin)
    (script : Script C) : (m.startChild p id origin script).snapshot? = m.snapshot? :=
  snapshot?_onScheduler m p _

theorem snapshot?_openRoot (m : Machine C R) (p : Nat) (settler : Option Nat) (script : Script C) :
    (m.openRoot p settler script).snapshot? = m.snapshot? := by
  cases settler with
  | none => exact (snapshot?_onScheduler (m.onScheduler p _) p _).trans (snapshot?_onScheduler m p _)
  | some c =>
    exact (snapshot?_onScheduler ((m.onScheduler p _).push (.firstPass p)) p _).trans
      (snapshot?_onScheduler m p _)

theorem snapshot?_reinstateNext (m : Machine C R) (k : Nat) (v : Value) (copies : List (Script C))
    (left : List (FrameCopy C)) : (m.reinstateNext k v copies left).snapshot? = m.snapshot? := by
  cases left with
  | cons frame left => rfl
  | nil =>
    unfold reinstateNext
    dsimp only
    split
    · rfl
    · split
      · rfl
      · exact (snapshot?_onScheduler (m.onScheduler _ _) _ _).trans (snapshot?_onScheduler m _ _)

theorem snapshot?_reenter (m : Machine C R) (p k : Nat) (v : Value) :
    (m.reenter p k v).snapshot? = m.snapshot? := by
  unfold reenter
  split
  · rfl
  · dsimp only
    have hretained := snapshot?_retain m (.scheduler p :: .continuation k :: v.handles)
    split
    · exact (snapshot?_onScheduler (((m.retain _).push _)) p _).trans hretained
    · exact ((snapshot?_onScheduler ((((m.retain _).push _).onScheduler p _).push _) p _).trans
        (snapshot?_onScheduler ((m.retain _).push _) p _)).trans hretained

theorem snapshot?_advanceScript (B : Behavior C R) {script : Script C} {input : Outcome Value}
    (hnot : ∀ k v, script ≠ .reentry k (some v)) :
    (m.advanceScript B script input).snapshot? = m.snapshot? := by
  cases script with
  | staged s => exact snapshot?_of_realm fun p => realm_enterStage m B.held s input
  | own state => exact snapshot?_of_realm fun p => realm_moveOwn m B state false input
  | exit inner progress =>
    unfold advanceScript
    dsimp only
    split <;> rfl
  | settled stored =>
    cases input with
    | failure e => rfl
    | success v => exact snapshot?_retain m stored.handles
  | reentry k value =>
    cases value with
    | none => rfl
    | some v => exact absurd rfl (hnot k v)
  | root inner settler => rfl

theorem snapshot?_perform (B : Behavior C R) {request : Request C}
    (hnot : ∀ k v, request ≠ .invoke k v) : (m.perform B request).snapshot? = m.snapshot? := by
  cases request with
  | readVariable name =>
    show (m.readVariable name).snapshot? = _
    unfold readVariable
    split
    · exact snapshot?_retain m _
    · rfl
  | settle c o =>
    exact snapshot?_of_realm fun p => realm_settle (m.push (.holding [.settler c])) c o
  | outcome c =>
    unfold perform
    dsimp only
    split
    · exact snapshot?_retain m _
    · rfl
  | onSettle c code =>
    exact snapshot?_of_realm fun p =>
      realm_await (m.push (.holding [.completion c])) B.held c (.call code)
  | evaluate q code => exact snapshot?_of_realm fun p => realm_evaluate m B.held q code
  | start q code => exact snapshot?_of_realm fun p => realm_start m B.held q code
  | countRoutines q => exact snapshot?_of_realm fun p => realm_countRoutines m q
  | takeFailures q => exact snapshot?_onScheduler m q _
  | invoke k v => exact absurd rfl (hnot k v)
  | reenter q k v => exact snapshot?_reenter (m.push (.holding [.continuation k])) q k v
  | run b code => exact snapshot?_of_realm fun p => realm_runTask m b code
  | advance x input => exact snapshot?_of_realm fun p => realm_advanceKept m x input
  | copy x => exact snapshot?_of_realm fun p => realm_takeKept m x [] fun _ _ => rfl
  | position x => exact snapshot?_of_realm fun p => realm_positionKept m x
  | _ => rfl

/-! ### Operations that add one or let one go -/

/-- The continuations of `m` are in `n` as they were, unless they have died. -/
def Recalls (m n : Machine C R) : Prop :=
  ∀ k x y, m.snapshot? k = some x → n.snapshot? k = some y → y = x

theorem Recalls.of_same (h : n.snapshot? = m.snapshot?) : Recalls m n := by
  intro k x y hx hy
  rw [h, hx] at hy
  exact (Option.some.inj hy).symm

/-- The machine that is asked may be any with the same snapshots. -/
theorem Recalls.congr {m' : Machine C R} (h : Recalls m' n) (hsame : m'.snapshot? = m.snapshot?) :
    Recalls m n :=
  fun k x y hx => h k x y ((congrFun hsame k).trans hx)

/-- A new snapshot has a number that none has had before. -/
theorem recalls_captureNext (m : Machine C R) (p : Nat) (id : RoutineId) (handler : C)
    (frames : List (Lifted C)) (copies : List (Script C)) (left : List (Lifted C)) :
    Recalls m (m.captureNext p id handler frames copies left) := by
  cases left with
  | cons frame left => exact .of_same rfl
  | nil =>
    refine Recalls.congr ?_ (snapshot?_onScheduler m p fun s => s.giveBackAll frames)
    intro k x y hx hy
    have hy' := (Table.find?_alloc _ 1 (Snapshot.of p frames copies) k).symm.trans hy
    rw [if_neg (Nat.ne_of_lt (Table.lt_size_of_find? hx))] at hy'
    exact Option.some.inj (hy'.symm.trans hx)

theorem recalls_obey (m : Machine C R) (p : Nat) (id : RoutineId) (script : Script C)
    (i : Instruction C) : Recalls m (m.obey p id script i) := by
  cases i with
  | reset block => exact .of_same (snapshot?_onScheduler m p _)
  | shift handler =>
    unfold obey
    dsimp only
    split
    · exact .of_same rfl
    · exact (recalls_captureNext (m.onScheduler p _) p id handler _ [] _).congr
        (snapshot?_onScheduler m p _)
  | suspend => exact .of_same (snapshot?_onScheduler m p _)
  | splice nested =>
    exact .of_same ((snapshot?_startChild (m.onScheduler p _) p id .splice nested).trans
      (snapshot?_onScheduler m p _))
  | await c => exact .of_same (snapshot?_onScheduler m p _)

theorem recalls_routineStepped (m : Machine C R) (p : Nat) (id : RoutineId) (script : Script C)
    (step : Step C) : Recalls m (m.routineStepped p id script step) := by
  cases step with
  | done o => exact .of_same (snapshot?_concludeStep m p id script o)
  | yield i => exact recalls_obey m p id script i

theorem recalls_letGo (m : Machine C R) (B : Behavior C R) (h : Handle) (rest : List Handle)
    (onward : Onward C R) : Recalls m (m.letGo B h rest onward) := by
  have hdropped : Recalls m { m with store := (m.store.letGo B.held h).2 } := by
    cases h with
    | settler c =>
      refine .of_same ?_
      unfold Store.letGo
      dsimp only
      split
      · rfl
      · split
        · split <;> rfl
        · rfl
    | continuation k =>
      intro j x y hx hy
      have hfind : (m.store.snapshots.letGo k).2.find? j = some y := by
        cases hgone : (m.store.snapshots.letGo k).1 with
        | none =>
          simp only [snapshot?, Store.letGo, hgone] at hy
          exact hy
        | some snapshot =>
          cases hids : snapshot.routines with
          | none =>
            simp only [snapshot?, Store.letGo, hgone, hids] at hy
            exact hy
          | some ids =>
            simp only [snapshot?, Store.letGo, hgone, hids] at hy
            exact (congrArg (·.find? j) (snapshots_onScheduler
              (m.withStore fun s => { s with snapshots := (m.store.snapshots.letGo k).2 })
              snapshot.home _)).symm.trans hy
      rcases Table.find?_letGo m.store.snapshots k j with hsame | ⟨-, hnone⟩
      · exact Option.some.inj (hfind.symm.trans (hsame.trans hx))
      · exact absurd (hnone.symm.trans hfind) (by simp)
    | completion | queue | reenter | scheduler | bridge | coroutine => exact .of_same rfl
  unfold letGo
  split
  · next hs store heq =>
    rw [heq] at hdropped
    exact hdropped
  · next c store heq =>
    rw [heq] at hdropped
    have hsettled := snapshot?_of_realm fun p =>
      realm_settle (p := p) (push { m with store } (.releasing (.completion c :: rest) onward)) c
        (.failure .abandoned)
    exact fun k x y hx hy => hdropped k x y hx ((congrFun hsettled k).symm.trans hy)

/-! ### Frames -/

theorem recalls_deliver (m : Machine C R) (B : Behavior C R) (a : Answer C) (f : Frame C R) :
    Recalls m (m.deliver B a f) := by
  cases f with
  | code next =>
    refine .of_same ?_
    unfold deliver
    dsimp only
    split <;> rfl
  | inExit progress =>
    refine .of_same ?_
    cases a with
    | stepped step inner =>
      exact snapshot?_of_realm fun p => realm_exitStepped m progress inner step
    | _ => rfl
  | inRoot settler =>
    refine .of_same ?_
    cases a with
    | stepped step inner =>
      exact snapshot?_of_realm fun p => realm_rootStepped m settler inner step
    | _ => rfl
  | copying script => exact .of_same (snapshot?_retain m _)
  | notifying listeners o =>
    exact .of_same (snapshot?_of_realm fun p => realm_notify m listeners o)
  | draining q ran => exact .of_same (snapshot?_of_realm fun p => realm_drainNext m q ran)
  | pass q => exact .of_same (snapshot?_passHead m q)
  | stepping q id =>
    cases a with
    | stepped step script => exact recalls_routineStepped m q id script step
    | _ => exact .of_same rfl
  | building q id origin => exact .of_same (snapshot?_startChild m q id origin a.script)
  | capturing q id handler frames copies left =>
    exact recalls_captureNext m q id handler frames _ left
  | sweeping q => exact .of_same (snapshot?_sweep m B.held q)
  | opening q settler => exact .of_same (snapshot?_openRoot m q settler a.script)
  | firstPass q =>
    refine .of_same ?_
    unfold deliver
    dsimp only
    split
    · exact snapshot?_onScheduler m q _
    · rfl
  | reentered q =>
    refine .of_same ?_
    unfold deliver
    dsimp only
    split
    · exact snapshot?_onScheduler m q _
    · rfl
  | reinstating k v copies left =>
    exact .of_same (snapshot?_reinstateNext m k v (copies ++ [a.script]) left)
  | driving b => exact .of_same (snapshot?_of_realm fun p => realm_bridgeHead m b)
  | starting b settler =>
    refine .of_same (snapshot?_of_realm fun p => ?_)
    unfold deliver
    dsimp only
    split
    · exact realm_taskNotBuilt m b settler _
    · exact realm_taskBuilt m b settler _
  | resuming b id settler =>
    refine .of_same ?_
    cases a with
    | stepped step script =>
      exact snapshot?_of_realm fun p => realm_taskStepped m B.held b id settler script step
    | _ => rfl
  | advancing x => cases a <;> exact .of_same rfl
  | _ => exact .of_same rfl

theorem recalls_unwindFrame (m : Machine C R) (B : Behavior C R) (payload : Payload)
    (salvage : Option (Script C)) (f : Frame C R) :
    Recalls m (m.unwindFrame B payload salvage f) := by
  cases f with
  | releasing rest onward => cases onward <;> exact .of_same rfl
  | pass q => exact .of_same (snapshot?_onScheduler m q _)
  | stepping q id =>
    unfold unwindFrame
    dsimp only
    split
    · exact recalls_routineStepped m q id _ _
    · exact .of_same rfl
  | building q id origin =>
    unfold unwindFrame
    dsimp only
    split
    · exact .of_same (snapshot?_startChild m q id origin _)
    · exact .of_same rfl
  | opening q settler =>
    unfold unwindFrame
    dsimp only
    split
    · exact .of_same (snapshot?_openRoot m q settler _)
    · exact .of_same rfl
  | starting b settler =>
    refine .of_same (snapshot?_of_realm fun p => ?_)
    unfold unwindFrame
    dsimp only
    split
    · exact realm_taskNotBuilt m b settler _
    · rfl
  | resuming b id settler =>
    refine .of_same (snapshot?_of_realm fun p => ?_)
    unfold unwindFrame
    dsimp only
    split
    · exact realm_taskStepped m B.held b id settler _ _
    · rfl
  | advancing x =>
    refine .of_same ?_
    unfold unwindFrame
    dsimp only
    split <;> rfl
  | _ => exact .of_same rfl

/-! ### Moves -/

/-- A move that is no invocation of a continuation leaves what it has captured
    alone. -/
theorem recalls_step (hnot : ∀ k v, ¬ m.Invokes k v) : Recalls m (m.step B) := by
  unfold step
  split
  · next script input hfocus =>
    refine .of_same (snapshot?_advanceScript B fun k v heq => ?_)
    subst heq
    exact hnot k v (Or.inr ⟨input, hfocus⟩)
  · exact .of_same (snapshot?_of_realm fun p => realm_exitScript m B _)
  · exact .of_same (snapshot?_of_realm fun p => realm_copyScript m B _)
  · exact recalls_letGo m B _ _ _
  · next onward hfocus =>
    cases onward with
    | begin code entry => exact .of_same (snapshot?_retain m _)
    | tell state signal =>
      refine .of_same ?_
      unfold goOn tell
      dsimp only [recount]
      split <;> exact snapshot?_retain m _
    | act reaction =>
      cases reaction with
      | ask request next =>
        refine .of_same (snapshot?_perform (m := m.push (.code next)) B fun k v heq => ?_)
        subst heq
        exact hnot k v (Or.inl ⟨next, hfocus⟩)
      | _ => exact .of_same rfl
    | give a =>
      unfold goOn
      dsimp only
      split
      · exact .of_same rfl
      · next f control hcontrol =>
        exact (recalls_deliver { m with control } B a f).congr rfl
    | unwind payload salvage =>
      unfold goOn
      dsimp only
      split
      · exact .of_same rfl
      · next f control hcontrol =>
        exact (recalls_unwindFrame { m with control } B payload salvage f).congr rfl
  · exact .of_same rfl

/-! ### Invocations -/

/-- Both kinds of invocation come down to the same operation. -/
theorem Invokes.step {v : Value} (h : m.Invokes k v) :
    ∃ n : Machine C R, m.step B = n.invoke k v ∧ n.snapshot? = m.snapshot? ∧
      ∀ p, n.scheduler? p = m.scheduler? p := by
  rcases h with ⟨next, hfocus⟩ | ⟨input, hfocus⟩
  · refine ⟨(m.push (.code next)).push (.holding [.continuation k]), ?_, rfl, fun _ => rfl⟩
    simp only [Machine.step, hfocus]
    rfl
  · refine ⟨(m.push (.inReentry k)).push (.holding input.handles), ?_, rfl, fun _ => rfl⟩
    simp only [Machine.step, hfocus]
    rfl

/-- The first thing that an invocation does is to claim the routines. -/
theorem invoke_eq {s : Scheduler C} (hk : m.snapshot? k = some snapshot)
    (hs : m.scheduler? snapshot.home = some s) (v : Value) :
    ∃ n : Machine C R, n.scheduler? snapshot.home = some s ∧
      n.control = .holding [.scheduler snapshot.home] :: m.control ∧
      (∀ j, n.snapshot? j = if j = k then some { snapshot with routines := none } else m.snapshot? j) ∧
      m.invoke k v = match snapshot.routines with
        | none => n.reinstateNext k v [] snapshot.frames
        | some ids =>
          if ids.all s.routines.contains then n.reinstate snapshot.home ids v
          else (n.withStore (·.log .replayingSnapshot)).reinstateNext k v [] snapshot.frames := by
  have hk' : m.store.snapshots.find? k = some snapshot := hk
  refine ⟨((m.retain [.scheduler snapshot.home]).push (.holding [.scheduler snapshot.home])).withStore
    fun t => { t with snapshots := t.snapshots.set k { snapshot with routines := none } }, ?_, rfl, ?_, ?_⟩
  · exact (scheduler?_retain m _ _).trans hs
  · intro j
    have hsame := congrFun (snapshot?_retain m [.scheduler snapshot.home])
    show ((m.retain [.scheduler snapshot.home]).store.snapshots.set k _).find? j = _
    rw [Table.find?_set]
    by_cases hj : j = k
    · subst hj
      have hfound : (m.retain [.scheduler snapshot.home]).store.snapshots.find? j = some snapshot :=
        (hsame j).trans hk
      rw [if_pos rfl, if_pos rfl, hfound]
      rfl
    · rw [if_neg hj, if_neg hj]
      exact hsame j
  · cases hids : snapshot.routines with
    | none => simp only [invoke, hk', hs, hids]
    | some ids => simp only [invoke, hk', hs, hids]

/-- Afterwards the continuation has no routines of its own any more. -/
theorem snapshot?_invoke {s : Scheduler C} (hk : m.snapshot? k = some snapshot)
    (hs : m.scheduler? snapshot.home = some s) (v : Value) (j : Nat) :
    (m.invoke k v).snapshot? j =
      if j = k then some { snapshot with routines := none } else m.snapshot? j := by
  obtain ⟨n, -, -, hn, heq⟩ := invoke_eq hk hs v
  rw [heq, ← hn]
  split
  · exact congrFun (snapshot?_reinstateNext n k v [] snapshot.frames) j
  · split
    · exact congrFun (snapshot?_onScheduler n _ _) j
    · exact congrFun (snapshot?_reinstateNext (n.withStore _) k v [] snapshot.frames) j

theorem Invokes.spends {v : Value} {s : Scheduler C} (h : m.Invokes k v)
    (hk : m.snapshot? k = some snapshot) (hs : m.scheduler? snapshot.home = some s) :
    (m.step B).snapshot? k = some { snapshot with routines := none } := by
  obtain ⟨n, hstep, hsnap, hsched⟩ := Invokes.step (B := B) h
  rw [hstep, snapshot?_invoke ((congrFun hsnap k).trans hk) ((hsched _).trans hs) v, if_pos rfl]

/-- What any move makes of a continuation that stays. -/
theorem snapshot?_step (hk : m.snapshot? k = some snapshot)
    (hk' : (m.step B).snapshot? k = some snapshot') :
    snapshot' = snapshot ∨
      (∃ v, m.Invokes k v) ∧ snapshot' = { snapshot with routines := none } := by
  by_cases hinvokes : ∃ j v, m.Invokes j v
  · obtain ⟨j, v, hinvoke⟩ := hinvokes
    obtain ⟨n, hstep, hsnap, hsched⟩ := Invokes.step (B := B) hinvoke
    rw [hstep] at hk'
    have hfound : n.snapshot? k = some snapshot := (congrFun hsnap k).trans hk
    cases hj : n.snapshot? j with
    | none =>
      refine Or.inl ?_
      have hsame : (n.invoke j v).snapshot? = n.snapshot? := by
        have hj' : n.store.snapshots.find? j = none := hj
        simp only [invoke, hj']
        rfl
      exact Option.some.inj (hk'.symm.trans ((congrFun hsame k).trans hfound))
    | some x =>
      cases hs : n.scheduler? x.home with
      | none =>
        refine Or.inl ?_
        have hsame : (n.invoke j v).snapshot? = n.snapshot? := by
          have hj' : n.store.snapshots.find? j = some x := hj
          simp only [invoke, hj', hs]
          rfl
        exact Option.some.inj (hk'.symm.trans ((congrFun hsame k).trans hfound))
      | some s =>
        rw [snapshot?_invoke hj hs v] at hk'
        by_cases hkj : k = j
        · subst hkj
          rw [if_pos rfl] at hk'
          rw [hfound] at hj
          cases hj
          exact Or.inr ⟨⟨v, hinvoke⟩, (Option.some.inj hk').symm⟩
        · rw [if_neg hkj] at hk'
          exact Or.inl (Option.some.inj (hk'.symm.trans hfound))
  · refine Or.inl (recalls_step (B := B) (fun j v h => hinvokes ⟨j, v, h⟩) k _ _ hk hk')

/-! ### Runs -/

/-- Continuation `k` is there. -/
def Has (k : Nat) (m : Machine C R) : Prop := ∃ snapshot, m.snapshot? k = some snapshot

/-- Continuation `k` is there, and the next move is no invocation of it. -/
def Dormant (k : Nat) (m : Machine C R) : Prop := m.Has k ∧ ∀ v, ¬ m.Invokes k v

theorem LaterWhile.weaken {Q Q' : Machine C R → Prop} (h : LaterWhile B Q m n)
    (hQ : ∀ o, Q o → Q' o) : LaterWhile B Q' m n := by
  induction h with
  | refl => exact .refl
  | step _ hq ih => exact .step ih (hQ _ hq)
  | anew _ halted events focus ih => exact .anew ih halted events focus

/-- As long as a continuation is there, it keeps its frames, and its routines or
    none. -/
theorem LaterWhile.frames (h : LaterWhile B (Has k) m n) (hk : m.snapshot? k = some snapshot)
    (hk' : n.snapshot? k = some snapshot') : snapshot'.home = snapshot.home ∧
      snapshot'.frames = snapshot.frames ∧
      (snapshot'.routines = snapshot.routines ∨ snapshot'.routines = none) := by
  induction h generalizing snapshot' with
  | refl =>
    rw [hk] at hk'
    cases hk'
    exact ⟨rfl, rfl, Or.inl rfl⟩
  | step _ hhas ih =>
    obtain ⟨x, hx⟩ := hhas
    obtain ⟨hhome, hframes, hroutines⟩ := ih hx
    rcases snapshot?_step hx hk' with rfl | ⟨-, rfl⟩
    · exact ⟨hhome, hframes, hroutines⟩
    · exact ⟨hhome, hframes, Or.inr rfl⟩
  | anew _ halted events focus ih => exact ih hk'

/-- A continuation that nobody has invoked is as it was. -/
theorem LaterWhile.uninvoked (h : LaterWhile B (Dormant k) m n) (hk : m.snapshot? k = some snapshot)
    (hk' : n.snapshot? k = some snapshot') : snapshot' = snapshot := by
  induction h generalizing snapshot' with
  | refl => exact Option.some.inj (hk'.symm.trans hk)
  | step _ hdormant ih =>
    obtain ⟨⟨x, hx⟩, hnot⟩ := hdormant
    rcases snapshot?_step hx hk' with rfl | ⟨⟨v, hv⟩, -⟩
    · exact ih hx
    · exact absurd hv (hnot v)
  | anew _ halted events focus ih => exact ih hk'

end Machine

end Strand
