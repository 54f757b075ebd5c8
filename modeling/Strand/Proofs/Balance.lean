import Mathlib
import Strand.Proofs.Ledger

/-! # Balance — every move keeps the count of holders

    As long as code holds only what it has been given (`HoldsGiven`), no move
    makes more handles than it counts: a machine stays `Balanced`. So nothing is
    let go of for good while somebody holds it.

    There is one lemma for each operation. It says what the operation finds in
    transit, and that the machine balances once it is over. -/

namespace Strand.Machine

variable {C R : Type} {B : Behavior C R} {st : Store C} {K : List (Frame C R)}
  {ys : List Share} {f : Frame C R} {m : Machine C R} {b c p k : Nat} {x : Handle}

/-- Nobody holds more than has been counted, and a script that is to be copied
    belongs to the frame on top. -/
structure Balanced (B : Behavior C R) (m : Machine C R) : Prop where
  covered : Covered B m.store m.control (m.focus.shares B)
  lent : ∀ script, m.focus = .copy script → Lends m.store.frames? script m.control

theorem balanced_release {hs : List Handle} {onward : Onward C R} (h : Covered B st K ys)
    (hle : ∀ y, (loose (hs ++ onward.handles B)).count y ≤ ys.count y) :
    Balanced B ⟨st, K, .release hs onward⟩ :=
  ⟨h.sub hle, fun _ heq => by cases heq⟩

theorem balanced_advance {script : Script C} {input : Outcome Value} (h : Covered B st K ys)
    (hle : ∀ y, (loose (script.handles B.held ++ input.handles)).count y ≤ ys.count y) :
    Balanced B ⟨st, K, .advance script input⟩ :=
  ⟨h.sub hle, fun _ heq => by cases heq⟩

theorem balanced_exit {script : Script C} (h : Covered B st K ys)
    (hle : ∀ y, (loose (script.handles B.held)).count y ≤ ys.count y) :
    Balanced B ⟨st, K, .exit script⟩ :=
  ⟨h.sub hle, fun _ heq => by cases heq⟩

/-- Everything in transit goes into the frame. -/
theorem covered_push (h : Covered B st K (f.shares B)) (hf : f.backed B st.frames? K) :
    Covered B st (f :: K) [] :=
  Covered.push (by rwa [List.append_nil]) hf

/-- A frame that holds nothing. -/
theorem covered_push_empty (h : Covered B st K ys) (hempty : f.shares B = [])
    (hf : f.backed B st.frames? K) : Covered B st (f :: K) ys :=
  Covered.push (by rwa [hempty]) hf

/-! ### Who holds a handle -/

/-- A frame of the control stack holds the handle. -/
def Keeps (B : Behavior C R) (K : List (Frame C R)) (x : Handle) : Prop :=
  .loose x ∈ K.flatMap (Frame.shares B)

theorem Keeps.push (h : Keeps B K x) (f : Frame C R) : Keeps B (f :: K) x := by
  obtain ⟨g, hg, hx⟩ := List.mem_flatMap.mp h
  exact List.mem_flatMap.mpr ⟨g, List.mem_cons_of_mem _ hg, hx⟩

theorem keeps_top (h : .loose x ∈ f.shares B) (K : List (Frame C R)) : Keeps B (f :: K) x :=
  List.mem_flatMap.mpr ⟨f, List.mem_cons_self .., h⟩

theorem keeps_holding (x : Handle) (K : List (Frame C R)) : Keeps B (.holding [x] :: K) x :=
  keeps_top (by simp [Frame.shares]) K

theorem Keeps.held (h : Keeps B K x) (st : Store C) (ys : List Share) :
    0 < holdings B st K ys (.loose x) := by
  have hpos := List.count_pos_iff.mpr h
  simp only [holdings]
  omega

theorem held_of_mem (h : .loose x ∈ ys) (st : Store C) (K : List (Frame C R)) :
    0 < holdings B st K ys (.loose x) := by
  have hpos := List.count_pos_iff.mpr h
  simp only [holdings]
  omega

@[simp] theorem mem_loose {hs : List Handle} : .loose x ∈ loose hs ↔ x ∈ hs := by simp [loose]

/-- What is in transit is held once more. -/
theorem retain_transit (h : Covered B st K ys) (hs : List Handle) (hsub : ∀ x ∈ hs, .loose x ∈ ys) :
    Covered B (st.retainAll hs) K (loose hs ++ ys) :=
  h.retain hs fun x hx _ => held_of_mem (hsub x hx) st K

@[simp] theorem handles_bool (b : Bool) : (Value.bool b).handles = [] := by simp [Value.handles]

@[simp] theorem handles_unit_value : Value.unit.handles = [] := by simp [Value.handles]

@[simp] theorem handles_int (n : Int64) : (Value.int n).handles = [] := by simp [Value.handles]

@[simp] theorem handles_handle (x : Handle) : (Value.handle x).handles = [x] := by
  simp [Value.handles]

/-! ### Completions -/

theorem balanced_settle {o : Outcome Value} (h : Covered B m.store m.control (loose o.handles))
    (hkeeps : Keeps B m.control (.settler c)) : Balanced B (m.settle c o) := by
  unfold settle
  split
  · next listeners settlers hc =>
    have htwice := retain_transit h o.handles fun x hx => mem_loose.mpr hx
    have hprogress := m.store.progress_retainAll o.handles c
    rw [hc, Option.map_some] at hprogress
    obtain ⟨⟨progress, n⟩, hfound, heq⟩ := Option.map_eq_some_iff.mp hprogress
    obtain rfl : progress = .pending listeners := heq
    have hsettled := htwice.settle settlers hfound (htwice.not_task (hkeeps.held _ _))
    exact balanced_release (covered_push (f := .notifying listeners o) hsettled trivial)
      fun y => by simp [Onward.handles, Answer.handles]
  · exact balanced_release h fun y => by
      simp [Onward.handles, Answer.handles, Reply.handles, Outcome.handles]

/-- A task is told what it has waited for. -/
theorem balanced_wakeTask {task : Task C} {o : Outcome Value}
    (h : Covered B m.store m.control
      (.loose (.bridge b) :: (task.shares B.held ++ loose o.handles))) :
    Balanced B (m.wakeTask b task o) := by
  have hpushed : Covered B (m.pushAction b (.resume task (some o))).store m.control
      [.loose (.bridge b)] := by
    refine Covered.onBridge (task.shares B.held ++ loose o.handles) [] (h.sub fun y => ?_)
      (fun x => { x with stack := .resume task (some o) :: x.stack }) (fun x _ y => ?_)
      fun _ y => Nat.zero_le _
    · simp only [List.count_append, List.count_cons, List.count_nil]
      omega
    · simp only [Bridge.shares, List.flatMap_cons, List.count_append, Action.shares,
        Option.map_some, Option.getD_some, List.count_nil]
      omega
  unfold wakeTask
  dsimp only
  split
  · exact balanced_release hpushed fun y => by simp [Onward.handles, Answer.handles]
  · have hheld := covered_push (f := (.holding [.bridge b] : Frame C R))
      (hpushed.bridgeReport b .drivingAgain) trivial
    have hentered := hheld.onBridge_same (b := b) (fun x => { x with running := true }) fun _ => rfl
    exact balanced_release (covered_push_empty (f := .driving b) hentered rfl
      (keeps_holding (.bridge b) m.control)) fun y => by simp [Onward.handles, Answer.handles]

theorem balanced_tellListener {w : Listener C} {o : Outcome Value}
    (h : Covered B m.store m.control (w.shares B.held ++ loose o.handles)) :
    Balanced B (m.tellListener w o) := by
  cases w with
  | call code =>
    exact balanced_release (covered_push_empty (f := .ignoring) h rfl trivial) fun y => by
      simp [Onward.handles, Listener.shares, Entry.handles]
  | resume b task => exact balanced_wakeTask h

theorem balanced_notify {listeners : List (Listener C)} {o : Outcome Value}
    (h : Covered B m.store m.control
      (listeners.flatMap (Listener.shares B.held) ++ loose o.handles)) :
    Balanced B (m.notify listeners o) := by
  cases listeners with
  | nil =>
    exact balanced_release h fun y => by
      simp [Onward.handles, Answer.handles, Reply.handles, Outcome.handles]
  | cons w rest =>
    have htwice := retain_transit h o.handles fun x hx => by simp [hx]
    refine balanced_tellListener (m := (m.retain o.handles).push (.notifying rest o))
      (Covered.push (f := .notifying rest o) (htwice.sub fun y => ?_) trivial)
    simp only [Frame.shares, List.flatMap_cons, List.count_append]
    omega

/-- The outcome of a completion is handed out. -/
theorem retain_settled {o : Outcome Value} {n : Nat} (h : Covered B m.store m.control ys)
    (hc : m.store.completions.find? c = some ⟨.settled o, n⟩) :
    Covered B (m.retain o.handles).store m.control (loose o.handles ++ ys) := by
  refine h.retain o.handles fun x hx _ => ?_
  have hmem : 0 < (loose o.handles).count (.loose x) := by
    rw [count_loose]
    exact List.count_pos_iff.mpr hx
  have hle : (loose o.handles).count (.loose x) ≤ _ :=
    Table.le_total hc (fun k => (k.progress.shares B.held).count (.loose x))
  simp only [holdings, Store.held]
  omega

theorem balanced_await {w : Listener C} (h : Covered B m.store m.control (w.shares B.held)) :
    Balanced B (m.await B.held c w) := by
  unfold await
  split
  · next listeners settlers hc =>
    have hlistens : Covered B _ m.control [] := Covered.listen (w := w) (by rwa [List.append_nil]) hc
    exact balanced_release hlistens fun y => by
      simp [Onward.handles, Answer.handles, Reply.handles, Outcome.handles]
  · next o settlers hc =>
    have htold := retain_settled h hc
    refine balanced_tellListener (m := (m.retain o.handles).push (.replying .unit))
      (Covered.push (f := .replying .unit) (htold.sub fun y => ?_) trivial)
    simp only [Frame.shares, handles_unit_value, loose_nil, List.nil_append, List.count_append]
    omega
  · have hloose : Covered B m.store m.control (loose (w.handles B.held)) := by
      refine h.mono (fun x _ => ?_) fun c => ?_
      · rw [worth_loose, worth_listener]
      · rw [count_loose_task]
        exact Nat.zero_le _
    exact balanced_release hloose fun y => by
      simp [Onward.handles, Answer.handles, Reply.handles, Outcome.handles]

theorem newCompletion_fst (m : Machine C R) :
    m.newCompletion.1 = m.store.completions.cells.size := rfl

theorem newSettled_fst (m : Machine C R) (o : Outcome Value) :
    (m.newSettled o).1 = m.store.completions.cells.size := rfl

/-- A new completion: its first reader and its first settler. -/
theorem covered_newCompletion (h : Covered B m.store m.control ys) :
    Covered B m.newCompletion.2.store m.control
        (.loose (.completion m.newCompletion.1) :: .loose (.settler m.newCompletion.1) :: ys) ∧
      m.newCompletion.2.store.tally? m.newCompletion.1 = some ⟨2, 1, true⟩ := by
  refine ⟨Covered.allocCompletion (n := 2) (x := ⟨.pending [], 1⟩) [] h rfl
    (Nat.le_succ 1) (fun _ => Nat.le_refl 1) fun y => Nat.le_refl 0, ?_⟩
  exact (m.store.tally?_alloc 2 ⟨.pending [], 1⟩ _).trans (if_pos rfl)

theorem covered_newSettled {o : Outcome Value}
    (h : Covered B m.store m.control (loose o.handles ++ ys)) :
    Covered B (m.newSettled o).2.store m.control (.loose (.completion (m.newSettled o).1) :: ys) :=
  Covered.allocCompletion (n := 1) (x := ⟨.settled o, 0⟩) _ h rfl (Nat.zero_le 1)
    (fun h => by cases h) fun _ => Nat.le_refl _

/-! ### Queues -/

theorem covered_defer (q : Nat) (job : Job C)
    (h : Covered B m.store m.control (loose (job.handles B.held) ++ ys)) :
    Covered B (m.defer q job).store m.control ys := by
  refine Covered.onQueue _ [] h (· ++ [job]) (fun x _ y => ?_) fun _ y => Nat.zero_le _
  simp only [List.flatMap_append, List.flatMap_singleton, loose_append, List.count_append,
    List.count_nil]
  omega

theorem balanced_runJob {job : Job C} (h : Covered B m.store m.control (loose (job.handles B.held))) :
    Balanced B (m.runJob job) := by
  cases job with
  | call code =>
    exact balanced_release (covered_push_empty (f := .ignoring) h rfl trivial) fun y => by
      simp [Onward.handles, Job.handles, Entry.handles]
  | settle c o =>
    refine balanced_settle (m := m.push (.holding [.settler c]))
      (Covered.push (f := .holding [.settler c]) (h.sub fun y => ?_) trivial)
      (keeps_holding (.settler c) m.control)
    simp [Frame.shares, Job.handles]

theorem balanced_drainNext {q ran : Nat} (h : Covered B m.store m.control []) :
    Balanced B (m.drainNext q ran) := by
  unfold drainNext
  split
  · next job rest hq =>
    have htaken := Covered.onQueue [] (loose (job.handles B.held)) h
      (fun _ => rest) (fun x hx y => by
        obtain rfl := Option.some.inj (hq.symm.trans hx)
        simp only [List.flatMap_cons, loose_append, List.count_append, List.count_nil]
        omega) fun hnone => absurd (hq.symm.trans hnone) (by simp)
    rw [List.append_nil] at htaken
    exact balanced_runJob (m := (m.withStore fun s =>
      { s with queues := s.queues.set q rest }).push (.draining q (ran + 1)))
      (covered_push_empty (f := .draining q (ran + 1)) htaken rfl trivial)
  · exact balanced_release h fun y => by
      simp [Onward.handles, Answer.handles, Reply.handles, Outcome.handles]

/-! ### Bridges -/

theorem covered_pushAction (ys : List Share) {a : Action C}
    (h : Covered B m.store m.control (a.shares B.held ++ ys)) :
    Covered B (m.pushAction b a).store m.control ys := by
  refine Covered.onBridge _ [] h (fun x => { x with stack := a :: x.stack })
    (fun x _ y => ?_) fun _ y => Nat.zero_le _
  simp only [Bridge.shares, List.flatMap_cons, List.count_append, List.count_nil]
  omega

theorem balanced_enterBridge (h : Covered B m.store m.control ys) (hkeeps : Keeps B m.control (.bridge b)) :
    Balanced B (m.enterBridge b) :=
  balanced_release (covered_push_empty (f := .driving b)
    (h.onBridge_same (b := b) (fun x => { x with running := true }) fun _ => rfl) rfl hkeeps)
    fun y => by simp [Onward.handles, Answer.handles]

theorem balanced_bridgeHead (h : Covered B m.store m.control [])
    (hkeeps : Keeps B m.control (.bridge b)) : Balanced B (m.bridgeHead b) := by
  unfold bridgeHead
  split
  · exact balanced_release h fun y => by simp [Onward.handles, Answer.handles]
  · next bridge hb =>
    split
    · exact balanced_release
        (h.onBridge_same (b := b) (fun x => { x with running := false }) fun _ => rfl)
        fun y => by simp [Onward.handles, Answer.handles]
    · next action rest hstack =>
      have htaken := Covered.onBridge [] (action.shares B.held) h
        (fun x => { x with stack := rest }) (fun x hx y => by
          obtain rfl := Option.some.inj (hb.symm.trans hx)
          simp only [Bridge.shares, hstack, List.flatMap_cons, List.count_append, List.count_nil]
          omega) fun hnone => absurd (hb.symm.trans hnone) (by simp)
      rw [List.append_nil] at htaken
      have hdriving := covered_push_empty (f := .driving b) htaken rfl hkeeps
      cases action with
      | start code settler =>
        exact balanced_release (Covered.push (f := .starting b settler) hdriving
          (hkeeps.push (.driving b))) fun y => by simp [Onward.handles, Entry.handles, loose]
      | resume task o =>
        refine balanced_advance (Covered.push (f := .resuming b task.id task.settler) hdriving
          (hkeeps.push (.driving b))) fun y => ?_
        cases o <;> simp

theorem balanced_taskBuilt {settler : Nat} {script : Script C}
    (h : Covered B m.store m.control (.task settler :: loose (script.handles B.held))) :
    Balanced B (m.taskBuilt b settler script) := by
  unfold taskBuilt
  split
  · exact balanced_release h fun y => by simp [Onward.handles, Answer.handles]
  · next bridge hb =>
    dsimp only
    have hnumbered := (h.onBridge_same (b := b)
      (fun x => { x with nextId := bridge.nextId + 1 }) fun _ => rfl).bridgeReport b
        (.taskStarted bridge.nextId)
    refine balanced_release (covered_pushAction []
      (m := (m.onBridge b fun x => { x with nextId := bridge.nextId + 1 }).withStore
        (·.bridgeReport b (.taskStarted bridge.nextId)))
      (a := .resume ⟨bridge.nextId, script, settler⟩ none) (hnumbered.sub fun y => ?_))
      fun y => by simp [Onward.handles, Answer.handles]
    simp [Action.shares, Task.shares]

theorem balanced_taskNotBuilt {settler : Nat} {error : Error}
    (h : Covered B m.store m.control [.task settler]) : Balanced B (m.taskNotBuilt b settler error) := by
  have hresigned := (h.bridgeReport b (.taskNotStarted error)).resign
  exact balanced_settle (m := (m.withStore
    (·.bridgeReport b (.taskNotStarted error))).push (.holding [.settler settler]))
    (covered_push (f := .holding [.settler settler]) hresigned trivial)
    (keeps_holding (.settler settler) m.control)

theorem balanced_taskStepped {id : UInt64} {settler : Nat} {script : Script C} {step : Step C}
    (h : Covered B m.store m.control
      (.task settler :: loose (script.handles B.held ++ step.handles B.held)))
    (hkeeps : Keeps B m.control (.bridge b)) :
    Balanced B (m.taskStepped B.held b id settler script step) := by
  cases step with
  | done o =>
    have hresigned := (h.bridgeReport b (.taskFinished id o.isSuccess)).resign
    refine balanced_settle (m := (m.withStore (·.bridgeReport b (.taskFinished id o.isSuccess))).push
      (.holding (.settler settler :: script.handles B.held)))
      (Covered.push (f := .holding (.settler settler :: script.handles B.held))
        (hresigned.sub fun y => ?_) trivial)
      (keeps_top (by simp [Frame.shares]) _)
    simp only [Frame.shares, Step.handles, loose_cons, loose_append, List.count_cons,
      List.count_append]
    omega
  | yield i =>
    have hdropped : Balanced B (m.drop
        (.settler settler :: script.handles B.held ++ i.handles B.held) .nothing) :=
      balanced_release h.resign fun y => by
        simp [Onward.handles, Answer.handles, Step.handles]
    cases i with
    | await c' =>
      have hretained := (h.bridgeReport b (.taskAwaiting id)).retain [.bridge b] fun x hx _ => by
        obtain rfl := List.mem_singleton.mp hx
        exact hkeeps.held _ _
      refine balanced_await (m := ((m.withStore (·.bridgeReport b (.taskAwaiting id))).retain
        [.bridge b]).push (.holding [.completion c']))
        (w := .resume b ⟨id, script, settler⟩)
        (Covered.push (f := .holding [.completion c']) (hretained.sub fun y => ?_) trivial)
      simp only [Frame.shares, Listener.shares, Task.shares, Step.handles, Instruction.handles,
        loose_cons, loose_nil, loose_append, List.count_cons, List.count_append, List.count_nil]
      omega
    | _ => exact hdropped

theorem balanced_runTask {code : C}
    (h : Covered B m.store m.control (loose (.bridge b :: B.held code))) :
    Balanced B (m.runTask b code) := by
  obtain ⟨hnew, htally⟩ := covered_newCompletion h
  unfold runTask
  generalize hstore : m.newCompletion = made at hnew htally
  obtain ⟨c', m'⟩ := made
  have hcontrol : m'.control = m.control := by
    have hsame : m.newCompletion.2.control = m.control := rfl
    rw [hstore] at hsame
    exact hsame
  dsimp only at hnew htally ⊢
  rw [← hcontrol] at hnew
  have hadopted : Covered B m'.store m'.control
      (.task c' :: .loose (.completion c') :: loose (.bridge b :: B.held code)) := Covered.adopt (hnew.sub fun y => by
      simp only [List.count_cons]
      omega) htally
  have hholding : Covered B m'.store
      (.replying (.handle (.completion c')) :: .holding [.bridge b] :: m'.control)
      ((Action.start code c').shares B.held ++ []) := by
    refine Covered.push (f := .replying (.handle (.completion c'))) (Covered.push
      (f := .holding [.bridge b]) (hadopted.sub fun y => ?_) trivial) trivial
    simp only [Frame.shares, Action.shares, handles_handle, loose_cons, loose_nil, List.count_cons,
      List.count_append, List.count_nil]
    omega
  have hpushed := covered_pushAction [] (b := b)
    (m := (m'.push (.holding [.bridge b])).push (.replying (.handle (.completion c')))) hholding
  split
  · exact balanced_release hpushed fun y => by simp [Onward.handles, Answer.handles]
  · exact balanced_enterBridge hpushed ((keeps_holding (.bridge b) m'.control).push _)

/-! ### Passes -/

/-- What a scheduler does takes everything that is in transit. -/
theorem covered_onScheduler {ins : List Handle} (h : Covered B m.store m.control (loose ins))
    (p : Nat) {f : Scheduler C → Scheduler C} (outs : List Handle)
    (hf : ∀ s, m.scheduler? p = some s → ∀ x,
      (f s).claims B.held x + outs.count x ≤ s.claims B.held x + ins.count x)
    (hnone : m.scheduler? p = none → ∀ x, outs.count x ≤ ins.count x) :
    Covered B (m.onScheduler p f).store m.control (loose outs) := by
  have hafter : Covered B (m.onScheduler p f).store m.control (loose outs ++ []) :=
    Covered.onScheduler (by rwa [List.append_nil]) p hf hnone
  rwa [List.append_nil] at hafter

/-- A scheduler becomes another one. -/
theorem covered_become {s : Scheduler C} (ins outs : List Handle)
    (h : Covered B m.store m.control (loose ins)) (hs : m.scheduler? p = some s) (t : Scheduler C)
    (hle : ∀ x, t.claims B.held x + outs.count x ≤ s.claims B.held x + ins.count x) :
    Covered B (m.onScheduler p fun _ => t).store m.control (loose outs) := by
  refine covered_onScheduler h p outs (fun s' hs' => ?_) fun hnone =>
    absurd (hs.symm.trans hnone) (by simp)
  obtain rfl := Option.some.inj (hs.symm.trans hs')
  exact hle

theorem registerHandles_of_some {s : Scheduler C} (hs : m.scheduler? p = some s) :
    m.registerHandles p = s.register.handles := by
  rw [registerHandles, hs]
  rfl

theorem registerHandles_of_none (hs : m.scheduler? p = none) : m.registerHandles p = [] := by
  rw [registerHandles, hs]
  rfl

theorem balanced_enterPass {dropped : List Handle}
    (h : Covered B m.store m.control (loose dropped)) : Balanced B (m.enterPass p dropped) := by
  have hrunning := covered_onScheduler h p (f := fun s => { s with running := true }) dropped
    (fun s _ x => Nat.le_refl _) fun _ x => Nat.le_refl _
  exact balanced_release (covered_push_empty (f := .pass p) hrunning rfl trivial) fun y => by
    simp [Onward.handles, Answer.handles]

theorem balanced_passHead (h : Covered B m.store m.control []) : Balanced B (m.passHead p) := by
  unfold passHead
  split
  · exact balanced_release h fun y => by simp [Onward.handles, Answer.handles]
  · next s hs =>
    split
    · next id script t hpick =>
      have htaken := covered_become [] (script.handles B.held ++ t.register.handles) h hs
        { t with register := .unit } fun x => by
          have hpicked := Scheduler.claims_pick B.held x s hpick
          have hset := Scheduler.claims_register B.held x t (o := .unit)
            (t := { t with register := .unit }) rfl rfl rfl
          simp only [Option.map_some, Option.getD_some] at hpicked
          simp only [Outcome.handles_unit, List.count_nil, List.count_append] at hset ⊢
          omega
      exact balanced_advance (covered_push_empty (f := .stepping p id)
        (covered_push_empty (f := .pass p) htaken rfl trivial) rfl trivial) fun y => Nat.le_refl _
    · next t hpick =>
      have hleft := covered_become [] t.register.handles h hs
        ({ t with register := .unit }.leave m.panicking) fun x => by
          have hpicked := Scheduler.claims_pick B.held x s hpick
          have hset := Scheduler.claims_register B.held x t (o := .unit)
            (t := { t with register := .unit }) rfl rfl rfl
          have hleave := Scheduler.claims_leave B.held x { t with register := .unit } m.panicking
          simp only [Option.map_none, Option.getD_none, List.count_nil, Outcome.handles_unit]
            at hpicked hset hleave ⊢
          omega
      exact balanced_release hleft fun y => by simp [Onward.handles, Answer.handles]

theorem balanced_endStep {dropped : List Handle} (h : Covered B m.store m.control (loose dropped)) :
    Balanced B (m.endStep p dropped) :=
  balanced_release (covered_push_empty (f := .sweeping p) h rfl trivial) fun y => by
    simp [Onward.handles, Answer.handles]

theorem balanced_sweep (h : Covered B m.store m.control []) : Balanced B (m.sweep B.held p) := by
  unfold sweep
  split
  · exact balanced_release h fun y => by simp [Onward.handles, Answer.handles]
  · next s hs =>
    have hfreed := fun x => Scheduler.claims_freeUnclaimed B.held x s
    generalize s.freeUnclaimed = swept at hfreed
    obtain ⟨freed, t⟩ := swept
    have htaken := covered_become [] (t.retired.flatMap (Script.handles B.held)) h hs
      { t with current := none, retired := [] } fun x => by
        have hone := hfreed x
        simp only [Scheduler.claims, List.flatMap_nil, List.count_nil] at hone ⊢
        omega
    dsimp only
    split
    · exact balanced_release htaken fun y => by simp [Onward.handles, Answer.handles]
    · exact balanced_release (covered_push_empty (f := .sweeping p) htaken rfl trivial) fun y => by
        simp [Onward.handles, Answer.handles]

theorem balanced_concludeStep {id : RoutineId} {script : Script C} {o : Outcome Value}
    (h : Covered B m.store m.control (loose (script.handles B.held ++ o.handles))) :
    Balanced B (m.concludeStep p id script o) := by
  unfold concludeStep
  dsimp only
  generalize hkeeps : ((m.scheduler? p).map fun s => s.keepsResult id).getD false = keeps
  have htwice := retain_transit h (if keeps then o.handles else []) fun x hx => by
    cases keeps with
    | false => cases hx
    | true =>
      have hx' : x ∈ o.handles := hx
      simp [hx']
  rw [← loose_append] at htwice
  have hconcluded := covered_onScheduler (m := m.retain (if keeps then o.handles else [])) htwice p
    (f := fun s => s.conclude id script o) (m.registerHandles p) (fun s hs x => by
      rw [scheduler?_retain] at hs
      rw [hs, Option.map_some, Option.getD_some] at hkeeps
      have hclaims := Scheduler.claims_conclude B.held x s id script o
      rw [hkeeps] at hclaims
      rw [registerHandles_of_some hs]
      simp only [List.count_append]
      omega) fun hnone x => by
        rw [scheduler?_retain] at hnone
        rw [registerHandles_of_none hnone]
        exact Nat.zero_le _
  exact balanced_endStep hconcluded

theorem balanced_startChild {id : RoutineId} {origin : Origin} {script : Script C}
    (h : Covered B m.store m.control (loose (script.handles B.held))) :
    Balanced B (m.startChild p id origin script) :=
  balanced_endStep (covered_onScheduler h p (m.registerHandles p) (fun s hs x => by
    rw [registerHandles_of_some hs]
    exact Scheduler.claims_scheduled B.held x s origin script (some id) rfl rfl rfl) fun hnone x => by
      rw [registerHandles_of_none hnone]
      exact Nat.zero_le _)

/-- The snapshot holds no more than the copies that it is made of. -/
theorem count_snapshot (home : Nat) (frames : List (Lifted C)) (copies : List (Script C)) (x : Handle) :
    ((Snapshot.of home frames copies).handles B.held).count x ≤
      (copies.flatMap (Script.handles B.held)).count x := by
  have hzip : ∀ (g : Lifted C → Script C → FrameCopy C)
      (_ : ∀ frame copy, (g frame copy).script = copy) (frames : List (Lifted C)),
      ((List.zipWith g frames copies).flatMap (FrameCopy.handles B.held)).count x ≤
        (copies.flatMap (Script.handles B.held)).count x := by
    intro g hg
    induction copies with
    | nil =>
      intro frames
      simp
    | cons copy copies ih =>
      intro frames
      cases frames with
      | nil => simp
      | cons frame frames =>
        have hrest := ih frames
        have hfirst : FrameCopy.handles B.held (g frame copy) = copy.handles B.held := by
          rw [FrameCopy.handles, hg]
        simp only [List.zipWith_cons_cons, List.flatMap_cons, List.count_append, hfirst]
        omega
  exact hzip _ (fun _ _ => rfl) frames

theorem balanced_captureNext {id : RoutineId} {handler : C} {frames left : List (Lifted C)}
    {copies : List (Script C)}
    (h : Covered B m.store m.control (loose (B.held handler ++
      Scheduler.liftedHandles B.held frames ++ copies.flatMap (Script.handles B.held))))
    (hleft : left ⊆ frames) : Balanced B (m.captureNext p id handler frames copies left) := by
  cases left with
  | cons frame left =>
    refine ⟨covered_push (f := .capturing p id handler frames copies left) h
      fun a ha => hleft (List.mem_cons_of_mem _ ha), fun script heq => ?_⟩
    cases heq
    exact ⟨frame, hleft (List.mem_cons_self ..), rfl⟩
  | nil =>
    have hback := covered_onScheduler h p (f := fun s => s.giveBackAll frames)
      (B.held handler ++ copies.flatMap (Script.handles B.held)) (fun s hs x => by
        have hclaims := Scheduler.claims_giveBackAll B.held x s frames
        simp only [List.count_append]
        omega) fun _ x => by
          simp only [List.count_append]
          omega
    have hnew := Covered.allocSnapshot (loose (B.held handler)) (t := .of p frames copies)
      (hback.sub fun y => by
        cases y with
        | loose x =>
          have hle := count_snapshot (B := B) p frames copies x
          simp only [loose_append, List.count_append, count_loose]
          omega
        | task c => simp)
    refine balanced_release (covered_push_empty (f := .building p id .shift)
      (hnew.uncounted (x := .reenter p) rfl) rfl trivial) fun y => ?_
    simp only [Onward.handles, Entry.handles, List.nil_append, loose_append, loose_cons, loose_nil,
      List.count_append, List.count_cons, List.count_nil]
    omega

theorem balanced_obey {id : RoutineId} {script : Script C} {i : Instruction C}
    (h : Covered B m.store m.control (loose (script.handles B.held ++ i.handles B.held))) :
    Balanced B (m.obey p id script i) := by
  -- the routine is put back and what the instruction holds is left
  have hshelved := covered_onScheduler h p (f := fun s => s.shelve id script) (i.handles B.held)
    (fun s _ x => by
      have hclaims := Scheduler.claims_shelve B.held x s id script
      simp only [List.count_append]
      omega) fun _ x => by
        simp only [List.count_append]
        omega
  have hsuspended := covered_onScheduler h p (f := fun s => s.suspend id script)
    (i.handles B.held) (fun s _ x => by
      have hclaims := Scheduler.claims_suspend B.held x s id script
      simp only [List.count_append]
      omega) fun _ x => by
        simp only [List.count_append]
        omega
  cases i with
  | reset block =>
    have hbounded := covered_onScheduler h p (f := fun s => (s.shelve id script).push .boundary)
      (B.held block) (fun s _ x => by
        have hclaims : ((s.shelve id script).push .boundary).claims B.held x ≤ _ :=
          Scheduler.claims_shelve B.held x s id script
        simp only [Instruction.handles, List.count_append]
        omega) fun _ x => by
          simp only [Instruction.handles, List.count_append]
          omega
    exact balanced_release (covered_push_empty (f := .building p id .reset) hbounded rfl trivial)
      fun y => by simp [Onward.handles, Entry.handles]
  | shift handler =>
    unfold obey
    dsimp only
    split
    · exact balanced_endStep (h.sub fun y => by simp)
    · next s hs =>
      generalize hlift : (s.shelve id script).lift = lifted
      obtain ⟨frames, t⟩ := lifted
      refine balanced_captureNext (m := m.onScheduler p fun _ => t)
        (covered_become _ _ h hs t fun x => ?_) (List.Subset.refl _)
      have hlifted := Scheduler.claims_lift B.held x (s.shelve id script) hlift
      have hshelve := Scheduler.claims_shelve B.held x s id script
      simp only [Instruction.handles, List.flatMap_nil, List.append_nil, List.count_append]
      omega
  | suspend => exact balanced_endStep hsuspended
  | splice nested => exact balanced_startChild (m := m.onScheduler p fun s => s.shelve id script) hshelved
  | await c' => exact balanced_endStep hsuspended

theorem balanced_routineStepped {id : RoutineId} {script : Script C} {step : Step C}
    (h : Covered B m.store m.control (loose (script.handles B.held ++ step.handles B.held))) :
    Balanced B (m.routineStepped p id script step) := by
  cases step with
  | done o => exact balanced_concludeStep h
  | yield i => exact balanced_obey h

theorem balanced_openRoot {settler : Option Nat} {script : Script C}
    (h : Covered B m.store m.control
      (loose (settler.toList.map .settler ++ script.handles B.held))) :
    Balanced B (m.openRoot p settler script) := by
  have hscheduled : ∀ (root : Script C), (∀ x, (root.handles B.held).count x =
      (settler.toList.map Handle.settler ++ script.handles B.held).count x) →
      Covered B (m.onScheduler p fun s => s.scheduleRoot root).store m.control
        (loose (m.registerHandles p)) := by
    intro root hroot
    refine covered_onScheduler h p _ (fun s hs x => ?_) fun hnone x => ?_
    · rw [registerHandles_of_some hs, ← hroot]
      exact Scheduler.claims_scheduled B.held x s .root root none rfl rfl rfl
    · rw [registerHandles_of_none hnone]
      exact Nat.zero_le _
  cases settler with
  | none => exact balanced_enterPass (hscheduled script fun x => rfl)
  | some c' =>
    refine balanced_enterPass (m := (m.onScheduler p fun s => s.scheduleRoot (.root script c')).push
      (.firstPass p)) (covered_push_empty (f := .firstPass p) (hscheduled _ fun x => ?_) rfl trivial)
    simp only [Script.handles, Option.toList_some, List.map_cons, List.map_nil, List.count_append]
    omega

/-! ### Continuations -/

theorem balanced_reinstate {frames : List RoutineId} {v : Value}
    (h : Covered B m.store m.control (loose v.handles)) : Balanced B (m.reinstate p frames v) := by
  have hafter := covered_onScheduler h p (f := fun s => s.reinstate frames v) (m.registerHandles p)
    (fun s hs x => by
      rw [registerHandles_of_some hs]
      exact Nat.le_of_eq (Scheduler.claims_reinstate B.held x s frames v)) fun hnone x => by
        rw [registerHandles_of_none hnone]
        exact Nat.zero_le _
  exact balanced_release hafter fun y => by
    simp [Onward.handles, Answer.handles, Reply.handles, Outcome.handles]

theorem balanced_reinstateNext {v : Value} {copies : List (Script C)} {left : List (FrameCopy C)}
    (h : Covered B m.store m.control
      (loose (v.handles ++ copies.flatMap (Script.handles B.held))))
    (hkeeps : Keeps B m.control (.continuation k))
    (hframes : ∃ fs, m.store.frames? k = some fs ∧ left ⊆ fs) :
    Balanced B (m.reinstateNext k v copies left) := by
  cases left with
  | cons frame left =>
    obtain ⟨fs, hfs, hleft⟩ := hframes
    refine ⟨covered_push (f := .reinstating k v copies left) h
      ⟨hkeeps, fs, hfs, fun a ha => hleft (List.mem_cons_of_mem _ ha)⟩, fun script heq => ?_⟩
    cases heq
    exact ⟨fs, hfs, frame, hleft (List.mem_cons_self ..), rfl⟩
  | nil =>
    have hlost : Balanced B (m.give .nothing) := balanced_release h fun y => by
      simp [Onward.handles, Answer.handles]
    unfold reinstateNext
    dsimp only
    split
    · exact hlost
    · next snapshot _ =>
      split
      · exact hlost
      · next s hs =>
        have hplanted := fun x => Scheduler.claims_plant B.held x s snapshot.frames copies
        generalize s.plant snapshot.frames copies = planted at hplanted
        obtain ⟨ids, t⟩ := planted
        refine balanced_reinstate (m := m.onScheduler snapshot.home fun _ => t)
          (covered_become _ _ h hs t fun x => ?_)
        have hclaims := hplanted x
        simp only [List.count_append] at hclaims ⊢
        omega

theorem balanced_invoke {v : Value} (h : Covered B m.store m.control (loose v.handles))
    (hkeeps : Keeps B m.control (.continuation k)) : Balanced B (m.invoke k v) := by
  unfold invoke
  split
  · exact balanced_release h fun y => by
      simp [Onward.handles, Answer.handles, Reply.handles, Outcome.handles]
  · next snapshot hk =>
    split
    · exact balanced_release (h.logged _) fun y => by
        simp [Onward.handles, Answer.handles, Reply.handles, Outcome.handles]
    · next s hs =>
      have hretained := h.retain_one (x := .scheduler snapshot.home) fun _ =>
        ⟨⟨s, hs⟩, fun _ heq => by cases heq⟩
      have hheld : Covered B _ (.holding [.scheduler snapshot.home] :: m.control) (loose v.handles) :=
        Covered.push hretained trivial
      have hforgot := hheld.setSnapshot (k := k) hk none
      have hkeeps' := hkeeps.push (.holding [.scheduler snapshot.home])
      have hframes : ∃ fs, ({ m.store.retain (.scheduler snapshot.home) with
          snapshots := m.store.snapshots.set k { snapshot with routines := none } } :
            Store C).frames? k = some fs ∧ snapshot.frames ⊆ fs := by
        refine ⟨snapshot.frames, ?_, List.Subset.refl _⟩
        simp only [Store.frames?, Table.find?_set, if_true, hk]
        rfl
      dsimp only
      split
      · exact balanced_reinstateNext (m := ⟨_, _, m.focus⟩) (hforgot.sub fun y => by simp) hkeeps'
          hframes
      · split
        · exact balanced_reinstate (m := ⟨_, _, m.focus⟩) hforgot
        · exact balanced_reinstateNext (m := ⟨_, _, m.focus⟩) ((hforgot.logged _).sub fun y => by simp)
            hkeeps' hframes

theorem balanced_reenter {v : Value} (h : Covered B m.store m.control (loose v.handles))
    (hkeeps : Keeps B m.control (.continuation k)) : Balanced B (m.reenter p k v) := by
  unfold reenter
  split
  · exact balanced_release (h.logged _) fun y => by
      simp [Onward.handles, Answer.handles, Reply.handles, Outcome.handles]
  · next s hs =>
    have hretained := (h.retain_one (x := .scheduler p) fun _ =>
      ⟨⟨s, hs⟩, fun _ heq => by cases heq⟩).retain (.continuation k :: v.handles) fun x hx _ => by
        rcases List.mem_cons.mp hx with rfl | hv
        · exact hkeeps.held _ _
        · exact held_of_mem (List.mem_cons_of_mem _ (mem_loose.mpr hv)) _ _
    have hheld : Covered B (m.retain (.scheduler p :: .continuation k :: v.handles)).store
        (.holding [.scheduler p] :: m.control) (loose (.continuation k :: v.handles ++ v.handles)) := by
      refine Covered.push (f := .holding [.scheduler p]) (hretained.sub fun y => ?_) trivial
      simp only [Frame.shares, loose_cons, loose_append, loose_nil, List.count_cons,
        List.count_append, List.cons_append, List.nil_append]
      omega
    have hadded : ∀ x, (s.add .reenter (.reentry k (some v))).2.claims B.held x ≤
        s.claims B.held x + (Handle.continuation k :: v.handles).count x :=
      fun x => Scheduler.claims_add B.held x s .reenter (.reentry k (some v))
    generalize s.add .reenter (.reentry k (some v)) = added at hadded
    obtain ⟨id, t⟩ := added
    have hthere : ((m.retain (.scheduler p :: .continuation k :: v.handles)).push
        (.holding [.scheduler p])).scheduler? p = some s :=
      (scheduler?_retain ..).trans hs
    dsimp only at hadded ⊢
    split
    · have hqueued := covered_become _ v.handles hheld hthere (t.push (.routine id)) fun x => by
        have hclaims := hadded x
        have hpush : (t.push (.routine id)).claims B.held x = t.claims B.held x := rfl
        simp only [List.count_append]
        omega
      exact balanced_release hqueued fun y => by
        simp [Onward.handles, Answer.handles, Reply.handles, Outcome.handles]
    · have hqueued := covered_become _ t.register.handles hheld hthere
        ({ t.push (.routine id) with register := .success v }.report .reentering) fun x => by
          have hclaims := hadded x
          have hset := Scheduler.claims_register B.held x t (o := .success v)
            (t := { t.push (.routine id) with register := .success v }.report .reentering)
            rfl rfl rfl
          have hvalue : (Outcome.success v).handles = v.handles := rfl
          rw [hvalue] at hset
          simp only [List.count_append] at hset ⊢
          omega
      exact balanced_enterPass (m := (((m.retain (.scheduler p :: .continuation k :: v.handles)).push
        (.holding [.scheduler p])).onScheduler p _).push (.reentered p))
        (covered_push_empty (f := .reentered p) hqueued rfl trivial)

end Strand.Machine
