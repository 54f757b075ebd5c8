import Strand.Proofs.Bystanders
import Strand.Proofs.Runs
import Strand.Proofs.Honesty

/-! # Settlements — what a move does to completions

    * `Machine.asked?` is what the next move asks of a completion: to keep a listener,
      or to settle.
    * `Progress.after` is what a completion makes of that.
    * `Deals` lists what a move can do to all completions together, and `deals_step`
      says that each move of a balanced machine does one of these things. It also says
      which frames that tell listeners the move puts on the control stack: those of a
      completion that settles, and none else. -/

namespace Strand

variable {C R : Type}

/-- What is asked of a completion. -/
inductive CompletionEvent (C : Type) where
  /-- A listener wants to be told. -/
  | registered (w : Listener C)
  /-- The completion is to settle. -/
  | settling (o : Outcome Value)

/-- What becomes of a completion that is asked. -/
def Progress.after : Progress C → CompletionEvent C → Progress C
  | .pending ws, .registered w => .pending (ws ++ [w])
  | .pending _, .settling o => .settled o
  | .settled o, _ => .settled o

/-! ### Who asks -/

def Request.asks? (c : Nat) : Request C → Option (CompletionEvent C)
  | .settle c' o => if c = c' then some (.settling o) else none
  | .onSettle c' code => if c = c' then some (.registered (.call code)) else none
  | _ => none

def Job.asks? (c : Nat) : Job C → Option (CompletionEvent C)
  | .call _ => none
  | .settle c' o => if c = c' then some (.settling o) else none

/-- What a root asks of the completion that it settles, after a step. -/
def Step.rootAsks? (c settler : Nat) : Step C → Option (CompletionEvent C)
  | .done o => if c = settler then some (.settling o) else none
  | .yield _ => none

/-- What a task asks of completions after a step. -/
def Step.taskAsks? (c b : Nat) (task : Task C) : Step C → Option (CompletionEvent C)
  | .done o => if c = task.settler then some (.settling o) else none
  | .yield (.await c') => if c = c' then some (.registered (.resume b task)) else none
  | .yield _ => none

/-- What is asked of completion `c` when the frame is handed an answer. -/
def Frame.asks? (c : Nat) (st : Store C) (a : Answer C) : Frame C R → Option (CompletionEvent C)
  | .draining q _ => ((st.queues.find? q).bind List.head?).bind (Job.asks? c)
  | .inRoot settler =>
    match a with
    | .stepped step _ => step.rootAsks? c settler
    | _ => none
  | .starting _ settler =>
    match a with
    | .outcome (.failure e) => if c = settler then some (.settling (.failure e)) else none
    | _ => none
  | .resuming b id settler =>
    match a with
    | .stepped step script => step.taskAsks? c b ⟨id, script, settler⟩
    | _ => none
  | _ => none

/-- What is asked of it when a panic passes the frame. -/
def Frame.unwoundAsks? (c : Nat) (catches : Nat → Bool) (payload : Payload) :
    Frame C R → Option (CompletionEvent C)
  | .starting b settler | .resuming b _ settler =>
    if catches b ∧ c = settler then some (.settling (.failure (.panicked payload.message)))
    else none
  | _ => none

/-- Whether the frame is about to tell listeners. -/
def Frame.tells : Frame C R → Bool
  | .notifying _ _ => true
  | _ => false

theorem Frame.tells_of_not_seated {f : Frame C R} (hf : f.seated = false) : f.tells = false := by
  cases f <;> first
    | rfl
    | cases hf

/-- A bridge that catches panics settles the completion of the task. -/
theorem unwoundAsks?_of_catches {catches : Nat → Bool} {b : Nat} (h : catches b = true)
    (c settler : Nat) (payload : Payload) :
    (if catches b ∧ c = settler then
        some (CompletionEvent.settling (C := C) (.failure (.panicked payload.message))) else none) =
      if c = settler then some (.settling (.failure (.panicked payload.message))) else none := by
  simp only [h, true_and]

namespace Machine

/-- Whether the completion is pending and has one settler left. -/
def lastSettler (m : Machine C R) (c : Nat) : Bool :=
  match m.store.completions.find? c with
  | some ⟨.pending _, settlers⟩ => settlers ≤ 1
  | _ => false

/-- What the next move asks of completion `c`. The last settler of a pending
    completion settles it by going away. -/
def asked? (m : Machine C R) (c : Nat) : Option (CompletionEvent C) :=
  match m.focus with
  | .release (.settler c' :: _) _ =>
    if c = c' ∧ m.lastSettler c then some (.settling (.failure .abandoned)) else none
  | .release [] (.act (.ask request _)) => request.asks? c
  | .release [] (.give a) => m.control.head?.bind (Frame.asks? c m.store a)
  | .release [] (.unwind payload _) =>
    m.control.head?.bind (Frame.unwoundAsks? c m.bridgeCatches payload)
  | _ => none

/-- What stays of the control stack in the next move: all but the frame on top if an
    answer or a panic reaches it. A frame that tells listeners stays to tell the
    rest of them. -/
def beneath (m : Machine C R) : List (Frame C R) :=
  match m.focus, m.control with
  | .release [] (.give _), .notifying (_ :: rest) o :: K => .notifying rest o :: K
  | .release [] (.give _), _ :: K => K
  | .release [] (.unwind _ _), _ :: K => K
  | _, K => K

/-- The listener is told `o`: code of the program begins, a task is the next that its
    bridge resumes. -/
def Tells (o : Outcome Value) (K : List (Frame C R)) (n : Machine C R) : Listener C → Prop
  | .call code => n.control = .ignoring :: K ∧ n.focus = .release [] (.begin code (.feed o))
  | .resume b task => ∃ x rest, n.store.bridges.find? b = some x ∧ x.running = true ∧
      x.stack = .resume task (some o) :: rest

/-! ### Frames that tell nobody -/

/-- Nothing that tells listeners has been put on the stack. -/
def Calm (K : List (Frame C R)) (n : Machine C R) : Prop :=
  ∃ fs, n.control = fs ++ K ∧ ∀ f ∈ fs, f.tells = false

theorem Calm.refl (n : Machine C R) : Calm n.control n := ⟨[], rfl, List.forall_mem_nil _⟩

theorem Calm.of_control {K : List (Frame C R)} {n n' : Machine C R} (h : Calm K n)
    (hcontrol : n'.control = n.control) : Calm K n' := by
  obtain ⟨fs, hfs, hcalm⟩ := h
  exact ⟨fs, hcontrol.trans hfs, hcalm⟩

theorem Calm.push {K : List (Frame C R)} {n : Machine C R} (h : Calm K n) {f : Frame C R}
    (hf : f.tells = false) : Calm K (n.push f) := by
  obtain ⟨fs, hcontrol, hcalm⟩ := h
  refine ⟨f :: fs, by rw [control_push, hcontrol, List.cons_append], ?_⟩
  rw [List.forall_mem_cons]
  exact ⟨hf, hcalm⟩

theorem Calm.trans {K : List (Frame C R)} {n o : Machine C R} (h : Calm K n)
    (h' : Calm n.control o) : Calm K o := by
  obtain ⟨fs, hfs, hcalm⟩ := h
  obtain ⟨gs, hgs, hcalm'⟩ := h'
  refine ⟨gs ++ fs, by rw [hgs, hfs, List.append_assoc], ?_⟩
  rw [List.forall_mem_append]
  exact ⟨hcalm', hcalm⟩

theorem Untouched.calm {m n : Machine C R} (h : Untouched m n) : Calm m.control n := by
  obtain ⟨fs, hcontrol, hquiet⟩ := h.control
  exact ⟨fs, hcontrol, fun f hf => Frame.tells_of_not_seated (hquiet f hf)⟩

variable (m : Machine C R)

theorem calm_enterBridge (b : Nat) : Calm m.control (m.enterBridge b) :=
  ((Calm.refl m).push (f := .driving b) rfl).of_control rfl

theorem calm_wakeTask (b : Nat) (task : Task C) (o : Outcome Value) :
    Calm m.control (m.wakeTask b task o) := by
  unfold wakeTask
  dsimp only
  split
  · exact (Calm.refl m).of_control rfl
  · exact (((Calm.refl m).push (f := .holding [.bridge b]) rfl).push (f := .driving b)
      rfl).of_control rfl

theorem calm_tellListener (w : Listener C) (o : Outcome Value) :
    Calm m.control (m.tellListener w o) := by
  cases w with
  | call code => exact ((Calm.refl m).push (f := .ignoring) rfl).of_control rfl
  | resume b task => exact calm_wakeTask m b task o

theorem calm_bridgeHead (b : Nat) : Calm m.control (m.bridgeHead b) := by
  have hloop (f : Bridge C → Bridge C) : Calm m.control ((m.onBridge b f).push (.driving b)) :=
    have hedited : Calm m.control (m.onBridge b f) := (Calm.refl m).of_control rfl
    hedited.push rfl
  unfold bridgeHead
  split
  · exact (Calm.refl m).of_control rfl
  · split
    · exact (Calm.refl m).of_control rfl
    · next action rest _ =>
      cases action with
      | start code c => exact ((hloop _).push (f := .starting b c) rfl).of_control rfl
      | resume task o =>
        exact ((hloop _).push (f := .resuming b task.id task.settler) rfl).of_control rfl

/-! ### Dealings -/

/-- How many completions there have been. -/
def numbers (m : Machine C R) : Nat := m.store.completions.cells.size

/-- What is asked of one completion alone. -/
def only (c : Nat) (e : CompletionEvent C) (c' : Nat) : Option (CompletionEvent C) :=
  if c' = c then some e else none

/-- What a move does to the completions, and which frames that tell listeners it puts
    on the control stack. -/
inductive Deals (asks : Nat → Option (CompletionEvent C)) (m n : Machine C R) : Prop where
  | nothing (hasks : ∀ c, asks c = none) (hsame : ∀ c, n.progress? c = m.progress? c)
      (hnumbers : n.numbers = m.numbers) (hcalm : Calm m.control n)
  /-- A pending completion gets another listener. -/
  | registers {c : Nat} {w : Listener C} {ws : List (Listener C)}
      (hasks : ∀ c', asks c' = only c (.registered w) c')
      (hp : m.progress? c = some (.pending ws))
      (hthen : ∀ c', n.progress? c' =
        if c' = c then some (.pending (ws ++ [w])) else m.progress? c')
      (hnumbers : n.numbers = m.numbers) (hcalm : Calm m.control n)
      (hreply : n.focus = .release [] (.give (.reply (.outcome (.success .unit)))))
  /-- A listener of a settled completion is told. -/
  | tells {c : Nat} {w : Listener C} {o : Outcome Value}
      (hasks : ∀ c', asks c' = only c (.registered w) c')
      (hp : m.progress? c = some (.settled o)) (hsame : ∀ c', n.progress? c' = m.progress? c')
      (hnumbers : n.numbers = m.numbers) (hcalm : Calm m.control n) {F : List (Frame C R)}
      (htold : Tells o (.replying .unit :: (F ++ m.control)) n w)
  /-- A pending completion settles, and will tell its listeners. -/
  | settles {c : Nat} {o : Outcome Value} {ws : List (Listener C)}
      (hasks : ∀ c', asks c' = only c (.settling o) c')
      (hp : m.progress? c = some (.pending ws))
      (hthen : ∀ c', n.progress? c' = if c' = c then some (.settled o) else m.progress? c')
      (hnumbers : n.numbers = m.numbers) {F : List (Frame C R)}
      (hcontrol : n.control = .notifying ws o :: (F ++ m.control))
      (hcalm : ∀ f ∈ F, f.tells = false) (hfocus : n.focus = .release [] (.give .nothing))
  /-- A settled completion does not settle again. -/
  | refuses {c : Nat} {o o' : Outcome Value}
      (hasks : ∀ c', asks c' = only c (.settling o) c')
      (hp : m.progress? c = some (.settled o')) (hsame : ∀ c', n.progress? c' = m.progress? c')
      (hnumbers : n.numbers = m.numbers) (hcalm : Calm m.control n)
      (hreply : n.focus = .release o.handles (.give (.reply (.outcome (.success (.bool false))))))
  | makes (hasks : ∀ c, asks c = none) {p : Progress C}
      (hp : p = .pending [] ∨ ∃ o, p = .settled o)
      (hthen : ∀ c', n.progress? c' = if c' = m.numbers then some p else m.progress? c')
      (hnumbers : n.numbers = m.numbers + 1) (hcalm : Calm m.control n)
  /-- Nobody holds a settled completion any more. -/
  | forgets (hasks : ∀ c, asks c = none) {c : Nat} {o : Outcome Value}
      (hp : m.progress? c = some (.settled o))
      (hthen : ∀ c', n.progress? c' = if c' = c then none else m.progress? c')
      (hnumbers : n.numbers = m.numbers) (hcalm : Calm m.control n)

variable {m} {asks : Nat → Option (CompletionEvent C)} {n o : Machine C R} {c : Nat}

/-- What has nothing to do with completions may come before. -/
theorem Deals.after (h : Untouched m n) (h' : Deals asks n o) : Deals asks m o := by
  have hprogress := h.progress
  have hnum : n.numbers = m.numbers := h.numbers
  obtain ⟨gs, hgs, hquiet⟩ := h.calm
  have hcalm (h : Calm n.control o) : Calm m.control o := Calm.trans ⟨gs, hgs, hquiet⟩ h
  cases h' with
  | nothing hasks hsame hnumbers hc =>
    exact .nothing hasks (fun c => (hsame c).trans (hprogress c)) (hnumbers.trans hnum) (hcalm hc)
  | registers hasks hp hthen hnumbers hc hreply =>
    simp only [hprogress] at hp hthen
    exact .registers hasks hp hthen (hnumbers.trans hnum) (hcalm hc) hreply
  | tells hasks hp hsame hnumbers hc htold =>
    simp only [hprogress] at hp hsame
    rw [hgs, ← List.append_assoc] at htold
    exact .tells hasks hp hsame (hnumbers.trans hnum) (hcalm hc) htold
  | settles hasks hp hthen hnumbers hcontrol hc hfocus =>
    simp only [hprogress] at hp hthen
    rw [hgs, ← List.append_assoc] at hcontrol
    refine .settles hasks hp hthen (hnumbers.trans hnum) hcontrol ?_ hfocus
    rw [List.forall_mem_append]
    exact ⟨hc, hquiet⟩
  | refuses hasks hp hsame hnumbers hc hreply =>
    simp only [hprogress] at hp hsame
    exact .refuses hasks hp hsame (hnumbers.trans hnum) (hcalm hc) hreply
  | makes hasks hp hthen hnumbers hc =>
    simp only [hprogress, hnum] at hthen hnumbers
    exact .makes hasks hp hthen hnumbers (hcalm hc)
  | forgets hasks hp hthen hnumbers hc =>
    simp only [hprogress] at hp hthen
    exact .forgets hasks hp hthen (hnumbers.trans hnum) (hcalm hc)

theorem Deals.congr {asks' : Nat → Option (CompletionEvent C)} (h : Deals asks m n)
    (hsame : ∀ c, asks' c = asks c) : Deals asks' m n :=
  (funext hsame : asks' = asks) ▸ h

theorem Untouched.deals (h : Untouched m n) (hasks : ∀ c, asks c = none) : Deals asks m n :=
  .nothing hasks h.progress h.numbers h.calm

/-- The completions are those that were there. -/
theorem Deals.of_same (hasks : ∀ c, asks c = none)
    (hsame : n.store.completions = m.store.completions) (hcalm : Calm m.control n) :
    Deals asks m n := by
  refine .nothing hasks (fun c => ?_) ?_ hcalm
  · rw [progress?, hsame]
    rfl
  · rw [numbers, hsame]
    rfl

/-- There is one more. -/
theorem Deals.of_alloc (hasks : ∀ c, asks c = none) {k : Nat} {x : Completion C}
    (halloc : n.store.completions = (m.store.completions.alloc k x).2)
    (hx : x.progress = .pending [] ∨ ∃ o, x.progress = .settled o) (hcalm : Calm m.control n) :
    Deals asks m n := by
  refine .makes hasks hx (fun c' => ?_) ?_ hcalm
  · rw [progress?, halloc, Table.find?_alloc]
    unfold numbers
    split <;> rfl
  · rw [numbers, halloc]
    exact Table.size_cells_alloc _ _ _

theorem progress?_eq_some {p : Progress C} (h : m.progress? c = some p) :
    ∃ settlers, m.store.completions.find? c = some ⟨p, settlers⟩ := by
  obtain ⟨⟨progress, settlers⟩, hk, rfl⟩ := Option.map_eq_some_iff.mp h
  exact ⟨settlers, hk⟩

theorem progress?_of_find? {k : Completion C} (h : m.store.completions.find? c = some k) :
    m.progress? c = some k.progress := congrArg (Option.map Completion.progress) h

variable (m)

theorem progress?_setCompletion {k : Completion C} (hc : m.store.completions.find? c = some k)
    (k' : Completion C) (c' : Nat) :
    (m.setCompletion c k').progress? c' = if c' = c then some k'.progress else m.progress? c' := by
  show ((m.store.completions.set c k').find? c').map _ = _
  rw [Table.find?_set]
  split
  · next heq => rw [heq, hc]; rfl
  · rfl

variable {m}

theorem deals_settle {p : Progress C} (hp : m.progress? c = some p) (o : Outcome Value) :
    Deals (only c (.settling o)) m (m.settle c o) := by
  obtain ⟨settlers, hk⟩ := progress?_eq_some hp
  cases p with
  | settled o' =>
    have hrefused : m.settle c o = m.dropReply o.handles (.bool false) := by simp only [settle, hk]
    rw [hrefused]
    exact .refuses (fun _ => rfl) hp (fun _ => rfl) rfl ((Calm.refl m).of_control rfl) rfl
  | pending ws =>
    have hretain := untouched_retain m o.handles
    obtain ⟨settlers', hk'⟩ := progress?_eq_some ((hretain.progress c).trans hp)
    have hsettled : m.settle c o = (((m.retain o.handles).setCompletion c
        ⟨.settled o, settlers⟩).push (.notifying ws o)).give .nothing := by simp only [settle, hk]
    rw [hsettled]
    refine .settles (fun _ => rfl) hp (fun c' => ?_) ?_ (F := []) rfl (List.forall_mem_nil _) rfl
    · refine (progress?_setCompletion _ hk' ⟨.settled o, settlers⟩ c').trans ?_
      rw [hretain.progress]
    · exact (Table.size_cells_set _ _ _).trans hretain.numbers

theorem completions_bridgeReport (st : Store C) (b : Nat) (r : Report) :
    (st.bridgeReport b r).completions = st.completions := by
  unfold Store.bridgeReport
  split <;> rfl

theorem completions_tellListener (w : Listener C) (o : Outcome Value) :
    (m.tellListener w o).store.completions = m.store.completions := by
  cases w with
  | call code => rfl
  | resume b task =>
    show (m.wakeTask b task o).store.completions = _
    unfold wakeTask
    dsimp only
    split
    · rfl
    · exact completions_bridgeReport _ b _

/-- A listener that is told has been told. -/
theorem tells_tellListener (w : Listener C) (o : Outcome Value)
    (halive : ∀ b task, w = .resume b task → ∃ x, m.store.bridges.find? b = some x) :
    Tells o m.control (m.tellListener w o) w := by
  cases w with
  | call code => exact ⟨rfl, rfl⟩
  | resume b task =>
    obtain ⟨x, hx⟩ := halive b task rfl
    have hpushed : (m.pushAction b (.resume task (some o))).store.bridges.find? b =
        some { x with stack := .resume task (some o) :: x.stack } := by
      refine (Table.find?_modify m.store.bridges b _ b).trans ?_
      rw [if_pos rfl, hx]
      rfl
    show Tells o m.control (m.wakeTask b task o) (.resume b task)
    unfold wakeTask
    dsimp only
    split
    · next hrunning =>
      refine ⟨_, x.stack, hpushed, ?_, rfl⟩
      simpa only [bridgeRunning, hpushed, Option.map_some, Option.getD_some] using hrunning
    · have hreport : ((m.pushAction b (.resume task (some o))).store.bridgeReport b
          .drivingAgain).bridges = (m.pushAction b (.resume task (some o))).store.bridges := by
        unfold Store.bridgeReport
        split <;> rfl
      refine ⟨{ x with stack := .resume task (some o) :: x.stack, running := true }, x.stack, ?_,
        rfl, rfl⟩
      refine (Table.find?_modify _ b _ b).trans ?_
      rw [if_pos rfl]
      show ((((m.pushAction b (.resume task (some o))).store.bridgeReport b
        .drivingAgain).bridges).find? b).map _ = _
      rw [hreport, hpushed]
      rfl

/-- Somebody listens. The bridge of a task is there. -/
theorem deals_await {p : Progress C} (hp : m.progress? c = some p) (held : C → List Handle)
    (w : Listener C) (halive : ∀ b task, w = .resume b task → ∃ x, m.store.bridges.find? b = some x) :
    Deals (only c (.registered w)) m (m.await held c w) := by
  obtain ⟨settlers, hk⟩ := progress?_eq_some hp
  cases p with
  | pending ws =>
    have hlisten : m.await held c w =
        (m.setCompletion c ⟨.pending (ws ++ [w]), settlers⟩).replyValue .unit := by
      simp only [await, hk]
    rw [hlisten]
    exact .registers (fun _ => rfl) hp (progress?_setCompletion m hk _)
      (Table.size_cells_set _ _ _) ((Calm.refl m).of_control rfl) rfl
  | settled o =>
    have htell : m.await held c w =
        ((m.retain o.handles).push (.replying .unit)).tellListener w o := by
      simp only [await, hk]
    have hretain : Untouched m ((m.retain o.handles).push (.replying .unit)) :=
      (untouched_retain m o.handles).push rfl
    rw [htell]
    have hsame := completions_tellListener (m := (m.retain o.handles).push (.replying .unit)) w o
    refine .tells (fun _ => rfl) hp (fun c' => ?_) ?_ (hretain.calm.trans (calm_tellListener _ w o))
      (F := []) (tells_tellListener w o fun b task hw => ?_)
    · refine Eq.trans ?_ (hretain.progress c')
      rw [progress?, hsame]
      rfl
    · refine Eq.trans ?_ hretain.numbers
      rw [numbers, hsame]
    · obtain ⟨x, hx⟩ := halive b task hw
      exact ⟨x, (hretain.bridges b).trans hx⟩

/-! ### What can be relied on -/

section Covered

variable {B : Behavior C R} {st : Store C} {K : List (Frame C R)} {ys : List Share} {b : Nat}

/-- A pending completion has a settler, so a reader that goes away is not the
    last holder. -/
theorem settled_of_emptied {k : Completion C}
    (h : Covered B st K (.loose (.completion c) :: ys)) (hk : st.completions.find? c = some k)
    (hgone : (st.completions.letGo c).2.find? c = none) : ∃ o, k.progress = .settled o := by
  obtain ⟨progress, settlers⟩ := k
  cases progress with
  | settled o => exact ⟨o, rfl⟩
  | pending listeners =>
    obtain ⟨holders, hcell⟩ := Table.cell?_of_find? hk
    have htally : st.tally? c = some ⟨holders, settlers, true⟩ := by
      rw [Store.tally?, hcell]
      rfl
    have hsettlers : 1 ≤ settlers := h.hopeful c _ htally rfl
    have hafford := h.afford.completions c
    rw [htally] at hafford
    obtain ⟨hholders, -⟩ : _ + settlers ≤ holders ∧ _ := by
      simpa [Tally.Affords] using hafford
    have hreader : 0 < worth (holdings B st K (.loose (.completion c) :: ys)) (.completion c) :=
      Nat.lt_of_lt_of_le (by simp [holdings]) (le_worth _ _)
    rw [Table.find?, Table.cell?_letGo, if_pos rfl, hcell, Option.bind_some] at hgone
    split at hgone
    · next hlast =>
      have hlast : holders ≤ 1 := hlast
      omega
    · cases hgone

/-- Who holds a bridge can rely on it. -/
theorem bridge_of_covered (h : Covered B st K ys)
    (hheld : 0 < holdings B st K ys (.loose (.bridge b))) : ∃ x, st.bridges.find? b = some x :=
  h.alive hheld rfl

theorem bridge_of_backed (h : Covered B st K ys)
    (hmem : .loose (.bridge b) ∈ K.flatMap (Frame.shares B)) : ∃ x, st.bridges.find? b = some x :=
  bridge_of_covered h (Keeps.held (x := .bridge b) hmem st ys)

/-- As long as a task waits for its turn, its completion is pending. -/
theorem pending_of_task (h : Covered B st K ys) (hheld : 0 < holdings B st K ys (.task c)) :
    ∃ listeners n, st.completions.find? c = some ⟨.pending listeners, n⟩ := by
  obtain ⟨n, htally⟩ := h.own c hheld
  obtain ⟨⟨progress, settlers⟩, hk, -, -, hpending⟩ := Store.find?_of_tally? htally
  cases progress with
  | pending listeners => exact ⟨listeners, settlers, hk⟩
  | settled o => cases hpending

/-- What somebody settles or listens to is there. -/
theorem progress_of_completion (h : Covered B st K ys)
    (hheld : 0 < holdings B st K ys (.loose (.completion c))) :
    ∃ p, (st.completions.find? c).map Completion.progress = some p := by
  obtain ⟨k, hk⟩ := h.alive hheld rfl
  exact ⟨k.progress, congrArg _ hk⟩

theorem progress_of_settler (h : Covered B st K ys)
    (hheld : 0 < holdings B st K ys (.loose (.settler c))) :
    ∃ p, (st.completions.find? c).map Completion.progress = some p := by
  obtain ⟨k, hk⟩ := h.alive hheld rfl
  exact ⟨k.progress, congrArg _ hk⟩

theorem progress_of_task (h : Covered B st K ys)
    (hheld : 0 < holdings B st K ys (.task c)) :
    ∃ p, (st.completions.find? c).map Completion.progress = some p := by
  obtain ⟨ws, n, hk⟩ := pending_of_task h hheld
  exact ⟨_, congrArg _ hk⟩

end Covered

/-! ### Letting go -/

section LetGo

variable {B : Behavior C R} {st : Store C} {K : List (Frame C R)} {ys : List Share}
  {focus focus' : Focus C R}

variable (focus) in
/-- A reader goes away. -/
theorem deals_letGoReader (h : Covered B st K (.loose (.completion c) :: ys))
    (hasks : ∀ c, asks c = none) :
    Deals asks ⟨st, K, focus⟩ (⟨(st.letGoReader B.held c).2, K, focus'⟩ : Machine C R) := by
  have hcalm : Calm K (⟨(st.letGoReader B.held c).2, K, focus'⟩ : Machine C R) :=
    .refl (⟨(st.letGoReader B.held c).2, K, focus'⟩ : Machine C R)
  have hnumbers : (st.completions.letGo c).2.cells.size = st.completions.cells.size :=
    Table.size_cells_letGo _ _
  have hother (c' : Nat) (hne : c' ≠ c) :
      (st.completions.letGo c).2.find? c' = st.completions.find? c' :=
    (Table.find?_letGo st.completions c c').resolve_right fun hgone => hne hgone.1
  have hsame (hc : (st.completions.letGo c).2.find? c = st.completions.find? c) (c' : Nat) :
      (st.completions.letGo c).2.find? c' = st.completions.find? c' := by
    by_cases heq : c' = c
    · rw [heq, hc]
    · exact hother c' heq
  rcases Table.find?_letGo st.completions c c with hc | ⟨-, hgone⟩
  · exact .nothing hasks (fun c' => congrArg (Option.map Completion.progress) (hsame hc c'))
      hnumbers hcalm
  · cases hk : st.completions.find? c with
    | none =>
      have hc := hgone.trans hk.symm
      exact .nothing hasks (fun c' => congrArg (Option.map Completion.progress) (hsame hc c'))
        hnumbers hcalm
    | some k =>
      obtain ⟨o, ho⟩ := settled_of_emptied h hk hgone
      have hp : progress? c (⟨st, K, focus⟩ : Machine C R) = some (.settled o) := by
        rw [progress?_of_find? hk, ho]
      refine .forgets hasks hp (fun c' => ?_) hnumbers hcalm
      split
      · next heq =>
        rw [heq]
        exact congrArg (Option.map Completion.progress) hgone
      · next hne => exact congrArg (Option.map Completion.progress) (hother c' hne)

/-- A handle is let go of. -/
theorem deals_letGo {x : Handle} (h : Covered B m.store m.control (.loose x :: ys))
    {rest : List Handle} {onward : Onward C R} (hf : m.focus = .release (x :: rest) onward) :
    Deals m.asked? m (m.letGo B x rest onward) := by
  by_cases hx : x.concerns = false
  · refine (untouched_letGo m B hx rest onward).deals fun c => ?_
    unfold asked?
    rw [hf]
    cases x <;> first
      | rfl
      | cases hx
  · cases x with
    | completion c =>
      have hasks (c' : Nat) : m.asked? c' = none := by simp only [asked?, hf]
      have hdeals : Deals m.asked? m ⟨(m.store.letGoReader B.held c).2, m.control,
        .release (((m.store.completions.letGo c).1.map fun x => x.progress.handles B.held).getD [] ++
          rest) onward⟩ := deals_letGoReader m.focus h hasks
      exact hdeals
    | bridge b =>
      refine .of_same (fun c => ?_) rfl ((Calm.refl m).of_control rfl)
      simp only [asked?, hf]
    | settler c =>
      obtain ⟨⟨progress, settlers⟩, hk⟩ : ∃ k, m.store.completions.find? c = some k :=
        h.alive (x := .settler c) (by simp [holdings]) rfl
      -- the settler steps down; the completion stays as it is for the time being
      have hdown : Untouched m (m.setCompletion c ⟨progress, settlers - 1⟩) := by
        refine .of_store (fun _ => rfl) (fun c' => ?_) (Table.size_cells_set _ _ _)
        refine (progress?_setCompletion m hk ⟨progress, settlers - 1⟩ c').trans ?_
        split
        · next heq => rw [heq, progress?_of_find? hk]
        · rfl
      have hreader (hmore : progress.isPending = true → 2 ≤ settlers) :
          Deals m.asked? m ⟨((m.setCompletion c ⟨progress, settlers - 1⟩).store.letGoReader
            B.held c).2, m.control, .release
              ((((m.setCompletion c ⟨progress, settlers - 1⟩).store.completions.letGo c).1.map
                fun x => x.progress.handles B.held).getD [] ++ rest) onward⟩ := by
        have hless := h.stepDown hk [] (fun y => rfl) (fun h => h) hmore
        refine .after hdown (deals_letGoReader m.focus hless fun c' => ?_)
        have hlast : m.lastSettler c = false := by
          unfold lastSettler
          rw [hk]
          cases progress with
          | settled o => rfl
          | pending ws => exact decide_eq_false (Nat.not_le.mpr (hmore rfl))
        simp only [asked?, hf]
        rw [if_neg]
        rintro ⟨heq, htrue⟩
        rw [heq, hlast] at htrue
        cases htrue
      unfold letGo Store.letGo
      simp only [hk]
      cases progress with
      | settled o => exact hreader fun h => by cases h
      | pending ws =>
        dsimp only
        by_cases hlast : settlers ≤ 1
        · rw [if_pos hlast]
          have hasks : m.asked? = only c (.settling (.failure .abandoned)) := by
            funext c'
            simp only [asked?, hf, only]
            by_cases heq : c' = c
            · rw [if_pos heq, if_pos ⟨heq, by simp only [lastSettler, heq, hk, hlast, decide_true]⟩]
            · rw [if_neg heq, if_neg fun hand => heq hand.1]
          rw [hasks]
          have hpushed := hdown.push (f := .releasing (.completion c :: rest) onward) rfl
          exact .after hpushed (deals_settle ((hpushed.progress c).trans (progress?_of_find? hk)) _)
        · rw [if_neg hlast]
          exact hreader fun _ => by omega
    | queue q => exact absurd rfl hx
    | continuation k => exact absurd rfl hx
    | reenter p => exact absurd rfl hx
    | scheduler p => exact absurd rfl hx
    | coroutine i => exact absurd rfl hx

end LetGo

/-! ### Requests -/

theorem deals_start (held : C → List Handle) (p : Nat) (code : C) (hasks : ∀ c, asks c = none) :
    Deals asks m (m.start held p code) := by
  unfold start
  dsimp only
  split
  · refine .of_alloc hasks (k := 1) (x := ⟨.settled (.failure .reentrant), 0⟩) rfl ?_ ?_
    · exact Or.inr ⟨_, rfl⟩
    · exact ((Calm.refl m).push (f := .holding [.scheduler p]) rfl).of_control rfl
  · refine .of_alloc hasks (k := 2) (x := ⟨.pending [], 1⟩) rfl (Or.inl rfl) ?_
    exact ((((Calm.refl m).push (f := .holding [.scheduler p]) rfl).push
      (f := .replying (.handle (.completion m.numbers))) rfl).push
      (f := .opening p (some m.numbers)) rfl).of_control rfl

theorem deals_runTask (b : Nat) (code : C) (hasks : ∀ c, asks c = none) :
    Deals asks m (m.runTask b code) := by
  have hcalm : Calm m.control ((m.push (.holding [.bridge b])).push
      (.replying (.handle (.completion m.numbers)))) :=
    ((Calm.refl m).push (f := .holding [.bridge b]) rfl).push
      (f := .replying (.handle (.completion m.numbers))) rfl
  unfold runTask
  dsimp only
  split
  · exact .of_alloc hasks (k := 2) (x := ⟨.pending [], 1⟩) rfl (Or.inl rfl) (hcalm.of_control rfl)
  · refine .of_alloc hasks (k := 2) (x := ⟨.pending [], 1⟩) rfl (Or.inl rfl) ?_
    exact (hcalm.push (f := .driving b) rfl).of_control rfl

/-- The program asks for something. What it settles or listens to is there. -/
theorem deals_perform (B : Behavior C R) {request : Request C}
    (hknown : ∀ c e, request.asks? c = some e → ∃ p, m.progress? c = some p) :
    Deals request.asks? m (m.perform B request) := by
  cases request with
  | newCompletion =>
    exact .of_alloc (fun _ => rfl) (k := 2) (x := ⟨.pending [], 1⟩) rfl (Or.inl rfl)
      ((Calm.refl m).of_control rfl)
  | settledCompletion o =>
    exact .of_alloc (fun _ => rfl) (k := 1) (x := ⟨.settled o, 0⟩) rfl (Or.inr ⟨o, rfl⟩)
      ((Calm.refl m).of_control rfl)
  | settle c o =>
    obtain ⟨p, hp⟩ := hknown c (.settling o) (if_pos rfl)
    exact .after (untouched_push m rfl)
      (deals_settle (m := m.push (.holding [.settler c])) hp o)
  | onSettle c code =>
    obtain ⟨p, hp⟩ := hknown c (.registered (.call code)) (if_pos rfl)
    exact .after (untouched_push m rfl) (deals_await (m := m.push (.holding [.completion c])) hp
      B.held (.call code) fun _ _ h => by cases h)
  | settleLater q o =>
    exact .of_alloc (fun _ => rfl) (k := 2) (x := ⟨.pending [], 1⟩) rfl (Or.inl rfl)
      ((Calm.refl m).of_control rfl)
  | start p code => exact deals_start B.held p code fun _ => rfl
  | newBridge settings => exact .of_same (fun _ => rfl) rfl ((Calm.refl m).of_control rfl)
  | run b code => exact deals_runTask b code fun _ => rfl
  | _ => exact (untouched_perform m B rfl).deals fun _ => rfl

/-! ### Answers -/

theorem deals_notify (ws : List (Listener C)) (w : Listener C) (o : Outcome Value)
    (hasks : ∀ c, asks c = none) :
    Deals asks (m.push (.notifying ws o)) (m.notify (w :: ws) o) := by
  have hretain : Untouched (m.push (.notifying ws o)) ((m.retain o.handles).push (.notifying ws o)) :=
    (untouched_retain (m.push (.notifying ws o)) o.handles).refocus m.focus
  exact .after hretain (.of_same hasks (completions_tellListener w o) (calm_tellListener _ w o))

theorem completions_bridgeHead (b : Nat) :
    (m.bridgeHead b).store.completions = m.store.completions := by
  unfold bridgeHead
  split
  · rfl
  · split
    · rfl
    · next action rest _ => cases action <;> rfl

theorem deals_drainNext (q ran : Nat)
    (hknown : ∀ c o rest, m.store.queues.find? q = some (.settle c o :: rest) →
      ∃ p, m.progress? c = some p) :
    Deals (fun c => ((m.store.queues.find? q).bind List.head?).bind (Job.asks? c)) m
      (m.drainNext q ran) := by
  unfold drainNext
  split
  · next job rest hq =>
    have htaken : Untouched m ((m.withStore fun s =>
        { s with queues := s.queues.set q rest }).push (.draining q (ran + 1))) :=
      .of_same [.draining q (ran + 1)] rfl rfl rfl (by simp [Frame.seated])
    cases job with
    | call code =>
      refine ((htaken.push (f := .ignoring) rfl).refocus _).deals fun c => ?_
      rw [hq]
      rfl
    | settle c o =>
      obtain ⟨p, hp⟩ := hknown c o rest hq
      have hasks : (fun c' => ((m.store.queues.find? q).bind List.head?).bind (Job.asks? c')) =
          only c (.settling o) := by
        rw [hq]
        rfl
      rw [hasks]
      have hheld := htaken.push (f := .holding [.settler c]) rfl
      exact .after hheld (deals_settle ((hheld.progress c).trans hp) o)
  · next hq =>
    refine (Untouched.focus m _).deals fun c => ?_
    cases hfind : m.store.queues.find? q with
    | none => rfl
    | some jobs =>
      cases jobs with
      | nil => rfl
      | cons job rest => exact absurd hfind (hq job rest)

theorem deals_rootStepped {settler : Nat} {p : Progress C} (hp : m.progress? settler = some p)
    (inner : Script C) (step : Step C) :
    Deals (fun c => step.rootAsks? c settler) m (m.rootStepped settler inner step) := by
  cases step with
  | done o =>
    have hheld : Untouched m ((m.retain o.handles).push (.reporting inner settler o)) :=
      (untouched_retain m _).push rfl
    exact .after hheld (deals_settle ((hheld.progress settler).trans hp) o)
  | yield i => exact (Untouched.focus m _).deals fun _ => rfl

theorem deals_taskNotBuilt (b : Nat) {settler : Nat} {p : Progress C}
    (hp : m.progress? settler = some p) (error : Error) :
    Deals (only settler (.settling (.failure error))) m (m.taskNotBuilt b settler error) := by
  have hheld : Untouched m ((m.withStore (·.bridgeReport b (.taskNotStarted error))).push
      (.holding [.settler settler])) := (untouched_bridgeReport m b _).push rfl
  exact .after hheld (deals_settle ((hheld.progress settler).trans hp) _)

theorem deals_taskBuilt (b settler : Nat) (script : Script C) (hasks : ∀ c, asks c = none) :
    Deals asks m (m.taskBuilt b settler script) := by
  unfold taskBuilt
  split
  · exact (Untouched.focus m _).deals hasks
  · exact .of_same hasks (completions_bridgeReport _ b _) ((Calm.refl m).of_control rfl)

/-- A task has been advanced; what it settles or awaits is there, and so is its
    bridge. -/
theorem deals_taskStepped (B : Behavior C R) {b : Nat} {x : Bridge C}
    (hx : m.store.bridges.find? b = some x) (id : UInt64) {settler : Nat} {p : Progress C}
    (hp : m.progress? settler = some p) (script : Script C) (step : Step C)
    (hawaited : ∀ c, step = .yield (.await c) → ∃ p, m.progress? c = some p) :
    Deals (fun c => step.taskAsks? c b ⟨id, script, settler⟩) m
      (m.taskStepped B.held b id settler script step) := by
  cases step with
  | done o =>
    have hheld : Untouched m ((m.withStore (·.bridgeReport b (.taskFinished id o.isSuccess))).push
        (.holding (.settler settler :: script.handles B.held))) :=
      (untouched_bridgeReport m b _).push rfl
    exact .after hheld (deals_settle ((hheld.progress settler).trans hp) o)
  | yield i =>
    cases i with
    | await c =>
      obtain ⟨p, hp⟩ := hawaited c rfl
      have hheld : Untouched m (((m.withStore (·.bridgeReport b (.taskAwaiting id))).retain
          [.bridge b]).push (.holding [.completion c])) :=
        ((untouched_bridgeReport m b _).trans (untouched_retain _ _)).push rfl
      refine .after hheld (deals_await ((hheld.progress c).trans hp) B.held _ ?_)
      intro b' task heq
      cases heq
      exact ⟨x, (hheld.bridges b).trans hx⟩
    | _ => exact (Untouched.focus m _).deals fun _ => rfl

/-! ### Every move -/

section Step

variable {B : Behavior C R}

/-- A frame is handed an answer. -/
theorem deals_deliver {f : Frame C R} {K : List (Frame C R)} {st : Store C} {a : Answer C}
    (h : Balanced B ⟨st, f :: K, .release [] (.give a)⟩) :
    Deals (fun c => f.asks? c st a)
      ⟨st, beneath (⟨st, f :: K, .release [] (.give a)⟩ : Machine C R), .release [] (.give a)⟩
      (deliver (⟨st, K, .release [] (.give a)⟩ : Machine C R) B a f) := by
  have hcovered := h.covered.pop
  cases f with
  | inRoot settler =>
    cases a with
    | stepped step inner =>
      obtain ⟨p, hp⟩ := progress_of_settler (c := settler) hcovered (by
          simp only [holdings, Frame.shares, List.count_append, loose_cons, List.count_cons_self]
          omega)
      exact deals_rootStepped (m := ⟨st, K, .release [] (.give (.stepped step inner))⟩) hp inner step
    | _ => exact (Untouched.focus _ _).deals fun _ => rfl
  | notifying ws o =>
    cases ws with
    | nil => exact (Untouched.focus _ _).deals fun _ => rfl
    | cons w ws =>
      exact deals_notify (m := ⟨st, K, .release [] (.give a)⟩) ws w o fun _ => rfl
  | draining q ran =>
    refine deals_drainNext (m := ⟨st, K, .release [] (.give a)⟩) q ran fun c o rest hq => ?_
    refine progress_of_settler hcovered ?_
    -- the settler is held by the job in its queue
    have hjob : 0 < (loose ((Job.settle c o :: rest).flatMap (Job.handles B.held))).count
        (.loose (.settler c)) := by
      simp [Job.handles]
    have hqueue := Table.le_total (t := st.queues) hq fun jobs =>
      (loose (jobs.flatMap (Job.handles B.held))).count (.loose (.settler c))
    simp only [holdings, Store.held]
    omega
  | driving b =>
    exact .of_same (fun _ => rfl) (completions_bridgeHead b)
      (calm_bridgeHead (⟨st, K, .release [] (.give a)⟩ : Machine C R) b)
  | starting b settler =>
    obtain ⟨p, hp⟩ := progress_of_task (c := settler) hcovered (by
      simp only [holdings, Frame.shares, List.singleton_append, List.count_cons_self]
      omega)
    by_cases hfailed : ∃ e, a = .outcome (.failure e)
    · obtain ⟨e, rfl⟩ := hfailed
      exact deals_taskNotBuilt (m := ⟨st, K, .release [] (.give (.outcome (.failure e)))⟩) b hp e
    · have hbuilt (n : Machine C R) : n.deliver B a (.starting b settler) =
          n.taskBuilt b settler a.script := by
        cases a with
        | outcome o =>
          cases o with
          | failure e => exact absurd ⟨e, rfl⟩ hfailed
          | success v => rfl
        | _ => rfl
      rw [hbuilt]
      refine deals_taskBuilt b settler a.script fun c => ?_
      cases a with
      | outcome o =>
        cases o with
        | failure e => exact absurd ⟨e, rfl⟩ hfailed
        | success v => rfl
      | _ => rfl
  | resuming b id settler =>
    obtain ⟨x, hx⟩ := bridge_of_backed h.covered.pop h.covered.backed.1
    obtain ⟨p, hp⟩ := progress_of_task (c := settler) hcovered (by
      simp only [holdings, Frame.shares, List.singleton_append, List.count_cons_self]
      omega)
    cases a with
    | stepped step script =>
      refine deals_taskStepped (m := ⟨st, K, .release [] (.give (.stepped step script))⟩) B hx id hp
        script step fun c hstep => ?_
      -- what the task awaits is held by its answer
      subst hstep
      refine progress_of_completion hcovered ?_
      simp only [holdings, Focus.shares, Onward.handles, Answer.handles, Step.handles,
        Instruction.handles, List.nil_append, List.singleton_append, loose_cons,
        List.count_append, List.count_cons_self]
      omega
    | _ => exact (Untouched.focus _ _).deals fun _ => rfl
  | _ => exact (untouched_deliver _ B a rfl).deals fun _ => rfl

/-- A panic passes a frame. -/
theorem deals_unwindFrame {f : Frame C R} {K : List (Frame C R)} {st : Store C}
    {payload : Payload} {salvage : Option (Script C)}
    (h : Balanced B ⟨st, f :: K, .release [] (.unwind payload salvage)⟩) :
    Deals (fun c => f.unwoundAsks? c
        (bridgeCatches (⟨st, f :: K, .release [] (.unwind payload salvage)⟩ : Machine C R)) payload)
      (⟨st, K, .release [] (.unwind payload salvage)⟩ : Machine C R)
      (unwindFrame (⟨st, K, .release [] (.unwind payload salvage)⟩ : Machine C R) B payload salvage
        f) := by
  have hcovered := h.covered.pop
  cases f with
  | notifying ws o => exact (Untouched.focus _ _).deals fun _ => rfl
  | driving b =>
    exact .of_same (fun _ => rfl) rfl
      ((Calm.refl (⟨st, K, .release [] (.unwind payload salvage)⟩ : Machine C R)).of_control rfl)
  | starting b settler =>
    obtain ⟨p, hp⟩ := progress_of_task (c := settler) hcovered (by
        simp only [holdings, Frame.shares, List.singleton_append, List.count_cons_self]
        omega)
    unfold unwindFrame
    dsimp only
    split
    · next hcatches =>
      refine (deals_taskNotBuilt (m := ⟨st, K, .release [] (.unwind payload salvage)⟩) b hp
        (.panicked payload.message)).congr fun c => ?_
      exact unwoundAsks?_of_catches hcatches c settler payload
    · next hcatches =>
      exact (Untouched.focus _ _).deals fun c => if_neg fun hand => hcatches hand.1
  | resuming b id settler =>
    obtain ⟨x, hx⟩ := bridge_of_backed h.covered.pop h.covered.backed.1
    obtain ⟨p, hp⟩ := progress_of_task (c := settler) hcovered (by
        simp only [holdings, Frame.shares, List.singleton_append, List.count_cons_self]
        omega)
    unfold unwindFrame
    dsimp only
    split
    · next hcatches =>
      refine (deals_taskStepped (m := ⟨st, K, .release [] (.unwind payload salvage)⟩) B hx id hp
        (salvage.getD (.returning .unit)) (failed payload) fun c hstep => by cases hstep).congr
        fun c => ?_
      exact unwoundAsks?_of_catches hcatches c settler payload
    · next hcatches =>
      exact (Untouched.focus _ _).deals fun c => if_neg fun hand => hcatches hand.1
  | _ => exact (untouched_unwindFrame _ B payload salvage rfl).deals fun _ => rfl

/-- Every move deals with completions as it is asked to. -/
theorem deals_step (h : Balanced B m) :
    Deals m.asked? ⟨m.store, m.beneath, m.focus⟩ (m.step B) := by
  obtain ⟨st, K, focus⟩ := m
  cases focus with
  | advance script input => exact (untouched_advanceScript _ B script input).deals fun _ => rfl
  | exit script => exact (untouched_exitScript _ B script).deals fun _ => rfl
  | copy script => exact (untouched_copyScript _ B script).deals fun _ => rfl
  | aborted => exact (Untouched.focus _ _).deals fun _ => rfl
  | release hs onward =>
    cases hs with
    | cons x rest => exact deals_letGo h.covered rfl
    | nil =>
      cases onward with
      | begin code entry => exact (untouched_startCode _ B code entry).deals fun _ => rfl
      | tell state signal => exact (untouched_tell _ B state signal).deals fun _ => rfl
      | act reaction =>
        cases reaction with
        | ask request next =>
          refine .after (untouched_push (f := .code next) _ rfl)
            (deals_perform (m := push ⟨st, K, _⟩ (.code next)) B fun c e hasked => ?_)
          have hheld (x : Handle) (hx : x ∈ request.handles B.held) :
              0 < holdings B st K (Focus.shares B (.release [] (.act (.ask request next))))
                (.loose x) :=
            held_of_mem (by simp [Focus.shares, Onward.handles, Reaction.handles, hx]) st K
          cases request with
          | settle c' o =>
            obtain ⟨heq, -⟩ := Option.ite_none_right_eq_some.mp hasked
            subst heq
            exact progress_of_settler h.covered (hheld (.settler c) (by simp [Request.handles]))
          | onSettle c' code =>
            obtain ⟨heq, -⟩ := Option.ite_none_right_eq_some.mp hasked
            subst heq
            exact progress_of_completion h.covered (hheld (.completion c) (by simp [Request.handles]))
          | _ => cases hasked
        | _ => exact (Untouched.focus _ _).deals fun _ => rfl
      | give a =>
        cases K with
        | nil => exact (Untouched.focus _ _).deals fun _ => rfl
        | cons f K => exact deals_deliver h
      | unwind payload salvage =>
        cases K with
        | nil => exact (Untouched.focus _ _).deals fun _ => rfl
        | cons f K => exact deals_unwindFrame h

end Step

end Machine

end Strand
