import Strand.Proofs.Accounts
import Strand.Proofs.Calls

/-! # Shelters — the loop of a bridge that catches panics

    What stands above the loop of a bridge is worked off before the loop goes on. The
    tasks that the bridge builds and advances are sheltered: where panics are caught, none
    of theirs reaches the loop. All else that happens directly above the loop is that
    handles are let go of and listeners told, and a panic comes out of that only where a
    listener panics (`Scares`).

    * `Sheltered` says this of the frames above the loop, and `sheltered_step` that it
      remains so.
    * So the loop is left only when nothing is left to do (`Tended`). -/

namespace Strand

variable {C R : Type}

/-- A panic does not come out of the frame, unless it has come out of a listener. -/
def Frame.shelters (b : Nat) : Frame C R → Bool
  | .starting b' _ | .resuming b' _ _ => b' = b
  | .notifying _ _ => true
  | _ => false

/-- The frame hands on what it is given, after it has let go of something. -/
def Frame.handsOn : Frame C R → Bool
  | .holding _ | .replying _ => true
  | .releasing _ (.give _) => true
  | _ => false

/-- Whether the frame is the loop of the bridge. -/
def Frame.drives (b : Nat) : Frame C R → Bool
  | .driving b' => b' = b
  | _ => false

/-- Something is given, after something has been let go of. -/
def Focus.giving : Focus C R → Bool
  | .release _ (.give _) => true
  | _ => false

/-- No panic gets through these frames, or none is about to. -/
inductive Sheltered (b : Nat) (L : List (Frame C R)) (focus : Focus C R) : Prop where
  | within {above below : List (Frame C R)} {f : Frame C R} (hL : L = above ++ f :: below)
      (hf : f.shelters b = true) (hbelow : ∀ g ∈ below, g.handsOn = true)
  | given (hL : ∀ g ∈ L, g.handsOn = true) (hfocus : focus.giving = true)

theorem Sheltered.append {b : Nat} {above L : List (Frame C R)} {focus : Focus C R}
    (h : Sheltered b above focus) (hL : ∀ g ∈ L, g.handsOn = true) : Sheltered b (above ++ L) focus := by
  cases h with
  | within habove hf hbelow =>
    refine .within (by rw [habove, List.append_assoc]; rfl) hf fun g hg => ?_
    rcases List.mem_append.mp hg with hg | hg
    · exact hbelow g hg
    · exact hL g hg
  | given habove hfocus =>
    refine .given (fun g hg => ?_) hfocus
    rcases List.mem_append.mp hg with hg | hg
    · exact habove g hg
    · exact hL g hg

/-- Whether the seat is the loop. -/
def Seat.isLoop : Seat C → Bool
  | .loop => true
  | _ => false

/-- A bridge that is at work has its loop on the control stack once, one that is not has it
    not. -/
theorem Seated.count_loop {running : Bool} {seats : List (Seat C)} (h : Seated running seats) :
    seats.countP Seat.isLoop = if running = true then 1 else 0 := by
  fun_induction Seated running seats with
  | case1 running => simp [h]
  | case2 running tasks o rest ih =>
    rw [List.countP_cons_of_neg (by simp [Seat.isLoop])]
    exact ih h
  | case3 running rest ih =>
    rw [List.countP_cons_of_pos rfl, ih h.2]
    simp [h.1]
  | case4 running c rest ih =>
    rw [List.countP_cons_of_neg (by simp [Seat.isLoop]), List.countP_cons_of_pos rfl, ih h.2]
    simp [h.1]
  | case5 running c rest ih =>
    rw [List.countP_cons_of_neg (by simp [Seat.isLoop]), List.countP_cons_of_pos rfl, ih h.2]
    simp [h.1]
  | case6 => exact h.elim

theorem Frame.isLoop_seat? (b : Nat) (f : Frame C R) :
    ((f.seat? b).map Seat.isLoop).getD false = f.drives b := by
  cases f with
  | starting b' c | resuming b' id c | driving b' =>
    by_cases hb : b' = b <;> simp [Frame.seat?, Frame.drives, Seat.isLoop, hb]
  | notifying ws o => rfl
  | _ => rfl

theorem count_drives {b : Nat} {running : Bool} {K : List (Frame C R)}
    (h : Seated running (K.filterMap (Frame.seat? b))) :
    K.countP (Frame.drives b) = if running = true then 1 else 0 := by
  rw [← h.count_loop, List.countP_filterMap]
  exact List.countP_congr fun f _ => by rw [f.isLoop_seat?]

/-- The loop is found in one way only. -/
theorem split_unique {b : Nat} {L L' K K' : List (Frame C R)}
    (h : L ++ .driving b :: K = L' ++ .driving b :: K')
    (hone : (L ++ .driving b :: K).countP (Frame.drives b) ≤ 1) : L = L' ∧ K = K' := by
  have hdrives : (Frame.driving b : Frame C R).drives b = true := by simp [Frame.drives]
  rcases List.append_eq_append_iff.mp h with ⟨M, rfl, hM⟩ | ⟨M, rfl, hM⟩
  · cases M with
    | nil => exact ⟨(List.append_nil L).symm, (List.cons.inj hM).2⟩
    | cons f M =>
      obtain ⟨rfl, rfl⟩ := List.cons.inj hM
      simp [List.countP_append, hdrives] at hone
      omega
  · cases M with
    | nil => exact ⟨List.append_nil L', (List.cons.inj hM).2.symm⟩
    | cons f M =>
      obtain ⟨rfl, rfl⟩ := List.cons.inj hM
      simp [List.countP_append, hdrives] at hone
      omega

namespace Machine

variable {B : Behavior C R} {b : Nat} {m n : Machine C R} {K L : List (Frame C R)}

/-- What has been put above `K` is sheltered. -/
def ShelteredAbove (b : Nat) (K : List (Frame C R)) (n : Machine C R) : Prop :=
  ∃ above, n.control = above ++ K ∧ Sheltered b above n.focus

theorem ShelteredAbove.of_giving (hcontrol : n.control = K) (h : n.focus.giving = true) :
    ShelteredAbove b K n := ⟨[], hcontrol, .given (List.forall_mem_nil _) h⟩

/-- What has been put above frames that hand on. -/
theorem ShelteredAbove.trans (h : ShelteredAbove b (L ++ K) n) (hL : ∀ g ∈ L, g.handsOn = true) :
    ShelteredAbove b K n := by
  obtain ⟨above, hcontrol, hsheltered⟩ := h
  exact ⟨above ++ L, by rw [hcontrol, List.append_assoc], hsheltered.append hL⟩

/-- A frame that shelters has been put there. -/
theorem shelteredAbove_of_suffix {f : Frame C R} (h : f :: K <:+ n.control) (hf : f.shelters b = true) :
    ShelteredAbove b K n := by
  obtain ⟨above, habove⟩ := h
  refine ⟨above ++ [f], by rw [← habove, List.append_assoc]; rfl, ?_⟩
  exact .within rfl hf (List.forall_mem_nil _)

variable (m)

theorem sheltered_settle (c : Nat) (o : Outcome Value) : ShelteredAbove b m.control (m.settle c o) := by
  unfold settle
  split
  · exact shelteredAbove_of_suffix List.suffix_rfl rfl
  · exact .of_giving rfl rfl

/-- A task comes back to its bridge, which is at work. -/
theorem giving_wakeTask (b : Nat) (task : Task C) (o : Outcome Value) (h : m.bridgeRunning b = true) :
    (m.wakeTask b task o).control = m.control ∧ (m.wakeTask b task o).focus.giving = true := by
  have hrunning : (m.pushAction b (.resume task (some o))).bridgeRunning b = true := by
    obtain ⟨x, hx, hrunning⟩ : ∃ x, m.store.bridges.find? b = some x ∧ x.running = true := by
      unfold bridgeRunning at h
      cases hx : m.store.bridges.find? b with
      | none => simp [hx] at h
      | some x => exact ⟨x, rfl, by simpa [hx] using h⟩
    rw [(works_pushAction m hx _).2, hrunning]
  simp only [wakeTask, hrunning, if_true]
  exact ⟨rfl, rfl⟩

theorem sheltered_await (held : C → List Handle) (c b : Nat) (task : Task C)
    (h : m.bridgeRunning b = true) : ShelteredAbove b m.control (m.await held c (.resume b task)) := by
  unfold await
  split
  · exact .of_giving rfl rfl
  · next o _ _ =>
    have hrunning : ((m.retain o.handles).push (.replying .unit)).bridgeRunning b = true := by
      rw [bridgeRunning] at h ⊢
      rw [← h]
      exact congrArg (fun x => (Option.map Bridge.running x).getD false)
        (find?_bridges_retainAll m.store o.handles b)
    obtain ⟨hcontrol, hgiving⟩ := giving_wakeTask _ b task o hrunning
    exact ⟨[.replying .unit], hcontrol, .given (by simp [Frame.handsOn]) hgiving⟩
  · exact .of_giving rfl rfl

theorem sheltered_taskBuilt (b c : Nat) (script : Script C) :
    ShelteredAbove b m.control (m.taskBuilt b c script) := by
  unfold taskBuilt
  split
  · exact .of_giving rfl rfl
  · exact .of_giving rfl rfl

theorem sheltered_taskNotBuilt (b c : Nat) (error : Error) :
    ShelteredAbove b m.control (m.taskNotBuilt b c error) :=
  (sheltered_settle _ c (.failure error)).trans (L := [.holding [.settler c]]) (by simp [Frame.handsOn])

theorem sheltered_taskStepped (held : C → List Handle) (b : Nat) (id : UInt64) (c : Nat)
    (script : Script C) (step : Step C) (h : m.bridgeRunning b = true) :
    ShelteredAbove b m.control (m.taskStepped held b id c script step) := by
  unfold taskStepped
  split
  · next o =>
    exact (sheltered_settle _ c o).trans (L := [.holding (.settler c :: script.handles held)])
      (by simp [Frame.handsOn])
  · next awaited =>
    refine (sheltered_await _ held awaited b ⟨id, script, c⟩ ?_).trans
      (L := [.holding [.completion awaited]]) (by simp [Frame.handsOn])
    have hsame := congrArg Works.bridge (((works_retain (b := b) _ _).trans
      (works_bridgeReport m b (.taskAwaiting id))) : ((m.withStore
        (·.bridgeReport b (.taskAwaiting id))).retain [.bridge b]).works b = m.works b)
    rw [bridgeRunning] at h ⊢
    rw [← h]
    exact congrArg (fun x => (Option.map Bridge.running x).getD false) hsame
  · exact .of_giving rfl rfl

theorem sheltered_notify (ws : List (Listener C)) (o : Outcome Value) :
    ShelteredAbove b m.control (m.notify ws o) := by
  cases ws with
  | nil => exact .of_giving rfl rfl
  | cons w rest =>
    refine shelteredAbove_of_suffix (f := .notifying rest o) ?_ rfl
    exact suffix_tellListener (((m.retain o.handles)).push (.notifying rest o)) w o

/-- The bridge builds or advances the next task, or leaves its loop. -/
theorem sheltered_bridgeHead {x : Bridge C} (hx : m.store.bridges.find? b = some x) :
    ShelteredAbove b (.driving b :: m.control) (m.bridgeHead b) ∨
      ((m.bridgeHead b).works b).stack = [] ∧ (m.bridgeHead b).control = m.control := by
  unfold bridgeHead
  simp only [hx]
  cases hstack : x.stack with
  | nil =>
    refine Or.inr ⟨?_, rfl⟩
    have hleft : ((m.leaveBridge b).works b).stack = [] := by
      rw [leaveBridge, works_onBridge_self m hx]
      exact hstack
    exact hleft
  | cons action rest =>
    left
    cases action with
    | start code c => exact shelteredAbove_of_suffix (f := .starting b c) List.suffix_rfl (by simp [Frame.shelters])
    | resume task o =>
      exact shelteredAbove_of_suffix (f := .resuming b task.id task.settler) List.suffix_rfl
        (by simp [Frame.shelters])

variable {m}

/-- A listener panics: the panic is about to pass the frame that tells the others. -/
def Scares (m : Machine C R) : Prop :=
  ∃ ws o K payload salvage, m.control = .notifying ws o :: K ∧
    m.focus = .release [] (.unwind payload salvage)

/-- Letting go of a handle above frames that hand on. -/
theorem sheltered_letGo (hcontrol : m.control = L ++ K) (hL : ∀ g ∈ L, g.handsOn = true)
    (x : Handle) (rest : List Handle) (a : Answer C) :
    ShelteredAbove b K (m.letGo B x rest (.give a)) := by
  refine ShelteredAbove.trans (L := L) ?_ hL
  rw [← hcontrol]
  unfold letGo
  split
  · exact .of_giving rfl rfl
  · next c store _ =>
    exact (sheltered_settle _ c _).trans (L := [.releasing (.completion c :: rest) (.give a)])
      (by simp [Frame.handsOn])

/-- What is handed on goes to the next frame. -/
theorem sheltered_handsOn {f : Frame C R} {a : Answer C} (hf : f.handsOn = true)
    (hcontrol : m.control = f :: (L ++ K)) (hL : ∀ g ∈ L, g.handsOn = true)
    (hfocus : m.focus = .release [] (.give a)) : ShelteredAbove b K (m.step B) := by
  rw [step_of_give hcontrol hfocus]
  refine ShelteredAbove.trans (L := L) ?_ hL
  cases f with
  | holding hs | replying v => exact .of_giving rfl rfl
  | releasing rest onward =>
    cases onward with
    | give a' => exact .of_giving rfl rfl
    | begin | tell | act | unwind => cases hf
  | _ => cases hf

/-- A frame that shelters is answered, or a panic comes to it. -/
theorem sheltered_pop {f : Frame C R} (hf : f.shelters b = true) (hcontrol : m.control = f :: (L ++ K))
    (hL : ∀ g ∈ L, g.handsOn = true) (hpop : m.popping = true) (hrunning : m.bridgeRunning b = true)
    (hcatch : m.bridgeCatches b = true) (hcalm : ¬ m.Scares) : ShelteredAbove b K (m.step B) := by
  refine ShelteredAbove.trans (L := L) ?_ hL
  have hfit (n : Machine C R) : ShelteredAbove b ({ m with control := L ++ K } : Machine C R).control n →
      ShelteredAbove b (L ++ K) n := id
  rcases focus_of_popping hpop with ⟨a, hfocus⟩ | ⟨payload, salvage, hfocus⟩
  · rw [step_of_give hcontrol hfocus]
    refine hfit _ ?_
    cases f with
    | starting b' c =>
      obtain rfl : b' = b := of_decide_eq_true hf
      simp only [deliver]
      split
      · exact sheltered_taskNotBuilt _ b' c _
      · exact sheltered_taskBuilt _ b' c _
    | resuming b' id c =>
      obtain rfl : b' = b := of_decide_eq_true hf
      simp only [deliver]
      split
      · exact sheltered_taskStepped _ B.held b' id c _ _ hrunning
      · exact .of_giving rfl rfl
    | notifying ws o => exact sheltered_notify _ ws o
    | _ => cases hf
  · rw [step_of_unwind hcontrol hfocus]
    refine hfit _ ?_
    have hcatch' : ({ m with control := L ++ K } : Machine C R).bridgeCatches b = true := hcatch
    cases f with
    | starting b' c =>
      obtain rfl : b' = b := of_decide_eq_true hf
      simp only [unwindFrame, hcatch', if_true]
      exact sheltered_taskNotBuilt _ b' c _
    | resuming b' id c =>
      obtain rfl : b' = b := of_decide_eq_true hf
      simp only [unwindFrame, hcatch', if_true]
      exact sheltered_taskStepped _ B.held b' id c _ _ hrunning
    | notifying ws o => exact absurd ⟨ws, o, _, payload, salvage, hcontrol, hfocus⟩ hcalm
    | _ => cases hf

/-- What is above the loop of the bridge stays sheltered, or the bridge leaves its loop
    since nothing is left to do. -/
theorem sheltered_step (hcontrol : m.control = L ++ .driving b :: K) (hL : Sheltered b L m.focus)
    {x : Bridge C} (hx : m.store.bridges.find? b = some x) (hrunning : x.running = true)
    (hcatch : m.bridgeCatches b = true) (hcalm : ¬ m.Scares) :
    ShelteredAbove b (.driving b :: K) (m.step B) ∨
      ((m.step B).works b).stack = [] ∧ (m.step B).control = K := by
  cases hL with
  | @within above below f habove hf hbelow =>
    subst habove
    left
    cases above with
    | nil =>
      rw [List.nil_append, List.cons_append] at hcontrol
      by_cases hpop : m.popping = true
      · exact sheltered_pop hf hcontrol hbelow hpop
          (by rw [bridgeRunning_of_find? m hx, hrunning]) hcatch hcalm
      · have hsuffix := suffix_step m B (Bool.eq_false_iff.mpr hpop)
        rw [hcontrol] at hsuffix
        exact (shelteredAbove_of_suffix hsuffix hf).trans hbelow
    | cons g above =>
      refine ShelteredAbove.trans (shelteredAbove_of_suffix (f := f) ?_ hf) hbelow
      refine List.IsSuffix.trans ⟨above, ?_⟩ (tail_suffix_step m B)
      rw [hcontrol]
      simp
  | given hL hfocus =>
    obtain ⟨hs, a, hfocus⟩ : ∃ hs a, m.focus = .release hs (.give a) := by
      unfold Focus.giving at hfocus
      split at hfocus
      · next hs a heq => exact ⟨hs, a, heq⟩
      · cases hfocus
    cases hs with
    | cons handle hs =>
      left
      have hstep : m.step B = m.letGo B handle hs (.give a) := by simp only [step, hfocus]
      rw [hstep]
      exact sheltered_letGo hcontrol hL handle hs a
    | nil =>
      cases L with
      | cons g L =>
        rw [List.forall_mem_cons] at hL
        exact Or.inl (sheltered_handsOn hL.1 hcontrol hL.2 hfocus)
      | nil =>
        rw [step_of_give hcontrol hfocus]
        exact sheltered_bridgeHead (m := { m with control := K }) hx

/-! ### The loop is there once -/

end Machine

/-! ### A bridge that is not at work -/

/-- A bridge that is not at work has nothing to do and stays so, or enters its loop. -/
theorem Does.rests_or_enters {entered panics astray : Prop} {e : Option TaskEvent} {u v : Works C}
    (h : Does entered panics astray e u v) (hseated : Seated u.running u.seats)
    (hu : u.running = false) (hstack : u.stack = []) :
    v.running = false ∧ v.stack = [] ∨ entered := by
  obtain ⟨ub, us, uw⟩ := u
  obtain ⟨vb, vs, vw⟩ := v
  obtain ⟨top, top', below, htop, htop', hdeed⟩ := h
  dsimp only at htop htop' hdeed
  subst htop htop'
  cases hdeed with
  | tell x task tasks o w hx => exact Or.inr (hx hu)
  | run x hc code hx => exact Or.inr (hx hu)
  | awaitsSettled x task hc hx => exact Or.inr (hx hu)
  | make settings w => exact Or.inl ⟨rfl, rfl⟩
  | scrap x w => exact Or.inl ⟨rfl, rfl⟩
  | build hx w | resume hx w | rest hx w | leave _ x w =>
    exact absurd (hseated.1.symm.trans hu) (by simp)
  | built x task nextId w =>
    exact absurd ((seated_building.mp hseated).1.symm.trans hu) (by simp)
  | _ => exact Or.inl ⟨hu, hstack⟩

/-- A bridge that is let go of leaves no seats. -/
theorem Does.seats_of_scrapped {entered panics astray : Prop} {e : Option TaskEvent} {u v : Works C}
    (h : Does entered panics astray e u v) (hu : u.bridge ≠ none) (hv : v.bridge = none) :
    v.seats = u.seats := by
  obtain ⟨ub, us, uw⟩ := u
  obtain ⟨vb, vs, vw⟩ := v
  obtain ⟨top, top', below, htop, htop', hdeed⟩ := h
  dsimp only at htop htop' hdeed hu hv
  subst htop htop'
  cases hdeed with
  | still => rfl
  | scrap x w => rfl
  | make | tell | run | build | resume | rest | built | awaitsSettled | leave => cases hv
  | _ => exact absurd hv hu

namespace Machine

variable {B : Behavior C R} {b : Nat} {m n : Machine C R} {past : List (Machine C R)}

/-- A bridge that is not at work has nothing to do, and above the loop of one that is no
    panic gets through. -/
structure Tended (b : Nat) (m : Machine C R) : Prop where
  sheltered : ∀ L K, m.control = L ++ .driving b :: K → Sheltered b L m.focus
  idle : (m.works b).running = false → (m.works b).stack = []

theorem tended_of_split {L K : List (Frame C R)} (hcontrol : n.control = L ++ .driving b :: K)
    (hL : Sheltered b L n.focus) (hseated : Seated (n.works b).running (n.works b).seats) :
    Tended b n := by
  have hcount := count_drives (K := n.control) hseated
  refine ⟨fun L' K' hcontrol' => ?_, fun hidle => ?_⟩
  · have hone : (L ++ .driving b :: K).countP (Frame.drives b) ≤ 1 := by
      rw [← hcontrol, hcount]
      split <;> omega
    rw [← (split_unique (hcontrol.symm.trans hcontrol') hone).1]
    exact hL
  · rw [hidle, hcontrol] at hcount
    simp [List.countP_append, Frame.drives] at hcount

theorem Tended.move (h : Tended b m) (hm : Balanced B m)
    (hseated : Seated (m.works b).running (m.works b).seats)
    (hseated' : Seated ((m.step B).works b).running ((m.step B).works b).seats)
    (hcatch : (m.works b).bridge ≠ none → m.bridgeCatches b = true) (hcalm : ¬ m.Scares) :
    Tended b (m.step B) := by
  have hcount := count_drives (K := m.control) hseated
  have hcount' := count_drives (K := (m.step B).control) hseated'
  have hnone (hnone : (m.step B).control.countP (Frame.drives b) = 0) (L K : List (Frame C R))
      (hcontrol : (m.step B).control = L ++ .driving b :: K) : Sheltered b L (m.step B).focus := by
    rw [hcontrol] at hnone
    simp [List.countP_append, Frame.drives] at hnone
  cases hrunning : (m.works b).running with
  | true =>
    rw [hrunning, if_pos rfl] at hcount
    obtain ⟨f, hf, hdrives⟩ := List.countP_pos_iff.mp (hcount ▸ Nat.one_pos)
    obtain rfl : f = .driving b := by
      unfold Frame.drives at hdrives
      split at hdrives
      · rw [of_decide_eq_true hdrives]
      · cases hdrives
    obtain ⟨L, K, hcontrol⟩ := List.append_of_mem hf
    cases hx : m.store.bridges.find? b with
    | none => simp [Works.running, works, hx] at hrunning
    | some x =>
      have hrun : x.running = true := by simpa [Works.running, works, hx] using hrunning
      have hthere : (m.works b).bridge ≠ none := by simp [works, hx]
      rcases sheltered_step (B := B) hcontrol (h.sheltered L K hcontrol) hx hrun (hcatch hthere) hcalm with
        ⟨above, hcontrol', hsheltered⟩ | ⟨hstack, hcontrol'⟩
      · exact tended_of_split hcontrol' hsheltered hseated'
      · refine ⟨hnone ?_, fun _ => hstack⟩
        rw [hcontrol, List.countP_append, List.countP_cons_of_pos hdrives] at hcount
        rw [hcontrol']
        omega
  | false =>
    rcases (does_step hm).rests_or_enters hseated hrunning (h.idle hrunning) with
      ⟨hidle, hstack⟩ | ⟨K, hcontrol, hfocus⟩
    · refine ⟨hnone ?_, fun _ => hstack⟩
      rw [hcount', hidle]
      rfl
    · refine tended_of_split (L := []) hcontrol (.given (List.forall_mem_nil _) ?_) hseated'
      rw [hfocus]
      rfl

/-- As long as the bridge catches panics and no listener panics. -/
theorem History.tended (hB : B.Honest) (h : History B past m)
    (hcatch : ∀ n ∈ past, (n.works b).bridge ≠ none → n.bridgeCatches b = true)
    (hcalm : ∀ n ∈ past, ¬ n.Scares) : Tended b m := by
  have hempty {n : Machine C R} (hn : n.control = []) (L K : List (Frame C R))
      (hcontrol : n.control = L ++ .driving b :: K) : Sheltered b L n.focus := by
    rw [hn] at hcontrol
    cases (List.append_eq_nil_iff.mp hcontrol.symm).2
  induction h with
  | begin onward => exact ⟨hempty rfl, fun _ => rfl⟩
  | @move past m h ih =>
    rw [List.forall_mem_append, List.forall_mem_singleton] at hcatch hcalm
    exact (ih hcatch.1 hcalm.1).move (h.balanced hB) (h.seated hB b) (h.move.seated hB b) hcatch.2
      hcalm.2
  | @anew past m h ended events hs onward _ _ ih =>
    refine ⟨hempty rfl, fun hidle => ?_⟩
    have hsame : (⟨{ m.store with events }, [], .release hs onward⟩ : Machine C R).works b =
        m.works b := by
      simp only [works, ended]
    rw [hsame] at hidle ⊢
    exact (ih hcatch hcalm).idle hidle

/-- Then it does not lose sight of tasks. -/
theorem Tended.keeps (h : Tended b m) (hm : Balanced B m) (hm' : Balanced B (m.step B))
    (hseated : Seated (m.works b).running (m.works b).seats)
    (hcatch : (m.works b).bridge ≠ none → m.bridgeCatches b = true) (hcalm : ¬ m.Scares)
    (htyped : ¬ m.Astray b) : ¬ m.Loses B b := by
  have hthere (hrunning : (m.works b).running = true) : (m.works b).bridge ≠ none := by
    intro hnone
    simp [Works.running, hnone] at hrunning
  rintro (⟨payload, salvage, f, K, hcontrol, hfocus, hsheds⟩ | hastray | ⟨hstack, hnone⟩)
  · have hseats : (m.works b).seats = (f.seat? b).toList ++ K.filterMap (Frame.seat? b) := by
      simp only [works, hcontrol, List.filterMap_cons]
      cases f.seat? b <;> rfl
    cases f with
    | notifying ws o => exact hcalm ⟨ws, o, K, payload, salvage, hcontrol, hfocus⟩
    | driving b' =>
      obtain rfl : b' = b := of_decide_eq_true hsheds
      cases h.sheltered [] K hcontrol with
      | within hL => simp at hL
      | given _ hgiving =>
        rw [hfocus] at hgiving
        cases hgiving
    | starting b' c =>
      obtain ⟨rfl, hnot⟩ := of_decide_eq_true hsheds
      rw [hseats] at hseated
      simp only [Frame.seat?, if_true, Option.toList_some, List.singleton_append] at hseated
      rw [hcatch (hthere (seated_building.mp hseated).1)] at hnot
      cases hnot
    | resuming b' id c =>
      obtain ⟨rfl, hnot⟩ := of_decide_eq_true hsheds
      rw [hseats] at hseated
      simp only [Frame.seat?, if_true, Option.toList_some, List.singleton_append] at hseated
      rw [hcatch (hthere (seated_stepping.mp hseated).1)] at hnot
      cases hnot
    | _ => cases hsheds
  · exact htyped hastray
  · cases hrunning : (m.works b).running with
    | false => exact hstack (h.idle hrunning)
    | true =>
      have hseats := (does_step hm).seats_of_scrapped (hthere hrunning) hnone
      rw [hrunning] at hseated
      exact bridge_of_loop hm' (hseats ▸ hseated.loop_mem) hnone

end Machine

end Strand
