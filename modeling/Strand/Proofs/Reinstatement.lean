import Strand.Proofs.Captures
import Strand.Proofs.Snapshots

/-! # Reinstatement — what a continuation puts back on the stack

    A shift takes a part of the stack away, and an invocation of its continuation
    puts it back: the captured routines themselves, or copies of them.

    * While frames are copied, for a handler or for an invocation, the program
      may run, but what it is called for stays beneath it (`Copying.step`). So the
      copies are made of the scripts that were lifted (`CaptureRun`, `ReplayRun`).
    * A continuation that has not been invoked remembers routines that nothing is
      done to: they have the scripts they were captured with (`remembered_carry`).

    `capture_is_reinstated` puts this together: the first invocation restores what was
    captured (`Invokes.restores`), any other one copies it (`Invokes.copiesAll`). -/

namespace Strand

variable {C R : Type}

open Scheduler

/-! ### The routine that is stepped -/

namespace Machine

variable {B : Behavior C R} {p k : Nat} {m n m₀ m₁ : Machine C R} {K below : List (Frame C R)}
  {id : RoutineId} {s s₀ t : Scheduler C} {frames : List (Lifted C)} {v : Value}
  {script : Script C} {handler : C}

/-- Routine `id` of scheduler `p`, which goes on as `script`, is about to shift.
    `K` is what is beneath its step. -/
structure Shifts (p : Nat) (K : List (Frame C R)) (id : RoutineId) (script : Script C)
    (handler : C) (m : Machine C R) : Prop where
  control : m.control = .stepping p id :: K
  focus : m.focus = .release [] (.give (.stepped (.yield (.shift handler)) script))

/-- Beneath the step is the pass. -/
theorem Shifts.pass (h : m.Shifts p K id script handler) (hreach : Reachable B m)
    (hs : m.scheduler? p = some s) : ∃ L, K = .pass p :: L := by
  have hstacked := (hreach.ordered hs).1.stacked
  rw [h.control] at hstacked
  exact startsPass_eq (hstacked.2.1 rfl)

theorem Shifts.stage (h : m.Shifts p K id script handler) (hpass : ∃ L, K = .pass p :: L) :
    m.stage p = .stepping id := by
  obtain ⟨L, rfl⟩ := hpass
  simp [Machine.stage, h.control, stageFrom, Frame.isPass, Above.stage]

theorem Shifts.step (h : m.Shifts p K id script handler) (hs : m.scheduler? p = some s)
    (hlift : (s.shelve id script).lift = (frames, t)) :
    m.step B = (({ m with control := K } : Machine C R).onScheduler p fun _ => t).captureNext p id
      handler frames [] frames := by
  have hs' : ({ m with control := K } : Machine C R).scheduler? p = some s := hs
  have hstep : m.step B =
      ({ m with control := K } : Machine C R).obey p id script (.shift handler) := by
    simp only [Machine.step, h.focus, goOn, h.control]
    rfl
  rw [hstep]
  simp only [obey, hs', hlift]

/-! ### Copying one script -/

/-- Something was called to copy a script, and its answer is for the frame on top
    of `below`. -/
inductive Copying (script : Script C) (below : List (Frame C R)) (m : Machine C R) : Prop where
  | asked (control : m.control = below) (focus : m.focus = .copy script)
  /-- The program is told first. -/
  | told {above : List (Frame C R)} (control : m.control = above ++ .copying script :: below)
  | done (control : m.control = below) (focus : m.focus = .release [] (.give (.built script)))
  /-- A panic came out of what the program was told. -/
  | failed {payload : Payload} {salvage : Option (Script C)} (control : m.control = below)
      (focus : m.focus = .release [] (.unwind payload salvage))

theorem Copying.suffix (h : m.Copying script below) : below <:+ m.control := by
  cases h with
  | asked control | done control | failed control => exact control ▸ List.suffix_refl _
  | told control =>
    rw [control]
    exact (List.suffix_cons ..).trans (List.suffix_append ..)

/-- Copying goes on, or the frame beneath is handed a copy or a panic. -/
theorem Copying.step {f : Frame C R} (h : m.Copying script (f :: below)) :
    (m.step B).Copying script (f :: below) ∨
      (m.control = f :: below ∧
        m.step B = ({ m with control := below } : Machine C R).deliver B (.built script) f) ∨
      ∃ payload salvage,
        m.step B = ({ m with control := below } : Machine C R).unwindFrame B payload salvage f := by
  cases h with
  | asked control focus =>
    refine Or.inl ?_
    simp only [Machine.step, focus]
    unfold copyScript
    split
    · refine .told (show _ = [.ignoring] ++ .copying script :: f :: below from ?_)
      exact congrArg _ (congrArg _ control)
    · exact .done control rfl
  | @told above control =>
    refine Or.inl ?_
    cases above with
    | cons g above =>
      obtain ⟨pushed, hpushed⟩ := tail_suffix_step m B
      rw [control] at hpushed
      have hcontrol : (m.step B).control = (pushed ++ above) ++ .copying script :: f :: below := by
        rw [← hpushed]
        simp
      exact .told hcontrol
    | nil =>
      cases hpops : m.popping with
      | false =>
        obtain ⟨pushed, hpushed⟩ := suffix_step m B hpops
        rw [control] at hpushed
        exact .told hpushed.symm
      | true =>
        unfold popping at hpops
        split at hpops
        · next a hfocus =>
          have hstep : m.step B = ({ m with control := f :: below } : Machine C R).deliver B a
              (.copying script) := by
            simp only [Machine.step, hfocus, goOn, control]
            rfl
          rw [hstep]
          exact .done rfl rfl
        · next payload salvage hfocus =>
          have hstep : m.step B = ({ m with control := f :: below } : Machine C R).unwindFrame B
              payload salvage (.copying script) := by
            simp only [Machine.step, hfocus, goOn, control]
            rfl
          rw [hstep]
          exact .failed rfl rfl
        · cases hpops
  | done control focus =>
    refine Or.inr (Or.inl ⟨control, ?_⟩)
    simp only [Machine.step, focus, goOn, control]
  | @failed payload salvage control focus =>
    refine Or.inr (Or.inr ⟨payload, salvage, ?_⟩)
    simp only [Machine.step, focus, goOn, control]

/-! ### Copying for a handler -/

/-- The pass of scheduler `p` is busy with a capture. -/
def IsCapturing (p : Nat) (m : Machine C R) : Prop := ∃ id frames, m.stage p = .capturing id frames

/-- Continuation `k` is handed to the handler of a shift. -/
structure Calls (p : Nat) (K : List (Frame C R)) (id : RoutineId) (handler : C) (k : Nat)
    (m : Machine C R) : Prop where
  control : m.control = .building p id .shift :: K
  focus : m.focus = .release [] (.begin handler (.handle k p))

/-- Some frames have been copied for a handler, and the next one is. -/
def CaptureRun (p : Nat) (K : List (Frame C R)) (id : RoutineId) (handler : C)
    (frames : List (Lifted C)) (m : Machine C R) : Prop :=
  ∃ done cur left, frames = done ++ cur :: left ∧ m.Copying cur.script
    (.capturing p id handler frames (done.map Lifted.script) left :: K)

/-- The frames are copied one after the other. -/
theorem CaptureRun.step (h : m.CaptureRun p K id handler frames) :
    (m.step B).CaptureRun p K id handler frames ∨
      ((∃ copies, m.control = .capturing p id handler frames copies [] :: K) ∧
        m.step B = ({ m with control := K } : Machine C R).captureNext p id handler frames
          (frames.map Lifted.script) []) ∨
      (m.step B).control = K ∧ ∃ hs payload salvage,
        (m.step B).focus = .release hs (.unwind payload salvage) := by
  obtain ⟨done, cur, left, hframes, hcopying⟩ := h
  rcases hcopying.step (B := B) with hagain | ⟨hcontrol, hbuilt⟩ | ⟨payload, salvage, hfailed⟩
  · exact Or.inl ⟨done, cur, left, hframes, hagain⟩
  · have hcopies : done.map Lifted.script ++ [cur.script] = (done ++ [cur]).map Lifted.script := by
      rw [List.map_append]
      rfl
    have hnext : m.step B = ({ m with control := K } : Machine C R).captureNext p id handler frames
        ((done ++ [cur]).map Lifted.script) left := by
      rw [hbuilt, ← hcopies]
      rfl
    cases left with
    | nil => exact Or.inr (Or.inl ⟨⟨_, hcontrol⟩, hframes ▸ hnext⟩)
    | cons next left =>
      refine Or.inl ⟨done ++ [cur], next, left, by simp [hframes], ?_⟩
      rw [hnext]
      exact .asked rfl rfl
  · refine Or.inr (Or.inr ?_)
    rw [hfailed]
    exact ⟨rfl, _, _, _, rfl⟩

/-- While frames are copied for a handler, either more are, or the last one was
    copied in the move before, or a panic came out of copying. -/
theorem LaterWhile.captureRun (h : LaterWhile B (IsCapturing p) m₀ m) {L : List (Frame C R)}
    (hstart : m₀.CaptureRun p (.pass p :: L) id handler frames) :
    m.CaptureRun p (.pass p :: L) id handler frames ∨
      (∃ n, LaterWhile B (IsCapturing p) m₀ n ∧ n.stage p = .capturing id frames ∧
        m = n.step B ∧ n.step B = ({ n with control := .pass p :: L } : Machine C R).captureNext p id
          handler frames (frames.map Lifted.script) []) ∨
      m.control = .pass p :: L := by
  induction h with
  | refl => exact Or.inl hstart
  | @step n hn hcapturing ih =>
    rcases ih with hrun | ⟨o, -, -, rfl, hdone⟩ | hleft
    · rcases hrun.step (B := B) with hagain | ⟨hat, hdone⟩ | ⟨hleft, -⟩
      · exact Or.inl hagain
      · refine Or.inr (Or.inl ⟨n, hn, ?_, rfl, hdone⟩)
        obtain ⟨copies, hcontrol⟩ := hat
        simp [Machine.stage, hcontrol, stageFrom, Frame.isPass, Above.stage]
      · exact Or.inr (Or.inr hleft)
    · -- the handler is being called: the capture is over
      obtain ⟨id', frames', hstage⟩ := hcapturing
      rw [hdone] at hstage
      simp [Machine.stage, captureNext, stageFrom, Frame.isPass, Above.stage, begin, push,
        withStore] at hstage
    · obtain ⟨id', frames', hstage⟩ := hcapturing
      simp only [Machine.stage, hleft, stageFrom, Frame.isPass, decide_true, if_true] at hstage
      cases hfocus : n.focus with
      | release hs onward => cases onward <;> simp [hfocus, Above.stage] at hstage
      | _ => simp [hfocus, Above.stage] at hstage
  | @anew n hn halted events focus ih =>
    rcases ih with hrun | ⟨o, -, -, rfl, hdone⟩ | hleft
    · obtain ⟨done, cur, left, -, hcopying⟩ := hrun
      have hsuffix := hcopying.suffix
      rw [halted] at hsuffix
      exact absurd (List.suffix_nil.mp hsuffix) (by simp)
    · rw [hdone] at halted
      exact absurd halted (by simp [captureNext])
    · exact absurd (hleft.symm.trans halted) (by simp)

/-- What is on the control stack is above `K`. -/
def Above (K : List (Frame C R)) (m : Machine C R) : Prop := K <:+ m.control ∧ m.control ≠ K

/-- Some frames have been copied for an invocation, and the next one is. -/
def ReplayRun (k : Nat) (v : Value) (K : List (Frame C R)) (all : List (FrameCopy C))
    (m : Machine C R) : Prop :=
  ∃ done cur left, all = done ++ cur :: left ∧ m.Copying cur.script
    (.reinstating k v (done.map FrameCopy.script) left :: K)

variable {all : List (FrameCopy C)}

theorem ReplayRun.above (h : m.ReplayRun k v K all) : m.Above K := by
  obtain ⟨done, cur, left, -, hcopying⟩ := h
  refine ⟨(List.suffix_cons ..).trans hcopying.suffix, fun heq => ?_⟩
  have hlength := hcopying.suffix.length_le
  rw [heq, List.length_cons] at hlength
  omega

/-- The frames are copied one after the other, and then planted. -/
theorem ReplayRun.step (h : m.ReplayRun k v K all) :
    (m.step B).ReplayRun k v K all ∨
      m.step B = ({ m with control := K } : Machine C R).reinstateNext k v
        (all.map FrameCopy.script) [] ∨
      ∃ hs payload salvage, m.step B =
        ({ m with control := K } : Machine C R).unwind hs payload salvage := by
  obtain ⟨done, cur, left, hframes, hcopying⟩ := h
  rcases hcopying.step (B := B) with hagain | ⟨-, hbuilt⟩ | ⟨payload, salvage, hfailed⟩
  · exact Or.inl ⟨done, cur, left, hframes, hagain⟩
  · have hcopies : done.map FrameCopy.script ++ [cur.script] =
        (done ++ [cur]).map FrameCopy.script := by
      rw [List.map_append]
      rfl
    have hnext : m.step B = ({ m with control := K } : Machine C R).reinstateNext k v
        ((done ++ [cur]).map FrameCopy.script) left := by
      rw [hbuilt, ← hcopies]
      rfl
    cases left with
    | nil => exact Or.inr (Or.inl (hframes ▸ hnext))
    | cons next left =>
      refine Or.inl ⟨done ++ [cur], next, left, by simp [hframes], ?_⟩
      rw [hnext]
      exact .asked rfl rfl
  · exact Or.inr (Or.inr ⟨_, _, _, hfailed⟩)

/-- When the frames have been copied, the continuation has the copies, and the
    routines have their scripts back. -/
theorem LaterWhile.captured {L : List (Frame C R)} (h : LaterWhile B (IsCapturing p) m₀ m)
    (hreach : Reachable B m₀) (hstart : m₀.CaptureRun p (.pass p :: L) id handler frames)
    (hcalls : m.Calls p (.pass p :: L) id handler k) (hs : m.scheduler? p = some s)
    (hroom : ∀ a, s.routines.Ample a) :
    m.snapshot? k = some (.of p frames (frames.map Lifted.script)) ∧
      ∀ f ∈ frames, s.Carries f.id (some f.script) := by
  rcases h.captureRun hstart with ⟨done, cur, left, -, hcopying⟩ | ⟨n, hn, hstage, rfl, hdone⟩ | hleft
  · -- frames are being copied, so it is not the handler's turn
    have heq := hcopying.suffix.eq_of_length (by rw [hcalls.control]; rfl)
    exact absurd (heq.trans hcalls.control) (by simp)
  · obtain ⟨u, hu, hs'⟩ : ∃ u, n.scheduler? p = some u ∧ s = (u.giveBackAll frames).told := by
      rw [hdone] at hs
      have hs' := (scheduler?_onScheduler ({ n with control := .pass p :: L } : Machine C R) p
        fun s => s.giveBackAll frames).symm.trans hs
      obtain ⟨u, hu, heq⟩ := Option.map_eq_some_iff.mp hs'
      exact ⟨u, hu, heq.symm⟩
    subst hs'
    have hgrows := (edits_giveBackAll u frames).grows
    have hroom' : ∀ a, u.routines.Ample a := fun a => (hroom a).of_grows hgrows
    have hreach' := hreach.later hn.later
    have hposted : ∃ lost, Posted lost ⟨n.stage p, u, (n.realm p).captures⟩ :=
      hreach'.posted hu hroom'
    rw [hstage] at hposted
    obtain ⟨lost, hposted⟩ := hposted
    have hhanded : ∀ g ∈ frames, u.routines.Issued g.id := by
      intro g hg
      refine hposted.issued 0 g.id ?_
      simp only [Status.posts, PassStage.handed, List.mem_append]
      exact Or.inl (Or.inl (Or.inr (List.mem_map_of_mem hg)))
    refine ⟨?_, fun f hf => carries_givenAll frames
      (hreach'.linked hu (hroom' default).slots).sound hhanded hposted.handed hf⟩
    -- the number of the continuation is the next one
    have hfocus := hcalls.focus
    rw [hdone] at hfocus
    have hk : k = (({ n with control := .pass p :: L } : Machine C R).onScheduler p
        fun s => s.giveBackAll frames).store.snapshots.cells.size := by
      simp only [captureNext, begin, Focus.release.injEq, Onward.begin.injEq, Entry.handle.injEq]
        at hfocus
      exact hfocus.2.2.1.symm
    rw [hdone, hk]
    exact (Table.find?_alloc _ 1 (Snapshot.of p frames (frames.map Lifted.script)) _).trans
      (if_pos rfl)
  · exact absurd (hleft.symm.trans hcalls.control) (by simp)

/-- Of what is above the boundary each live routine is listed once, below the one
    that is stepped, and has its script. -/
theorem Posted.segment {lost : RoutineId → Prop} {t : Nat → Option (Snapshot C)}
    (h : Posted lost ⟨.stepping id, s, t⟩) {r : Routine C} (hid : s.routines.find? id = some r) :
    (id :: s.segment).Nodup ∧
      ∀ a ∈ s.segment, ∀ x, s.routines.find? a = some x → x.script ≠ none := by
  have hsub : s.segment.Sublist (routinesOf s.stack) :=
    List.filter_sublist.trans ((List.takeWhile_sublist _).filterMap _)
  have hcount : ∀ a, (id :: s.segment).count a ≤
      (routinesOf s.stack).count a + [id].count a := by
    intro a
    have hle := hsub.count_le a
    simp only [List.count_cons, List.count_nil]
    omega
  have hposts : ∀ a, (id :: s.segment).count a ≤
      ((⟨.stepping id, s, t⟩ : Status C).posts 0).count a := by
    intro a
    rw [count_posts]
    exact (hcount a).trans (by simp only [PassStage.handed]; omega)
  have hlive : ∀ a ∈ s.segment, ∃ x, s.routines.find? a = some x :=
    fun a ha => Roster.contains_iff.mp (List.mem_filter.mp ha).2
  have hnodup : (id :: s.segment).Nodup := by
    refine List.nodup_iff_count_le_one.mpr fun a => ?_
    by_cases ha : a ∈ id :: s.segment
    · obtain ⟨x, hx⟩ : ∃ x, s.routines.find? a = some x := by
        rcases List.mem_cons.mp ha with rfl | hmem
        · exact ⟨r, hid⟩
        · exact hlive a hmem
      exact (hposts a).trans (h.once a x hx 0)
    · rw [List.count_eq_zero_of_not_mem ha]
      exact Nat.zero_le 1
  refine ⟨hnodup, fun a ha x hx hnone => ?_⟩
  rcases h.scripts a x hx hnone with hhand | hlost
  · have heq : a = id := hhand
    exact (List.nodup_cons.mp hnodup).1 (heq ▸ ha)
  · refine (h.nowhere a hlost).2 x hx 0 (List.count_pos_iff.mp ?_)
    exact Nat.lt_of_lt_of_le (List.count_pos_iff.mpr (List.mem_cons_of_mem id ha)) (hposts a)

/-- The first frame is going to be copied. -/
theorem Shifts.captureRun (h : m.Shifts p K id script handler) (hs : m.scheduler? p = some s)
    (hlift : (s.shelve id script).lift = (frames, t)) (hne : frames ≠ []) :
    (m.step B).CaptureRun p K id handler frames ∧ (m.step B).scheduler? p = some t.told := by
  have hstep := h.step (B := B) hs hlift
  cases frames with
  | nil => exact absurd rfl hne
  | cons cur left =>
    rw [hstep]
    refine ⟨⟨[], cur, left, rfl, .asked rfl rfl⟩, ?_⟩
    refine (scheduler?_onScheduler ({ m with control := K } : Machine C R) p fun _ => t).trans ?_
    exact congrArg (Option.map fun _ => t.told) hs

variable {snapshot : Snapshot C}

/-- Continuation `k` has been invoked on the way from `m` to `n`. -/
def InvokedBetween (B : Behavior C R) (k : Nat) (m n : Machine C R) : Prop :=
  ∃ o v, LaterWhile B (Has k) m o ∧ o.Has k ∧ o.Invokes k v ∧ LaterWhile B (Has k) (o.step B) n

/-- Then it has no routines of its own any more. -/
theorem InvokedBetween.spent (h : InvokedBetween B k m n) {x y : Snapshot C}
    (hx : m.snapshot? k = some x) (hy : n.snapshot? k = some y)
    (hs : m.scheduler? x.home = some s) (ht : n.scheduler? x.home = some t) :
    y.routines = none := by
  obtain ⟨o, v, ho, ⟨z, hz⟩, hv, hafter⟩ := h
  obtain ⟨hhome, -, -⟩ := ho.frames hx hz
  obtain ⟨u, hu⟩ := ho.later.scheduler_between
    ((Later.step .refl : Later B o (o.step B)).trans hafter.later) hs ht
  have hspends := hv.spends (B := B) hz (by rw [hhome]; exact hu)
  exact or_self_iff.mp (hafter.frames hspends hy).2.2

theorem LaterWhile.dormant (h : LaterWhile B (Has k) m n) (hnot : ¬ InvokedBetween B k m n) :
    LaterWhile B (Dormant k) m n := by
  induction h with
  | refl => exact .refl
  | @step n hn hhas ih =>
    have hbefore : ¬ InvokedBetween B k m n := by
      intro hinvoked
      obtain ⟨o, v, ho, hk, hv, hlater⟩ := hinvoked
      exact hnot ⟨o, v, ho, hk, hv, hlater.step hhas⟩
    exact .step (ih hbefore) ⟨hhas, fun v hv => hnot ⟨n, v, hn, hhas, hv, .refl⟩⟩
  | @anew n hn halted events focus ih =>
    have hbefore : ¬ InvokedBetween B k m n := by
      intro hinvoked
      obtain ⟨o, v, ho, hk, hv, hlater⟩ := hinvoked
      exact hnot ⟨o, v, ho, hk, hv, hlater.anew halted events focus⟩
    exact .anew (ih hbefore) halted events focus

/-- Whether the pass is busy with a capture. -/
def isCapturing (p : Nat) (m : Machine C R) : Bool :=
  match m.stage p with
  | .capturing _ _ => true
  | _ => false

/-- The continuation that a handler is called with. -/
def handed? (m : Machine C R) : Option Nat :=
  match m.focus with
  | .release [] (.begin _ (.handle k _)) => some k
  | _ => none

/-- Whether something is about to be handed to the top frame. -/
def handsOver (m : Machine C R) : Bool :=
  match m.focus with
  | .release _ (.give _) => true
  | _ => false

/-- A capture that is over, with nothing more on the control stack than when it
    began, calls the handler. -/
theorem LaterWhile.calls {L : List (Frame C R)} (h : LaterWhile B (IsCapturing p) m₀ m)
    (hstart : m₀.CaptureRun p (.pass p :: L) id handler frames)
    (hlength : m.control.length = L.length + 2) (hover : m.isCapturing p = false)
    (hk : m.handed? = some k) : m.Calls p (.pass p :: L) id handler k := by
  rcases h.captureRun hstart with ⟨done, cur, left, -, hcopying⟩ | ⟨n, -, -, rfl, hdone⟩ | hleft
  · have heq := hcopying.suffix.eq_of_length hlength.symm
    simp [isCapturing, Machine.stage, ← heq, stageFrom, Frame.isPass, Above.stage] at hover
  · rw [hdone] at hk ⊢
    cases hk
    exact ⟨rfl, rfl⟩
  · rw [hleft] at hlength
    simp at hlength

end Machine

end Strand
