import Strand.Program
import Strand.Proofs.Aside
import Strand.Proofs.Rehearsal
import Strand.Proofs.Spawning

/-! # Re-entries — a call from outside is served once

    A re-entry becomes a routine of its own, which is put on the stack and
    invokes the continuation when its turn comes.

    * It waits until it is picked (`Waiting.step`).
    * It is fed once, and invokes the continuation with its value (`Fed`).
    * From then on its script is out, until it is freed (`Serving.step`).

    `reentry_served_once` puts this together. A shift in the same pass can come
    in between and lift the re-entry with the frames above the boundary. Then it
    is part of a continuation, and served as often as that is invoked. -/

namespace Strand

/-- Frames that are being copied for a shift. -/
def Frame.lifting {C R : Type} : Frame C R → Bool
  | .capturing _ _ _ _ _ _ => true
  | _ => false

namespace Machine

variable {C R : Type} {B : Behavior C R} {p k : Nat} {a : RoutineId} {v : Value} {m n : Machine C R}
  {s s' : Scheduler C}

open Scheduler Roster

/-- How many frames of the passes of `p` name a routine. -/
def naming (p : Nat) (a : RoutineId) (m : Machine C R) : Nat :=
  (m.realm p).frames.countP fun f => a ∈ f.names

theorem naming_eq (p : Nat) (a : RoutineId) (m : Machine C R) :
    m.naming p a = (m.control.filter (Frame.of p)).countP fun f => a ∈ f.names := rfl

theorem naming_eq_zero (h : m.naming p a = 0) {f : Frame C R} (hf : f ∈ m.control)
    (hp : f.of p = true) : a ∉ f.names := by
  have hnone := List.countP_eq_zero.mp h f (List.mem_filter.mpr ⟨hf, hp⟩)
  simpa using hnone

/-- One move edits a scheduler that was there before. -/
theorem edits_step (hs : m.scheduler? p = some s) (hs' : (m.step B).scheduler? p = some s') :
    Edits s s' := by
  rcases (edited_step m B).edits hs' with ⟨s₀, hs₀, hedits⟩ | ⟨hle, -⟩
  · obtain rfl := Option.some.inj (hs₀.symm.trans hs)
    exact hedits
  · exact absurd (Table.lt_size_of_find? hs) (Nat.not_lt_of_le hle)

theorem issued_step (hs : m.scheduler? p = some s) (hs' : (m.step B).scheduler? p = some s')
    (h : s.routines.Issued a) : s'.routines.Issued a :=
  (edits_step hs hs').closed (closed_issued a) h

/-! ### Feeding a routine -/

/-- A routine is fed where the frame of its step is on top, or beneath a forced
    return. -/
theorem fed_of_resumed {id : RoutineId} {script : Script C} {input : Outcome Value}
    (h : m.event? p = some (.resumed id script input)) :
    (∃ script input, m.focus = .advance script input) ∧
      ((∃ K, m.control = .stepping p id :: K) ∨
        ∃ progress K, m.control = .inExit progress :: .stepping p id :: K) := by
  unfold event? at h
  split at h
  · next script' input' q id' K hfocus hcontrol =>
    split at h
    · next hq =>
      cases h
      obtain ⟨rfl, -⟩ := hq
      exact ⟨⟨_, _, hfocus⟩, Or.inl ⟨K, hcontrol⟩⟩
    · cases h
  · next script' input' progress q id' K hfocus hcontrol =>
    split at h
    · next hq =>
      cases h
      subst hq
      exact ⟨⟨_, _, hfocus⟩, Or.inr ⟨progress, K, hcontrol⟩⟩
    · cases h
  all_goals first | (split at h <;> cases h) | cases h

theorem naming_of_stepping (fs : List (Frame C R)) {K : List (Frame C R)}
    (h : m.control = fs ++ .stepping p a :: K) :
    0 < m.naming p a := by
  rw [naming_eq, h, List.countP_pos_iff]
  exact ⟨.stepping p a, by simp [Frame.of], by simp [Frame.names]⟩

/-- A routine that no frame names is not fed. -/
theorem not_resumed_of_naming (h : m.naming p a = 0) {script : Script C} {input : Outcome Value} :
    m.event? p ≠ some (.resumed a script input) := by
  intro hev
  obtain ⟨-, ⟨K, hcontrol⟩ | ⟨progress, K, hcontrol⟩⟩ := fed_of_resumed hev
  · have hpos := naming_of_stepping [] hcontrol
    omega
  · have hpos := naming_of_stepping [.inExit progress] hcontrol
    omega

/-! ### Waiting -/

/-- The re-entry `a` waits for its turn in scheduler `p`. -/
def Waiting (p : Nat) (a : RoutineId) (k : Nat) (v : Value) (m : Machine C R) : Prop :=
  m.naming p a = 0 ∧ ∃ s, m.scheduler? p = some s ∧ Waits a k v s

/-- The re-entry is about to be fed. -/
structure Fed (p : Nat) (a : RoutineId) (k : Nat) (v : Value) (m : Machine C R) : Prop where
  focus : ∃ input, m.focus = .advance (.reentry k (some v)) input
  control : ∃ K, m.control = .stepping p a :: K
  once : m.naming p a ≤ 1
  spent : ∃ s, m.scheduler? p = some s ∧ Spent a s ∧ s.routines.Issued a ∧ s.running = true

/-- A shift has lifted the routine off the stack of scheduler `p`. -/
def Lifts (p : Nat) (a : RoutineId) (m : Machine C R) : Prop :=
  ∃ id handler frames copies left,
    .capturing p id handler frames copies left ∈ m.control ∧ a ∈ frames.map Lifted.id

/-- A re-entry waits on until it is picked, unless it is lifted. -/
theorem Waiting.step (h : Waiting p a k v m) (hs : m.scheduler? p = some s) (hl : Linked s.routines)
    (hs' : (m.step B).scheduler? p = some s') (hample : s'.routines.Ample a)
    (hcalm : ¬ m.Escapes p) (hkept : ¬ (m.step B).Lifts p a) :
    Waiting p a k v (m.step B) ∨ Fed p a k v (m.step B) := by
  obtain ⟨hzero, s₀, hs₀, hw⟩ := h
  obtain rfl := Option.some.inj (hs₀.symm.trans hs)
  obtain ⟨x, hx, -, hparent⟩ := hw.entry
  have hissued := issued_step hs hs' (issued_of_find? hx)
  obtain ⟨top, top', below, hm, hn, hpop, hact⟩ := moves_step (p := p) m B
  have hframes : ∀ f ∈ top ++ below, a ∉ f.names := by
    intro f hf
    rw [← hm] at hf
    exact naming_eq_zero hzero (List.mem_of_mem_filter hf) (List.of_mem_filter hf)
  have hbelow : below.countP (fun f => a ∈ f.names) = 0 := by
    simp only [List.countP_eq_zero, decide_eq_true_eq]
    exact fun f hf => hframes f (List.mem_append_right _ hf)
  have hnaming : (m.step B).naming p a = top'.countP (fun f => a ∈ f.names) := by
    rw [naming, hn, List.countP_append, hbelow, Nat.add_zero]
  rcases hact.waits hs hs' hl hw hample
      (fun f hf => hframes f (List.mem_append_left _ hf)) hcalm with
    ⟨hw', hnames⟩ | ⟨s₁, hpick, htop, htop', heq⟩ | ⟨id, handler, frames, left, htop', hmem⟩
  · refine Or.inl ⟨?_, s', hs', hw'⟩
    rw [hnaming, List.countP_eq_zero]
    simpa using hnames
  · refine Or.inr ?_
    obtain ⟨hpopping, K, hcontrol⟩ := hpop (.pass p) (by simp [htop])
    -- no panic is under way, so the loop goes on
    obtain ⟨answer, hfocus⟩ : ∃ answer, m.focus = .release [] (.give answer) := by
      unfold popping at hpopping
      split at hpopping
      · next answer hfocus => exact ⟨answer, hfocus⟩
      · next payload salvage hfocus => exact absurd ⟨payload, salvage, K, hfocus, hcontrol⟩ hcalm
      · cases hpopping
    have hstep : m.step B = ({ m with control := K } : Machine C R).passHead p := by
      simp only [Machine.step, hfocus, goOn, hcontrol]
      rfl
    have hloop : ({ m with control := K } : Machine C R).scheduler? p = some s₀ := hs
    obtain ⟨hrunning, -⟩ := pickFrom_others hpick
    subst heq
    refine ⟨?_, ?_, ?_, _, hs', ?_, hissued, hrunning.trans hw.running⟩
    · rw [hstep, passHead]
      simp only [hloop, hpick]
      exact ⟨_, rfl⟩
    · rw [hstep, passHead]
      simp only [hloop, hpick]
      exact ⟨_, rfl⟩
    · rw [hnaming, htop']
      simp [Frame.names]
    · intro y hy
      have hpicked : s₁.routines.find? a = some y := hy
      rw [pickFrom_picked hpick, hx, Option.map_some, Option.some.injEq] at hpicked
      exact hpicked ▸ ⟨rfl, hparent⟩
  · refine absurd ⟨id, handler, frames, [], left, ?_, hmem⟩ hkept
    have hin : Frame.capturing p id handler frames [] left ∈ ((m.step B).realm p).frames := by
      rw [hn, htop']
      simp
    exact List.mem_of_mem_filter hin

/-! ### Serving -/

/-- The re-entry has been fed. Its step is under way, or over. -/
inductive Phase (p : Nat) (a : RoutineId) (k : Nat) (m : Machine C R) : Prop where
  /-- It invokes the continuation. -/
  | invoking (h : ∃ K, (.inReentry k :: .stepping p a :: K) <:+ m.control)
  /-- The continuation has been invoked, or has panicked. -/
  | invoked (hcontrol : ∃ K, m.control = .stepping p a :: K)
      (hfocus : m.focus = .release [] (.give (.stepped (.yield .suspend) (.reentry k none))) ∨
        ∃ payload, m.focus = .release [] (.unwind payload (some (.reentry k none))))
  | done (h : m.naming p a = 0)

/-- The re-entry is served, and nothing of it can be fed again. -/
structure Serving (p : Nat) (a : RoutineId) (k : Nat) (m : Machine C R) : Prop where
  phase : Phase p a k m
  once : m.naming p a ≤ 1
  spent : ∃ s, m.scheduler? p = some s ∧ Spent a s ∧ s.routines.Issued a

/-- A move that leaves the frame of a spent routine alone. -/
theorem spent_step (hs : m.scheduler? p = some s) (hs' : (m.step B).scheduler? p = some s')
    (hspent : Spent a s) (hl : Linked s.routines) (hissued : s.routines.Issued a)
    (hample : s'.routines.Ample a) (hcalm : ¬ m.Escapes p)
    (htop : ∀ f : Frame C R, m.Pops f → f.of p = true → a ∉ f.names) :
    Spent a s' ∧ (m.step B).naming p a ≤ m.naming p a := by
  obtain ⟨top, top', below, hm, hn, hpop, hact⟩ := moves_step (p := p) m B
  have hnames : ∀ f ∈ top, a ∉ f.names := by
    intro f hf
    have hmem : f ∈ (m.realm p).frames := hm ▸ List.mem_append_left _ hf
    exact htop f (hpop f hf) (List.of_mem_filter hmem)
  obtain ⟨hspent', hnames'⟩ := hact.spent hs hs' hl hissued hspent hample hnames hcalm
  refine ⟨hspent', ?_⟩
  have htop' : top'.countP (fun f => a ∈ f.names) = 0 := by
    simpa [List.countP_eq_zero] using hnames'
  rw [naming, naming, hm, hn, List.countP_append, List.countP_append, htop']
  omega

/-- Feeding the re-entry is invoking its continuation with its value. -/
theorem Fed.step_eq (h : Fed p a k v m) : ∃ input,
    m.event? p = some (.resumed a (.reentry k (some v)) input) ∧
      m.step B = ((m.push (.inReentry k)).push (.holding input.handles)).invoke k v := by
  obtain ⟨input, hfocus⟩ := h.focus
  obtain ⟨K, hcontrol⟩ := h.control
  refine ⟨input, ?_, ?_⟩
  · simp [event?, hfocus, hcontrol, Script.isUser]
  · simp only [Machine.step, hfocus, advanceScript]

theorem Fed.step (h : Fed p a k v m) (hs : m.scheduler? p = some s) (hl : Linked s.routines)
    (hs' : (m.step B).scheduler? p = some s') (hample : s'.routines.Ample a)
    (hcalm : ¬ m.Escapes p) : Serving p a k (m.step B) := by
  obtain ⟨s₀, hs₀, hspent, hissued, -⟩ := h.spent
  obtain rfl := Option.some.inj (hs₀.symm.trans hs)
  obtain ⟨input, hfocus⟩ := h.focus
  obtain ⟨K, hcontrol⟩ := h.control
  obtain ⟨input', -, hstep⟩ := h.step_eq (B := B)
  have hpopping : m.popping = false := by simp [popping, hfocus]
  obtain ⟨hspent', hnaming⟩ := spent_step (B := B) hs hs' hspent hl hissued hample hcalm
    fun f hpop => by simp [Pops, hpopping] at hpop
  refine ⟨.invoking ⟨K, ?_⟩, Nat.le_trans hnaming h.once, s', hs', hspent', issued_step hs hs' hissued⟩
  have hinvoke := suffix_invoke ((m.push (.inReentry k)).push (.holding input'.handles)) k v
  rw [← hstep] at hinvoke
  refine List.IsSuffix.trans ?_ hinvoke
  simp [hcontrol]

/-- With at most one frame that names the routine, there is none beside the frame
    of its step. -/
theorem naming_beside {fs K : List (Frame C R)}
    (hcontrol : m.control = fs ++ .inReentry k :: .stepping p a :: K) (honce : m.naming p a ≤ 1) :
    ∀ f ∈ fs, f.of p = true → a ∉ f.names := by
  intro f hf hp hmem
  have hpos : 0 < (fs.filter (Frame.of p)).countP fun f => a ∈ f.names := by
    rw [List.countP_pos_iff]
    exact ⟨f, List.mem_filter.mpr ⟨hf, hp⟩, by simpa using hmem⟩
  rw [naming_eq, hcontrol, List.filter_append, List.countP_append] at honce
  have hstepping : 0 < ((Frame.inReentry k :: .stepping p a :: K : List (Frame C R)).filter
      (Frame.of p)).countP fun f => a ∈ f.names := by
    rw [List.countP_pos_iff]
    exact ⟨.stepping p a, by simp [Frame.of], by simp [Frame.names]⟩
  omega

theorem Serving.not_resumed (h : Serving p a k m) {script : Script C} {input : Outcome Value} :
    m.event? p ≠ some (.resumed a script input) := by
  cases h.phase with
  | done hzero => exact not_resumed_of_naming hzero
  | invoked hcontrol hfocus =>
    intro hev
    obtain ⟨⟨script', input', hadvance⟩, -⟩ := fed_of_resumed hev
    rcases hfocus with hfocus | ⟨payload, hfocus⟩ <;> simp [hadvance] at hfocus
  | invoking hinvoking =>
    obtain ⟨K, fs, hcontrol⟩ := hinvoking
    have hbeside := naming_beside hcontrol.symm h.once
    intro hev
    obtain ⟨-, ⟨L, htop⟩ | ⟨progress, L, htop⟩⟩ := fed_of_resumed hev
    · rw [htop] at hcontrol
      cases fs with
      | nil => cases hcontrol
      | cons f fs =>
        cases hcontrol
        exact hbeside _ (List.mem_cons_self ..) (by simp [Frame.of]) (by simp [Frame.names])
    · rw [htop] at hcontrol
      cases fs with
      | nil => cases hcontrol
      | cons f fs =>
        cases fs with
        | nil => cases hcontrol
        | cons g fs =>
          cases hcontrol
          exact hbeside (.stepping p a) (by simp) (by simp [Frame.of]) (by simp [Frame.names])

/-- The step of the re-entry is over: its routine is freed, or it was the
    continuation that panicked. -/
theorem invoked_step (hcontrol : ∃ K, m.control = .stepping p a :: K)
    (hfocus : m.focus = .release [] (.give (.stepped (.yield .suspend) (.reentry k none))) ∨
      ∃ payload, m.focus = .release [] (.unwind payload (some (.reentry k none))))
    (honce : m.naming p a ≤ 1) (hs : m.scheduler? p = some s) (hspent : Spent a s)
    (hsound : s.routines.Sound) (hs' : (m.step B).scheduler? p = some s')
    (hample : s'.routines.Ample a) : (m.step B).naming p a = 0 ∧ Spent a s' := by
  obtain ⟨K, hcontrol⟩ := hcontrol
  have hbelow : (K.filter (Frame.of p)).countP (fun f => a ∈ f.names) = 0 := by
    rw [naming_eq, hcontrol, List.filter_cons_of_pos (by simp [Frame.of]), List.countP_cons_of_pos
      (by simp [Frame.names])] at honce
    omega
  have hnaming : ∀ {x : Machine C R} {f : Frame C R}, x.control = f :: K → f.of p = false →
      x.naming p a = 0 := by
    intro x f hx hf
    rw [naming_eq, hx, List.filter_cons_of_neg (by simp [hf])]
    exact hbelow
  obtain ⟨x, hx⟩ : ∃ x : Machine C R, x = { m with control := K } := ⟨_, rfl⟩
  have hxs : x.scheduler? p = some s := by
    rw [hx]
    exact hs
  have hgone : ∀ {t : Scheduler C}, t.routines.find? a = none → Spent a t := by
    intro t ht y hy
    rw [ht] at hy
    cases hy
  rcases hfocus with hfocus | ⟨payload, hfocus⟩
  · have hstep : m.step B = (x.onScheduler p fun s => s.suspend a (.reentry k none)).endStep p [] := by
      simp only [Machine.step, hfocus, goOn, hcontrol, deliver, hx]
      rfl
    have hsched := scheduler?_onScheduler_some hxs fun s => s.suspend a (.reentry k none)
    rw [hstep] at hs' ⊢
    obtain rfl := Option.some.inj (hsched.symm.trans hs')
    refine ⟨hnaming (f := .sweeping p) ?_ rfl, hgone (hspent.find?_suspend _)⟩
    rw [hx]
    rfl
  · have hunwinds : m.step B = x.unwindFrame B payload (some (.reentry k none)) (.stepping p a) := by
      rw [hx]
      simp only [Machine.step, hfocus, goOn, hcontrol]
    rw [unwindFrame] at hunwinds
    cases hcatches : x.catches p with
    | true =>
      have hstep : m.step B = x.concludeStep p a (.reentry k none)
          (.failure (.panicked payload.message)) := by
        rw [hunwinds, hcatches, if_pos rfl]
        rfl
      obtain ⟨hs₁, hhs₁⟩ : ∃ hs : List Handle, hs =
          if ((x.scheduler? p).map fun s => s.keepsResult a).getD false then
            (Outcome.failure (.panicked payload.message) : Outcome Value).handles else [] := ⟨_, rfl⟩
      have hsched := scheduler?_onScheduler_some ((scheduler?_retain x hs₁ p).trans hxs)
        fun s => s.conclude a (.reentry k none) (.failure (.panicked payload.message))
      rw [hhs₁] at hsched
      rw [hstep] at hs' ⊢
      obtain rfl := Option.some.inj (hsched.symm.trans hs')
      refine ⟨hnaming (f := .sweeping p) ?_ rfl, hgone (find?_conclude_self hsound _ _ hample)⟩
      rw [hx]
      rfl
    | false =>
      have hstep : m.step B = x.unwind ((Script.reentry k none : Script C).handles B.held) payload
          none := by
        rw [hunwinds, hcatches]
        rfl
      rw [hstep] at hs' ⊢
      obtain rfl := Option.some.inj (hxs.symm.trans hs')
      refine ⟨?_, hspent⟩
      rw [naming_eq, hx]
      exact hbelow

theorem Serving.step (h : Serving p a k m) (hs : m.scheduler? p = some s) (hl : Linked s.routines)
    (hs' : (m.step B).scheduler? p = some s') (hample : s'.routines.Ample a)
    (hcalm : ¬ m.Escapes p) : Serving p a k (m.step B) := by
  obtain ⟨s₀, hs₀, hspent, hissued⟩ := h.spent
  obtain rfl := Option.some.inj (hs₀.symm.trans hs)
  have hmove := spent_step (B := B) hs hs' hspent hl hissued hample hcalm
  have hissued' := issued_step hs hs' hissued
  cases h.phase with
  | done hzero =>
    obtain ⟨hspent', hnaming⟩ := hmove fun f hpop hp => by
      obtain ⟨-, K, hcontrol⟩ := hpop
      exact naming_eq_zero hzero (hcontrol ▸ List.mem_cons_self ..) hp
    have hzero' : (m.step B).naming p a = 0 := by omega
    exact ⟨.done hzero', by omega, s', hs', hspent', hissued'⟩
  | invoked hcontrol hfocus =>
    obtain ⟨hzero', hspent'⟩ := invoked_step hcontrol hfocus h.once hs hspent hl.sound hs' hample
    exact ⟨.done hzero', by omega, s', hs', hspent', hissued'⟩
  | invoking hinvoking =>
    obtain ⟨K, fs, hcontrol⟩ := hinvoking
    have hbeside := naming_beside hcontrol.symm h.once
    obtain ⟨hspent', hnaming⟩ := hmove fun f hpop hp => by
      obtain ⟨-, L, htop⟩ := hpop
      rw [htop] at hcontrol
      cases fs with
      | nil =>
        cases hcontrol
        exact List.not_mem_nil
      | cons g fs =>
        cases hcontrol
        exact hbeside _ (List.mem_cons_self ..) hp
    refine ⟨?_, Nat.le_trans hnaming h.once, s', hs', hspent', hissued'⟩
    cases fs with
    | cons g fs =>
      -- what is on top does not reach down to the invocation
      have htail := tail_suffix_step m B
      rw [← hcontrol] at htail
      exact .invoking ⟨K, List.IsSuffix.trans (List.suffix_append fs _) htail⟩
    | nil =>
      cases hpopping : m.popping with
      | false =>
        have hsuffix := suffix_step m B hpopping
        rw [← hcontrol] at hsuffix
        exact .invoking ⟨K, hsuffix⟩
      | true =>
        have hcontrol' : m.control = .inReentry k :: .stepping p a :: K := hcontrol.symm
        unfold popping at hpopping
        split at hpopping
        · next answer hfocus =>
          refine .invoked ⟨K, ?_⟩ (Or.inl ?_) <;>
            simp only [Machine.step, hfocus, goOn, hcontrol', deliver] <;> rfl
        · next payload salvage hfocus =>
          refine .invoked ⟨K, ?_⟩ (Or.inr ⟨payload, ?_⟩) <;>
            simp only [Machine.step, hfocus, goOn, hcontrol', unwindFrame] <;> rfl
        · cases hpopping

/-! ### The call -/

/-- The call puts a routine of its own on the stack, in the pass that is under
    way or in one that it begins. -/
theorem scheduler?_reenter (hs : m.scheduler? p = some s) (k : Nat) (v : Value) :
    ∃ t, (m.reenter p k v).scheduler? p = some t ∧ t.routines = (s.queue k v).routines ∧
      t.stack = (s.queue k v).stack ∧ t.running = true := by
  have hretained : ((m.retain (.scheduler p :: .continuation k :: v.handles)).push
      (.holding [.scheduler p])).scheduler? p = some s :=
    (scheduler?_retain m _ p).trans hs
  unfold reenter
  simp only [hs]
  split
  · next hrunning => exact ⟨_, scheduler?_onScheduler_some hretained _, rfl, rfl, hrunning⟩
  · have hqueued := scheduler?_onScheduler_some hretained fun _ =>
      ({ s.queue k v with register := .success v } : Scheduler C).report .reentering
    exact ⟨_, scheduler?_onScheduler_some hqueued _, rfl, rfl, rfl⟩

theorem waiting_of_call (hm : Reachable B m) {next : R}
    (hcall : m.focus = .release [] (.act (.ask (.reenter p k v) next)))
    (hs : m.scheduler? p = some s) (hl : Linked s.routines)
    (hs' : (m.step B).scheduler? p = some s') (hample : s'.routines.Ample s.fresh) :
    Waiting p s.fresh k v (m.step B) := by
  have hstep : m.step B =
      ((m.push (.code next)).push (.holding [.continuation k])).reenter p k v := by
    simp only [Machine.step, hcall, goOn, act, perform]
  have hfresh : (s.routines.insert ⟨.reenter, some (.reentry k (some v)), none, []⟩).1 = s.fresh :=
    insert_fst s _
  have hsched : ((m.push (.code next)).push (.holding [.continuation k])).scheduler? p = some s := hs
  obtain ⟨t, ht, hroutines, hstack, hrunning⟩ := scheduler?_reenter hsched k v
  rw [← hstep, hs', Option.some.injEq] at ht
  subst ht
  have hinserted : (s.routines.insert ⟨.reenter, some (.reentry k (some v)), none, []⟩).2.Ample
      s.fresh := by
    rw [hroutines] at hample
    exact hample
  have hold := hinserted.of_grows (grows_insert _ _)
  have hnew : ¬ s.routines.Issued s.fresh := by
    rw [← hfresh] at hold ⊢
    exact hl.sound.not_issued_insert_fst _ hinserted.slots hold.vacated
  refine ⟨?_, s', hs', ⟨⟨.reenter, some (.reentry k (some v)), none, []⟩, ?_, rfl, rfl⟩, ?_, hrunning⟩
  · -- what a frame names has been issued before
    rw [naming, List.countP_eq_zero]
    intro f hf hmem
    rcases named_step (p := p) m B f hf s.fresh (by simpa using hmem) with ⟨g, hg, hgmem⟩ | ⟨s₀, hs₀, hlive⟩
    · exact hnew (hm.issued hs (List.mem_of_mem_filter hg) (List.of_mem_filter hg) hgmem)
    · obtain rfl := Option.some.inj (hs₀.symm.trans hs)
      exact hnew (Or.inl hlive)
  · rw [hroutines]
    show (s.routines.insert _).2.find? _ = _
    rw [hl.sound.find?_insert _ hinserted.slots, if_pos hfresh.symm]
  · rw [onStack, hstack, List.contains_iff_mem]
    show _ ∈ StackEntry.routine (s.routines.insert _).1 :: s.stack
    rw [hfresh]
    exact List.mem_cons_self ..

/-! ### Runs -/

/-- What is assumed of the machines of a run, up to number `j`: 32 bits are
    enough, no panic leaves the pass, and no shift lifts routine `a`. -/
structure Watched (B : Behavior C R) (p : Nat) (a : RoutineId) (m : Machine C R) (j : Nat) :
    Prop where
  live : ∀ i ≤ j, ∃ s, (after B i m).scheduler? p = some s
  linked : ∀ i ≤ j, ∀ s, (after B i m).scheduler? p = some s → Linked s.routines
  ample : ∀ i ≤ j, ∀ s, (after B i m).scheduler? p = some s → s.routines.Ample a
  calm : ∀ i < j, ¬ (after B i m).Escapes p
  kept : ∀ i ≤ j, ¬ (after B i m).Lifts p a

theorem Watched.of_reachable (hm : Reachable B m) (hroom : Roomy B p m)
    (hs : m.scheduler? p = some s) {j : Nat} {t : Scheduler C}
    (ht : (after B j m).scheduler? p = some t) (hwrap : t.routines.vacated a < 2 ^ 32)
    (hcalm : ∀ i < j, ¬ (after B i m).Escapes p) (hkept : ∀ i ≤ j, ¬ (after B i m).Lifts p a) :
    Watched B p a m j := by
  have hreaches : ∀ i, Reaches B p m (trail B p i m) (after B i m) := fun i => ⟨i, rfl, rfl⟩
  have hlater : ∀ i ≤ j, Later B (after B i m) (after B j m) := by
    intro i hi
    obtain ⟨d, rfl⟩ := Nat.exists_eq_add_of_le hi
    rw [after_add]
    exact Reaches.later (p := p) ⟨d, rfl, rfl⟩
  refine ⟨?_, ?_, ?_, hcalm, hkept⟩
  · -- a scheduler that is gone would not have come back
    intro i hi
    rcases (hlater i hi).edited.edits ht with ⟨u, hu, -⟩ | ⟨hle, -⟩
    · exact ⟨u, hu⟩
    · have hsize := (hreaches i).later.edited.size
      have hlt := Table.lt_size_of_find? hs
      omega
  · intro i _ u hu
    exact (hm.later (hreaches i).later).linked hu (hroom _ _ u (hreaches i) hu)
  · intro i hi u hu
    refine ⟨hroom _ _ u (hreaches i) hu, ?_⟩
    exact Nat.lt_of_le_of_lt (((hlater i hi).grows hu ht).vacated a) hwrap

variable {i j : Nat}

theorem Watched.waits (h : Watched B p a m j) (hi : i < j)
    (hw : Waiting p a k v (after B i m)) :
    Waiting p a k v (after B (i + 1) m) ∨ Fed p a k v (after B (i + 1) m) := by
  obtain ⟨s, hs⟩ := h.live i (by omega)
  obtain ⟨s', hs'⟩ := h.live (i + 1) hi
  have hample := h.ample (i + 1) hi s' hs'
  have hkept := h.kept (i + 1) hi
  rw [after_succ] at hs' hkept ⊢
  exact hw.step hs (h.linked i (by omega) s hs) hs' hample (h.calm i hi) hkept

/-- A re-entry waits until it is fed. -/
theorem Watched.fed (h : Watched B p a m j) (hfirst : Waiting p a k v (after B i m)) (d : Nat)
    (hd : i + d ≤ j) :
    (∀ e ≤ d, Waiting p a k v (after B (i + e) m)) ∨
      ∃ e < d, (∀ e' ≤ e, Waiting p a k v (after B (i + e') m)) ∧
        Fed p a k v (after B (i + e + 1) m) := by
  induction d with
  | zero =>
    refine Or.inl fun e he => ?_
    obtain rfl := Nat.le_zero.mp he
    exact hfirst
  | succ d ih =>
    rcases ih (by omega) with hall | ⟨e, he, hbefore, hfed⟩
    · rcases h.waits (by omega) (hall d (Nat.le_refl d)) with hwaiting | hfed
      · refine Or.inl fun e he => ?_
        rcases Nat.le_succ_iff.mp he with hle | rfl
        · exact hall e hle
        · exact hwaiting
      · exact Or.inr ⟨d, Nat.lt_succ_self d, hall, hfed⟩
    · exact Or.inr ⟨e, Nat.lt_succ_of_lt he, hbefore, hfed⟩

/-- From when it has been fed, it is served. -/
theorem Watched.serves (h : Watched B p a m j) (hfed : Fed p a k v (after B i m)) (d : Nat)
    (hd : i + d + 1 ≤ j) : Serving p a k (after B (i + d + 1) m) := by
  induction d with
  | zero =>
    obtain ⟨s, hs⟩ := h.live i (by omega)
    obtain ⟨s', hs'⟩ := h.live (i + 1) hd
    have hample := h.ample (i + 1) hd s' hs'
    rw [Nat.add_zero, after_succ] at *
    exact hfed.step hs (h.linked i (by omega) s hs) hs' hample (h.calm i (by omega))
  | succ d ih =>
    obtain ⟨s, hs⟩ := h.live (i + d + 1) (by omega)
    obtain ⟨s', hs'⟩ := h.live (i + d + 1 + 1) hd
    have hample := h.ample _ hd s' hs'
    rw [← Nat.add_assoc i d 1, after_succ]
    rw [after_succ] at hs'
    exact (ih (by omega)).step hs (h.linked _ (by omega) s hs) hs' hample (h.calm _ (by omega))

/-- A call from outside for a continuation is served once, by the end of the
    pass that receives or serves it. The routine that the call makes of itself is
    fed one time, and then invokes the continuation with the value.

    This is as long as no panic leaves the pass, and no shift lifts the routine
    before its turn comes. -/
theorem reentry_served_once (hm : Reachable B m) (hroom : Roomy B p m) {next : R}
    (hcall : m.focus = .release [] (.act (.ask (.reenter p k v) next)))
    (hs : m.scheduler? p = some s) {j : Nat} (hj : 1 ≤ j) {t : Scheduler C}
    (ht : (after B j m).scheduler? p = some t) (hover : t.running = false)
    (hwrap : t.routines.vacated s.fresh < 2 ^ 32)
    (hcalm : ∀ i < j, ¬ (after B i m).Escapes p)
    (hkept : ∀ i ≤ j, ¬ (after B i m).Lifts p s.fresh) :
    ∃ i < j, ∃ input,
      (after B i m).event? p = some (.resumed s.fresh (.reentry k (some v)) input) ∧
      after B (i + 1) m =
        (((after B i m).push (.inReentry k)).push (.holding input.handles)).invoke k v ∧
      ∀ i' < j, ∀ script input',
        (after B i' m).event? p = some (.resumed s.fresh script input') → i' = i := by
  have hwatched := Watched.of_reachable hm hroom hs ht hwrap hcalm hkept
  have hfirst : Waiting p s.fresh k v (after B 1 m) := by
    obtain ⟨u, hu⟩ := hwatched.live 1 hj
    exact waiting_of_call hm hcall hs (hwatched.linked 0 (by omega) s hs) hu
      (hwatched.ample 1 hj u hu)
  -- a pass does not end while the re-entry waits
  have hnot : ∀ u, (after B j m).scheduler? p = some u → u.running ≠ true := by
    intro u hu hrunning
    obtain rfl := Option.some.inj (hu.symm.trans ht)
    rw [hover] at hrunning
    cases hrunning
  obtain ⟨e, hej, hwaits, hfed⟩ : ∃ e, 1 + e + 1 ≤ j ∧
      (∀ e' ≤ e, Waiting p s.fresh k v (after B (1 + e') m)) ∧
        Fed p s.fresh k v (after B (1 + e + 1) m) := by
    rcases hwatched.fed hfirst (j - 1) (by omega) with hall | ⟨e, he, hwaits, hfed⟩
    · have hlast := hall (j - 1) (Nat.le_refl _)
      rw [Nat.add_sub_cancel' hj] at hlast
      obtain ⟨-, u, hu, hw⟩ := hlast
      exact absurd hw.running (hnot u hu)
    · exact ⟨e, by omega, hwaits, hfed⟩
  have hlt : 1 + e + 1 < j := by
    rcases Nat.lt_or_eq_of_le hej with hlt | heq
    · exact hlt
    · obtain ⟨u, hu, -, -, hrunning⟩ := hfed.spent
      exact absurd hrunning (hnot u (heq ▸ hu))
  obtain ⟨input, hev, hstep⟩ := hfed.step_eq (B := B)
  refine ⟨1 + e + 1, hlt, input, hev, (after_succ _ m).trans hstep, ?_⟩
  intro i' hi' script input' hev'
  by_contra hne
  rcases Nat.lt_or_ge i' (1 + e + 1) with hearly | hlate
  · cases i' with
    | zero =>
      -- the call itself feeds nobody
      obtain ⟨⟨script', input'', hadvance⟩, -⟩ := fed_of_resumed hev'
      have hfocus : m.focus = .advance script' input'' := hadvance
      rw [hcall] at hfocus
      cases hfocus
    | succ e' =>
      have hw := hwaits e' (by omega)
      rw [Nat.add_comm 1 e'] at hw
      exact not_resumed_of_naming hw.1 hev'
  · obtain ⟨d, rfl⟩ : ∃ d, i' = 1 + e + 1 + d + 1 := ⟨i' - (1 + e + 1) - 1, by omega⟩
    exact (hwatched.serves hfed d (by omega)).not_resumed hev'

/-! ### Calls that are made -/

/-- The next thing that is asked for is a re-entry with a number: the scheduler,
    the continuation and the number. -/
def calls? (m : Machine C R) : Option (Nat × Nat × Int64) :=
  match m.focus with
  | .release [] (.act (.ask (.reenter p k (.int n)) _)) => some (p, k, n)
  | _ => none

theorem focus_of_calls? {x : Int64} (h : m.calls? = some (p, k, x)) :
    ∃ next, m.focus = .release [] (.act (.ask (.reenter p k (.int x)) next)) := by
  unfold calls? at h
  split at h
  · next hfocus =>
    cases h
    exact ⟨_, hfocus⟩
  · cases h

/-- A panic is under way. -/
def unwinds (m : Machine C R) : Bool :=
  match m.focus with
  | .release _ (.unwind _ _) => true
  | _ => false

theorem not_escapes_of_unwinds (h : m.unwinds = false) : ¬ m.Escapes p := by
  rintro ⟨payload, salvage, control, hfocus, -⟩
  simp [unwinds, hfocus] at h

theorem not_lifts_of_lifting (h : m.control.any Frame.lifting = false) : ¬ m.Lifts p a := by
  rintro ⟨id, handler, frames, copies, left, hmem, -⟩
  have hlifting : m.control.any Frame.lifting = true := List.any_eq_true.mpr ⟨_, hmem, rfl⟩
  rw [h] at hlifting
  cases hlifting

end Machine

open Machine Strand.Language in
/-- A routine hands its continuation out and is given up. A second one calls for
    that continuation with 7 from within its step, which is `last`. -/
def reentering (last : Term) : Machine Code Running :=
  let script steps := Term.apply (.staged (steps.map .onSuccess) none) []
  let var name := Term.apply (.lookup name) []
  let handler := Term.apply .returning [.mk .outcome (.literal (.int 0))]
  let sleeper := script [.apply (.shift (.mk handler none none (some "k") (some "r"))) [],
    .apply .suspend []]
  let call := Term.apply .reenter [.mk (.type .reenter) (var "r"), .mk (.type .continuation) (var "k"),
    .mk .any (.literal (.int 7))]
  Program.machine [] .empty (.bind "s" (.apply (.newScheduler {}) [])
    (.sequence [.apply (.evaluate sleeper) [.mk (.type .scheduler) (var "s")]]
      (.apply (.evaluate (script [.sequence [call] last])) [.mk (.type .scheduler) (var "s")])))

open Machine Strand.Language in
/-- With a step that is done, the call comes after 131 moves and is served before
    the pass is over. -/
theorem reentry_served_once_done :
    ∃ m : Machine Code Running,
      m = after behavior 131 (reentering (.apply .done [.mk .outcome (.literal (.int 0))])) ∧
      m.calls? = some (0, 0, 7) ∧ (m.scheduler? 0).map Scheduler.fresh = some ⟨2, 0⟩ ∧
      ((after behavior 60 m).scheduler? 0).map Scheduler.running = some false ∧
      ∃ i < 60, ∃ input,
        (after behavior i m).event? 0 =
          some (.resumed ⟨2, 0⟩ (.reentry 0 (some (.int 7))) input) ∧
        after behavior (i + 1) m =
          (((after behavior i m).push (.inReentry 0)).push (.holding input.handles)).invoke 0
            (.int 7) ∧
        ∀ i' < 60, ∀ script input',
          (after behavior i' m).event? 0 = some (.resumed ⟨2, 0⟩ script input') → i' = i := by
  obtain ⟨run, hrun⟩ : ∃ run, run =
      reentering (.apply .done [.mk .outcome (.literal (.int 0))]) := ⟨_, rfl⟩
  have hcalls : (after behavior 131 run).calls? = some (0, 0, 7) := by
    rw [hrun]
    decide +kernel
  have hfresh : ((after behavior 131 run).scheduler? 0).map Scheduler.fresh = some ⟨2, 0⟩ := by
    rw [hrun]
    decide +kernel
  have hover : ((after behavior 60 (after behavior 131 run)).scheduler? 0).map
      (fun t => (t.running, t.routines.vacated ⟨2, 0⟩)) = some (false, 1) := by
    rw [hrun]
    decide +kernel
  have hroom : throughout behavior (fun _ => false) (fewSlots 0) 100 (after behavior 131 run) = true := by
    rw [hrun]
    decide +kernel
  have hcalm : throughout behavior (fun _ => false)
      (fun n => !n.unwinds && !n.control.any Frame.lifting) 100 (after behavior 131 run) = true := by
    rw [hrun]
    decide +kernel
  have hreach : Reachable behavior (after behavior 131 run) := by
    rw [hrun]
    exact ⟨_, Reaches.later (p := 0) ⟨131, rfl, rfl⟩⟩
  rw [← hrun]
  refine ⟨after behavior 131 run, rfl, hcalls, hfresh, ?_⟩
  generalize after behavior 131 run = m at *
  obtain ⟨next, hcall⟩ := focus_of_calls? hcalls
  obtain ⟨s, hs, hid⟩ := Option.map_eq_some_iff.mp hfresh
  obtain ⟨t, ht, hend⟩ := Option.map_eq_some_iff.mp hover
  obtain ⟨hidle, hvacated⟩ := Prod.mk.inj hend
  have hchecked := fun i => check_after hcalm i fun _ _ => rfl
  simp only [Bool.and_eq_true, Bool.not_eq_true'] at hchecked
  have hserved := reentry_served_once hreach (roomy_of_fewSlots hroom) hcall hs
    (j := 60) (by omega) ht hidle (by rw [hid, hvacated]; omega)
    (fun i _ => not_escapes_of_unwinds (hchecked i).1)
    (fun i _ => not_lifts_of_lifting (hchecked i).2)
  rw [hid] at hserved
  refine ⟨?_, hserved⟩
  rw [ht, Option.map_some, hidle]

open Machine Strand.Language in
/-- With a step that shifts, the call is made all the same and nothing unwinds. But
    the shift lifts the re-entry with the routine that has called, and its
    handler drops the continuation. The pass is over without the re-entry having been
    fed, which is gone, and the continuation it was for has not been invoked. -/
theorem reentry_lost_to_shift :
    let handler := Term.apply .returning [.mk .outcome (.literal (.int 0))]
    let run := after behavior 131 (reentering (.apply (.shift (.mk handler none none none none)) []))
    run.calls? = some (0, 0, 7) ∧ (run.scheduler? 0).map Scheduler.fresh = some ⟨2, 0⟩ ∧
      throughout behavior (fun _ => false) (fun n => !n.unwinds) 100 run = true ∧
      (trail behavior 0 62 run).map PassEvent.id = [⟨3, 0⟩, ⟨3, 0⟩] ∧
      ((after behavior 62 run).scheduler? 0).map
        (fun t => (t.running, t.routines.contains ⟨2, 0⟩)) = some (false, false) ∧
      ((after behavior 62 run).store.snapshots.find? 0).map (·.routines) = some (some [⟨0, 0⟩]) := by
  decide +kernel

end Strand
