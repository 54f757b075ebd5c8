import Strand.Proofs.Rehearsal

/-! # Calls — from where something is begun to where it answers

    What is in focus is worked off above the frames that are on the control stack at the
    time. `Ends` says where this is over: the frame on top of those is handed an answer or
    a panic, for the first time.

    * A call that is made within another one ends first (`EndsIn.handed`).
    * Letting go of handles does not change what was to follow, unless a panic comes out
      of it (`EndsIn.released`).
    * A copy is what was copied (`Ends.copied`). -/

namespace Strand

/-- An answer or a panic is to follow. -/
def Onward.pops {C R : Type} : Onward C R → Bool
  | .give _ => true
  | .unwind _ _ => true
  | _ => false

namespace Machine

variable {C R : Type} {B : Behavior C R} {K : List (Frame C R)} {m n : Machine C R} {j : Nat}

/-! ### Where a call ends -/

/-- What stands on top of `K` is worked off in `j` moves, and then `K` goes on. -/
structure EndsIn (B : Behavior C R) (K : List (Frame C R)) (j : Nat) (m n : Machine C R) :
    Prop where
  reach : after B j m = n
  back : n.control = K
  pops : n.popping = true
  /-- Until then `K` has not been handed anything. -/
  first : ∀ i < j, ¬ ((after B i m).control = K ∧ (after B i m).popping = true)

/-- What is in focus in `m` is over in `n`. -/
def Ends (B : Behavior C R) (m n : Machine C R) : Prop := ∃ j, EndsIn B m.control j m n

theorem Ends.control (h : Ends B m n) : n.control = m.control := h.choose_spec.back

/-- A call that is over goes no further. -/
theorem EndsIn.eq_of_popping (h : EndsIn B K j m n) (hcontrol : m.control = K)
    (hpop : m.popping = true) : n = m := by
  cases j with
  | zero => exact h.reach.symm
  | succ j => exact absurd ⟨hcontrol, hpop⟩ (h.first 0 (Nat.succ_pos j))

/-- A call that is not over goes on. -/
theorem EndsIn.tail (h : EndsIn B K j m n) (hgo : ¬ (m.control = K ∧ m.popping = true)) :
    ∃ i, j = i + 1 ∧ EndsIn B K i (m.step B) n := by
  cases j with
  | zero =>
    obtain rfl : m = n := h.reach
    exact absurd ⟨h.back, h.pops⟩ hgo
  | succ j =>
    exact ⟨j, rfl, h.reach, h.back, h.pops, fun i hi => h.first (i + 1) (Nat.succ_lt_succ hi)⟩

theorem EndsIn.cons (h : EndsIn B K j (m.step B) n) (hgo : ¬ (m.control = K ∧ m.popping = true)) :
    EndsIn B K (j + 1) m n := by
  refine ⟨h.reach, h.back, h.pops, fun i hi => ?_⟩
  cases i with
  | zero => exact hgo
  | succ i => exact h.first i (Nat.lt_of_succ_lt_succ hi)

/-- What `m` has in focus is over in the next move, or goes on from there. -/
theorem Ends.tail (h : Ends B m n) (hpop : m.popping = false) :
    ∃ j, EndsIn B m.control j (m.step B) n := by
  obtain ⟨j, h⟩ := h
  obtain ⟨i, -, h⟩ := h.tail (fun hgo => by simp [hpop] at hgo)
  exact ⟨i, h⟩

/-- What is not handed anything stays where it is. -/
theorem suffix_step_of_not_handed (h : K <:+ m.control)
    (hnot : ¬ (m.control = K ∧ m.popping = true)) : K <:+ (m.step B).control := by
  cases hpop : m.popping with
  | false => exact h.trans (suffix_step m B hpop)
  | true =>
    refine List.IsSuffix.trans ?_ (tail_suffix_step m B)
    cases hc : m.control with
    | nil =>
      rw [hc, List.suffix_nil] at h
      exact absurd ⟨hc.trans h.symm, hpop⟩ hnot
    | cons g rest =>
      rcases List.suffix_cons_iff.mp (hc ▸ h) with heq | hrest
      · exact absurd ⟨hc.trans heq.symm, hpop⟩ hnot
      · exact hrest

/-- A frame on top of `K` is handed something before `K` is. -/
theorem EndsIn.handed {f : Frame C R} (h : EndsIn B K j m n) (hsuffix : f :: K <:+ m.control) :
    ∃ i i' o, j = i + i' + 1 ∧ EndsIn B (f :: K) i m o ∧ EndsIn B K i' (o.step B) n := by
  induction j generalizing m with
  | zero =>
    obtain rfl : m = n := h.reach
    have hlength := hsuffix.length_le
    rw [h.back, List.length_cons] at hlength
    omega
  | succ j ih =>
    have hgo : ¬ (m.control = K ∧ m.popping = true) := h.first 0 (Nat.succ_pos j)
    obtain ⟨_, heq, htail⟩ := h.tail hgo
    cases heq
    by_cases hnow : m.control = f :: K ∧ m.popping = true
    · exact ⟨0, j, m, by omega, ⟨rfl, hnow.1, hnow.2, fun i hi => absurd hi (Nat.not_lt_zero i)⟩, htail⟩
    · -- the frame stays where it is in this move
      have hstays := suffix_step_of_not_handed (B := B) hsuffix hnow
      obtain ⟨i, i', o, hj, hin, hout⟩ := ih htail hstays
      exact ⟨i + 1, i', o, by omega, hin.cons hnow, hout⟩

/-- Until a call ends, what it was begun above stays where it is. -/
theorem EndsIn.suffix (h : EndsIn B K j m n) (hsuffix : K <:+ m.control) {i : Nat} (hi : i ≤ j) :
    K <:+ (after B i m).control := by
  induction i with
  | zero => exact hsuffix
  | succ i ih =>
    rw [after_add]
    exact suffix_step_of_not_handed (ih (Nat.le_of_succ_le hi)) (h.first i hi)

/-- Where a frame is handed something, it is an answer or a panic. -/
theorem focus_of_popping (h : m.popping = true) :
    (∃ a, m.focus = .release [] (.give a)) ∨
      ∃ payload salvage, m.focus = .release [] (.unwind payload salvage) := by
  unfold popping at h
  split at h
  · next a hf => exact Or.inl ⟨a, hf⟩
  · next payload salvage hf => exact Or.inr ⟨payload, salvage, hf⟩
  · cases h

theorem step_of_give {f : Frame C R} {a : Answer C} (hcontrol : m.control = f :: K)
    (hfocus : m.focus = .release [] (.give a)) :
    m.step B = ({ m with control := K } : Machine C R).deliver B a f := by
  simp only [step, hfocus, goOn, hcontrol]

theorem step_of_unwind {f : Frame C R} {payload : Payload} {salvage : Option (Script C)}
    (hcontrol : m.control = f :: K) (hfocus : m.focus = .release [] (.unwind payload salvage)) :
    m.step B = ({ m with control := K } : Machine C R).unwindFrame B payload salvage f := by
  simp only [step, hfocus, goOn, hcontrol]

/-! ### Letting go -/

/-- Nothing ends with an abort. -/
theorem EndsIn.not_aborted (h : EndsIn B K j m n) : m.focus ≠ .aborted := by
  intro hfocus
  have hstill : ∀ i, after B i m = m := by
    intro i
    induction i with
    | zero => rfl
    | succ i ih =>
      show after B i (m.step B) = m
      rw [show m.step B = m by simp only [step, hfocus]]
      exact ih
  have hpop := h.pops
  rw [← h.reach, hstill] at hpop
  simp [popping, hfocus] at hpop

/-- When everything has been let go of, what was to follow does, or a panic that came
    out of it. -/
theorem EndsIn.released {hs : List Handle} {onward : Onward C R} (h : EndsIn B K j m n)
    (hcontrol : m.control = K) (hfocus : m.focus = .release hs onward)
    (hpops : onward.pops = true) :
    n.focus = .release [] onward ∨ ∃ payload salvage, n.focus = .release [] (.unwind payload salvage) := by
  induction j using Nat.strongRecOn generalizing m hs onward with
  | _ j ih =>
    cases hs with
    | nil =>
      have hpop : m.popping = true := by
        unfold popping
        rw [hfocus]
        cases onward with
        | give | unwind => rfl
        | begin | tell | act => cases hpops
      rw [h.eq_of_popping hcontrol hpop]
      exact Or.inl hfocus
    | cons handle hs =>
      have hpop : m.popping = false := by simp [popping, hfocus]
      obtain ⟨i, rfl, htail⟩ := h.tail (fun hgo => by simp [hpop] at hgo)
      have hstep : m.step B = m.letGo B handle hs onward := by simp only [step, hfocus]
      rw [hstep] at htail
      unfold letGo at htail
      split at htail
      · exact ih i (Nat.lt_succ_self i) htail hcontrol rfl hpops
      · next c store _ =>
        -- a completion is settled first, and whoever waits for it is told
        have hsuffix : .releasing (.completion c :: hs) onward :: K <:+
            (({ m with store }.push (.releasing (.completion c :: hs) onward)).settle c
              (.failure .abandoned)).control := by
          rw [← hcontrol]
          exact suffix_settle (({ m with store } : Machine C R).push _) c _
        obtain ⟨i₁, i₂, o, rfl, htold, hrest⟩ := htail.handed hsuffix
        rcases focus_of_popping htold.pops with ⟨a, ha⟩ | ⟨payload, salvage, hpanic⟩
        · rw [step_of_give htold.back ha] at hrest
          exact ih i₂ (by omega) hrest rfl rfl hpops
        · rw [step_of_unwind htold.back hpanic] at hrest
          cases onward with
          | give a =>
            have hall := ih i₂ (by omega) hrest rfl rfl rfl
            exact Or.inr (hall.elim (fun h => ⟨_, _, h⟩) fun h => h)
          | unwind payload' salvage' => exact absurd rfl hrest.not_aborted
          | begin | tell | act => cases hpops

/-! ### Copies -/

theorem EndsIn.frame {f : Frame C R} (h : EndsIn B K j m n) (hsuffix : f :: K <:+ m.control) :
    ∃ (i : Nat) (o : Machine C R), EndsIn B K i (o.step B) n ∧ o.control = f :: K ∧
      ((∃ a, o.focus = .release [] (.give a)) ∨
        ∃ payload salvage, o.focus = .release [] (.unwind payload salvage)) := by
  obtain ⟨_, i, o, -, hin, hout⟩ := h.handed hsuffix
  exact ⟨i, o, hout, hin.back, focus_of_popping hin.pops⟩

/-- A copy is what was copied. -/
theorem Ends.copied {script : Script C} {a : Answer C} (h : Ends B m n)
    (hfocus : m.focus = .copy script) (ha : n.focus = .release [] (.give a)) : a = .built script := by
  obtain ⟨j, h⟩ := h.tail (by simp [popping, hfocus])
  have hstep : m.step B = m.copyScript B script := by simp only [step, hfocus]
  rw [hstep] at h
  unfold copyScript at h
  split at h
  · next code _ =>
    have hsuffix : .copying script :: m.control <:+
        (((m.retain (B.held code)).push (.copying script)).push .ignoring |>.begin code
          .begin).control := List.suffix_cons ..
    obtain ⟨i, o, hrest, hcontrol, ⟨a', ha'⟩ | ⟨payload, salvage, hpanic⟩⟩ := h.frame hsuffix
    · rw [step_of_give hcontrol ha'] at hrest
      rw [hrest.eq_of_popping rfl rfl] at ha
      cases ha
      rfl
    · rw [step_of_unwind hcontrol hpanic] at hrest
      rw [hrest.eq_of_popping rfl rfl] at ha
      cases ha
  · rw [h.eq_of_popping rfl rfl] at ha
    cases ha
    rfl

end Machine

end Strand
