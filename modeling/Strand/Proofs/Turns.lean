import Strand.Proofs.Runs

/-! # Turns — the moves of a pass, one by one

    `At` says where a machine is within a pass: which of the pass's frames are
    on the control stack, what is in focus and what the scheduler looks like.
    Each lemma takes a machine at one place to the next:

    * a turn begins at the head of the loop, where the next routine is picked;
    * its script is fed, or the script behind a forced return is made to exit;
    * the answer concludes the routine, shelves it beneath a child or suspends
      it;
    * a sweep brings the pass back to the head (`At.swept`). -/

namespace Strand.Machine

variable {C R : Type} {B : Behavior C R} {p : Nat} {K fs : List (Frame C R)}
  {focus : Focus C R} {s : Scheduler C} {m : Machine C R}

/-- Where a machine is within the pass of `p` above `K`. -/
structure At (p : Nat) (K fs : List (Frame C R)) (focus : Focus C R) (s : Scheduler C)
    (m : Machine C R) : Prop where
  control : m.control = fs ++ .pass p :: K
  focus : m.focus = focus
  scheduler : m.scheduler? p = some s

/-- The head of the loop. -/
abbrev AtHead (p : Nat) (K : List (Frame C R)) (s : Scheduler C) (m : Machine C R) : Prop :=
  At p K [] (.release [] (.give .nothing)) s m

theorem At.atLoop (h : At p K fs focus s m) (hfs : ∀ f ∈ fs, f.ofLoop p = true) :
    AtLoop p K m :=
  ⟨fs, h.control, hfs⟩

/-- Nothing is seen of letting go of something. -/
theorem event?_dropping {h : Handle} {hs : List Handle} {onward : Onward C R}
    (hf : m.focus = .release (h :: hs) onward) : m.event? p = none := by
  simp only [event?, hf]

/-- Nothing is seen at the head of the loop. -/
theorem At.event?_head (h : AtHead p K s m) : m.event? p = none := by
  simp only [event?, h.focus, h.control, List.nil_append]

theorem At.event?_sweeping {hs : List Handle}
    (h : At p K [.sweeping p] (.release hs (.give .nothing)) s m) : m.event? p = none := by
  cases hs with
  | nil => simp only [event?, h.focus, h.control, List.cons_append, List.nil_append]
  | cons => exact event?_dropping h.focus

/-- What the program answers, with the pass where it was. -/
theorem At.answered {rel : Scheduler C → Scheduler C → Prop} {ok : Focus C R → Prop}
    (h : At p K fs focus s m) (ha : AnsweredBy B p rel m ok) :
    ∃ n focus' s', Reaches B p m (m.event? p).toList n ∧ At p K fs focus' s' n ∧ ok focus' ∧
      rel s s' := by
  obtain ⟨n, hr, hcontrol, hok, hsched⟩ := ha
  obtain ⟨s', hs', hrel⟩ := hsched s h.scheduler
  exact ⟨n, n.focus, s', hr, ⟨hcontrol.trans h.control, rfl, hs'⟩, hok, hrel⟩

/-- Handles are let go of. -/
theorem At.dropped {hs : List Handle} {onward : Onward C R}
    (h : At p K fs (.release hs onward) s m) (hd : DropsReturn B p m) :
    ∃ n s', Reaches B p m [] n ∧ At p K fs (.release [] onward) s' n ∧ s.Spared s' := by
  cases hs with
  | nil => exact ⟨m, s, .refl m, h, .refl s⟩
  | cons handle hs =>
    obtain ⟨n, focus', s', hr, hat, rfl, hspared⟩ := h.answered (hd handle hs onward h.focus)
    rw [event?_dropping h.focus] at hr
    exact ⟨n, s', hr, hat, hspared⟩

/-! ### The head of the loop -/

/-- The next routine is fed the register. -/
theorem At.pick {s₁ : Scheduler C} {id : RoutineId} {script : Script C} (h : AtHead p K s m)
    (hpick : s.pick = (some (id, script), s₁)) :
    At p K [.stepping p id] (.advance script s₁.register)
      { s₁ with register := .unit, reports := [] } (m.step B) := by
  have hstep : m.step B = ({ m with control := K } : Machine C R).passHead p := by
    simp only [step, h.focus, goOn, h.control]
    rfl
  have hs : ({ m with control := K } : Machine C R).scheduler? p = some s := h.scheduler
  rw [hstep, passHead]
  simp only [hs, hpick]
  exact ⟨rfl, rfl, scheduler?_onScheduler_some hs _⟩

/-- With nothing left to do, the pass ends in the register. -/
theorem At.leaves {s₁ : Scheduler C} (h : AtHead p K s m) (hpick : s.pick = (none, s₁)) :
    (m.step B).control = K ∧ (m.step B).focus = .release [] (.give (.outcome s₁.register)) := by
  have hstep : m.step B = ({ m with control := K } : Machine C R).passHead p := by
    simp only [step, h.focus, goOn, h.control]
    rfl
  have hs : ({ m with control := K } : Machine C R).scheduler? p = some s := h.scheduler
  rw [hstep, passHead]
  simp only [hs, hpick]
  exact ⟨rfl, rfl⟩

/-- The register is left alone while the next routine is looked for. -/
theorem register_pickFrom (stack : List StackEntry) (s : Scheduler C) :
    (Scheduler.pickFrom stack s).2.register = s.register := by
  induction stack generalizing s with
  | nil => rfl
  | cons work stack ih =>
    cases work with
    | boundary => exact ih _
    | routine id =>
      unfold Scheduler.pickFrom
      split
      · exact ih _
      · split
        · exact ih _
        · rfl

/-- Only live routines are picked. -/
theorem live_of_pickFrom {stack : List StackEntry} {s s₁ : Scheduler C} {id : RoutineId}
    {script : Script C} (h : Scheduler.pickFrom stack s = (some (id, script), s₁)) :
    ∃ r, s.routines.find? id = some r ∧ r.script = some script := by
  induction stack generalizing s with
  | nil => cases h
  | cons work stack ih =>
    cases work with
    | boundary => exact ih (s := s.report .boundaryConsumed) h
    | routine top =>
      unfold Scheduler.pickFrom at h
      split at h
      · exact ih (s := s.report (.skippingStale top)) h
      · next r hr =>
        split at h
        · exact ih h
        · next script' hscript =>
          cases h
          exact ⟨r, hr, hscript⟩

/-- A routine whose slot has been vacated is gone for good: as long as 32 bits
    tell the generations apart, it is neither live nor picked. -/
theorem gone_of_vacated {a : RoutineId} {x : Routine C} {s₀ : Scheduler C}
    (ha : s₀.routines.find? a = some x) (hs : m.scheduler? p = some s)
    (hless : s₀.routines.vacated a < s.routines.vacated a) {n : Machine C R} {t : Scheduler C}
    (hlater : Later B m n) (ht : n.scheduler? p = some t) :
    s₀.routines.vacated a < t.routines.vacated a ∧
      (t.routines.vacated a < s₀.routines.vacated a + 2 ^ 32 →
        t.routines.find? a = none ∧ ∀ script s₁, t.pick ≠ (some (a, script), s₁)) := by
  have hgone := Nat.lt_of_lt_of_le hless ((hlater.grows hs ht).vacated a)
  refine ⟨hgone, fun hwrap => ?_⟩
  have hdead : t.routines.find? a = none := Roster.find?_of_vacated ha hgone hwrap
  refine ⟨hdead, ?_⟩
  intro script s₁ hpick
  obtain ⟨y, hy, -⟩ := live_of_pickFrom hpick
  exact absurd (hdead.symm.trans hy) nofun

/-- An outcome goes where the stack says: the next routine is fed it, or the
    pass ends in it. -/
def Delivers (p : Nat) (K : List (Frame C R)) (o : Outcome Value) (m : Machine C R) : Prop :=
  (∃ id script s, At p K [.stepping p id] (.advance script o) s m) ∨
    (m.control = K ∧ m.focus = .release [] (.give (.outcome o)))

theorem At.delivers (h : AtHead p K s m) : Delivers p K s.register (m.step B) := by
  cases hpick : s.pick with
  | mk picked s₁ =>
    have hregister : s₁.register = s.register := by
      have := register_pickFrom s.stack s
      rw [← Scheduler.pick, hpick] at this
      exact this
    rw [← hregister]
    cases picked with
    | none => exact Or.inr (h.leaves hpick)
    | some next => exact Or.inl ⟨next.1, next.2, _, h.pick hpick⟩

/-! ### Forced returns and kept results -/

/-- A forced return begins: the script behind it is made to exit. -/
theorem At.begins_exit {id : RoutineId} {inner : Script C} {input : Outcome Value}
    (h : At p K [.stepping p id] (.advance (.exit inner .initial) input) s m) :
    At p K [.inExit (ForcedReturn.initial.next input),
        .holding (ForcedReturn.passOn input).handles, .stepping p id]
      (.exit inner) s (m.step B) := by
  have hstep : m.step B = m.advanceScript B (.exit inner .initial) input := by
    simp only [step, h.focus]
  rw [hstep]
  refine ⟨?_, rfl, h.scheduler⟩
  show _ :: _ :: m.control = _
  rw [h.control]
  rfl

/-- What is let go of when the script behind a forced return is done: a value
    that nobody receives. -/
def lostValue : Outcome Value → List Handle
  | .success v => v.handles
  | .failure _ => []

/-- The script behind a forced return is done with it. -/
theorem At.exited {progress : ForcedReturn} {o : Outcome Value} {inner : Script C}
    (h : At p K (.inExit progress :: fs) (.release [] (.give (.stepped (.done o) inner))) s m) :
    At p K fs (.release (lostValue o)
      (.give (.stepped (.done (progress.result o)) (.exit inner progress)))) s (m.step B) := by
  have hstep : m.step B =
      ({ m with control := fs ++ .pass p :: K } : Machine C R).exitStepped progress inner
        (.done o) := by
    simp only [step, h.focus, goOn, h.control]
    rfl
  rw [hstep]
  cases o with
  | success v => exact ⟨rfl, rfl, (scheduler?_retain _ _ p).trans h.scheduler⟩
  | failure e => exact ⟨rfl, rfl, h.scheduler⟩

/-- What was held while an operation ran is let go of. -/
theorem At.held {hs : List Handle} {a : Answer C}
    (h : At p K (.holding hs :: fs) (.release [] (.give a)) s m) :
    At p K fs (.release hs (.give a)) s (m.step B) := by
  have hstep : m.step B = ({ m with control := fs ++ .pass p :: K } : Machine C R).drop hs a := by
    simp only [step, h.focus, goOn, h.control]
    rfl
  rw [hstep]
  exact ⟨rfl, rfl, h.scheduler⟩

/-- What a kept result comes to when it is fed: itself, or the failure that it
    is fed. -/
def settledResult (stored : Outcome Value) : Outcome Value → Outcome Value
  | .success _ => stored
  | .failure e => .failure e

theorem At.settles {id : RoutineId} {stored input : Outcome Value}
    (h : At p K [.stepping p id] (.advance (.settled stored) input) s m) :
    At p K [.stepping p id] (.release (lostValue input)
      (.give (.stepped (.done (settledResult stored input)) (.settled stored)))) s (m.step B) := by
  have hstep : m.step B = m.advanceScript B (.settled stored) input := by
    simp only [step, h.focus]
  rw [hstep]
  cases input with
  | success v => exact ⟨h.control, rfl, (scheduler?_retain _ _ p).trans h.scheduler⟩
  | failure e => exact ⟨h.control, rfl, h.scheduler⟩

/-! ### Instructions -/

theorem At.yields_reset {id : RoutineId} {script : Script C} {block : C}
    (h : At p K [.stepping p id] (.release [] (.give (.stepped (.yield (.reset block)) script)))
      s m) :
    At p K [.building p id .reset] (.release [] (.begin block .begin))
      { (s.shelve id script).push .boundary with reports := [] } (m.step B) := by
  have hstep : m.step B =
      ({ m with control := .pass p :: K } : Machine C R).obey p id script (.reset block) := by
    simp only [step, h.focus, goOn, h.control]
    rfl
  have hs : ({ m with control := .pass p :: K } : Machine C R).scheduler? p = some s := h.scheduler
  rw [hstep]
  exact ⟨rfl, rfl, scheduler?_onScheduler_some hs _⟩

theorem At.yields_splice {id : RoutineId} {script nested : Script C}
    (h : At p K [.stepping p id] (.release [] (.give (.stepped (.yield (.splice nested)) script)))
      s m) :
    At p K [.sweeping p]
      (.release ({ s.shelve id script with reports := [] } : Scheduler C).register.handles
        (.give .nothing))
      { ({ s.shelve id script with reports := [] } : Scheduler C).scheduleChild .splice nested id
        with reports := [] } (m.step B) := by
  have hstep : m.step B =
      ({ m with control := .pass p :: K } : Machine C R).obey p id script (.splice nested) := by
    simp only [step, h.focus, goOn, h.control]
    rfl
  have hs : ({ m with control := .pass p :: K } : Machine C R).scheduler? p = some s := h.scheduler
  have hshelved := scheduler?_onScheduler_some hs fun s => s.shelve id script
  rw [hstep]
  refine ⟨rfl, ?_, scheduler?_onScheduler_some hshelved _⟩
  show Focus.release (registerHandles _ p) _ = _
  rw [registerHandles, hshelved]
  rfl

/-- A block or a handler has built the script of a child. -/
theorem At.builds {id : RoutineId} {origin : Origin} {a : Answer C}
    (h : At p K [.building p id origin] (.release [] (.give a)) s m) :
    At p K [.sweeping p] (.release s.register.handles (.give .nothing))
      { s.scheduleChild origin a.script id with reports := [] } (m.step B) := by
  have hstep : m.step B =
      ({ m with control := .pass p :: K } : Machine C R).startChild p id origin a.script := by
    simp only [step, h.focus, goOn, h.control]
    rfl
  have hs : ({ m with control := .pass p :: K } : Machine C R).scheduler? p = some s := h.scheduler
  rw [hstep]
  refine ⟨rfl, ?_, scheduler?_onScheduler_some hs _⟩
  show Focus.release (registerHandles _ p) _ = _
  rw [registerHandles, hs]
  rfl

theorem At.suspends {id : RoutineId} {script : Script C}
    (h : At p K [.stepping p id] (.release [] (.give (.stepped (.yield .suspend) script))) s m) :
    At p K [.sweeping p] (.release [] (.give .nothing))
      { s.suspend id script with reports := [] } (m.step B) := by
  have hstep : m.step B =
      ({ m with control := .pass p :: K } : Machine C R).obey p id script .suspend := by
    simp only [step, h.focus, goOn, h.control]
    rfl
  have hs : ({ m with control := .pass p :: K } : Machine C R).scheduler? p = some s := h.scheduler
  rw [hstep]
  exact ⟨rfl, rfl, scheduler?_onScheduler_some hs _⟩

/-! ### Conclusions -/

/-- A routine finishes: its script is done, or a panic came out of it that the
    scheduler catches. -/
def Finishes (p : Nat) (K : List (Frame C R)) (id : RoutineId) (o : Outcome Value)
    (s : Scheduler C) (m : Machine C R) : Prop :=
  (∃ script, At p K [.stepping p id] (.release [] (.give (.stepped (.done o) script))) s m) ∨
  (s.settings.catchPanics = true ∧ ∃ payload salvage,
    o = .failure (.panicked payload.message) ∧
      At p K [.stepping p id] (.release [] (.unwind payload salvage)) s m)

theorem Finishes.scheduler {id : RoutineId} {o : Outcome Value} (h : Finishes p K id o s m) :
    m.scheduler? p = some s := by
  rcases h with ⟨_, hat⟩ | ⟨-, _, _, -, hat⟩
  · exact hat.scheduler
  · exact hat.scheduler

/-- Concluding a routine is followed by a sweep. -/
theorem scheduler?_concludeStep (h : m.scheduler? p = some s) (id : RoutineId)
    (script : Script C) (o : Outcome Value) :
    (m.concludeStep p id script o).scheduler? p =
      some { s.conclude id script o with reports := [] } := by
  unfold concludeStep
  exact scheduler?_onScheduler_some ((scheduler?_retain m _ p).trans h) _

theorem Finishes.concludes {id : RoutineId} {o : Outcome Value}
    (h : Finishes p K id o s m) :
    ∃ script, At p K [.sweeping p] (.release s.register.handles (.give .nothing))
      { s.conclude id script o with reports := [] } (m.step B) := by
  have hcommon : ∀ script, m.scheduler? p = some s →
      m.step B = ({ m with control := .pass p :: K } : Machine C R).concludeStep p id script o →
      At p K [.sweeping p] (.release s.register.handles (.give .nothing))
        { s.conclude id script o with reports := [] } (m.step B) := by
    intro script hs hstep
    have hs' : ({ m with control := .pass p :: K } : Machine C R).scheduler? p = some s := hs
    rw [hstep]
    refine ⟨rfl, ?_, scheduler?_concludeStep hs' id script o⟩
    show Focus.release (registerHandles _ p) _ = _
    rw [registerHandles, hs']
    rfl
  rcases h with ⟨script, hat⟩ | ⟨hcatch, payload, salvage, rfl, hat⟩
  · refine ⟨script, hcommon script hat.scheduler ?_⟩
    simp only [step, hat.focus, goOn, hat.control]
    rfl
  · refine ⟨salvage.getD (.returning .unit), hcommon _ hat.scheduler ?_⟩
    have hcatches : ({ m with control := .pass p :: K } : Machine C R).catches p = true := by
      show ((m.scheduler? p).map fun s => s.settings.catchPanics).getD false = true
      rw [hat.scheduler]
      exact hcatch
    simp only [step, hat.focus, goOn, hat.control]
    show unwindFrame ({ m with control := .pass p :: K } : Machine C R) B payload salvage
      (.stepping p id) = _
    simp only [unwindFrame, hcatches, if_true]
    rfl

/-! ### Sweeps -/

/-- One round of a sweep. -/
theorem At.sweeps (h : At p K [.sweeping p] (.release [] (.give .nothing)) s m) :
    if s.freeUnclaimed.1 = 0 ∧ s.freeUnclaimed.2.retired.isEmpty then
      AtHead p K { s.freeUnclaimed.2 with current := none, retired := [], reports := [] }
        (m.step B)
    else
      At p K [.sweeping p]
        (.release (s.freeUnclaimed.2.retired.flatMap (Script.handles B.held)) (.give .nothing))
        { s.freeUnclaimed.2 with current := none, retired := [], reports := [] } (m.step B) := by
  have hstep : m.step B = ({ m with control := .pass p :: K } : Machine C R).sweep B.held p := by
    simp only [step, h.focus, goOn, h.control]
    rfl
  have hs : ({ m with control := .pass p :: K } : Machine C R).scheduler? p = some s := h.scheduler
  rw [hstep, sweep]
  simp only [hs]
  split
  · exact ⟨rfl, rfl, scheduler?_onScheduler_some hs _⟩
  · exact ⟨rfl, rfl, scheduler?_onScheduler_some hs _⟩

variable (p) in
/-- No captured routine waits to be reclaimed. -/
def NoneUnclaimed (m : Machine C R) : Prop := ∀ s, m.scheduler? p = some s → s.unclaimed = []

/-- A sweep ends. It lets go of what was retired and frees only what was lost:
    every further round has fewer routines, or it has nothing to let go of any
    more. It frees nobody if no continuation dies unused meanwhile. -/
theorem At.tidied {hs : List Handle} (h : At p K [.sweeping p] (.release hs (.give .nothing)) s m)
    (hl : Scheduler.Linked s.routines) (hd : During B p K (· = []) (DropsReturn B p) m) :
    ∃ n s', Reaches B p m [] n ∧ AtHead p K s' n ∧ s.Pruned s' ∧ s'.Tidy ∧
      (During B p K (· = []) (NoneUnclaimed p) m → s'.routines = s.routines) := by
  induction hk : 2 * s.liveCount + (if s.retired = [] then 0 else 1) using
    Nat.strongRecOn generalizing m s hs with
  | _ k ih =>
    have hloop : AtLoop p K m := h.atLoop (by simp [Frame.ofLoop])
    obtain ⟨n, t, hr, hat, hspared⟩ := h.dropped (hd [] m (.refl m) rfl hloop)
    have hprune := hspared.pruned
    have hlt : Scheduler.Linked t.routines := hspared.routines ▸ hl
    have hretired : t.retired = s.retired := by
      obtain ⟨_, _, _, rfl⟩ := hspared
      rfl
    obtain ⟨hfree, hlinked, hcount⟩ := Scheduler.freeUnclaimed_spec hlt
    have hclean : t.freeUnclaimed.2.Pruned
        { t.freeUnclaimed.2 with current := none, retired := [], reports := [] } :=
      .of_same ⟨rfl, rfl, rfl, rfl⟩ rfl
    have hall := (hprune.trans hfree).trans hclean
    have hkept : During B p K (· = []) (NoneUnclaimed p) m →
        t.freeUnclaimed.2.routines = s.routines := by
      intro hnone
      rw [Scheduler.freeUnclaimed_of_nil
        (hnone [] n hr rfl (hat.atLoop (by simp [Frame.ofLoop])) t hat.scheduler)]
      exact hspared.routines
    have hround := hat.sweeps (B := B)
    have hr' := hr.unseen hat.event?_sweeping
    split at hround
    · next hdone =>
      refine ⟨_, _, hr', hround, hall, ⟨rfl, rfl, ?_⟩, hkept⟩
      exact congrArg Scheduler.unclaimed (Scheduler.freeUnclaimed_of_none hdone.1)
    · next hmore =>
      have hless : 2 * ({ t.freeUnclaimed.2 with current := none, retired := [], reports := [] } :
          Scheduler C).liveCount + 0 < k := by
        show 2 * t.freeUnclaimed.2.liveCount + 0 < k
        have hlive := hprune.shrunk.count
        by_cases hzero : t.freeUnclaimed.1 = 0
        · have hsame := Scheduler.freeUnclaimed_of_none hzero
          rw [hsame] at hmore hcount ⊢
          have hne : s.retired ≠ [] := by
            intro hnil
            exact hmore ⟨hzero, by simp [hretired, hnil]⟩
          rw [if_neg hne] at hk
          show 2 * t.liveCount + 0 < k
          omega
        · omega
      obtain ⟨o, s', hr'', hhead, hpruned, htidy, hsame⟩ :=
        ih _ hless hround hlinked (hd.quietly hr') (by simp)
      exact ⟨o, s', hr'.quietly hr'', hhead, hall.trans hpruned, htidy,
        fun hnone => (hsame (hnone.quietly hr')).trans (hkept hnone)⟩

theorem At.swept {hs : List Handle} (h : At p K [.sweeping p] (.release hs (.give .nothing)) s m)
    (hl : Scheduler.Linked s.routines) (hd : During B p K (· = []) (DropsReturn B p) m) :
    ∃ n s', Reaches B p m [] n ∧ AtHead p K s' n ∧ s.Pruned s' := by
  obtain ⟨n, s', hr, hhead, hpruned, -⟩ := h.tidied hl hd
  exact ⟨n, s', hr, hhead, hpruned⟩

end Strand.Machine
