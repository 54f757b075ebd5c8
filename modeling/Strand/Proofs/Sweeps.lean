import Strand.Proofs.Calls
import Strand.Proofs.Cancellation
import Strand.Proofs.Captives
import Strand.Proofs.Failures

/-! # Sweeps — what becomes of a failure in a clean-up

    A routine that finishes with live children keeps its result back, in a routine of its
    own, until the forced returns of the children above it are through. A clean-up that
    fails on the way makes the result a failure. This failure has no place of its own: it
    is in the record of a forced return or in a result that is kept back, on its way out of
    a step, or in the register.

    * `Bearing` follows a forced return through its step.
    * `Sweeping` says where the failure is and what else is on the stack.
    * As long as nobody comes in between and no forced return suspends that carries the
      failure, it arrives (`exit_failure_kept`).
    * A forced return that suspends is freed, and its record with it
      (`exit_failure_lost`). -/

namespace Strand

variable {C R : Type}

open Scheduler

/-! ### Lifting above a lane -/

section Lift

variable {x y : Status C} {s' : Scheduler C} {above rest : List StackEntry} {lane : List (Item C)}
  {i : Item C} {id : RoutineId} {script : Script C} {frames : List (Lifted C)}

/-- What is on the stack when a routine has been put back there, for its shift. -/
theorem Lane.stack_shelve (h : Lane above lane rest x) (id : RoutineId) (script : Script C) :
    ∃ top, (x.scheduler.shelve id script).stack = top ++ (lane.map Item.entry ++ rest) ∧
      (∀ e ∈ top, e = .routine id ∨ e ∈ above) ∧ ∀ e ∈ above, e ∈ top := by
  unfold shelve
  split
  · refine ⟨.routine id :: above, ?_, fun e he => List.mem_cons.mp he,
      fun e he => List.mem_cons_of_mem _ he⟩
    show _ :: (x.scheduler.giveBack id script).stack = _
    rw [stack_giveBack, h.stack]
    rfl
  · exact ⟨above, h.stack, fun e he => Or.inr he, fun e he => he⟩

/-- Without a boundary above it, the whole lane is lifted. -/
theorem Lane.lift_through (h : Lane above lane rest x) (hnone : .boundary ∉ above)
    (id : RoutineId) (script : Script C) :
    (x.scheduler.shelve id script).lift.2.stack <:+ rest := by
  obtain ⟨top, htop, hsub, -⟩ := h.stack_shelve id script
  have hnone' : .boundary ∉ top ++ lane.map Item.entry := by
    rw [List.mem_append, not_or]
    refine ⟨fun hmem => ?_, fun hmem => ?_⟩
    · rcases hsub _ hmem with heq | habove
      · cases heq
      · exact hnone habove
    · obtain ⟨j, -, hj⟩ := List.mem_map.mp hmem
      cases hj
  show (liftFrom (x.scheduler.shelve id script).stack []
    (x.scheduler.shelve id script)).2.stack <:+ _
  rw [htop, ← List.append_assoc]
  exact liftFrom_through rest [] _ hnone'

/-- As long as some routine of the lane stays on the stack, no routine of it is lifted. -/
theorem Lane.lift (h : Lane above lane rest x) (hstage : x.stage = .stepping id)
    (hlift : (x.scheduler.shelve id script).lift = (frames, s')) (hy : y.scheduler = s'.told)
    (hhand : ∀ a, y.stage.InHand y.scheduler a → a ∈ frames.map Lifted.id)
    (horiginal : ∀ a, y.Original a → x.Original a) (hon : y.scheduler.onStack i.1 = true)
    (hrest : i.entry ∉ rest) : .boundary ∈ above ∧ ∃ above', Lane above' lane rest y := by
  have hid : ∀ j ∈ lane, j.1 ≠ id := by
    rintro j hj rfl
    exact h.offHand j hj (by rw [hstage]; rfl)
  have hs' : (x.scheduler.shelve id script).lift.2 = s' := congrArg Prod.snd hlift
  have hboundary : .boundary ∈ above := by
    by_contra hnone
    have hsuffix := h.lift_through hnone id script
    rw [hs'] at hsuffix
    refine hrest (hsuffix.subset ?_)
    rw [Scheduler.onStack, List.contains_iff_mem, hy] at hon
    exact hon
  obtain ⟨top, htop, hsub, habove⟩ := h.stack_shelve id script
  obtain ⟨top', hstack', hsub', hlifted⟩ := liftFrom_above (lane.map Item.entry ++ rest) []
    (x.scheduler.shelve id script) (habove _ hboundary)
  rw [← htop] at hstack' hlifted
  have hframes : (liftFrom (x.scheduler.shelve id script).stack []
      (x.scheduler.shelve id script)).1 = frames := congrArg Prod.fst hlift
  rw [hframes] at hlifted
  have hspared : ∀ j ∈ lane, j.1 ∉ frames.map Lifted.id := by
    intro j hj hin
    obtain ⟨f, hf, hfj⟩ := List.mem_map.mp hin
    rcases hlifted f hf with hnil | htop'
    · cases hnil
    · rw [hfj] at htop'
      rcases hsub _ htop' with heq | hin'
      · exact hid j hj (StackEntry.routine.inj heq)
      · exact h.apart j hj hin'
  refine ⟨hboundary, top', ?_, fun j hj => ?_, h.passesOn, fun j hj hin => ?_, h.nodup,
    fun j hj hin => hspared j hj (hhand j.1 hin),
    fun j hj ho => h.unremembered j hj (horiginal _ ho)⟩
  · rw [hy, ← hs']
    exact hstack'
  · have hfind : y.scheduler.routines.find? j.1 =
        (x.scheduler.shelve id script).routines.find? j.1 := by
      rw [hy]
      exact (lift_others hlift (hspared j hj)).2.1
    obtain ⟨r, hr, hscript, hparent⟩ :=
      (h.rests j hj).aside (h.onStack hj) (aside_shelve x.scheduler (hid j hj) script)
    exact ⟨r, hfind.trans hr, hscript, hparent⟩
  · rcases hsub _ (hsub' _ hin) with heq | hin'
    · exact hid j hj (StackEntry.routine.inj heq)
    · exact h.apart j hj hin'

theorem Lane.boundary {t : Nat → Option (Snapshot C)} {σ : PassStage C} {s : Scheduler C}
    (h : Lane above lane rest ⟨σ, s, t⟩) :
    Lane (.boundary :: above) lane rest ⟨σ, s.push .boundary, t⟩ where
  stack := congrArg (List.cons StackEntry.boundary) h.stack
  rests := fun j hj => (h.rests j hj).congr rfl
  passesOn := h.passesOn
  apart := fun j hj hmem => h.apart j hj (by simpa [Item.entry] using hmem)
  nodup := h.nodup
  offHand := h.offHand
  unremembered := h.unremembered

/-- A forced return that goes on waiting is back on top of the others. -/
theorem Lane.shelved {t : Nat → Option (Snapshot C)} {s : Scheduler C} {r : Routine C}
    (h : Lane [] lane rest ⟨.stepping id, s, t⟩) (hr : s.routines.find? id = some r)
    (hparent : r.parent = none) (hpasses : script.passesOn = true)
    (hfree : ¬ (⟨.stepping id, s, t⟩ : Status C).Original id) :
    Lane [] ((id, script) :: lane) rest ⟨.building id, s.shelve id script, t⟩ := by
  have hid : ∀ j ∈ lane, j.1 ≠ id := fun j hj heq => h.offHand j hj heq
  have hfind : ∀ a, (s.shelve id script).routines.find? a =
      if a = id then (s.routines.find? a).map fun r => { r with script := some script }
      else s.routines.find? a := by
    rw [shelve_of_live hr]
    exact Roster.find?_modify s.routines id _
  refine ⟨?_, ?_, ?_, fun _ _ => List.not_mem_nil, ?_, fun _ _ hin => hin, ?_⟩
  · rw [shelve_of_live hr]
    exact congrArg (List.cons (.routine id)) h.stack
  · refine List.forall_mem_cons.mpr ⟨⟨{ r with script := some script }, ?_, rfl, hparent⟩, ?_⟩
    · rw [hfind, if_pos rfl, hr]
      rfl
    · intro j hj
      obtain ⟨r', hr', hscript, hparent'⟩ := h.rests j hj
      exact ⟨r', by rw [hfind, if_neg (hid j hj)]; exact hr', hscript, hparent'⟩
  · exact List.forall_mem_cons.mpr ⟨hpasses, h.passesOn⟩
  · refine List.nodup_cons.mpr ⟨fun hmem => ?_, h.nodup⟩
    obtain ⟨j, hj, hjid⟩ := List.mem_map.mp hmem
    exact hid j hj hjid
  · exact List.forall_mem_cons.mpr ⟨hfree, h.unremembered⟩

/-- The lane is the same as long as the stack and the routines are. -/
theorem Lane.again {t t' : Nat → Option (Snapshot C)} {σ σ' : PassStage C} {s u : Scheduler C}
    (h : Lane above lane rest ⟨σ, s, t⟩) (hstack : u.stack = s.stack)
    (hroutines : u.routines = s.routines) (hhand : ∀ i ∈ lane, ¬ σ'.InHand u i.1)
    (hfree : ∀ i ∈ lane, ¬ (⟨σ', u, t'⟩ : Status C).Original i.1) :
    Lane above lane rest ⟨σ', u, t'⟩ where
  stack := hstack.trans h.stack
  rests := fun i hi => (h.rests i hi).congr hroutines
  passesOn := h.passesOn
  apart := h.apart
  nodup := h.nodup
  offHand := hhand
  unremembered := hfree

/-- What a finishing routine leaves on the stack goes on top of the others. -/
theorem Lane.extend {new : List (Item C)} (h : Lane (new.map Item.entry) lane rest y)
    (hrests : ∀ i ∈ new, y.scheduler.Rests i ∧ i.2.passesOn = true)
    (hnodup : (new.map Prod.fst).Nodup) (hhand : ∀ i ∈ new, ¬ y.stage.InHand y.scheduler i.1)
    (hfree : ∀ i ∈ new, ¬ y.Original i.1) : Lane [] (new ++ lane) rest y := by
  refine ⟨?_, ?_, ?_, fun _ _ => List.not_mem_nil, ?_, ?_, ?_⟩
  · rw [h.stack, List.map_append, List.append_assoc]
    rfl
  · exact List.forall_mem_append.mpr ⟨fun i hi => (hrests i hi).1, h.rests⟩
  · exact List.forall_mem_append.mpr ⟨fun i hi => (hrests i hi).2, h.passesOn⟩
  · rw [List.map_append, List.nodup_append]
    refine ⟨hnodup, h.nodup, ?_⟩
    rintro a ha b hb rfl
    obtain ⟨i, hi, rfl⟩ := List.mem_map.mp ha
    obtain ⟨j, hj, hij⟩ := List.mem_map.mp hb
    refine h.apart j hj (List.mem_map.mpr ⟨i, hi, ?_⟩)
    rw [Item.entry, Item.entry, hij]
  · exact List.forall_mem_append.mpr ⟨hhand, h.offHand⟩
  · exact List.forall_mem_append.mpr ⟨hfree, h.unremembered⟩

end Lift

/-! ### A forced return at its step -/

/-- A step of a forced return, or of a result that is kept back, ends like this: with a
    failure, if it has to carry one, or with a script that has one on record. -/
def Step.Bears (must : Prop) (script : Script C) : Step C → Prop
  | .done o => must → o.isSuccess = false
  | .yield _ => script.passesOn = true ∧ (must → script.fails = true)

namespace Machine

variable {B : Behavior C R} {p : Nat} {m n : Machine C R}

/-- Above the step of routine `w` there is at most what its exit has kept. -/
def ExitFrames (F : List (Frame C R)) : Prop := F = [] ∨ ∃ hs, F = [.holding hs]

/-- A forced return, or a result that is kept back, is at its step above `K`. If it
    `must`, it carries a failure. -/
inductive Bearing (w : RoutineId) (K : List (Frame C R)) (must : Prop) (m : Machine C R) :
    Prop where
  /-- It is about to be fed. -/
  | fed {script : Script C} {input : Outcome Value} (hcontrol : m.control = .stepping p w :: K)
      (hfocus : m.focus = .advance script input) (hpasses : script.passesOn = true)
      (hfails : must → input.isSuccess = false ∨ script.fails = true)
  /-- The script behind it is running. -/
  | within {progress : ForcedReturn} {F : List (Frame C R)} (hF : ExitFrames F)
      (hsuffix : .inExit progress :: (F ++ .stepping p w :: K) <:+ m.control)
      (hfails : must → progress.output.isSuccess = false)
  /-- That script has failed. -/
  | ended {progress : ForcedReturn} {F : List (Frame C R)} {onward : Onward C R} (hF : ExitFrames F)
      (hcontrol : m.control = .inExit progress :: (F ++ .stepping p w :: K))
      (hfocus : m.focus = .release [] onward)
      (hends : (∃ e inner, onward = .give (.stepped (.done (.failure e)) inner)) ∨
        ∃ payload salvage, onward = .unwind payload salvage)
  /-- The step is over, and its result is on its way to the pass. -/
  | brings {F : List (Frame C R)} (step : Step C) (script : Script C) (hF : ExitFrames F)
      (hcarried : Carried (F ++ .stepping p w :: K) (.stepped step script) m)
      (hbears : step.Bears must script)

variable {w : RoutineId} {K : List (Frame C R)} {must : Prop} {F : List (Frame C R)}

theorem expectsStep_of_exitFrames (hF : ExitFrames F) :
    expectsStep p (F ++ .stepping p w :: K) = true := by
  obtain rfl | ⟨hs, rfl⟩ := hF <;> simp [expectsStep]

/-- Unless everything has come to a stop, the step is still under way. -/
theorem Bearing.suffix (h : Bearing (p := p) w K must m) :
    m.focus = .aborted ∨ .stepping p w :: K <:+ m.control := by
  cases h with
  | fed hcontrol => exact Or.inr (hcontrol ▸ List.suffix_refl _)
  | within hF hsuffix =>
    exact Or.inr (((List.suffix_append _ _).trans (List.suffix_cons _ _)).trans hsuffix)
  | ended hF hcontrol =>
    exact Or.inr (hcontrol ▸ (List.suffix_append _ _).trans (List.suffix_cons _ _))
  | brings _ _ hF hcarried =>
    cases hcarried with
    | held hcontrol => exact Or.inr (hcontrol ▸ List.suffix_append _ _)
    | waits hsuffix =>
      exact Or.inr (((List.suffix_append _ _).trans (List.suffix_cons _ _)).trans hsuffix)
    | aborted hfocus => exact Or.inl hfocus

/-- What the script behind a forced return has come to is the forced return's own. -/
theorem Bearing.of_exit {progress : ForcedReturn} {onward : Onward C R} (hF : ExitFrames F)
    (hcontrol : m.control = .inExit progress :: (F ++ .stepping p w :: K))
    (hfocus : m.focus = .release [] onward)
    (hends : (∃ step inner, onward = .give (.stepped step inner) ∧
        (must → progress.output.isSuccess = false ∨ ∃ e, step = .done (.failure e))) ∨
      ∃ payload salvage, onward = .unwind payload salvage) :
    Bearing (p := p) w K must (m.step B) := by
  obtain ⟨step, inner, rfl, hfails⟩ | ⟨payload, salvage, rfl⟩ := hends
  · rw [step_of_give hcontrol hfocus]
    match step with
    | .done (.success v) =>
      refine .brings (.done progress.output) (.exit inner progress) hF
        (.held rfl rfl (Or.inl rfl)) fun hmust => ?_
      exact (hfails hmust).resolve_right fun ⟨e, he⟩ => by cases he
    | .done (.failure e) =>
      exact .brings _ (.exit inner progress) hF (.held rfl rfl (Or.inl rfl)) fun _ => rfl
    | .yield i =>
      refine .brings _ (.exit inner progress) hF (.held rfl rfl (Or.inl rfl))
        ⟨rfl, fun hmust => ?_⟩
      have hfailed := (hfails hmust).resolve_right fun ⟨e, he⟩ => by cases he
      simp [Script.fails, hfailed]
  · rw [step_of_unwind hcontrol hfocus]
    exact .brings (.done (.failure .abandoned)) (.returning .unit) hF
      (.held rfl rfl (Or.inr ⟨payload, _, rfl⟩)) fun _ => rfl

/-- A forced return is followed through its step, up to where the pass is handed the
    result. -/
theorem Bearing.step (h : Bearing (p := p) w K must m) (hord : m.Ordered p)
    (hnot : ¬ m.BackAt (.stepping p w :: K)) : Bearing (p := p) w K must (m.step B) := by
  cases h with
  | @fed script input hcontrol hfocus hpasses hfails =>
    have hstep : m.step B = m.advanceScript B script input := by simp only [Machine.step, hfocus]
    rw [hstep]
    cases script with
    | exit inner progress =>
      have hnext : must → (progress.next input).output.isSuccess = false := by
        intro hmust
        cases input with
        | failure e => rfl
        | success v =>
          have hfailed := (hfails hmust).resolve_left (by simp [Outcome.isSuccess])
          show progress.output.isSuccess = false
          simpa [Script.fails] using hfailed
      simp only [advanceScript]
      split
      · exact .within (Or.inl rfl) (by simp [hcontrol]) hnext
      · refine .within (F := [.holding (ForcedReturn.passOn input).handles]) (Or.inr ⟨_, rfl⟩) ?_
          hnext
        rw [← hcontrol]
        exact List.suffix_refl _
    | settled stored =>
      cases input with
      | failure e =>
        exact .brings (F := []) _ (.settled stored) (Or.inl rfl)
          (.held hcontrol rfl (Or.inl rfl)) fun _ => rfl
      | success v =>
        refine .brings (F := []) (.done stored) (.settled stored) (Or.inl rfl)
          (.held hcontrol rfl (Or.inl rfl)) fun hmust => ?_
        have hfailed := (hfails hmust).resolve_left (by simp [Outcome.isSuccess])
        simpa [Script.fails] using hfailed
    | staged | own | reentry | root => cases hpasses
  | @within progress F hF hsuffix hfails =>
    by_cases hback : m.control = .inExit progress :: (F ++ .stepping p w :: K) ∧ m.popping = true
    · obtain ⟨hcontrol, hpop⟩ := hback
      rcases focus_of_popping hpop with ⟨a, ha⟩ | ⟨payload, salvage, hpanic⟩
      · -- nothing but the end of a step comes to a forced return
        have hserves := hord.suits.step (by rw [hcontrol]; exact expectsStep_of_exitFrames hF)
        rw [ha] at hserves
        cases a with
        | stepped step inner =>
          exact .of_exit hF hcontrol ha
            (Or.inl ⟨step, inner, rfl, fun hmust => Or.inl (hfails hmust)⟩)
        | nothing | outcome | yield | built | reply => cases hserves
      · exact .of_exit hF hcontrol hpanic (Or.inr ⟨payload, salvage, rfl⟩)
    · exact .within hF (suffix_step_of_not_handed hsuffix hback) hfails
  | ended hF hcontrol hfocus hends =>
    refine .of_exit hF hcontrol hfocus ?_
    obtain ⟨e, inner, rfl⟩ | hpanic := hends
    · exact Or.inl ⟨_, inner, rfl, fun _ => Or.inr ⟨e, rfl⟩⟩
    · exact Or.inr hpanic
  | @brings F step script hF hcarried hbears =>
    by_cases hback : m.BackAt (F ++ .stepping p w :: K)
    · obtain rfl | ⟨hs, rfl⟩ := hF
      · exact absurd hback hnot
      · obtain ⟨hcontrol, hpop⟩ := hback
        obtain ⟨onward, hfocus, hbrings⟩ := hcarried.arrives ⟨hcontrol, hpop⟩
        obtain rfl | ⟨payload, salvage, rfl⟩ := hbrings
        · rw [step_of_give hcontrol hfocus]
          exact .brings (F := []) _ _ (Or.inl rfl) (.held rfl rfl (Or.inl rfl)) hbears
        · rw [step_of_unwind hcontrol hfocus]
          exact .brings (F := []) _ _ (Or.inl rfl) (.held rfl rfl (Or.inr ⟨payload, _, rfl⟩)) hbears
    · exact .brings _ _ hF (hcarried.step hback) hbears

/-- Where the pass is handed the result of the step, this is as it has to be, or a panic. -/
theorem Bearing.back (h : Bearing (p := p) w K must m) (hback : m.BackAt (.stepping p w :: K)) :
    (∃ step script, m.focus = .release [] (.give (.stepped step script)) ∧
      step.Bears must script) ∨
    ∃ payload salvage, m.focus = .release [] (.unwind payload salvage) := by
  obtain ⟨hcontrol, hpop⟩ := hback
  have hlong {f : Frame C R} {L : List (Frame C R)} :
      ¬ f :: (L ++ .stepping p w :: K) <:+ m.control := by
    intro hsuffix
    have hle := hsuffix.length_le
    rw [hcontrol] at hle
    simp only [List.length_cons, List.length_append] at hle
    omega
  cases h with
  | fed _ hfocus => simp [popping, hfocus] at hpop
  | within _ hsuffix => exact absurd hsuffix hlong
  | ended _ hcontrol' =>
    rw [hcontrol'] at hlong
    exact absurd (List.suffix_refl _) hlong
  | @brings F step script hF hcarried hbears =>
    obtain rfl | ⟨hs, rfl⟩ := hF
    · obtain ⟨onward, hfocus, hbrings⟩ := hcarried.arrives ⟨hcontrol, hpop⟩
      obtain rfl | hpanic := hbrings
      · exact Or.inl ⟨step, script, hfocus, hbears⟩
      · obtain ⟨payload, salvage, rfl⟩ := hpanic
        exact Or.inr ⟨payload, salvage, hfocus⟩
    · cases hcarried with
      | held hcontrol' =>
        rw [hcontrol'] at hlong
        exact absurd (List.suffix_refl _) (hlong (L := []))
      | waits hsuffix =>
        exact absurd ((List.suffix_cons _ _).trans hsuffix) (hlong (L := []))
      | aborted hfocus => simp [popping, hfocus] at hpop


/-! ### What the pass is busy with -/

/-- What stands directly above the frame of a pass says what the pass is busy with,
    whatever has come on top. -/
theorem Ordered.stage_of_suffix {f : Frame C R} {L : List (Frame C R)} (hord : m.Ordered p)
    (hsuffix : f :: .pass p :: L <:+ m.control) (hf : f.isPass p = false) :
    m.stage p = (Strand.Above.frame f).stage := by
  obtain ⟨X, hX⟩ := hsuffix
  have hstacked := hord.stacked
  rw [← hX] at hstacked
  have hskip : ∀ (top : Strand.Above C R), Stacked p (X ++ f :: .pass p :: L) →
      stageFrom p top (X ++ f :: .pass p :: L) = (Strand.Above.frame f).stage := by
    clear hX hstacked
    induction X with
    | nil =>
      intro top _
      rw [List.nil_append, stageFrom, hf]
      simp [stageFrom, Frame.isPass]
    | cons g X ih =>
      intro top hstacked
      have hg : g.isPass p = false := by
        rw [Bool.eq_false_iff]
        intro hpass
        have hfits := hstacked.2.1
        cases g with
        | pass q =>
          have hnone := hfits (of_decide_eq_true hpass) (.pass p) (by simp)
          simp [Frame.of] at hnone
        | _ => cases hpass
      rw [List.cons_append, stageFrom, hg]
      exact ih (.frame g) hstacked.2.2
  rw [stage, ← hX]
  exact hskip _ hstacked

/-- Where the head of a pass shows. -/
theorem head_of_stageFrom {above : Strand.Above C R} {L : List (Frame C R)}
    (h : stageFrom p above L = .head) :
    (∃ L', L = .pass p :: L' ∧ above.stage = .head) ∨
      ∃ hs a L', .releasing hs (.give a) :: .pass p :: L' <:+ L := by
  induction L generalizing above with
  | nil => cases h
  | cons f rest ih =>
    rw [stageFrom] at h
    split at h
    · next hf =>
      cases f with
      | pass q =>
        obtain rfl : q = p := of_decide_eq_true hf
        exact Or.inl ⟨rest, rfl, h⟩
      | _ => cases hf
    · refine Or.inr ?_
      rcases ih h with ⟨L', rfl, hhead⟩ | ⟨hs, a, L', hsuffix⟩
      · cases f with
        | releasing hs onward =>
          cases onward with
          | give a => exact ⟨hs, a, L', List.suffix_refl _⟩
          | begin | tell | act | unwind => cases hhead
        | _ => cases hhead
      · exact ⟨hs, a, L', hsuffix.trans (List.suffix_cons _ _)⟩

/-- At the head of a pass, whoever is stepped next has been picked. -/
theorem picks_of_stage {s : Scheduler C} {id : RoutineId} (hord : m.Ordered p)
    (hord' : (m.step B).Ordered p) (hs : m.scheduler? p = some s) (hhead : m.stage p = .head)
    (hnext : (m.step B).stage p = .stepping id) :
    ∃ script s' L, s.pick = (some (id, script), s') ∧
      (m.step B).focus = .advance script s.register ∧
      (m.step B).control = .stepping p id :: .pass p :: L := by
  rcases head_of_stageFrom hhead with ⟨L, hcontrol, hstage⟩ | ⟨hs', a, L, hsuffix⟩
  · cases hfocus : m.focus with
    | release hs' onward =>
      rw [hfocus] at hstage
      cases onward with
      | begin | tell | act | unwind => cases hstage
      | give a =>
        cases hs' with
        | cons h hs' =>
          have hsame : (m.step B).stage p = m.stage p := by
            have hstep : m.step B = m.letGo B h hs' (.give a) := by simp only [step, hfocus]
            rw [hstep]
            exact stage_letGo hfocus
          rw [hhead, hnext] at hsame
          cases hsame
        | nil =>
          rw [step_of_give hcontrol hfocus] at hnext ⊢
          simp only [deliver] at hnext ⊢
          have hs' : ({ m with control := L } : Machine C R).scheduler? p = some s := hs
          unfold passHead at hnext ⊢
          simp only [hs'] at hnext ⊢
          cases hpick : s.pick with
          | mk picked s' =>
            rw [hpick] at hnext
            cases picked with
            | some next =>
              obtain ⟨id', script⟩ := next
              have hid : id' = id := by
                simpa [stage, stageFrom, Frame.isPass, Above.stage] using hnext
              subst hid
              refine ⟨script, s', L, rfl, ?_, rfl⟩
              have hregister := register_pickFrom s.stack s
              rw [← Scheduler.pick, hpick] at hregister
              exact congrArg _ hregister
            | none =>
              -- nothing is left of the pass
              have hfree := hord.stacked
              rw [hcontrol] at hfree
              have hidle := stageFrom_of_none (hfree.2.1 rfl)
                (.focus (.release [] (.give (.outcome s'.register))))
              exact absurd (hidle.symm.trans hnext) (by simp)
    | advance | exit | copy | aborted =>
      rw [hfocus] at hstage
      cases hstage
  · exfalso
    by_cases hback : m.control = .releasing hs' (.give a) :: .pass p :: L ∧ m.popping = true
    · obtain ⟨hcontrol, hpop⟩ := hback
      rcases focus_of_popping hpop with ⟨b, hfocus⟩ | ⟨payload, salvage, hfocus⟩
      · rw [step_of_give hcontrol hfocus] at hnext
        simp [stage, deliver, stageFrom, Frame.isPass, Above.stage] at hnext
      · rw [step_of_unwind hcontrol hfocus] at hnext
        simp [stage, unwindFrame, unwind, stageFrom, Frame.isPass, Above.stage] at hnext
    · have hstays := hord'.stage_of_suffix (suffix_step_of_not_handed hsuffix hback) rfl
      exact absurd (hstays.symm.trans hnext) (by simp [Above.stage])

end Machine

section Stride

variable {p : Nat} {x y : Status C} {a w : RoutineId}

/-- When a pass is over, its stack is empty. -/
theorem Stride.stack_of_idle (h : Stride p x y) (hx : x.stage ≠ .idle) (hy : y.stage = .idle) :
    y.scheduler.stack = [] := by
  cases h with
  | @leave s s' h unwinding t =>
    exact stack_leave _ unwinding (stack_of_pickFrom_none (t := s') h)
  | abandon s t => exact (leave_spec s).1
  | sweep _ h' =>
    rcases h' with rfl | ⟨rfl, rfl⟩
    · exact absurd hy hx
    · cases hy
  | _ => first
    | exact absurd hy hx
    | cases hy

/-- A routine that is stepped has been before, or has been picked. -/
theorem Stride.stepping_of (h : Stride p x y) (hy : y.stage = .stepping a) :
    x.stage = .stepping a ∨ x.stage = .head := by
  cases h with
  | pick => exact Or.inr rfl
  | sweep _ h' =>
    rcases h' with rfl | ⟨rfl, rfl⟩
    · exact Or.inl hy
    · cases hy
  | _ => first
    | exact Or.inl hy
    | cases hy

/-- Between two steps, a pass goes on from a sweep to its head and picks, unless it is
    over. -/
theorem Stride.of_calm (h : Stride p x y) (hl : Linked x.scheduler.routines)
    (hx : x.stage = .head ∨ x.stage = .sweeping) :
    y.stage = x.stage ∨
    (x.stage = .sweeping ∧ y.stage = .head ∧ y.scheduler.stack = x.scheduler.stack) ∨
    (∃ id script t, x.stage = .head ∧ x.scheduler.pick = (some (id, script), t) ∧
      y = ⟨.stepping id, { t with register := .unit }.told, x.captures⟩) ∨
    y.stage = .leaving ∨ y.stage = .idle := by
  cases h with
  | pick h t => exact Or.inr (Or.inr (Or.inl ⟨_, _, _, rfl, h, rfl⟩))
  | sweep _ h' =>
    rcases h' with rfl | ⟨rfl, rfl⟩
    · exact Or.inl rfl
    · exact Or.inr (Or.inl ⟨rfl, rfl, (freeUnclaimed_spec hl).1.shrunk.work.stack⟩)
  | leave | abandon => exact Or.inr (Or.inr (Or.inr (Or.inr rfl)))
  | fail => exact Or.inr (Or.inr (Or.inr (Or.inl rfl)))
  | _ => first
    | exact Or.inl rfl
    | rcases hx with hx | hx <;> cases hx

theorem stack_reinstate_ne (s : Scheduler C) (ids : List RoutineId) (v : Value) :
    (s.reinstate ids v).stack ≠ s.stack := by
  intro heq
  have hlength := congrArg List.length heq
  simp only [reinstate, push, List.length_append, List.length_cons] at hlength
  have hreport : (s.report (.reinstating ids.length)).stack.length = s.stack.length := rfl
  omega

/-- A move that puts no work on the stack leaves the register as it is, and the routines
    as well while one is stepped, unless it ends a step or begins one. -/
theorem Stride.calm (h : Stride p x y) (hl : Linked x.scheduler.routines) (hx : x.stage ≠ .idle)
    (hstage : y.stage = x.stage ∨ x.stage = .sweeping ∧ y.stage = .head)
    (hstack : y.scheduler.stack = x.scheduler.stack) :
    y.scheduler.register = x.scheduler.register ∧
      (y.stage = .stepping w → x.scheduler.current ≠ none →
        y.scheduler.routines = x.scheduler.routines) := by
  cases h with
  | still | note | claim | unclaim | forget => exact ⟨rfl, fun _ _ => rfl⟩
  | sweep h h' =>
    refine ⟨(freeUnclaimed_spec hl).1.shrunk.work.register, fun hw hcurrent => ?_⟩
    rcases h with rfl | hnone
    · rcases h' with rfl | ⟨-, rfl⟩ <;> cases hw
    · exact absurd hnone hcurrent
  | queue => exact absurd hstack (List.cons_ne_self _ _)
  | @reinstate σ s k snapshot ids t hk hids hlive v =>
    exact absurd hstack (stack_reinstate_ne s ids v)
  | @plant σ s s' k snapshot copies ids t hk h v =>
    have hsame := stack_plant s snapshot.frames copies
    rw [h] at hsame
    exact absurd (hstack.trans hsame.symm) (stack_reinstate_ne s'.told ids v)
  | @plantNothing σ s k snapshot t hk hnone hgone v =>
    exact absurd hstack (stack_reinstate_ne s.told [] v)
  | root | reenter => exact absurd rfl hx
  | fail | pick | leave | abandon | conclude | suspend | reset | splice | build | lift
  | liftNothing | capture =>
    rcases hstage with hstage | ⟨hstage, hstage'⟩
    all_goals first
      | exact ⟨rfl, fun hw => by cases hw⟩
      | cases hstage

/-- A panic that is about to leave the pass leaves it. -/
theorem Stride.of_leaving (h : Stride p x y) (hx : x.stage = .leaving) :
    y.stage = .leaving ∨ y.stage = .idle := by
  cases h with
  | abandon => exact Or.inr rfl
  | sweep _ h' =>
    rcases h' with rfl | ⟨rfl, -⟩
    · exact Or.inl hx
    · cases hx
  | _ => first
    | exact Or.inl hx
    | exact Or.inl rfl
    | cases hx

/-- No continuation remembers a live routine that is on the stack or at its step. -/
theorem Posted.not_original {lost : RoutineId → Prop} {r : Routine C} (h : Posted lost x)
    (hr : x.scheduler.routines.find? a = some r)
    (ha : a ∈ routinesOf x.scheduler.stack ++ x.stage.handed) : ¬ x.Original a := by
  rintro ⟨k, snapshot, ids, hk, hids, hmem⟩
  have honce := h.once a r hr (k + 1)
  have hremembered : a ∈ remembered x.captures (k + 1) := by
    refine List.mem_flatMap.mpr ⟨k, List.mem_range.mpr (Nat.lt_succ_self k), ?_⟩
    rw [originals, hk]
    simpa [hids] using hmem
  have hplace := List.count_pos_iff.mpr ha
  have hother := List.count_pos_iff.mpr hremembered
  rw [Status.posts, List.count_append, List.count_append] at honce
  omega

end Stride

/-! ### Instructions -/

namespace Machine

variable {B : Behavior C R} {p : Nat} {K : List (Frame C R)} {s : Scheduler C} {m : Machine C R}
  {id : RoutineId} {script : Script C}

/-- The pass acts on what a routine has yielded. -/
theorem At.obeys {i : Instruction C}
    (h : At p K [.stepping p id] (.release [] (.give (.stepped (.yield i) script))) s m) :
    m.step B = ({ m with control := .pass p :: K } : Machine C R).obey p id script i ∧
      ({ m with control := .pass p :: K } : Machine C R).scheduler? p = some s := by
  refine ⟨?_, h.scheduler⟩
  simp only [step, h.focus, goOn, h.control]
  rfl

theorem At.awaits {c : Nat}
    (h : At p K [.stepping p id] (.release [] (.give (.stepped (.yield (.await c)) script))) s m) :
    At p K [.sweeping p] (.release [.completion c] (.give .nothing))
      { s.suspend id script with reports := [] } (m.step B) := by
  obtain ⟨hstep, hs⟩ := h.obeys (B := B)
  rw [hstep]
  exact ⟨rfl, rfl, scheduler?_onScheduler_some hs _⟩

/-- For a shift, the stack is lifted. -/
theorem At.shifts {handler : C}
    (h : At p K [.stepping p id] (.release [] (.give (.stepped (.yield (.shift handler)) script)))
      s m) :
    ∃ f focus t, At p K [f] focus t (m.step B) ∧ f.isPass p = false ∧
      t.stack = (s.shelve id script).lift.2.stack ∧
      ∀ a, (Strand.Above.frame f).stage ≠ .stepping a := by
  obtain ⟨hstep, hs⟩ := h.obeys (B := B)
  rw [hstep]
  simp only [obey, hs]
  obtain ⟨frames, t⟩ := (s.shelve id script).lift
  have hs' := scheduler?_onScheduler_some hs fun _ => t
  cases frames with
  | nil =>
    exact ⟨_, _, _, ⟨rfl, rfl, scheduler?_onScheduler_some hs' fun s => s.giveBackAll []⟩, rfl, rfl,
      fun a heq => by cases heq⟩
  | cons frame left =>
    exact ⟨_, _, _, ⟨rfl, rfl, hs'⟩, rfl, rfl, fun a heq => by cases heq⟩

end Machine

/-! ### Where a failure is while a sweep is on -/

/-- A routine that is gone for good: it has been issued, and is neither there nor in
    hand. -/
def Status.Past (x : Status C) (a : RoutineId) : Prop := x.scheduler.routines.Issued a ∧ x.Gone a

namespace Machine

variable {B : Behavior C R} {p : Nat} {m : Machine C R} {s s' : Scheduler C} {a w z : RoutineId}
  {o : Outcome Value} {rest : List StackEntry} {left left' : RoutineId → Prop} {must : Prop}
  {K : List (Frame C R)}

/-- What concerns scheduler `p`, which is in state `s`. -/
abbrev statusAt (p : Nat) (m : Machine C R) (s : Scheduler C) : Status C :=
  ⟨m.stage p, s, (m.realm p).captures⟩

variable (B p) in
/-- Nobody comes in between: while the pass is between two steps, or steps one of `mine`,
    no work is put on the stack. -/
def Undisturbed (mine : RoutineId → Prop) (m : Machine C R) : Prop :=
  ∀ s s', m.scheduler? p = some s → (m.step B).scheduler? p = some s' →
    (m.step B).stage p = m.stage p →
    (m.stage p = .head ∨ m.stage p = .sweeping ∨ ∃ a, m.stage p = .stepping a ∧ mine a) →
    s'.stack = s.stack

variable (p) in
/-- A forced return is about to suspend that has a failure on record. -/
def ForgetsFailure (m : Machine C R) : Prop :=
  ∃ i script a L, m.focus = .release [] (.give (.stepped (.yield i) script)) ∧
    m.control = .stepping p a :: L ∧ script.fails = true ∧ (i = .suspend ∨ ∃ c, i = .await c)

/-- A move during a sweep. The result of routine `z` waits on the stack, or is fed at
    last. What the sweep has `left` on the stack grows by what its routines leave there
    when they finish. -/
structure Sweeps (B : Behavior C R) (p : Nat) (z : RoutineId) (rest : List StackEntry)
    (left left' : RoutineId → Prop) (must : Prop) (m : Machine C R) (s s' : Scheduler C) : Prop where
  reach : Reachable B m
  found : m.scheduler? p = some s
  next : (m.step B).scheduler? p = some s'
  room : ∀ a, s'.routines.Ample a
  here : s.onStack z = true
  waits : s'.onStack z = true ∨ (m.step B).stage p = .stepping z
  beneath : .routine z ∉ rest
  quiet : m.Undisturbed B p left
  keeps : must → ¬ m.ForgetsFailure p
  mono : ∀ a, left a → left' a
  adds : ∀ {K id o a}, left id → Finishes p K id o s m → s.Leaves id a → left' a
  added : ∀ a, left' a → left a ∨ ∃ K id o, left id ∧ Finishes p K id o s m ∧ s.Leaves id a

/-- The routines of a sweep wait on the stack beneath `above`, one on top of the other,
    down to routine `z`, which keeps back `o`. Those in `hand` are at their step, and all
    others are through. -/
structure Queued (p : Nat) (z : RoutineId) (o : Outcome Value) (rest : List StackEntry)
    (left : RoutineId → Prop) (m : Machine C R) (s : Scheduler C) (hand : List RoutineId)
    (above : List StackEntry) (lane : List (Item C)) : Prop where
  stands : Lane above lane rest (m.statusAt p s)
  ends : ∃ front : List (Item C), lane = front ++ [(z, Script.settled o)]
  mine : ∀ i ∈ lane, left i.1
  others : ∀ a, left a → a ∈ hand ∨ a ∈ lane.map Prod.fst ∨ (m.statusAt p s).Past a

/-- Where the routines of a sweep are that ends with routine `z`, which keeps back `o`. If
    a failure `must` arrive there, it is with one of them. -/
inductive Sweeping (p : Nat) (z : RoutineId) (o : Outcome Value) (rest : List StackEntry)
    (left : RoutineId → Prop) (must : Prop) (m : Machine C R) (s : Scheduler C) : Prop where
  /-- They wait for what is above them. -/
  | waiting {above : List StackEntry} {lane : List (Item C)}
      (hqueue : Queued p z o rest left m s [] above lane) (hstage : m.stage p ≠ .idle)
      (hfails : must → ∃ i ∈ lane, i.2.fails = true)
  /-- The first of them is next, and is going to be fed a failure. -/
  | passing {lane : List (Item C)} (hqueue : Queued p z o rest left m s [] [] lane)
      (hstage : m.stage p = .head ∨ m.stage p = .sweeping) (hfails : s.register.isSuccess = false)
  /-- One of them is at its step. -/
  | stepping {lane : List (Item C)} {w : RoutineId} {L : List (Frame C R)} {r : Routine C}
      (carries : Prop) (hqueue : Queued p z o rest left m s [w] [] lane)
      (hstage : m.stage p = .stepping w) (hmine : left w) (hr : s.routines.find? w = some r)
      (hout : r.script = none) (hparent : r.parent = none)
      (hbearing : Bearing (p := p) w (.pass p :: L) carries m)
      (hfails : must → carries ∨ ∃ i ∈ lane, i.2.fails = true)
  /-- The result that was kept back is fed. -/
  | fed {input : Outcome Value} {L : List (Frame C R)}
      (hcontrol : m.control = .stepping p z :: .pass p :: L)
      (hfocus : m.focus = .advance (.settled o) input) (hoff : s.onStack z = false)
      (hfails : must → input.isSuccess = false ∨ o.isSuccess = false)
  /-- A panic is about to leave the pass. -/
  | leaving (hstage : m.stage p = .leaving)
  /-- Everything has come to a stop. -/
  | stopped (hfocus : m.focus = .aborted)

theorem Finishes.stage (h : Finishes p K a o s m) : m.stage p = .stepping a := by
  rcases h with ⟨_, hat⟩ | ⟨-, _, _, -, hat⟩
  · exact stage_working hat.control rfl
  · exact stage_working hat.control rfl

/-- Who waits is not at its step. -/
theorem Queued.not_stepping {above : List StackEntry} {lane : List (Item C)}
    (hq : Queued p z o rest left m s [] above lane) (hid : left a) : m.stage p ≠ .stepping a := by
  intro hstage
  have hin : (m.statusAt p s).stage.InHand s a := by
    rw [show (m.statusAt p s).stage = .stepping a from hstage]
    rfl
  rcases hq.others a hid with hnil | hmem | hpast
  · cases hnil
  · obtain ⟨i, hi, rfl⟩ := List.mem_map.mp hmem
    exact hq.stands.offHand i hi hin
  · exact hpast.2.2 hin

section Sweep

variable (h : Sweeps B p z rest left left' must m s s')
include h

theorem Sweeps.grows : Roster.Grows s.routines s'.routines :=
  (Later.step .refl : Later B m (m.step B)).grows h.found h.next

theorem Sweeps.edits : Edits s s' := (Later.step .refl : Later B m (m.step B)).edits h.found h.next

theorem Sweeps.room_before (a : RoutineId) : s.routines.Ample a := (h.room a).of_grows h.grows

theorem Sweeps.linked : Linked s.routines := h.reach.linked h.found (h.room_before default).slots

theorem Sweeps.stride : Stride p (m.statusAt p s) ((m.step B).statusAt p s') :=
  h.reach.stride h.found h.next

theorem Sweeps.ordered : m.Ordered p := (h.reach.ordered h.found).1

theorem Sweeps.ordered_next : (m.step B).Ordered p :=
  ((h.reach.later (.step .refl)).ordered h.next).1

theorem Sweeps.not_idle (hstage : m.stage p ≠ .idle) : (m.step B).stage p ≠ .idle := by
  intro hidle
  have hempty := h.stride.stack_of_idle hstage hidle
  rcases h.waits with hon | hstep
  · rw [Scheduler.onStack, List.contains_iff_mem, show s'.stack = [] from hempty] at hon
    cases hon
  · exact absurd (hidle.symm.trans hstep) (by simp)

/-- Unless a routine of the sweep is at its step, nothing is added to it. -/
theorem Sweeps.left_of_not_stepping (hnot : ∀ id, left id → m.stage p ≠ .stepping id)
    (ha : left' a) : left a := by
  rcases h.added a ha with ha | ⟨K, id, o, hid, hfin, -⟩
  · exact ha
  · exact absurd hfin.stage (hnot id hid)

/-- Who is gone stays so. -/
theorem Sweeps.past (ha : (m.statusAt p s).Past a) (hleaving : (m.step B).stage p ≠ .leaving)
    (hidle : (m.step B).stage p ≠ .idle) : ((m.step B).statusAt p s').Past a := by
  obtain ⟨hissued, hdead, hhand⟩ := ha
  have hgone : s'.routines.find? a = none := by
    cases hlive : s'.routines.find? a with
    | none => rfl
    | some y =>
      obtain ⟨x, hx⟩ := live_of_issued h.grows hissued hlive (h.room a)
      exact absurd (hdead.symm.trans hx) (by simp)
  refine ⟨h.edits.issued hissued, hgone, fun hin => ?_⟩
  rcases h.stride.kinds h.linked (h.room default).slots with
    hbeside | ⟨id, script, t, -, hpick, hy⟩ | ⟨id, script, frames, t, hstage, hlift, -, hlifted, -⟩ |
    hstage | hstage
  · exact hhand (hbeside.hand a hin)
  · have hstage : (m.step B).stage p = .stepping id := congrArg Status.stage hy
    rw [show ((m.step B).statusAt p s').stage = .stepping id from hstage] at hin
    obtain rfl : a = id := hin
    obtain ⟨r, hr, -⟩ := live_of_pickFrom hpick
    exact absurd (hdead.symm.trans hr) (by simp)
  · obtain ⟨f, hf, rfl⟩ := List.mem_map.mp (hlifted a hin)
    obtain ⟨r, hr, -⟩ := live_of_lift hlift f hf
    have hcontains := contains_shelve s id script f.id
    rw [Roster.contains_iff.mpr ⟨r, hr⟩] at hcontains
    obtain ⟨x, hx⟩ := Roster.contains_iff.mp hcontains.symm
    exact absurd (hdead.symm.trans hx) (by simp)
  · exact hleaving hstage
  · exact hidle hstage

/-- A move that leaves the lane in order leaves the sweep in order. -/
theorem Sweeps.queued {above above' : List StackEntry} {lane : List (Item C)} {hand : List RoutineId}
    (hq : Queued p z o rest left m s hand above lane)
    (hlane : Lane above' lane rest ((m.step B).statusAt p s'))
    (hleaving : (m.step B).stage p ≠ .leaving) (hidle : (m.step B).stage p ≠ .idle)
    (hsame : ∀ a, left' a → left a) : Queued p z o rest left' (m.step B) s' hand above' lane where
  stands := hlane
  ends := hq.ends
  mine := fun i hi => h.mono i.1 (hq.mine i hi)
  others := fun a ha => (hq.others a (hsame a ha)).imp_right
    (Or.imp_right fun hpast => h.past hpast hleaving hidle)

/-- The first routine of the sweep is picked. -/
theorem Sweeps.picked {above : List StackEntry} {lane lane' : List (Item C)} {id : RoutineId}
    {script : Script C} {t : Scheduler C} (hq : Queued p z o rest left m s [] above lane)
    (hhead : m.stage p = .head) (hpick : s.pick = (some (id, script), t))
    (hnext : (m.step B).stage p = .stepping id) (hlane : lane = (id, script) :: lane')
    (hstands : Lane [] lane' rest ((m.step B).statusAt p s'))
    (hs' : s' = { t with register := .unit }.told)
    (hfails : must → s.register.isSuccess = false ∨ ∃ i ∈ lane, i.2.fails = true) :
    Sweeping p z o rest left' must (m.step B) s' := by
  obtain ⟨script', t', L, hpick', hfocus, hcontrol⟩ :=
    picks_of_stage h.ordered h.ordered_next h.found hhead hnext
  cases hpick.symm.trans hpick'
  have hfirst : (id, script) ∈ lane := hlane ▸ List.mem_cons_self ..
  obtain ⟨front, hfront⟩ := hq.ends
  rw [hlane] at hfront
  cases front with
  | nil =>
    -- it is the last one as well
    cases hfront
    refine .fed hcontrol hfocus ?_ fun hmust => (hfails hmust).imp_right ?_
    · have hstack : s'.stack = rest := hstands.stack
      rw [Bool.eq_false_iff, Scheduler.onStack, ne_eq, List.contains_iff_mem, hstack]
      exact h.beneath
    · rintro ⟨i, hi, hfail⟩
      rw [hlane, List.mem_singleton] at hi
      subst hi
      simpa [Script.fails] using hfail
  | cons i front =>
    obtain ⟨rfl, hrest⟩ := List.cons.inj hfront
    obtain ⟨r, hr, hscript, hparent⟩ := hq.stands.rests _ hfirst
    have hr' : s'.routines.find? id = some { r with script := none } := by
      have hpicked := pickFrom_picked hpick
      rw [show s.routines.find? id = some r from hr] at hpicked
      rw [hs']
      exact hpicked
    refine .stepping (s.register.isSuccess = false ∨ script.fails = true)
      ⟨hstands, ⟨front, hrest⟩, fun i hi => ?_, fun a ha => ?_⟩ hnext (h.mono id (hq.mine _ hfirst))
      hr' rfl hparent (.fed hcontrol hfocus (hq.stands.passesOn _ hfirst) fun hc => hc) fun hmust => ?_
    · exact h.mono _ (hq.mine i (hlane ▸ List.mem_cons_of_mem _ hi))
    · have ha' := h.left_of_not_stepping (fun id _ => by rw [hhead]; simp) ha
      rcases hq.others a ha' with hnil | hmem | hpast
      · cases hnil
      · rw [hlane, List.map_cons, List.mem_cons] at hmem
        exact hmem.elim (fun heq => Or.inl (List.mem_singleton.mpr heq))
          fun hin => Or.inr (Or.inl hin)
      · exact Or.inr (Or.inr (h.past hpast (by rw [hnext]; simp) (by rw [hnext]; simp)))
    · rcases hfails hmust with hregister | ⟨i, hi, hfail⟩
      · exact Or.inl (Or.inl hregister)
      · rw [hlane] at hi
        rcases List.mem_cons.mp hi with rfl | hin
        · exact Or.inl (Or.inr hfail)
        · exact Or.inr ⟨i, hin, hfail⟩

/-- The routines of a sweep go on waiting, until the first of them is picked. -/
theorem Sweeps.of_waiting {above : List StackEntry} {lane : List (Item C)}
    (hq : Queued p z o rest left m s [] above lane) (hstage : m.stage p ≠ .idle)
    (hfails : must → ∃ i ∈ lane, i.2.fails = true) :
    Sweeping p z o rest left' must (m.step B) s' := by
  have hidle := h.not_idle hstage
  by_cases hleaving : (m.step B).stage p = .leaving
  · exact .leaving hleaving
  have hsame : ∀ a, left' a → left a := fun a =>
    h.left_of_not_stepping fun id hid => hq.not_stepping hid
  have hwait : ∀ {above'}, Lane above' lane rest ((m.step B).statusAt p s') →
      Sweeping p z o rest left' must (m.step B) s' := fun hlane =>
    .waiting (h.queued hq hlane hleaving hidle hsame) hidle hfails
  rcases h.stride.kinds h.linked (h.room default).slots with
    hbeside | ⟨id, script, t, hhead, hpick, hy⟩ |
    ⟨id, script, frames, t, hstep, hlift, hy, hhand, horiginal⟩ | hl | hi
  · obtain ⟨work, -, hlane⟩ := hq.stands.beside hbeside h.linked h.room
    exact hwait hlane
  · have hnext : (m.step B).stage p = .stepping id := congrArg Status.stage hy
    have hs' : s' = { t with register := .unit }.told := congrArg Status.scheduler hy
    obtain ⟨front, hfront⟩ := hq.ends
    rcases hq.stands.pick (by rw [hfront]; simp) hpick with
      ⟨above', -, -, -, hlane⟩ | ⟨lane', hlane, hstands⟩
    · rw [← hy] at hlane
      exact hwait hlane
    · rw [← hy] at hstands
      exact h.picked hq hhead hpick hnext hlane hstands hs' fun hmust => Or.inr (hfails hmust)
  · obtain ⟨front, hfront⟩ := hq.ends
    have hz : (z, Script.settled o) ∈ lane := by simp [hfront]
    have hon : s'.onStack z = true := by
      refine h.waits.resolve_right fun hnext => ?_
      have hin : (m.statusAt p s).stage = .stepping z := by
        rcases h.stride.stepping_of hnext with hz | hhead
        · exact hz
        · exact absurd (hstep.symm.trans hhead) (by simp)
      exact hq.stands.offHand _ hz (by rw [hin]; rfl)
    obtain ⟨-, above', hlane⟩ := hq.stands.lift hstep hlift hy hhand horiginal
      (i := (z, .settled o)) hon h.beneath
    exact hwait hlane
  · exact absurd hl hleaving
  · exact absurd hi hidle

/-- A failure on its way reaches the first routine of the sweep, as nobody comes in
    between. -/
theorem Sweeps.of_passing {lane : List (Item C)} (hq : Queued p z o rest left m s [] [] lane)
    (hstage : m.stage p = .head ∨ m.stage p = .sweeping) (hfails : s.register.isSuccess = false) :
    Sweeping p z o rest left' must (m.step B) s' := by
  have hidle' : m.stage p ≠ .idle := by rcases hstage with hσ | hσ <;> rw [hσ] <;> simp
  have hidle := h.not_idle hidle'
  by_cases hleaving : (m.step B).stage p = .leaving
  · exact .leaving hleaving
  have hsame : ∀ a, left' a → left a := fun a =>
    h.left_of_not_stepping fun id hid => hq.not_stepping hid
  have hstill : s'.stack = s.stack →
      ((m.step B).stage p = m.stage p ∨ m.stage p = .sweeping ∧ (m.step B).stage p = .head) →
      Sweeping p z o rest left' must (m.step B) s' := by
    intro hstack hcalm
    have hregister : s'.register = s.register :=
      (h.stride.calm (w := default) h.linked hidle' hcalm hstack).1
    have hstage' : (m.step B).stage p = .head ∨ (m.step B).stage p = .sweeping := by
      rcases hcalm with heq | ⟨-, heq⟩
      · rwa [heq]
      · exact Or.inl heq
    rcases h.stride.kinds h.linked (h.room default).slots with
      hbeside | ⟨id, _, _, -, -, hy⟩ | ⟨id, _, _, _, hstep, -⟩ | hl | hi
    · obtain ⟨work, hwork, hlane⟩ := hq.stands.beside hbeside h.linked h.room
      obtain rfl : work = [] := List.append_left_eq_self.mp (hwork.symm.trans hstack)
      exact .passing (h.queued hq hlane hleaving hidle hsame) hstage' (hregister ▸ hfails)
    · have hnext : (m.step B).stage p = .stepping id := congrArg Status.stage hy
      rcases hstage' with heq | heq <;> cases hnext.symm.trans heq
    · rcases hstage with heq | heq <;> cases hstep.symm.trans heq
    · exact absurd hl hleaving
    · exact absurd hi hidle
  rcases h.stride.of_calm h.linked hstage with
    heq | ⟨hsweeping, hhead, hstack⟩ | ⟨id, script, t, hhead, hpick, hy⟩ | hl | hi
  · exact hstill (h.quiet s s' h.found h.next heq (hstage.imp_right Or.inl)) (Or.inl heq)
  · exact hstill hstack (Or.inr ⟨hsweeping, hhead⟩)
  · obtain ⟨front, hfront⟩ := hq.ends
    rcases hq.stands.pick (by rw [hfront]; simp) hpick with
      ⟨above', -, hmem, -⟩ | ⟨lane', hlane, hstands⟩
    · cases hmem
    · rw [← hy] at hstands
      exact h.picked hq hhead hpick (congrArg Status.stage hy) hlane hstands
        (congrArg Status.scheduler hy) fun _ => Or.inl hfails
  · exact absurd hl hleaving
  · exact absurd hi hidle

/-- While one of them is at its step, or when it is over, work is put on top of the others
    at most. -/
theorem Sweeps.on_top {hand : List RoutineId} {lane : List (Item C)} {work : List StackEntry}
    (hq : Queued p z o rest left m s hand [] lane) (hstage : m.stage p = .stepping w)
    (hstack : s'.stack = work ++ s.stack) (hleaving : (m.step B).stage p ≠ .leaving) :
    Lane work lane rest ((m.step B).statusAt p s') := by
  have hidle := h.not_idle (by rw [hstage]; simp)
  obtain ⟨front, hfront⟩ := hq.ends
  have hz : (z, Script.settled o) ∈ lane := by simp [hfront]
  rcases h.stride.kinds h.linked (h.room default).slots with
    hbeside | ⟨_, _, _, hhead, -⟩ |
    ⟨id, script, frames, t, hstep, hlift, hy, hhand, horiginal⟩ | hl | hi
  · obtain ⟨work', hwork, hlane⟩ := hq.stands.beside hbeside h.linked h.room
    obtain rfl : work = work' := List.append_cancel_right (hstack.symm.trans hwork)
    simpa using hlane
  · exact absurd (hstage.symm.trans hhead) (by simp)
  · have hon : s'.onStack z = true := by
      have hbefore := hq.stands.onStack hz
      rw [Scheduler.onStack, List.contains_iff_mem] at hbefore ⊢
      exact hstack ▸ List.mem_append_right _ hbefore
    exact absurd (hq.stands.lift hstep hlift hy hhand horiginal (i := (z, .settled o)) hon
      h.beneath).1 List.not_mem_nil
  · exact absurd hl hleaving
  · exact absurd hi hidle

/-- There is only one step of the pass at a time. -/
theorem Sweeps.eq_of_step {L : List (Frame C R)} {a : RoutineId}
    (hcontrol : m.control = .stepping p a :: .pass p :: K)
    (hsuffix : .stepping p w :: .pass p :: L <:+ m.control) : a = w ∧ K = L := by
  have hstacked := h.ordered.stacked
  rw [hcontrol] at hstacked hsuffix
  rcases List.suffix_cons_iff.mp hsuffix with heq | hrest
  · cases heq
    exact ⟨rfl, rfl⟩
  · rcases List.suffix_cons_iff.mp hrest with heq | hbelow
    · cases heq
    · have hnone := hstacked.2.2.2.1 rfl (.stepping p w) (hbelow.subset (List.mem_cons_self ..))
      simp [Frame.of] at hnone

/-- A routine of the sweep is in the middle of its step. -/
theorem Sweeps.of_stepping {lane : List (Item C)} {L : List (Frame C R)} {r : Routine C}
    {carries : Prop} (hq : Queued p z o rest left m s [w] [] lane) (hstage : m.stage p = .stepping w)
    (hmine : left w) (hr : s.routines.find? w = some r) (hout : r.script = none)
    (hparent : r.parent = none) (hbearing : Bearing (p := p) w (.pass p :: L) carries m)
    (hfails : must → carries ∨ ∃ i ∈ lane, i.2.fails = true)
    (hnot : ¬ m.BackAt (.stepping p w :: .pass p :: L)) :
    Sweeping p z o rest left' must (m.step B) s' := by
  have hbearing' : Bearing (p := p) w (.pass p :: L) carries (m.step B) :=
    hbearing.step h.ordered hnot
  rcases hbearing'.suffix with haborted | hsuffix
  · exact .stopped haborted
  have hnext : (m.step B).stage p = .stepping w := h.ordered_next.stage_of_suffix hsuffix rfl
  have hstack : s'.stack = s.stack :=
    h.quiet s s' h.found h.next (hnext.trans hstage.symm) (Or.inr (Or.inr ⟨w, hstage, hmine⟩))
  have hcurrent : s.current ≠ none := by
    have hagrees := (h.reach.ordered h.found).2
    rw [hstage] at hagrees
    have hnow : s.current = some w := congrArg Prod.snd hagrees
    rw [hnow]
    simp
  have hbusy : m.stage p ≠ .idle := by rw [hstage]; simp
  have hsame : s'.routines = s.routines := (h.stride.calm h.linked hbusy
    (Or.inl (hnext.trans hstage.symm)) hstack).2 hnext hcurrent
  have hleaving : (m.step B).stage p ≠ .leaving := by rw [hnext]; simp
  have hlane := h.on_top hq hstage (show s'.stack = [] ++ s.stack from hstack) hleaving
  refine .stepping _ (h.queued hq hlane hleaving (by rw [hnext]; simp) fun a ha => ?_) hnext
    (h.mono w hmine) (hsame ▸ hr) hout hparent hbearing' hfails
  rcases h.added a ha with hold | ⟨K, id, o', -, hfin, -⟩
  · exact hold
  · -- nobody finishes before the step is over
    refine absurd ?_ hnot
    have hends : m.control = .stepping p id :: .pass p :: K ∧ m.popping = true := by
      rcases hfin with ⟨_, hat⟩ | ⟨-, _, _, -, hat⟩
      · exact ⟨hat.control, by simp only [popping, hat.focus]⟩
      · exact ⟨hat.control, by simp only [popping, hat.focus]⟩
    have hsuffix' := hbearing.suffix.resolve_left fun haborted => by
      simp [popping, haborted] at hends
    obtain ⟨rfl, rfl⟩ := h.eq_of_step hends.1 hsuffix'
    exact hends

/-- Whoever finishes leaves the routines of the sweep where they are, and puts on top of
    them what it leaves itself. -/
theorem Sweeps.concluded {lane : List (Item C)} {L : List (Frame C R)} {r : Routine C}
    {o' : Outcome Value} (hq : Queued p z o rest left m s [w] [] lane)
    (hstage : m.stage p = .stepping w) (hmine : left w) (hr : s.routines.find? w = some r)
    (hfin : Finishes p L w o' s m)
    (hfails : must → o'.isSuccess = false ∨ ∃ i ∈ lane, i.2.fails = true) :
    Sweeping p z o rest left' must (m.step B) s' := by
  obtain ⟨script, hat⟩ := hfin.concludes (B := B)
  obtain rfl : s' = { s.conclude w script o' with reports := [] } :=
    Option.some.inj (h.next.symm.trans hat.scheduler)
  have hsweeping : (m.step B).stage p = .sweeping := stage_working hat.control rfl
  have hroom : ∀ a, (s.conclude w script o').routines.Ample a := h.room
  obtain ⟨new, hstack, hregister, hrests, hids, hnodup, hkept⟩ :=
    conclude_leaves h.linked (h.room_before default).slots hr script o'
  have hleaving : (m.step B).stage p ≠ .leaving := by rw [hsweeping]; simp
  have hhand : ∀ a,
      ¬ ((m.step B).stage p).InHand { s.conclude w script o' with reports := [] } a := by
    intro a hin
    rw [hsweeping] at hin
    exact hin
  obtain ⟨lost, hposted⟩ := (h.reach.later (.step .refl)).posted h.next h.room
  have hlane : Lane [] (new ++ lane) rest
      ((m.step B).statusAt p { s.conclude w script o' with reports := [] }) := by
    refine (h.on_top hq hstage hstack hleaving).extend (fun i hi => ?_) hnodup
      (fun i _ => hhand i.1) fun i hi => ?_
    · exact ⟨(hrests i hi).1.congr rfl, (hrests i hi).2⟩
    · obtain ⟨y, hy, -⟩ := (hrests i hi).1
      refine hposted.not_original hy (List.mem_append_left _ ?_)
      show i.1 ∈ routinesOf (s.conclude w script o').stack
      rw [hstack, routinesOf_append]
      refine List.mem_append_left _ (List.mem_filterMap.mpr ⟨i.entry, ?_, rfl⟩)
      exact List.mem_map_of_mem hi
  have hqueue : Queued p z o rest left' (m.step B) { s.conclude w script o' with reports := [] } []
      [] (new ++ lane) := by
    obtain ⟨front, hfront⟩ := hq.ends
    refine ⟨hlane, ⟨new ++ front, by rw [hfront, List.append_assoc]⟩, ?_, fun a ha => Or.inr ?_⟩
    · refine List.forall_mem_append.mpr ⟨fun i hi => ?_, fun i hi => h.mono _ (hq.mine i hi)⟩
      exact h.adds hmine hfin ((hids i.1).mp (List.mem_map_of_mem hi))
    · rw [List.map_append, List.mem_append]
      rcases h.added a ha with hold | ⟨K, id, o'', -, hfin', hleaves⟩
      · rcases hq.others a hold with hw | hmem | hpast
        · obtain rfl := List.mem_singleton.mp hw
          refine Or.inr ⟨h.edits.issued (Roster.issued_of_find? hr), ?_, hhand a⟩
          exact find?_conclude_self h.linked.sound script o' (hroom a)
        · exact Or.inl (Or.inr hmem)
        · exact Or.inr (h.past hpast hleaving (by rw [hsweeping]; simp))
      · obtain rfl : id = w := PassStage.stepping.inj (hfin'.stage.symm.trans hstage)
        exact Or.inl (Or.inl ((hids a).mpr hleaves))
  by_cases hlate : must → ∃ i ∈ new ++ lane, i.2.fails = true
  · exact .waiting hqueue (by rw [hsweeping]; simp) hlate
  · -- nothing is left that keeps the failure back, so it is in the register
    obtain ⟨hmust, hnone⟩ := Classical.not_imp.mp hlate
    have hfailed : o'.isSuccess = false := by
      refine (hfails hmust).resolve_right fun ⟨i, hi, hfail⟩ => ?_
      exact hnone ⟨i, List.mem_append_right _ hi, hfail⟩
    obtain rfl : new = [] := by
      by_contra hsome
      obtain ⟨i, hi⟩ := List.exists_mem_of_ne_nil new hsome
      obtain ⟨r', hr', hchildren, -⟩ := (hids i.1).mp (List.mem_map_of_mem hi)
      obtain rfl : r = r' := Option.some.inj (hr.symm.trans hr')
      obtain ⟨above, habove⟩ := hkept hchildren
      refine hnone ⟨(w.next, .settled o'), ?_, by simp [Script.fails, hfailed]⟩
      rw [habove]
      simp
    exact .passing hqueue (Or.inr hsweeping) (by rw [← hregister] at hfailed; exact hfailed)

/-- A routine of the sweep is back on the stack, beneath what it waits for. -/
theorem Sweeps.shelved {lane : List (Item C)} {above : List StackEntry} {script : Script C}
    (hq : Queued p z o rest left m s [w] [] lane) (hstage : m.stage p = .stepping w)
    (hmine : left w) (hunfinished : ∀ K o', ¬ Finishes p K w o' s m)
    (hleaving : (m.step B).stage p ≠ .leaving)
    (hlane : Lane above ((w, script) :: lane) rest ((m.step B).statusAt p s'))
    (hfails : must → script.fails = true ∨ ∃ i ∈ lane, i.2.fails = true) :
    Sweeping p z o rest left' must (m.step B) s' := by
  have hidle := h.not_idle (by rw [hstage]; simp)
  obtain ⟨front, hfront⟩ := hq.ends
  refine .waiting ⟨hlane, ⟨(w, script) :: front, by rw [hfront]; rfl⟩, ?_, fun a ha => Or.inr ?_⟩
    hidle fun hmust => ?_
  · exact List.forall_mem_cons.mpr ⟨h.mono w hmine, fun i hi => h.mono _ (hq.mine i hi)⟩
  · rw [List.map_cons, List.mem_cons]
    have hold : left a := by
      rcases h.added a ha with hold | ⟨K, id, o', -, hfin, -⟩
      · exact hold
      · obtain rfl : id = w := PassStage.stepping.inj (hfin.stage.symm.trans hstage)
        exact absurd hfin (hunfinished K o')
    rcases hq.others a hold with hw | hmem | hpast
    · exact Or.inl (Or.inl (List.mem_singleton.mp hw))
    · exact Or.inl (Or.inr hmem)
    · exact Or.inr (h.past hpast hleaving hidle)
  · rcases hfails hmust with hscript | ⟨i, hi, hfail⟩
    · exact ⟨_, List.mem_cons_self .., hscript⟩
    · exact ⟨i, List.mem_cons_of_mem _ hi, hfail⟩

/-- A routine of the sweep has yielded an instruction. -/
theorem Sweeps.yielded {lane : List (Item C)} {L : List (Frame C R)} {r : Routine C}
    {i : Instruction C} {script : Script C} {carries : Prop}
    (hq : Queued p z o rest left m s [w] [] lane) (hstage : m.stage p = .stepping w)
    (hmine : left w) (hr : s.routines.find? w = some r) (hout : r.script = none)
    (hparent : r.parent = none)
    (hat : At p L [.stepping p w] (.release [] (.give (.stepped (.yield i) script))) s m)
    (hpasses : script.passesOn = true) (hcarries : carries → script.fails = true)
    (hfails : must → carries ∨ ∃ i ∈ lane, i.2.fails = true) :
    Sweeping p z o rest left' must (m.step B) s' := by
  have hidle := h.not_idle (by rw [hstage]; simp)
  have hunfinished : ∀ K o', ¬ Finishes p K w o' s m := by
    rintro K o' (⟨script', hat'⟩ | ⟨-, payload, salvage, -, hat'⟩)
    · cases hat.focus.symm.trans hat'.focus
    · cases hat.focus.symm.trans hat'.focus
  have hfails' : must → script.fails = true ∨ ∃ i ∈ lane, i.2.fails = true :=
    fun hmust => (hfails hmust).imp_left hcarries
  obtain ⟨lost, hposted⟩ := h.reach.posted h.found h.room_before
  obtain ⟨lost', hposted'⟩ := (h.reach.later (.step .refl)).posted h.next h.room
  have hstands : Lane [] lane rest ⟨.stepping w, s, (m.realm p).captures⟩ := hstage ▸ hq.stands
  have hfree : ¬ (⟨.stepping w, s, (m.realm p).captures⟩ : Status C).Original w := by
    rw [← hstage]
    exact hposted.not_original hr
      (List.mem_append_right _ (by
        rw [show (m.statusAt p s).stage = _ from hstage]
        simp [PassStage.handed]))
  have hshelved := hstands.shelved hr hparent hpasses hfree
  -- whoever is live and on the stack is not remembered
  have hagain : ∀ {above : List StackEntry} {u : Scheduler C},
      Lane above ((w, script) :: lane) rest ⟨.building w, u, (m.realm p).captures⟩ →
      s'.stack = u.stack → s'.routines = u.routines →
      (∀ a, ¬ ((m.step B).stage p).InHand s' a) →
      Lane above ((w, script) :: lane) rest ((m.step B).statusAt p s') := by
    intro above u hlane hstack hroutines hhand
    refine hlane.again hstack hroutines (fun i _ => hhand i.1) fun i hi => ?_
    obtain ⟨y, hy, -⟩ := hlane.rests i hi
    have hon := hlane.onStack hi
    rw [Scheduler.onStack, List.contains_iff_mem] at hon
    refine hposted'.not_original (r := y) ?_ (List.mem_append_left _ ?_)
    · rw [show s'.routines = u.routines from hroutines]
      exact hy
    · exact List.mem_filterMap.mpr ⟨_, hstack ▸ hon, rfl⟩
  have hsuspended : (i = .suspend ∨ ∃ c, i = .await c) →
      (∃ focus, At p L [.sweeping p] focus { s.suspend w script with reports := [] } (m.step B)) →
      Sweeping p z o rest left' must (m.step B) s' := by
    rintro hi ⟨focus, hat'⟩
    obtain rfl : s' = { s.suspend w script with reports := [] } :=
      Option.some.inj (h.next.symm.trans hat'.scheduler)
    have hsweeping : (m.step B).stage p = .sweeping := stage_working hat'.control rfl
    have hleaving : (m.step B).stage p ≠ .leaving := by rw [hsweeping]; simp
    have hsame : ({ s.suspend w script with reports := [] } : Scheduler C).stack = [] ++ s.stack :=
      stack_suspend s w script
    have hlane := h.on_top hq hstage hsame hleaving
    refine .waiting ⟨hlane, hq.ends, fun i hi => h.mono _ (hq.mine i hi), fun a ha => Or.inr ?_⟩
      hidle fun hmust => ?_
    · have hold : left a := by
        rcases h.added a ha with hold | ⟨K, id, o', -, hfin, -⟩
        · exact hold
        · obtain rfl : id = w := PassStage.stepping.inj (hfin.stage.symm.trans hstage)
          exact absurd hfin (hunfinished K o')
      rcases hq.others a hold with hw | hmem | hpast
      · obtain rfl := List.mem_singleton.mp hw
        refine Or.inr ⟨h.edits.issued (Roster.issued_of_find? hr), ?_, fun hin => ?_⟩
        · have hspent : Spent a s := by
            intro x hx
            obtain rfl : r = x := Option.some.inj (hr.symm.trans hx)
            exact ⟨hout, hparent⟩
          exact hspent.find?_suspend script
        · rw [show ((m.step B).statusAt p _).stage = _ from hsweeping] at hin
          exact hin
      · exact Or.inl hmem
      · exact Or.inr (h.past hpast hleaving hidle)
    · refine (hfails' hmust).resolve_left fun hfail => h.keeps hmust ?_
      exact ⟨i, script, w, _, hat.focus, hat.control, hfail, hi⟩
  cases i with
  | reset block =>
    have hat' := hat.yields_reset (B := B)
    obtain rfl : s' = { (s.shelve w script).push .boundary with reports := [] } :=
      Option.some.inj (h.next.symm.trans hat'.scheduler)
    have hnext : (m.step B).stage p = .building w := stage_working hat'.control rfl
    refine h.shelved hq hstage hmine hunfinished (by rw [hnext]; simp)
      (hagain hshelved.boundary rfl rfl fun a hin => ?_) hfails'
    rw [hnext] at hin
    exact hin
  | splice nested =>
    have hat' := hat.yields_splice (B := B)
    obtain rfl := Option.some.inj (h.next.symm.trans hat'.scheduler)
    have hnext : (m.step B).stage p = .sweeping := stage_working hat'.control rfl
    have hgrows := (edits_scheduleChild (s.shelve w script).told .splice nested w).grows
    have hstride : Stride p ⟨.building w, (s.shelve w script).told, (m.realm p).captures⟩ _ :=
      .build (s.shelve w script).told w .splice nested (m.realm p).captures
    have hlinked : Linked (s.shelve w script).told.routines :=
      (edits_shelve s w script).linked h.linked ((h.room default).of_grows hgrows).slots
    rcases hstride.kinds hlinked (h.room default).slots with
      hbeside | ⟨_, _, _, hhead, -⟩ | ⟨_, _, _, _, hstep, -⟩ | hl | hi
    · obtain ⟨work, -, hlane⟩ := Lane.beside (x := ⟨.building w, (s.shelve w script).told, _⟩)
        (hshelved.again rfl rfl (fun _ _ hin => hin) hshelved.unremembered) hbeside hlinked h.room
      refine h.shelved hq hstage hmine hunfinished (by rw [hnext]; simp)
        (hagain (hlane.again rfl rfl (fun _ _ hin => hin) hlane.unremembered) rfl rfl
          fun a hin => ?_) hfails'
      rw [hnext] at hin
      exact hin
    · cases hhead
    · cases hstep
    · cases hl
    · cases hi
  | suspend => exact hsuspended (Or.inl rfl) ⟨_, hat.suspends⟩
  | await c => exact hsuspended (Or.inr ⟨c, rfl⟩) ⟨_, hat.awaits⟩
  | shift handler =>
    -- without a boundary above it, the whole sweep would be lifted
    obtain ⟨f, focus, t, hat', hpass, hstack, hstep⟩ := hat.shifts (B := B)
    obtain rfl := Option.some.inj (h.next.symm.trans hat'.scheduler)
    have hrest := hstands.lift_through List.not_mem_nil w script
    rw [show (⟨.stepping w, s, (m.realm p).captures⟩ : Status C).scheduler = s from rfl,
      ← hstack] at hrest
    rcases h.waits with hon | hnext
    · rw [Scheduler.onStack, List.contains_iff_mem] at hon
      exact absurd (hrest.subset hon) h.beneath
    · exact absurd ((stage_working hat'.control hpass).symm.trans hnext) (hstep z)

/-- A move of the sweep leaves the failure where it is found again. -/
theorem Sweeps.step (hw : Sweeping p z o rest left must m s) :
    Sweeping p z o rest left' must (m.step B) s' := by
  cases hw with
  | waiting hqueue hstage hfails => exact h.of_waiting hqueue hstage hfails
  | passing hqueue hstage hfails => exact h.of_passing hqueue hstage hfails
  | fed _ _ hoff => exact absurd (hoff.symm.trans h.here) Bool.false_ne_true
  | stopped hfocus => exact .stopped (by simp only [Machine.step, hfocus])
  | leaving hstage =>
    rcases h.stride.of_leaving hstage with hl | hi
    · exact .leaving hl
    · exact absurd hi (h.not_idle (by rw [hstage]; simp))
  | @stepping lane w L r carries hqueue hstage hmine hr hout hparent hbearing hfails =>
    by_cases hback : m.BackAt (.stepping p w :: .pass p :: L)
    · rcases hbearing.back hback with ⟨step, script, hfocus, hbears⟩ | ⟨payload, salvage, hfocus⟩
      · cases step with
        | done o' =>
          exact h.concluded hqueue hstage hmine hr (Or.inl ⟨script, hback.1, hfocus, h.found⟩)
            fun hmust => (hfails hmust).imp_left hbears
        | yield i =>
          exact h.yielded hqueue hstage hmine hr hout hparent ⟨hback.1, hfocus, h.found⟩ hbears.1
            hbears.2 hfails
      · by_cases hcatch : s.settings.catchPanics = true
        · exact h.concluded hqueue hstage hmine hr
            (Or.inr ⟨hcatch, payload, salvage, rfl, hback.1, hfocus, h.found⟩) fun _ => Or.inl rfl
        · -- the panic goes on to the pass
          refine .leaving ?_
          have hcatches : ({ m with control := .pass p :: L } : Machine C R).catches p = false := by
            show ((m.scheduler? p).map fun s => s.settings.catchPanics).getD false = false
            rw [h.found]
            simpa using hcatch
          rw [step_of_unwind hback.1 hfocus]
          simp only [unwindFrame, hcatches, Bool.false_eq_true, if_false]
          simp [stage, unwind, stageFrom, Frame.isPass, Above.stage]
    · exact h.of_stepping hqueue hstage hmine hr hout hparent hbearing hfails hback

end Sweep

/-! ### From the end of a routine on -/

variable {P : RoutineId} {i j : Nat}

/-- What is on the stack by move `t` on account of `P`, which finishes at `m`: what `P` has
    left there, and what those have left there in their turn that have finished since. -/
inductive LeftBy (B : Behavior C R) (p : Nat) (P : RoutineId) (m : Machine C R) :
    Nat → RoutineId → Prop
  | first {K : List (Frame C R)} {s : Scheduler C} {o : Outcome Value} {a : RoutineId} {t : Nat}
      (hfin : Finishes p K P o s m) (hleaves : s.Leaves P a) : LeftBy B p P m (t + 1) a
  | later {K : List (Frame C R)} {s : Scheduler C} {o : Outcome Value} {w a : RoutineId} {i t : Nat}
      (hleft : LeftBy B p P m i w) (hfin : Finishes p K w o s (after B i m)) (hleaves : s.Leaves w a)
      (hlt : i < t) : LeftBy B p P m t a

/-- The sweep of `P` lasts up to move `j`: its result waits on the stack, and nobody comes
    in between. -/
structure Lasts (B : Behavior C R) (p : Nat) (P : RoutineId) (m : Machine C R) (j : Nat) :
    Prop where
  waits : ∀ t, 0 < t → t < j → ∀ s, (after B t m).scheduler? p = some s →
    s.onStack P.next = true
  quiet : ∀ t, 0 < t → t < j → (after B t m).Undisturbed B p (LeftBy B p P m t)

/-- The script behind the forced return of `w` ends in a failure. -/
def CleanupFails (p : Nat) (w : RoutineId) (m : Machine C R) : Prop :=
  ∃ progress F L onward, ExitFrames F ∧
    m.control = .inExit progress :: (F ++ .stepping p w :: .pass p :: L) ∧
    m.focus = .release [] onward ∧
    ((∃ e inner, onward = .give (.stepped (.done (.failure e)) inner)) ∨
      ∃ payload salvage, onward = .unwind payload salvage)

theorem LeftBy.mono {t : Nat} (h : LeftBy B p P m t a) : LeftBy B p P m (t + 1) a := by
  cases h with
  | first hfin hleaves => exact .first hfin hleaves
  | later hleft hfin hleaves hlt => exact .later hleft hfin hleaves (Nat.lt_succ_of_lt hlt)

theorem LeftBy.of_succ {t : Nat} (h : LeftBy B p P m (t + 1) a) (ht : 0 < t) :
    LeftBy B p P m t a ∨ ∃ K s o w, LeftBy B p P m t w ∧ Finishes p K w o s (after B t m) ∧
      s.Leaves w a := by
  cases h with
  | first hfin hleaves =>
    obtain ⟨u, rfl⟩ := Nat.exists_eq_succ_of_ne_zero ht.ne'
    exact Or.inl (.first hfin hleaves)
  | @later K s o w _ i _ hleft hfin hleaves hlt =>
    rcases Nat.lt_succ_iff_lt_or_eq.mp hlt with hbefore | rfl
    · exact Or.inl (.later hleft hfin hleaves hbefore)
    · exact Or.inr ⟨K, s, o, w, hleft, hfin, hleaves⟩

/-- The scheduler of the pass is there all the time, with room for its routines. -/
theorem between {s t : Scheduler C} (hs : m.scheduler? p = some s)
    (ht : (after B j m).scheduler? p = some t) (hroom : ∀ a, t.routines.Ample a) (hij : i ≤ j) :
    ∃ u, (after B i m).scheduler? p = some u ∧ ∀ a, u.routines.Ample a := by
  have hbefore : Later B m (after B i m) := Reaches.later (p := p) ⟨i, rfl, rfl⟩
  have hsince : Later B (after B i m) (after B j m) := by
    refine Reaches.later (p := p) ⟨j - i, ?_, rfl⟩
    rw [← after_add, Nat.add_sub_cancel' hij]
  obtain ⟨u, hu⟩ := hbefore.scheduler_between hsince hs ht
  exact ⟨u, hu, fun a => (hroom a).of_grows (hsince.grows hu ht)⟩

/-- When a routine has finished with live children, its sweep begins. -/
theorem Finishes.sweeping {K : List (Frame C R)} (hm : Reachable B m) (hfin : Finishes p K P o s m)
    (hkeeps : s.keepsResult P = true) (hs' : (m.step B).scheduler? p = some s')
    (hroom : ∀ a, s'.routines.Ample a) :
    Sweeping p P.next o s.stack (LeftBy B p P m 1) False (m.step B) s' ∧
      .routine P.next ∉ s.stack := by
  have hs := hfin.scheduler
  have hmove : Later B m (m.step B) := .step .refl
  have hroom₀ : ∀ a, s.routines.Ample a := fun a => (hroom a).of_grows (hmove.grows hs hs')
  have hl := hm.linked hs (hroom₀ default).slots
  obtain ⟨r, hr, hchildren⟩ : ∃ r, s.routines.find? P = some r ∧ r.children ≠ [] := by
    unfold keepsResult at hkeeps
    split at hkeeps
    · next r hr => exact ⟨r, hr, by simpa using hkeeps⟩
    · cases hkeeps
  obtain ⟨script, hat⟩ := hfin.concludes (B := B)
  obtain rfl : s' = { s.conclude P script o with reports := [] } :=
    Option.some.inj (hs'.symm.trans hat.scheduler)
  have hroom' : ∀ a, (s.conclude P script o).routines.Ample a := hroom
  have hsweeping : (m.step B).stage p = .sweeping := stage_working hat.control rfl
  obtain ⟨new, hstack, -, hrests, hids, hnodup, hkept⟩ :=
    conclude_leaves hl (hroom₀ default).slots hr script o
  obtain ⟨front, hfront⟩ := hkept hchildren
  obtain ⟨lost, hposted⟩ := hm.posted hs hroom₀
  obtain ⟨lost', hposted'⟩ := (hm.later hmove).posted hs' hroom
  -- what is left on the stack has not been there before
  have hfresh : ∀ a, s.Leaves P a → .routine a ∉ s.stack := by
    intro a hleaves hmem
    have hplace : a ∈ routinesOf s.stack := List.mem_filterMap.mpr ⟨_, hmem, rfl⟩
    exact hleaves.not_issued hl (hroom₀ default).slots script o (hroom' a)
      (hposted.issued 0 a (List.mem_append_left _ (List.mem_append_left _
        (List.mem_append_left _ hplace))))
  have hin : ∀ i ∈ new, .routine i.1 ∈ new.map Item.entry := fun i hi => List.mem_map_of_mem hi
  have hlane : Lane [] new s.stack
      ((m.step B).statusAt p { s.conclude P script o with reports := [] }) := by
    refine ⟨hstack, fun i hi => (hrests i hi).1.congr rfl, fun i hi => (hrests i hi).2,
      fun _ _ => List.not_mem_nil, hnodup, fun i _ hhand => ?_, fun i hi => ?_⟩
    · rw [show ((m.step B).statusAt p _).stage = _ from hsweeping] at hhand
      exact hhand
    · obtain ⟨y, hy, -⟩ := (hrests i hi).1
      refine hposted'.not_original hy (List.mem_append_left _ ?_)
      show i.1 ∈ routinesOf (s.conclude P script o).stack
      rw [hstack, routinesOf_append]
      exact List.mem_append_left _ (List.mem_filterMap.mpr ⟨i.entry, hin i hi, rfl⟩)
  refine ⟨.waiting ⟨hlane, ⟨front, hfront⟩, fun i hi => ?_, fun a ha => ?_⟩
    (by rw [hsweeping]; simp) False.elim, hfresh _ ⟨r, hr, hchildren, Or.inl rfl⟩⟩
  · exact .first hfin ((hids i.1).mp (List.mem_map_of_mem hi))
  · refine Or.inr (Or.inl ((hids a).mpr ?_))
    cases ha with
    | first hfin' hleaves =>
      obtain rfl := Option.some.inj (hs.symm.trans hfin'.scheduler)
      exact hleaves
    | later hleft _ _ hlt =>
      obtain rfl := Nat.lt_one_iff.mp hlt
      generalize hzero : 0 = n at hleft
      cases hleft with
      | first => cases hzero
      | later _ _ _ hlt => omega

theorem LeftBy.pos {t : Nat} (h : LeftBy B p P m t a) : 0 < t := by
  cases h with
  | first => exact Nat.succ_pos _
  | later _ _ _ hlt => exact Nat.zero_lt_of_lt hlt

section Run

variable {K L : List (Frame C R)} {v : Scheduler C} {script : Script C} {input : Outcome Value}
  (hm : Reachable B m) (hfin : Finishes p K P o s m) (hkeeps : s.keepsResult P = true)
  (hlasts : Lasts B p P m j)
  (hat : At p L [.stepping p P.next] (.advance script input) v (after B j m))
  (hroom : ∀ a, v.routines.Ample a)
include hm hfin hkeeps hlasts hat hroom

/-- A move of a sweep that lasts until the result is fed that was kept back. -/
theorem sweeps_of_lasts {t : Nat} {u u' : Scheduler C} (ht : 0 < t) (htj : t < j)
    (hu : (after B t m).scheduler? p = some u) (hu' : (after B (t + 1) m).scheduler? p = some u')
    (hroom' : ∀ a, u'.routines.Ample a) (hmust : must → ¬ (after B t m).ForgetsFailure p) :
    Sweeps B p P.next s.stack (LeftBy B p P m t) (LeftBy B p P m (t + 1)) must (after B t m) u u' where
  reach := hm.later (Reaches.later (p := p) ⟨t, rfl, rfl⟩)
  found := hu
  next := by rwa [← after_succ]
  room := hroom'
  here := hlasts.waits t ht htj u hu
  waits := by
    rcases Nat.lt_or_eq_of_le htj with hlt | rfl
    · exact Or.inl (hlasts.waits (t + 1) (Nat.succ_pos t) hlt u' hu')
    · rw [← after_succ]
      exact Or.inr (stage_working hat.control rfl)
  beneath := by
    obtain ⟨u₁, hu₁, hroom₁⟩ := between hfin.scheduler hat.scheduler hroom
      (Nat.succ_le_of_lt (ht.trans htj))
    exact (hfin.sweeping hm hkeeps hu₁ hroom₁).2
  quiet := hlasts.quiet t ht htj
  keeps := hmust
  mono := fun _ ha => ha.mono
  adds := fun hleft hfin' hleaves => .later hleft hfin' hleaves (Nat.lt_succ_self t)
  added := by
    intro a ha
    refine (ha.of_succ ht).imp_right fun ⟨K, u₁, o', w, hleft, hfin', hleaves⟩ => ?_
    obtain rfl := Option.some.inj (hu.symm.trans hfin'.scheduler)
    exact ⟨K, w, o', hleft, hfin', hleaves⟩

/-- Along a sweep that lasts, the failure stays where it is found again. -/
theorem sweeping_run {t : Nat} (hi : 0 < i) (hit : i ≤ t) (htj : t ≤ j)
    (hmust : must → ∀ k, i ≤ k → k < j → ¬ (after B k m).ForgetsFailure p)
    (hstart : ∀ u, (after B i m).scheduler? p = some u →
      Sweeping p P.next o s.stack (LeftBy B p P m i) must (after B i m) u) :
    ∀ u, (after B t m).scheduler? p = some u →
      Sweeping p P.next o s.stack (LeftBy B p P m t) must (after B t m) u := by
  induction t, hit using Nat.le_induction with
  | base => exact hstart
  | succ t hit ih =>
    intro u' hu'
    obtain ⟨u, hu, -⟩ := between hfin.scheduler hat.scheduler hroom (Nat.le_of_lt htj)
    obtain ⟨u₁, hu₁, hroom₁⟩ := between hfin.scheduler hat.scheduler hroom htj
    obtain rfl := Option.some.inj (hu'.symm.trans hu₁)
    have hmoves := sweeps_of_lasts hm hfin hkeeps hlasts hat hroom (hi.trans_le hit) htj hu hu'
      hroom₁ fun hmust' => hmust hmust' t hit htj
    rw [after_succ]
    exact hmoves.step (ih (Nat.le_of_lt htj) u hu)

/-- A failure in a clean-up is not lost. A routine finishes with live children, and its
    result is kept back until their clean-ups are through, and those of their children. If
    one of them fails, then what is delivered in the end is a failure, unless a forced
    return suspends that has one on record. -/
theorem exit_failure_kept (hleft : LeftBy B p P m i w) (hfails : CleanupFails p w (after B i m))
    (hij : i < j) (hkept : ∀ t, i ≤ t → t < j → ¬ (after B t m).ForgetsFailure p) :
    script = .settled o ∧ ∃ e, At p L [.stepping p P.next] (.release (lostValue input)
      (.give (.stepped (.done (.failure e)) (.settled o)))) v (after B (j + 1) m) := by
  obtain ⟨u, hu, -⟩ := between hfin.scheduler hat.scheduler hroom (Nat.le_of_lt hij)
  obtain ⟨u₁, hu₁, hroom₁⟩ := between hfin.scheduler hat.scheduler hroom
    (Nat.succ_le_of_lt (hleft.pos.trans hij))
  -- up to the failure, the routines of the sweep are just followed
  have hbefore : Sweeping p P.next o s.stack (LeftBy B p P m i) False (after B i m) u := by
    refine sweeping_run hm hfin hkeeps hlasts hat hroom Nat.one_pos hleft.pos (Nat.le_of_lt hij)
      False.elim (fun x hx => ?_) u hu
    obtain rfl := Option.some.inj (hx.symm.trans hu₁)
    exact (hfin.sweeping hm hkeeps hu₁ hroom₁).1
  have hnow : Sweeping p P.next o s.stack (LeftBy B p P m i) True (after B i m) u := by
    obtain ⟨progress, F, L', onward, hF, hcontrol, hfocus, hends⟩ := hfails
    have hord : (after B i m).Ordered p :=
      ((hm.later (Reaches.later (p := p) ⟨i, rfl, rfl⟩)).ordered hu).1
    have hstage : (after B i m).stage p = .stepping w := by
      refine hord.stage_of_suffix (f := .stepping p w) (L := L') ?_ rfl
      rw [hcontrol]
      exact (List.suffix_append _ _).trans (List.suffix_cons _ _)
    cases hbefore with
    | waiting hqueue => exact absurd hstage (hqueue.not_stepping hleft)
    | passing hqueue => exact absurd hstage (hqueue.not_stepping hleft)
    | fed hcontrol' => cases hcontrol.symm.trans hcontrol'
    | leaving hleaving => cases hleaving.symm.trans hstage
    | stopped haborted => cases haborted.symm.trans hfocus
    | @stepping lane w' L'' r carries hqueue hstage' hmine hr hout hparent hbearing _ =>
      obtain rfl : w' = w := PassStage.stepping.inj (hstage'.symm.trans hstage)
      exact .stepping True hqueue hstage hmine hr hout hparent
        (.ended hF hcontrol hfocus hends) fun _ => Or.inl trivial
  have hthen : Sweeping p P.next o s.stack (LeftBy B p P m j) True (after B j m) v := by
    refine sweeping_run hm hfin hkeeps hlasts hat hroom hleft.pos (Nat.le_of_lt hij) le_rfl
      (fun _ => hkept) (fun x hx => ?_) v hat.scheduler
    obtain rfl := Option.some.inj (hx.symm.trans hu)
    exact hnow
  have hstage : (after B j m).stage p = .stepping P.next := stage_working hat.control rfl
  have hwaits {hand : List RoutineId} {above : List StackEntry} {lane : List (Item C)}
      (hqueue : Queued p P.next o s.stack (LeftBy B p P m j) (after B j m) v hand above lane) :
      False := by
    obtain ⟨front, hfront⟩ := hqueue.ends
    refine hqueue.stands.offHand (P.next, .settled o) (by simp [hfront]) ?_
    rw [show ((after B j m).statusAt p v).stage = _ from hstage]
    rfl
  cases hthen with
  | waiting hqueue => exact (hwaits hqueue).elim
  | passing hqueue => exact (hwaits hqueue).elim
  | stepping _ hqueue => exact (hwaits hqueue).elim
  | leaving hleaving => cases hleaving.symm.trans hstage
  | stopped haborted => cases haborted.symm.trans hat.focus
  | fed _ hfocus _ hcarried =>
    cases hat.focus.symm.trans hfocus
    refine ⟨rfl, ?_⟩
    have hsettled := hat.settles (B := B)
    rw [← after_succ] at hsettled
    have hfailure : (settledResult o input).isSuccess = false := by
      cases input with
      | failure e => rfl
      | success v => exact (hcarried trivial).resolve_left (by simp [Outcome.isSuccess])
    cases hresult : settledResult o input with
    | failure e => exact ⟨e, hresult ▸ hsettled⟩
    | success v => simp [hresult, Outcome.isSuccess] at hfailure

end Run

/-! ### Checks on a run -/

/-- Whether a pass is still between the same two steps, or at the same step. -/
def goesOn : PassStage C → PassStage C → Bool
  | .head, .head | .sweeping, .sweeping => true
  | .stepping a, .stepping b => a = b
  | _, _ => false

/-- The result that `z` keeps back is on the stack, and nobody comes in between. -/
def keepsBack? (B : Behavior C R) (p : Nat) (z : RoutineId) (m : Machine C R) : Bool :=
  match m.scheduler? p, (m.step B).scheduler? p with
  | some s, some s' =>
    s.onStack z && (!goesOn (m.stage p) ((m.step B).stage p) || s'.stack = s.stack)
  | some s, none => s.onStack z
  | none, _ => true

theorem Lasts.of_lasting {k : Nat} (h : lasting B (keepsBack? B p P.next) k (m.step B) = true) :
    Lasts B p P m (k + 1) := by
  have hcheck : ∀ t, 0 < t → t < k + 1 → keepsBack? B p P.next (after B t m) = true := by
    intro t ht htk
    obtain ⟨u, rfl⟩ := Nat.exists_eq_succ_of_ne_zero ht.ne'
    exact check_of_lasting h u (Nat.lt_of_succ_lt_succ htk)
  constructor
  · intro t ht htk s hs
    have hnow := hcheck t ht htk
    simp only [keepsBack?, hs] at hnow
    split at hnow
    · next heq _ =>
      cases heq
      exact (Bool.and_eq_true_iff.mp hnow).1
    · next heq _ =>
      cases heq
      exact hnow
    · next heq => cases heq
  · intro t ht htk s s' hs hs' hsame hstage
    have hnow := hcheck t ht htk
    simp only [keepsBack?, hs, hs'] at hnow
    obtain ⟨-, hstack⟩ := Bool.and_eq_true_iff.mp hnow
    have hgoes : goesOn ((after B t m).stage p) (((after B t m).step B).stage p) = true := by
      rw [hsame]
      rcases hstage with hσ | hσ | ⟨a, hσ, -⟩ <;> rw [hσ] <;> simp [goesOn]
    simpa [hgoes] using hstack

/-- A forced return suspends that has a failure on record. -/
def forgets? (p : Nat) (m : Machine C R) : Bool :=
  match m.focus, m.control with
  | .release [] (.give (.stepped (.yield .suspend) script)), .stepping q _ :: _
  | .release [] (.give (.stepped (.yield (.await _)) script)), .stepping q _ :: _ =>
    q = p && script.fails
  | _, _ => false

theorem not_forgetsFailure (h : m.forgets? p = false) : ¬ m.ForgetsFailure p := by
  rintro ⟨i, script, a, L, hfocus, hcontrol, hfails, rfl | ⟨c, rfl⟩⟩
  all_goals simp [forgets?, hfocus, hcontrol, hfails] at h

/-- The forced return whose clean-up fails. -/
def failingCleanup? (p : Nat) (m : Machine C R) : Option RoutineId :=
  match m.control, m.focus with
  | .inExit _ :: .holding _ :: .stepping q w :: .pass q' :: _,
      .release [] (.give (.stepped (.done (.failure _)) _)) =>
    if q = p ∧ q' = p then some w else none
  | _, _ => none

theorem cleanupFails_of_check (h : m.failingCleanup? p = some w) : CleanupFails p w m := by
  unfold failingCleanup? at h
  split at h
  · next progress hs q w' q' L e inner hcontrol hfocus =>
    split at h
    · next hq =>
      obtain ⟨rfl, rfl⟩ := hq
      cases h
      exact ⟨progress, [.holding hs], L, _, Or.inr ⟨hs, rfl⟩, hcontrol, hfocus,
        Or.inl ⟨e, inner, rfl⟩⟩
    · cases h
  · cases h

/-- The script that is about to be fed, and what it is fed. -/
def feeds? (p : Nat) (m : Machine C R) : Option (RoutineId × Script C × Outcome Value) :=
  match m.control, m.focus with
  | .stepping q a :: .pass q' :: _, .advance script input =>
    if q = p ∧ q' = p then some (a, script, input) else none
  | _, _ => none

theorem at_of_feeds? {script : Script C} {input : Outcome Value}
    (h : m.feeds? p = some (a, script, input)) (hs : m.scheduler? p = some s) :
    ∃ L, At p L [.stepping p a] (.advance script input) s m := by
  unfold feeds? at h
  split at h
  · next q a' q' L script' input' hcontrol hfocus =>
    split at h
    · next hq =>
      obtain ⟨rfl, rfl⟩ := hq
      cases h
      exact ⟨L, hcontrol, hfocus, hs⟩
    · cases h
  · cases h

/-- The routine that finishes keeps its result back, and child `c` has to exit. -/
def sweeps? (c : RoutineId) (x : Finish C R) : Bool :=
  match x.scheduler.routines.find? x.id, x.scheduler.routines.find? c with
  | some r, some y => r.children.contains c && y.script.isSome
  | _, _ => false

theorem of_sweeps? {c : RoutineId} {x : Finish C R} (h : sweeps? c x = true) :
    x.scheduler.keepsResult x.id = true ∧ x.scheduler.Leaves x.id c.next := by
  unfold sweeps? at h
  split at h
  · next r y hr hy =>
    obtain ⟨hmem, hscript⟩ := Bool.and_eq_true_iff.mp h
    have hc : c ∈ r.children := List.contains_iff_mem.mp hmem
    have hsome : r.children ≠ [] := List.ne_nil_of_mem hc
    exact ⟨by simp [keepsResult, hr, hsome],
      r, hr, hsome, Or.inr ⟨c, hc, ⟨y, hy, Option.isSome_iff_ne_none.mp hscript⟩, rfl⟩⟩
  · cases h

/-- The number that a script keeps back. -/
def keptInt? : Script C → Option Int64
  | .settled o => o.int?
  | _ => none

theorem eq_of_keptInt? {script : Script C} {n : Int64} (h : keptInt? script = some n) :
    script = .settled (.success (.int n)) := by
  cases script with
  | settled o => exact congrArg Script.settled (Outcome.int?_eq_some h)
  | _ => cases h

/-- What these checks of a run say: a routine finishes, and the clean-up of its child `c`
    fails while its sweep lasts. -/
theorem sweep_of_checks {c : RoutineId} {n : Int64} {k : Nat} (hm : Reachable B m)
    (hfinish : (m.finish? p).map (fun x => (x.id, x.outcome.int?, sweeps? c x)) =
      some (P, some n, true))
    (hfails : (after B (i + 1) m).failingCleanup? p = some c.next)
    (hlasts : lasting B (keepsBack? B p P.next) k (m.step B) = true) :
    ∃ K s, Finishes p K P (.success (.int n)) s m ∧ s.keepsResult P = true ∧
      LeftBy B p P m (i + 1) c.next ∧ CleanupFails p c.next (after B (i + 1) m) ∧
      Lasts B p P m (k + 1) := by
  obtain ⟨x, hx, hsame⟩ := Option.map_eq_some_iff.mp hfinish
  obtain ⟨rfl, houtcome, hsweeps⟩ := by simpa only [Prod.mk.injEq] using hsame
  obtain ⟨hkeeps, hleaves⟩ := of_sweeps? hsweeps
  have hfin := (of_finish? hx hm).1
  refine ⟨x.frames, x.scheduler, ?_, hkeeps, .first hfin hleaves, cleanupFails_of_check hfails,
    .of_lasting hlasts⟩
  rwa [← Outcome.int?_eq_some houtcome]

end Machine

open Machine Strand.Language in
/-- A root that leaves two sleeping children behind. The clean-up of the second one fails,
    and the first one cleans up as given. -/
def cleaning (cleanup : List Term) : Machine Code Running :=
  let script stages onExit := Term.apply (.staged (stages.map .onSuccess) onExit) []
  let suspend := Term.apply .suspend []
  let failing := Term.apply .raise [.mk .any (.literal (.text "late"))]
  let first := Term.apply (.custom (.mk [suspend] cleanup none none)) []
  let second := script [suspend] (some failing)
  let root := script [.apply (.reset first) [], .apply (.reset second) [],
    .apply .done [.mk .outcome (.literal (.int 5))]] none
  Program.machine [] .empty
    (.apply (.evaluate root) [.mk (.type .scheduler) (.apply (.newScheduler {}) [])])

open Machine Strand.Language in
/-- Where a clean-up resets a sleeping block, the failure passes it, and 83 moves after the
    root has finished it comes to the result that was kept back. -/
theorem exit_failure_kept_resetting :
    let asleep := Term.apply (.staged [.onSuccess (.apply .suspend [])] none) []
    let run := after behavior 96 (cleaning [.apply (.reset asleep) []])
    ∃ K s L v input e, Finishes 0 K ⟨0, 0⟩ (.success (.int 5)) s run ∧
      CleanupFails 0 ⟨2, 1⟩ (after behavior 18 run) ∧
      At 0 L [.stepping 0 ⟨0, 1⟩] (.release (lostValue input)
        (.give (.stepped (.done (.failure e)) (.settled (.success (.int 5)))))) v
        (after behavior 84 run) := by
  intro asleep run
  obtain ⟨m, hrun⟩ : ∃ m, m = run := ⟨_, rfl⟩
  have hm : Reachable behavior m := by
    rw [hrun]
    exact ⟨_, Reaches.later (p := 0) ⟨96, rfl, rfl⟩⟩
  have hfinish : (m.finish? 0).map (fun x => (x.id, x.outcome.int?, sweeps? ⟨2, 0⟩ x)) =
      some (⟨0, 0⟩, some 5, true) := by
    rw [hrun]
    decide +kernel
  have hfails : (after behavior 18 m).failingCleanup? 0 = some ⟨2, 1⟩ := by
    rw [hrun]
    decide +kernel
  have hlasts : lasting behavior (keepsBack? behavior 0 ⟨0, 1⟩) 82 (m.step behavior) = true := by
    rw [hrun]
    decide +kernel
  have hkept : lasting behavior (fun n => !n.forgets? 0) 83 m = true := by
    rw [hrun]
    decide +kernel
  have hfed : ((after behavior 83 m).feeds? 0).map Prod.fst = some ⟨0, 1⟩ := by
    rw [hrun]
    decide +kernel
  have hyoung : ((after behavior 83 m).scheduler? 0).map (fun v => v.routines.young) =
      some true := by
    rw [hrun]
    decide +kernel
  obtain ⟨K, s, hfin, hkeeps, hleft, hfailing, hlast⟩ :=
    sweep_of_checks (i := 17) (c := ⟨2, 0⟩) hm hfinish hfails hlasts
  obtain ⟨⟨a, script, input⟩, hfeeds, rfl⟩ := Option.map_eq_some_iff.mp hfed
  obtain ⟨v, hv, hroom⟩ := Option.map_eq_some_iff.mp hyoung
  obtain ⟨L, hat⟩ := at_of_feeds? hfeeds hv
  obtain ⟨rfl, e, hdelivers⟩ := exit_failure_kept hm hfin hkeeps hlast hat
    (Roster.ample_of_young hroom) hleft hfailing (by decide) fun t _ ht =>
      not_forgetsFailure (by simpa using check_of_lasting hkept t ht)
  rw [← hrun]
  exact ⟨K, s, L, v, input, e, hfin, hfailing, hdelivers⟩

open Machine Strand.Language in
/-- Where a clean-up suspends, its forced return is freed, and the failure is lost that it
    has on record. The result that was kept back is delivered. -/
theorem exit_failure_lost :
    let run := after behavior 96 (cleaning [.apply .suspend []])
    ∃ K s, Finishes 0 K ⟨0, 0⟩ (.success (.int 5)) s run ∧ s.keepsResult ⟨0, 0⟩ = true ∧
      LeftBy behavior 0 ⟨0, 0⟩ run 18 ⟨2, 1⟩ ∧ CleanupFails 0 ⟨2, 1⟩ (after behavior 18 run) ∧
      Lasts behavior 0 ⟨0, 0⟩ run 40 ∧
      ∃ L v input, At 0 L [.stepping 0 ⟨0, 1⟩] (.release (lostValue input)
        (.give (.stepped (.done (.success (.int 5))) (.settled (.success (.int 5)))))) v
        (after behavior 41 run) := by
  intro run
  obtain ⟨m, hrun⟩ : ∃ m, m = run := ⟨_, rfl⟩
  have hm : Reachable behavior m := by
    rw [hrun]
    exact ⟨_, Reaches.later (p := 0) ⟨96, rfl, rfl⟩⟩
  have hfinish : (m.finish? 0).map (fun x => (x.id, x.outcome.int?, sweeps? ⟨2, 0⟩ x)) =
      some (⟨0, 0⟩, some 5, true) := by
    rw [hrun]
    decide +kernel
  have hfails : (after behavior 18 m).failingCleanup? 0 = some ⟨2, 1⟩ := by
    rw [hrun]
    decide +kernel
  have hlasts : lasting behavior (keepsBack? behavior 0 ⟨0, 1⟩) 39 (m.step behavior) = true := by
    rw [hrun]
    decide +kernel
  have hfed : ((after behavior 40 m).feeds? 0).map
      (fun x => (x.1, keptInt? x.2.1, x.2.2.isSuccess)) = some (⟨0, 1⟩, some 5, true) := by
    rw [hrun]
    decide +kernel
  have hthere : ((after behavior 40 m).scheduler? 0).isSome = true := by
    rw [hrun]
    decide +kernel
  obtain ⟨K, s, hfin, hkeeps, hleft, hfailing, hlast⟩ :=
    sweep_of_checks (i := 17) (c := ⟨2, 0⟩) hm hfinish hfails hlasts
  obtain ⟨⟨a, script, input⟩, hfeeds, hsame⟩ := Option.map_eq_some_iff.mp hfed
  obtain ⟨rfl, hscript, hsuccess⟩ := by simpa only [Prod.mk.injEq] using hsame
  obtain rfl := eq_of_keptInt? hscript
  obtain ⟨v, hv⟩ := Option.isSome_iff_exists.mp hthere
  obtain ⟨L, hat⟩ := at_of_feeds? hfeeds hv
  rw [← hrun]
  refine ⟨K, s, hfin, hkeeps, hleft, hfailing, hlast, L, v, input, ?_⟩
  have hsettled := hat.settles (B := behavior)
  rw [← after_succ] at hsettled
  cases input with
  | success x => exact hsettled
  | failure e => cases hsuccess

end Strand
