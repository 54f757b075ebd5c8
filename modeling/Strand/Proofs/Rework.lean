import Strand.Proofs.Conclude

/-! # Rework — what operations of a scheduler leave alone

    Most of what a scheduler does rearranges its routines and its stack, retires scripts
    and writes reports. `Reworks` says that it has done nothing else, so that whatever is
    no matter of these four is as it was. -/

namespace Strand.Scheduler

variable {C : Type} {s t u : Scheduler C}

/-- Only the routines, the stack, the retired scripts and the reports are others. -/
def Reworks (s t : Scheduler C) : Prop :=
  ∃ routines stack retired reports, t = { s with routines, stack, retired, reports }

theorem Reworks.refl (s : Scheduler C) : Reworks s s := ⟨_, _, _, _, rfl⟩

theorem Reworks.trans (h : Reworks s t) (h' : Reworks t u) : Reworks s u := by
  obtain ⟨routines, stack, retired, reports, rfl⟩ := h
  obtain ⟨routines', stack', retired', reports', rfl⟩ := h'
  exact ⟨_, _, _, _, rfl⟩

theorem Reworks.register (h : Reworks s t) : t.register = s.register := by
  obtain ⟨_, _, _, _, rfl⟩ := h
  rfl

theorem Reworks.unhandled (h : Reworks s t) : t.unhandled = s.unhandled := by
  obtain ⟨_, _, _, _, rfl⟩ := h
  rfl

theorem reworks_foldl {α : Type} {f : Scheduler C → α → Scheduler C}
    (hf : ∀ s a, Reworks s (f s a)) (as : List α) (s : Scheduler C) :
    Reworks s (as.foldl f s) := by
  induction as generalizing s with
  | nil => exact .refl s
  | cons a as ih => exact (hf s a).trans (ih (f s a))

/-! ### Links -/

theorem reworks_modify (s : Scheduler C) (id : RoutineId) (f : Routine C → Routine C) :
    Reworks s (s.modify id f) := ⟨_, _, _, _, rfl⟩

theorem reworks_link (s : Scheduler C) (c : RoutineId) (parent : Option RoutineId) :
    Reworks s (s.link c parent) := by
  unfold link
  dsimp only
  split
  · exact (reworks_modify s _ _).trans (reworks_modify _ _ _)
  · exact reworks_modify _ _ _

theorem reworks_unlink (s : Scheduler C) (parent : Option RoutineId) (c : RoutineId) :
    Reworks s (s.unlink parent c) := by
  cases parent with
  | none => exact .refl s
  | some p => exact reworks_modify s p _

theorem reworks_addUnder (s : Scheduler C) (origin : Origin) (script : Script C)
    (parent : Option RoutineId) : Reworks s (s.addUnder origin script parent).2 :=
  Reworks.trans ⟨_, _, _, _, rfl⟩ (reworks_link _ _ parent)

/-! ### Scripts -/

theorem reworks_giveBack (s : Scheduler C) (id : RoutineId) (script : Script C) :
    Reworks s (s.giveBack id script) := by
  unfold giveBack
  split <;> exact ⟨_, _, _, _, rfl⟩

theorem reworks_shelve (s : Scheduler C) (id : RoutineId) (script : Script C) :
    Reworks s (s.shelve id script) := by
  unfold shelve
  split
  · exact (reworks_giveBack s id script).trans ⟨_, _, _, _, rfl⟩
  · exact ⟨_, _, _, _, rfl⟩

theorem reworks_liftFrom (stack : List StackEntry) (lifted : List (Lifted C)) (s : Scheduler C) :
    Reworks s (liftFrom stack lifted s).2 := by
  induction stack generalizing lifted s with
  | nil => exact ⟨_, _, _, _, rfl⟩
  | cons work stack ih =>
    cases work with
    | boundary => exact ⟨_, _, _, _, rfl⟩
    | routine id =>
      unfold liftFrom
      split
      · exact ih lifted s
      · split
        · exact ih lifted s
        · exact (reworks_modify s id _).trans (ih _ _)

theorem reworks_lift (s : Scheduler C) : Reworks s s.lift.2 :=
  (reworks_liftFrom s.stack [] s).trans ⟨_, _, _, _, rfl⟩

theorem reworks_giveBackAll (s : Scheduler C) (frames : List (Lifted C)) :
    Reworks s (s.giveBackAll frames) :=
  reworks_foldl (f := fun s (frame : Lifted C) => s.giveBack frame.id frame.script)
    (fun s frame => reworks_giveBack s frame.id frame.script) frames s

theorem reworks_plant (s : Scheduler C) (frames : List (FrameCopy C)) (copies : List (Script C)) :
    Reworks s (s.plant frames copies).2 := by
  have hcopies : ∀ (pairs : List (FrameCopy C × Script C)) (s : Scheduler C),
      Reworks s (addCopies pairs s).2 := by
    intro pairs
    induction pairs with
    | nil => exact Reworks.refl
    | cons pair pairs ih => exact fun s => Reworks.trans ⟨_, _, _, _, rfl⟩ (ih _)
  exact (hcopies _ s).trans
    (reworks_foldl (f := fun s (pair : FrameCopy C × RoutineId) =>
      s.link pair.2 (pair.1.parent.resolve _)) (fun s pair => reworks_link s pair.2 _) _ _)

/-! ### Removal -/

theorem reworks_freeAll (fuel : Nat) (pending : List RoutineId) (s : Scheduler C) :
    Reworks s (freeAll fuel pending s) := by
  induction fuel generalizing pending s with
  | zero => exact .refl s
  | succ fuel ih =>
    cases pending with
    | nil => exact .refl s
    | cons id pending =>
      unfold freeAll
      split
      · exact ih pending s
      · next r routines _ =>
        refine .trans ?_ (ih _ _)
        refine .trans ?_ (reworks_foldl (fun s c => reworks_link s c none) _ _)
        refine .trans ?_ (reworks_unlink _ _ _)
        split <;> exact ⟨_, _, _, _, rfl⟩

theorem reworks_free (s : Scheduler C) (id : RoutineId) : Reworks s (s.free id) :=
  reworks_freeAll _ _ s

theorem reworks_suspend (s : Scheduler C) (id : RoutineId) (script : Script C) :
    Reworks s (s.suspend id script) := by
  have hretired : Reworks s ((s.retire script).free id) :=
    Reworks.trans ⟨_, _, _, _, rfl⟩ (reworks_free _ id)
  unfold suspend
  split
  · split
    · exact reworks_giveBack s id script
    · exact hretired
  · exact hretired

theorem reworks_replaceByExit (s : Scheduler C) (c : RoutineId) :
    Reworks s (s.replaceByExit c).2 := by
  unfold replaceByExit
  split
  · exact .refl s
  · dsimp only
    split
    · exact Reworks.trans ⟨_, _, _, _, rfl⟩
        (reworks_foldl (fun s c => reworks_link s c none) _ _)
    · refine .trans ?_ (reworks_modify _ _ _)
      exact Reworks.trans ⟨_, _, _, _, rfl⟩ (reworks_foldl (fun s c => reworks_modify s c _) _ _)

theorem reworks_scheduleExit (s : Scheduler C) (c : RoutineId) : Reworks s (s.scheduleExit c) := by
  have hexit := reworks_replaceByExit s c
  unfold scheduleExit
  split <;> next heq =>
    rw [heq] at hexit
    first
      | exact hexit
      | exact hexit.trans ⟨_, _, _, _, rfl⟩

/-- A routine that has finished leaves its outcome in the register. -/
theorem reworks_conclude (s : Scheduler C) (id : RoutineId) (script : Script C)
    (o : Outcome Value) : ∃ t, Reworks s t ∧ s.conclude id script o = { t with register := o } := by
  cases hr : s.routines.remove id with
  | none =>
    rw [conclude_of_dead (Roster.remove_eq_none.mp hr)]
    exact ⟨s.retire script, ⟨_, _, _, _, rfl⟩, rfl⟩
  | some pair =>
    obtain ⟨r, routines⟩ := pair
    have hout : Reworks s (s.takenOut id r routines script o) :=
      Reworks.trans (t := { s.retire script with routines }.report (.finished r.origin id o.isSuccess))
        ⟨_, _, _, _, rfl⟩ (reworks_unlink _ _ _)
    by_cases hnone : r.children = []
    · rw [conclude_of_childless hr hnone]
      exact ⟨_, hout, rfl⟩
    · rw [conclude_of_children hr hnone]
      refine ⟨_, .trans ?_ (reworks_foldl (f := scheduleExit) reworks_scheduleExit _ _), rfl⟩
      have hkept : Reworks s (s.keptBack id r routines script o).2 :=
        (hout.trans ⟨_, _, _, _, rfl⟩).trans (reworks_addUnder _ .settled (.settled o) none)
      exact hkept.trans ⟨_, _, _, _, rfl⟩

/-- A sweep claims what has been unclaimed. -/
theorem reworks_freeUnclaimed (s : Scheduler C) :
    Reworks { s with unclaimed := [] } s.freeUnclaimed.2 := by
  have hfold : ∀ (ids : List RoutineId) (freed : Nat × Scheduler C),
      Reworks freed.2 (ids.foldl freeIfLost freed).2 := by
    intro ids
    induction ids with
    | nil => exact fun freed => .refl _
    | cons id ids ih =>
      intro freed
      refine .trans ?_ (ih _)
      unfold freeIfLost
      split
      · exact reworks_free _ id
      · exact .refl _
  exact hfold s.unclaimed (0, { s with unclaimed := [] })

end Strand.Scheduler
