import Strand.Proofs.Duties

/-! # Claims — the handles in a scheduler

    A scheduler holds handles in the scripts of its routines, in the register
    and in the retired scripts. `Scheduler.claims` counts one handle in all of
    these. Its operations move scripts and outcomes from one place to another,
    so what is claimed after an operation was claimed before, came in with the
    operation, or is handed out by it. A handle may get lost, but none is
    doubled: the register is replaced only together with what hands out its old
    contents. -/

namespace Strand

/-- An entry that is put in weighs at most what it weighs. -/
theorem Roster.total_insert_le {α : Type} (r : Roster α) (e : α) (g : α → Nat) :
    (r.insert e).2.total g ≤ r.total g + g e := by
  unfold insert
  split
  · next index vacant _ =>
    split
    · next slot hslot =>
      have hput := total_put { slot with entry := some e } vacant (r.size + 1) hslot g
      simp only [weight, Option.map_some, Option.getD_some] at hput
      show total ⟨r.slots.setIfInBounds index.toNat { slot with entry := some e }, vacant,
        r.size + 1⟩ g ≤ _
      omega
    · exact Nat.le_add_right _ _
  · rw [total_eq, total_eq]
    simp [weight]

namespace Scheduler

variable {C : Type} (held : C → List Handle) (x : Handle) (s : Scheduler C)

/-- How often a handle occurs in the script of a routine. -/
def scriptClaims (r : Routine C) : Nat := ((r.script.map (Script.handles held)).getD []).count x

/-- How often a handle occurs in a scheduler. -/
def claims : Nat :=
  s.routines.total (scriptClaims held x) +
    (s.register.handles.count x + (s.retired.flatMap (Script.handles held)).count x)

theorem count_handles : (s.handles held).count x = s.claims held x := by
  have hscripts : ∀ rs : List (Routine C),
      (rs.flatMap fun r => (r.script.map (Script.handles held)).getD []).count x =
        (rs.map (scriptClaims held x)).sum := by
    intro rs
    induction rs with
    | nil => rfl
    | cons r rs ih => rw [List.flatMap_cons, List.count_append, ih, List.map_cons, List.sum_cons]; rfl
  rw [handles, List.count_append, List.count_append, hscripts, claims, Roster.total, Nat.add_assoc]

/-! ### Links -/

theorem total_modify_of_same (r : Roster (Routine C)) (id : RoutineId) {f : Routine C → Routine C}
    (hf : ∀ r, (f r).script = r.script) :
    (r.modify id f).total (scriptClaims held x) = r.total (scriptClaims held x) := by
  cases hr : r.find? id with
  | none => exact Roster.modify_of_find?_eq_none hr f _
  | some y =>
    have hsame : scriptClaims held x (f y) = scriptClaims held x y := by
      rw [scriptClaims, hf, scriptClaims]
    have htotal := Roster.total_modify hr f (scriptClaims held x)
    omega

/-- Links hold nothing. -/
theorem claims_modify (id : RoutineId) {f : Routine C → Routine C}
    (hf : ∀ r, (f r).script = r.script) : (s.modify id f).claims held x = s.claims held x := by
  simp only [claims, modify, total_modify_of_same held x s.routines id hf]

theorem claims_link (c : RoutineId) (parent : Option RoutineId) :
    (s.link c parent).claims held x = s.claims held x := by
  unfold link
  dsimp only
  rw [claims_modify]
  · split
    · rw [claims_modify]
      exact fun _ => rfl
    · rfl
  · exact fun _ => rfl

theorem claims_unlink (parent : Option RoutineId) (c : RoutineId) :
    (s.unlink parent c).claims held x = s.claims held x := by
  unfold unlink
  split
  · rw [claims_modify]
    exact fun _ => rfl
  · rfl

/-- Whatever is done to one routine after the other leaves the claims alone, if
    each time does. -/
theorem claims_foldl {α : Type} (f : Scheduler C → α → Scheduler C)
    (hf : ∀ s a, (f s a).claims held x = s.claims held x) (as : List α) (s : Scheduler C) :
    (as.foldl f s).claims held x = s.claims held x := by
  induction as generalizing s with
  | nil => rfl
  | cons a as ih => exact (ih (f s a)).trans (hf s a)

/-! ### Scripts -/

theorem claims_retire (script : Script C) :
    (s.retire script).claims held x = s.claims held x + (script.handles held).count x := by
  simp only [claims, retire, List.flatMap_append, List.flatMap_singleton, List.count_append]
  omega

theorem claims_add (origin : Origin) (script : Script C) :
    (s.add origin script).2.claims held x ≤ s.claims held x + (script.handles held).count x := by
  have htotal := s.routines.total_insert_le ⟨origin, some script, none, []⟩ (scriptClaims held x)
  have hscript : scriptClaims held x ⟨origin, some script, none, []⟩ =
      (script.handles held).count x := rfl
  simp only [claims, add]
  omega

theorem claims_addUnder (origin : Origin) (script : Script C) (parent : Option RoutineId) :
    (s.addUnder origin script parent).2.claims held x ≤
      s.claims held x + (script.handles held).count x :=
  Nat.le_trans (Nat.le_of_eq (claims_link held x (s.add origin script).2 _ parent))
    (claims_add held x s origin script)

/-- The script of a live routine is taken out. -/
theorem claims_takeOut {id : RoutineId} {r : Routine C} (hr : s.routines.find? id = some r) :
    (s.modify id fun r => { r with script := none }).claims held x + scriptClaims held x r =
      s.claims held x := by
  have htotal := Roster.total_modify hr (fun r => { r with script := none }) (scriptClaims held x)
  have hnone : scriptClaims held x { r with script := none } = 0 := rfl
  show (s.routines.modify id _).total _ + _ + _ = s.routines.total _ + _
  simp only [modify]
  omega

theorem claims_giveBack (id : RoutineId) (script : Script C) :
    (s.giveBack id script).claims held x ≤ s.claims held x + (script.handles held).count x := by
  unfold giveBack
  split
  · next hlive =>
    obtain ⟨r, hr⟩ := Roster.contains_iff.mp hlive
    have htotal := Roster.total_modify hr (fun r => { r with script := some script })
      (scriptClaims held x)
    have hscript : scriptClaims held x { r with script := some script } =
        (script.handles held).count x := rfl
    show (s.routines.modify id _).total _ + _ ≤ s.routines.total _ + _ + _
    simp only [modify]
    omega
  · exact Nat.le_of_eq (claims_retire held x s script)

theorem claims_shelve (id : RoutineId) (script : Script C) :
    (s.shelve id script).claims held x ≤ s.claims held x + (script.handles held).count x := by
  unfold shelve
  split
  · exact claims_giveBack held x s id script
  · exact Nat.le_of_eq (claims_retire held x s script)

/-- A routine that is removed takes its script with it. -/
theorem claims_remove {id : RoutineId} {r : Routine C} {routines : Roster (Routine C)}
    (h : s.routines.remove id = some (r, routines)) :
    ({ s with routines } : Scheduler C).claims held x + scriptClaims held x r = s.claims held x := by
  have htotal := Roster.total_remove h (scriptClaims held x)
  show routines.total _ + _ + _ = s.routines.total _ + _
  dsimp only
  omega

/-! ### Picking and lifting -/

theorem claims_pickFrom (stack : List StackEntry) {out : Option (RoutineId × Script C)}
    {t : Scheduler C} (h : pickFrom stack s = (out, t)) :
    t.claims held x + ((out.map fun y => y.2.handles held).getD []).count x = s.claims held x := by
  induction stack generalizing s with
  | nil =>
    cases h
    rfl
  | cons work rest ih =>
    cases work with
    | boundary => exact ih (s.report .boundaryConsumed) h
    | routine id =>
      rw [pickFrom] at h
      split at h
      · exact ih (s.report (.skippingStale id)) h
      · next r hr =>
        split at h
        · exact ih s h
        · next script hscript =>
          cases h
          have htaken := claims_takeOut held x ({ s with stack := rest, current := some id }) hr
          rw [scriptClaims, hscript] at htaken
          exact htaken

theorem claims_pick {out : Option (RoutineId × Script C)} {t : Scheduler C}
    (h : s.pick = (out, t)) :
    t.claims held x + ((out.map fun y => y.2.handles held).getD []).count x = s.claims held x :=
  claims_pickFrom held x s s.stack h

/-- The handles in the scripts of frames that have been lifted. -/
def liftedHandles (frames : List (Lifted C)) : List Handle :=
  frames.flatMap fun frame => frame.script.handles held

theorem claims_liftFrom (stack : List StackEntry) (lifted : List (Lifted C)) :
    (liftFrom stack lifted s).2.claims held x +
        (liftedHandles held (liftFrom stack lifted s).1).count x =
      s.claims held x + (liftedHandles held lifted).count x := by
  induction stack generalizing s lifted with
  | nil => rfl
  | cons work rest ih =>
    cases work with
    | boundary => rfl
    | routine id =>
      rw [liftFrom]
      split
      · exact ih s lifted
      · next r hr =>
        split
        · exact ih s lifted
        · next script hscript =>
          have htaken := claims_takeOut held x s hr
          rw [scriptClaims, hscript] at htaken
          have hrest := ih (s.modify id fun r => { r with script := none })
            (⟨id, r.origin, script, r.parent⟩ :: lifted)
          simp only [liftedHandles, List.flatMap_cons, List.count_append] at hrest ⊢
          simp only [Option.map_some, Option.getD_some] at htaken
          omega

theorem claims_lift {frames : List (Lifted C)} {t : Scheduler C} (h : s.lift = (frames, t)) :
    t.claims held x + (liftedHandles held frames).count x = s.claims held x := by
  have hlifted := claims_liftFrom held x s s.stack []
  have hframes : (liftFrom s.stack [] s).1 = frames := congrArg Prod.fst h
  have ht : ((liftFrom s.stack [] s).2.report (.captured (liftFrom s.stack [] s).1.length)) = t :=
    congrArg Prod.snd h
  rw [hframes] at hlifted
  rw [← ht]
  exact hlifted

theorem claims_giveBackAll (frames : List (Lifted C)) :
    (s.giveBackAll frames).claims held x ≤
      s.claims held x + (liftedHandles held frames).count x := by
  unfold giveBackAll
  induction frames generalizing s with
  | nil => exact Nat.le_add_right _ _
  | cons frame frames ih =>
    have hone := claims_giveBack held x s frame.id frame.script
    have hrest := ih (s.giveBack frame.id frame.script)
    simp only [liftedHandles, List.foldl_cons, List.flatMap_cons, List.count_append] at hrest ⊢
    omega

/-! ### Removal -/

theorem claims_freeAll (fuel : Nat) (pending : List RoutineId) :
    (freeAll fuel pending s).claims held x = s.claims held x := by
  induction fuel generalizing s pending with
  | zero => rfl
  | succ fuel ih =>
    cases pending with
    | nil => rfl
    | cons id pending =>
      cases hr : s.routines.remove id with
      | none =>
        rw [freeAll]
        simp only [hr]
        exact ih s pending
      | some found =>
        obtain ⟨r, routines⟩ := found
        rw [freeAll_of_remove hr, ih, severed]
        refine (claims_foldl held x _ (fun s c => claims_link held x s c none) _ _).trans ?_
        refine (claims_unlink held x _ r.parent id).trans ?_
        have hremoved := claims_remove held x s hr
        rw [scriptClaims] at hremoved
        cases hscript : r.script with
        | none =>
          rw [hscript] at hremoved
          exact hremoved
        | some script =>
          rw [hscript] at hremoved
          exact (claims_retire held x _ script).trans hremoved

theorem claims_free (id : RoutineId) : (s.free id).claims held x = s.claims held x :=
  claims_freeAll held x s _ _

theorem claims_suspend (id : RoutineId) (script : Script C) :
    (s.suspend id script).claims held x ≤ s.claims held x + (script.handles held).count x := by
  unfold suspend
  split
  · split
    · exact claims_giveBack held x s id script
    · exact Nat.le_of_eq ((claims_free held x _ id).trans (claims_retire held x s script))
  · exact Nat.le_of_eq ((claims_free held x _ id).trans (claims_retire held x s script))

theorem claims_freeUnclaimed : s.freeUnclaimed.2.claims held x = s.claims held x := by
  have hfold : ∀ (ids : List RoutineId) (freed : Nat × Scheduler C),
      (ids.foldl freeIfLost freed).2.claims held x = freed.2.claims held x := by
    intro ids
    induction ids with
    | nil => exact fun _ => rfl
    | cons id ids ih =>
      intro freed
      refine (ih _).trans ?_
      unfold freeIfLost
      split
      · exact claims_free held x freed.2 id
      · rfl
  rw [freeUnclaimed_eq, hfold]
  rfl

theorem claims_replaceByExit (c : RoutineId) :
    (s.replaceByExit c).2.claims held x ≤ s.claims held x := by
  unfold replaceByExit
  split
  · exact Nat.le_refl _
  · next r routines hr =>
    have hremoved := claims_remove held x s hr
    rw [scriptClaims] at hremoved
    split
    · next hscript =>
      rw [hscript] at hremoved
      exact Nat.le_of_eq ((claims_foldl held x _ (fun s c => claims_link held x s c none) _ _).trans
        hremoved)
    · next script hscript =>
      rw [hscript] at hremoved
      dsimp only
      rw [claims_modify, claims_foldl]
      rotate_left
      · exact fun s c => by rw [claims_modify]; exact fun _ => rfl
      · exact fun _ => rfl
      have hadded := claims_add held x ({ s with routines }) .exit (.exit script .initial)
      have hexit : ((Script.exit script .initial).handles held).count x =
          (script.handles held).count x := by
        rw [Script.handles, List.count_append]
        rfl
      rw [hexit] at hadded
      simp only [Option.map_some, Option.getD_some] at hremoved
      exact Nat.le_trans hadded (Nat.le_of_eq hremoved)

theorem claims_scheduleExit (c : RoutineId) :
    (s.scheduleExit c).claims held x ≤ s.claims held x := by
  have hreplaced := claims_replaceByExit held x s c
  unfold scheduleExit
  split
  · next wrapper t heq =>
    rw [heq] at hreplaced
    exact hreplaced
  · next t heq =>
    rw [heq] at hreplaced
    exact hreplaced

/-! ### What replaces the register -/

/-- What is in the register counts beside the rest. -/
theorem claims_register {o : Outcome Value} {t : Scheduler C} (hroutines : t.routines = s.routines)
    (hretired : t.retired = s.retired) (hregister : t.register = o) :
    t.claims held x + s.register.handles.count x = s.claims held x + o.handles.count x := by
  simp only [claims, hroutines, hretired, hregister]
  omega

theorem register_link (c : RoutineId) (parent : Option RoutineId) :
    (s.link c parent).register = s.register := by
  unfold link
  dsimp only
  split <;> rfl

theorem register_addUnder (origin : Origin) (script : Script C) (parent : Option RoutineId) :
    (s.addUnder origin script parent).2.register = s.register :=
  register_link (s.add origin script).2 _ parent

theorem register_unlink (parent : Option RoutineId) (c : RoutineId) :
    (s.unlink parent c).register = s.register := by
  unfold unlink
  split <;> rfl

theorem register_foldl {α : Type} (f : Scheduler C → α → Scheduler C)
    (hf : ∀ s a, (f s a).register = s.register) (as : List α) (s : Scheduler C) :
    (as.foldl f s).register = s.register := by
  induction as generalizing s with
  | nil => rfl
  | cons a as ih => exact (ih (f s a)).trans (hf s a)

theorem register_scheduleExit (c : RoutineId) : (s.scheduleExit c).register = s.register := by
  have hreplaced : (s.replaceByExit c).2.register = s.register := by
    unfold replaceByExit
    split
    · rfl
    · split
      · exact register_foldl _ (fun s c => register_link s c none) _ _
      · dsimp only
        refine (register_foldl (fun s c => s.modify c fun g =>
          { g with parent := some (add _ .exit (.exit _ .initial)).1 }) (fun _ _ => rfl) _ _).trans rfl
  unfold scheduleExit
  split
  · next heq =>
    rw [heq] at hreplaced
    exact hreplaced
  · next heq =>
    rw [heq] at hreplaced
    exact hreplaced

theorem claims_takenOut {id : RoutineId} {r : Routine C} {routines : Roster (Routine C)}
    (h : s.routines.remove id = some (r, routines)) (script : Script C) (o : Outcome Value) :
    (s.takenOut id r routines script o).claims held x ≤
      s.claims held x + (script.handles held).count x := by
  rw [takenOut, claims_unlink, ← claims_retire]
  have hremoved := claims_remove held x (s.retire script) h
  exact Nat.le_trans (Nat.le_add_right _ _) (Nat.le_of_eq hremoved)

/-- A routine finishes: its outcome is in the register, and kept back once more
    if there are children to sweep. -/
theorem claims_conclude (id : RoutineId) (script : Script C) (o : Outcome Value) :
    (s.conclude id script o).claims held x + s.register.handles.count x ≤
      s.claims held x + (script.handles held).count x +
        (if s.keepsResult id then o.handles else []).count x + o.handles.count x := by
  cases hr : s.routines.remove id with
  | none =>
    have hset := claims_register held x (s.retire script) (o := o)
      (t := { s.retire script with register := o }) rfl rfl rfl
    rw [← conclude_of_dead (Roster.remove_eq_none.mp hr)] at hset
    have hretired := claims_retire held x s script
    have hregister : (s.retire script).register = s.register := rfl
    rw [hregister] at hset
    omega
  | some found =>
    obtain ⟨r, routines⟩ := found
    have htaken := claims_takenOut held x s hr script o
    have hsame : (s.takenOut id r routines script o).register = s.register := register_unlink ..
    by_cases hnone : r.children = []
    · have hset := claims_register held x (s.takenOut id r routines script o) (o := o)
        (t := { s.takenOut id r routines script o with register := o }) rfl rfl rfl
      rw [← conclude_of_childless hr hnone, hsame] at hset
      omega
    · have hkeeps : s.keepsResult id = true := by
        simp only [keepsResult, Roster.find?_of_remove hr]
        simpa using hnone
      have hkept : (s.keptBack id r routines script o).2.claims held x ≤
          (s.takenOut id r routines script o).claims held x + o.handles.count x :=
        claims_addUnder held x _ .settled (.settled o) none
      have hexits : ∀ (cs : List RoutineId) (t : Scheduler C),
          (cs.foldl scheduleExit t).claims held x ≤ t.claims held x := by
        intro cs
        induction cs with
        | nil => exact fun t => Nat.le_refl _
        | cons c cs ih =>
          exact fun t => Nat.le_trans (ih (t.scheduleExit c)) (claims_scheduleExit held x t c)
      have hconclude := conclude_of_children hr hnone script o
      generalize ht : (s.keptBack id r routines script o).2.push
        (.routine (s.keptBack id r routines script o).1) = t at hconclude
      have hclaims : t.claims held x = (s.keptBack id r routines script o).2.claims held x := by
        rw [← ht]
        rfl
      have hregister : (r.children.foldl scheduleExit t).register = s.register := by
        rw [register_foldl _ register_scheduleExit, ← ht, ← hsame]
        exact register_addUnder ((s.takenOut id r routines script o).report
          (.forcingExit r.origin id r.children.length)) .settled (.settled o) none
      have hset := claims_register held x (r.children.foldl scheduleExit t) (o := o)
        (t := { r.children.foldl scheduleExit t with register := o }) rfl rfl rfl
      have hle := hexits r.children t
      rw [← hconclude, hregister] at hset
      rw [hkeeps, if_pos rfl]
      omega

/-- A new routine goes on the stack, to be fed unit. -/
theorem claims_scheduled (origin : Origin) (script : Script C) (parent : Option RoutineId)
    {t : Scheduler C} (hroutines : t.routines = (s.addUnder origin script parent).2.routines)
    (hregister : t.register = .unit)
    (hretired : t.retired = (s.addUnder origin script parent).2.retired) :
    t.claims held x + s.register.handles.count x ≤
      s.claims held x + (script.handles held).count x := by
  have hadded := claims_addUnder held x s origin script parent
  have hset := claims_register held x (s.addUnder origin script parent).2 hroutines hretired
    hregister
  rw [register_addUnder, Outcome.handles_unit, List.count_nil] at hset
  omega

theorem claims_reinstate (ids : List RoutineId) (v : Value) :
    (s.reinstate ids v).claims held x + s.register.handles.count x =
      s.claims held x + v.handles.count x :=
  claims_register held x s (t := s.reinstate ids v) (o := .success v) rfl rfl rfl

theorem claims_leave (panicking : Bool) :
    (s.leave panicking).claims held x + (if panicking then s.register.handles else []).count x =
      s.claims held x := by
  cases panicking with
  | false => rfl
  | true =>
    obtain ⟨ids, u, hleave, hclaims, hregister⟩ : ∃ (ids : List RoutineId) (u : Scheduler C),
        s.leave true = { ids.foldl free u with register := .unit } ∧
          u.claims held x = s.claims held x ∧ u.register = s.register :=
      ⟨_, _, rfl, rfl, rfl⟩
    have hset := claims_register held x (ids.foldl free u) (o := .unit)
      (t := { ids.foldl free u with register := .unit }) rfl rfl rfl
    rw [← hleave, claims_foldl held x _ (claims_free held x),
      register_foldl _ fun s id => (shrunk_free s id).work.register, hregister, hclaims] at hset
    exact hset

/-- Copies go on the stack as routines of their own. -/
theorem claims_plant (frames : List (FrameCopy C)) (copies : List (Script C)) :
    (s.plant frames copies).2.claims held x ≤
      s.claims held x + (copies.flatMap (Script.handles held)).count x := by
  have hadded : ∀ (frames : List (FrameCopy C)) (copies : List (Script C)) (s : Scheduler C),
      (addCopies (frames.zip copies) s).2.claims held x ≤
        s.claims held x + (copies.flatMap (Script.handles held)).count x := by
    intro frames
    induction frames with
    | nil => exact fun _ _ => Nat.le_add_right _ _
    | cons frame frames ih =>
      intro copies s
      cases copies with
      | nil => exact Nat.le_add_right _ _
      | cons copy copies =>
        have hone := claims_add held x s frame.origin copy
        have hrest := ih copies (s.add frame.origin copy).2
        rw [List.flatMap_cons, List.count_append]
        show (addCopies (frames.zip copies) (s.add frame.origin copy).2).2.claims held x ≤ _
        omega
  refine Nat.le_trans (Nat.le_of_eq ?_) (hadded frames copies s)
  generalize haddition : addCopies (frames.zip copies) s = added
  have hplant : (s.plant frames copies).2 = (frames.zip added.1).foldl
      (fun s (pair : FrameCopy C × RoutineId) => s.link pair.2 (pair.1.parent.resolve added.1))
      added.2 := by
    rw [← haddition]
    rfl
  rw [hplant]
  exact claims_foldl held x _ (fun s pair => claims_link held x s _ _) _ _

end Scheduler

end Strand
