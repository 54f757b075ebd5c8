import Mathlib.Logic.Relation
import Strand.Proofs.Aside
import Strand.Proofs.Spawning

/-! # Forests — parent links lead up to a root

    A routine without a live parent is a root. `Grounded` says of a routine
    that its parent links lead up to one, so that it is not on a cycle.

    * What is taken out cuts these ways short; what is new begins one, or goes
      on with one (`Forest.of_links`, `Grounded.mono`).
    * An operation `Tends` a scheduler if it leaves no new root off the stack,
      takes no script out and keeps every routine grounded. Almost all do;
      the others hand something over, and are looked at one by one. -/

namespace Strand.Scheduler

variable {C : Type} {s t u : Scheduler C} {a id : RoutineId}

/-! ### Ways up -/

/-- A live routine from which parent links lead up to a root. -/
inductive Grounded (s : Scheduler C) : RoutineId → Prop where
  | root {a : RoutineId} {x : Routine C} (live : s.routines.find? a = some x)
      (orphan : s.liveParent x.parent = none) : Grounded s a
  | under {a q : RoutineId} {x : Routine C} (live : s.routines.find? a = some x)
      (parent : x.parent = some q) (above : Grounded s q) : Grounded s a

/-- Parent links lead from one routine up to another. -/
def LeadsUp (s : Scheduler C) : RoutineId → RoutineId → Prop :=
  Relation.ReflTransGen fun a q => ∃ x, s.routines.find? a = some x ∧ x.parent = some q

/-- From a grounded routine, parent links lead up to a root. -/
theorem Grounded.leadsUp (h : Grounded s a) :
    ∃ q, s.LeadsUp a q ∧ ∃ x, s.routines.find? q = some x ∧ s.liveParent x.parent = none := by
  induction h with
  | root live orphan => exact ⟨_, .refl, _, live, orphan⟩
  | under live parent _ ih =>
    obtain ⟨q, hup, hroot⟩ := ih
    exact ⟨q, hup.head ⟨_, live, parent⟩, hroot⟩

/-- Every live routine is grounded. -/
def Forest (s : Scheduler C) : Prop := ∀ a x, s.routines.find? a = some x → Grounded s a

theorem forest_new (settings : Settings) : (.new settings : Scheduler C).Forest := by
  intro a x hx
  have hnone : (.empty : Roster (Routine C)).find? a = none :=
    Roster.find?_of_no_slot (by simp [Roster.empty])
  exact absurd (hnone.symm.trans hx) (by simp)

theorem liveParent_eq_none {s : Scheduler C} {parent : Option RoutineId} :
    s.liveParent parent = none ↔ ∀ q, parent = some q → s.routines.find? q = none := by
  constructor
  · rintro h q rfl
    cases hq : s.routines.find? q with
    | none => rfl
    | some x => rw [liveParent_of_live hq] at h; cases h
  · intro h
    cases parent with
    | none => rfl
    | some q => exact liveParent_of_dead (h q rfl)

/-- Where the links agree, only a routine that names no parent is a root. -/
theorem Linked.parent_of_orphan (hl : Linked s.routines) {x : Routine C}
    (hx : s.routines.find? a = some x) (h : s.liveParent x.parent = none) : x.parent = none := by
  cases hp : x.parent with
  | none => rfl
  | some q =>
    obtain ⟨y, hy, -⟩ := hl.parent_live hx hp
    rw [hp, liveParent_of_live hy] at h
    cases h

/-- A way up is still there if the routines on it are. -/
theorem Grounded.mono (hl : Linked s.routines)
    (hkeep : ∀ a x, s.routines.find? a = some x →
      ∃ y, t.routines.find? a = some y ∧ y.parent = x.parent)
    (h : Grounded s a) : Grounded t a := by
  induction h with
  | root live orphan =>
    obtain ⟨y, hy, hpar⟩ := hkeep _ _ live
    refine .root hy ?_
    rw [hpar, hl.parent_of_orphan live orphan]
    rfl
  | under live parent _ ih =>
    obtain ⟨y, hy, hpar⟩ := hkeep _ _ live
    exact .under hy (hpar.trans parent) ih

/-- A forest stays one if every link to a live parent has been there before, or
    goes to a parent that is grounded anyway. -/
theorem Forest.of_links (h : s.Forest)
    (hlinks : ∀ a y q z, t.routines.find? a = some y → y.parent = some q →
      t.routines.find? q = some z → Grounded t q ∨
        ∃ x w, s.routines.find? a = some x ∧ x.parent = some q ∧ s.routines.find? q = some w) :
    t.Forest := by
  -- a link that has been there before is one of those on a way up
  have hold : ∀ a, Grounded s a → ∀ y, t.routines.find? a = some y → Grounded t a := by
    intro a ha
    induction ha with
    | root live orphan =>
      intro y hy
      cases hlive : t.liveParent y.parent with
      | none => exact .root hy hlive
      | some q =>
        obtain ⟨hpar, z, hz⟩ := liveParent_eq_some.mp hlive
        rcases hlinks _ y q z hy hpar hz with hq | ⟨x, w, hx, hxpar, hw⟩
        · exact .under hy hpar hq
        · rw [live, Option.some.injEq] at hx
          rw [hx, hxpar, liveParent_of_live hw] at orphan
          cases orphan
    | under live parent _ ih =>
      intro y hy
      cases hlive : t.liveParent y.parent with
      | none => exact .root hy hlive
      | some q =>
        obtain ⟨hpar, z, hz⟩ := liveParent_eq_some.mp hlive
        rcases hlinks _ y q z hy hpar hz with hq | ⟨x, w, hx, hxpar, -⟩
        · exact .under hy hpar hq
        · rw [live, Option.some.injEq] at hx
          rw [hx, hxpar, Option.some.injEq] at parent
          subst parent
          exact .under hy hpar (ih z hz)
  intro a y hy
  cases hlive : t.liveParent y.parent with
  | none => exact .root hy hlive
  | some q =>
    obtain ⟨hpar, z, hz⟩ := liveParent_eq_some.mp hlive
    rcases hlinks a y q z hy hpar hz with hq | ⟨x, w, -, -, hw⟩
    · exact .under hy hpar hq
    · exact .under hy hpar (hold q (h q w hw) z hz)

/-- Only the routines matter. -/
theorem Forest.congr (h : s.Forest) (hroutines : t.routines = s.routines) : t.Forest :=
  h.of_links fun _ y _ z hy hq hz => Or.inr ⟨y, z, hroutines ▸ hy, hq, hroutines ▸ hz⟩

/-! ### Tending -/

/-- An operation that leaves no new root off the stack. -/
structure Tends (s t : Scheduler C) : Prop where
  /-- A root is on the stack, or it was a root before. -/
  roots : ∀ {a y}, t.routines.find? a = some y → y.parent = none →
    t.onStack a = true ∨ ∃ x, s.routines.find? a = some x ∧ x.parent = none
  /-- No script has been taken out. -/
  scripts : ∀ {a y}, t.routines.find? a = some y → y.script = none →
    ∃ x, s.routines.find? a = some x ∧ x.script = none
  forest : s.Forest → t.Forest
  /-- What was on the stack still is. -/
  stack : ∀ {a}, s.onStack a = true → t.onStack a = true

theorem Tends.refl (s : Scheduler C) : Tends s s :=
  ⟨fun hy hp => Or.inr ⟨_, hy, hp⟩, fun hy hs => ⟨_, hy, hs⟩, fun h => h, fun h => h⟩

theorem Tends.trans (h : Tends s t) (h' : Tends t u) : Tends s u := by
  refine ⟨?_, ?_, fun hs => h'.forest (h.forest hs), fun hon => h'.stack (h.stack hon)⟩
  · intro a y hy hp
    rcases h'.roots hy hp with hon | ⟨x, hx, hxp⟩
    · exact Or.inl hon
    · exact (h.roots hx hxp).imp_left h'.stack
  · intro a y hy hs
    obtain ⟨x, hx, hxs⟩ := h'.scripts hy hs
    exact h.scripts hx hxs

/-- Nothing new, and only what is on the stack has lost its parent. -/
theorem Tends.of_entries
    (hback : ∀ {a y}, t.routines.find? a = some y → ∃ x, s.routines.find? a = some x ∧
      (y.parent = x.parent ∨ y.parent = none ∧ t.onStack a = true) ∧
      (y.script = none → x.script = none))
    (hstack : ∀ {a}, s.onStack a = true → t.onStack a = true) : Tends s t := by
  refine ⟨?_, ?_, fun h => h.of_links ?_, hstack⟩
  · intro a y hy hp
    obtain ⟨x, hx, hpar | ⟨-, hon⟩, -⟩ := hback hy
    · exact Or.inr ⟨x, hx, hpar.symm.trans hp⟩
    · exact Or.inl hon
  · intro a y hy hs
    obtain ⟨x, hx, -, hscript⟩ := hback hy
    exact ⟨x, hx, hscript hs⟩
  · intro a y q z hy hp hz
    obtain ⟨x, hx, hpar | ⟨hnone, -⟩, -⟩ := hback hy
    · obtain ⟨w, hw, -⟩ := hback hz
      exact Or.inr ⟨x, w, hx, hpar.symm.trans hp, hw⟩
    · exact absurd (hnone.symm.trans hp) (by simp)

/-- Routines and the stack are all that matters. -/
theorem Tends.of_same (hroutines : t.routines = s.routines) (hstack : t.stack = s.stack) :
    Tends s t := by
  refine .of_entries (fun {a y} hy => ⟨y, hroutines ▸ hy, Or.inl rfl, fun h => h⟩) ?_
  intro a hon
  rwa [onStack, hstack]

theorem tends_push (s : Scheduler C) (work : StackEntry) : Tends s (s.push work) :=
  .of_entries (fun {_ y} hy => ⟨y, hy, Or.inl rfl, fun h => h⟩) fun hon => onStack_cons work hon

theorem tends_retire (s : Scheduler C) (script : Script C) : Tends s (s.retire script) :=
  .of_same rfl rfl

theorem tends_told (s : Scheduler C) : Tends s s.told := .of_same rfl rfl

/-- A script comes back. -/
theorem tends_giveBack (s : Scheduler C) (id : RoutineId) (script : Script C) :
    Tends s (s.giveBack id script) := by
  unfold giveBack
  split
  · refine .of_entries ?_ fun h => h
    intro a y hy
    have hy' : (s.routines.modify id fun r => { r with script := some script }).find? a = some y := hy
    rw [Roster.find?_modify] at hy'
    split at hy'
    · obtain ⟨x, hx, rfl⟩ := Option.map_eq_some_iff.mp hy'
      exact ⟨x, hx, Or.inl rfl, by rintro ⟨⟩⟩
    · exact ⟨y, hy', Or.inl rfl, fun h => h⟩
  · exact tends_retire s script

theorem tends_giveBackAll (frames : List (Lifted C)) (s : Scheduler C) :
    Tends s (s.giveBackAll frames) := by
  unfold giveBackAll
  induction frames generalizing s with
  | nil => exact .refl s
  | cons frame frames ih => exact (tends_giveBack s frame.id frame.script).trans (ih _)

theorem tends_shelve (s : Scheduler C) (id : RoutineId) (script : Script C) :
    Tends s (s.shelve id script) := by
  unfold shelve
  split
  · exact (tends_giveBack s id script).trans (tends_push _ _)
  · exact tends_retire s script

/-! ### Removal -/

/-- What is found after routines have been freed was there before; it has lost its
    parent at most if it is on the stack. -/
theorem find?_of_freeAll (fuel : Nat) (pending : List RoutineId) (s : Scheduler C) {y : Routine C}
    (hy : (freeAll fuel pending s).routines.find? a = some y) :
    ∃ x, s.routines.find? a = some x ∧
      (y.parent = x.parent ∨ y.parent = none ∧ s.onStack a = true) ∧ y.script = x.script := by
  induction fuel generalizing pending s with
  | zero => exact ⟨y, hy, Or.inl rfl, rfl⟩
  | succ fuel ih =>
    cases pending with
    | nil => exact ⟨y, hy, Or.inl rfl, rfl⟩
    | cons id pending =>
      cases h : s.routines.remove id with
      | none =>
        rw [freeAll_of_dead (Roster.remove_eq_none.mp h)] at hy
        exact ih pending s hy
      | some pair =>
        obtain ⟨r, routines⟩ := pair
        rw [freeAll_of_remove h] at hy
        obtain ⟨z, hz, hparent, hscript⟩ := ih _ _ hy
        rw [onStack, (shrunk_severed h).work.stack] at hparent
        rw [find?_severed h] at hz
        split at hz
        · cases hz
        · obtain ⟨x, hx, rfl⟩ := Option.map_eq_some_iff.mp hz
          refine ⟨x, hx, ?_, hscript⟩
          dsimp only at hparent
          split at hparent
          · next hkept =>
            have hon : s.onStack a = true := (List.mem_filter.mp hkept).2
            exact Or.inr ⟨hparent.elim (fun hp => hp) And.left, hon⟩
          · exact hparent

theorem find?_of_free {y : Routine C} (hy : (s.free id).routines.find? a = some y) :
    ∃ x, s.routines.find? a = some x ∧
      (y.parent = x.parent ∨ y.parent = none ∧ s.onStack a = true) ∧ y.script = x.script :=
  find?_of_freeAll _ _ s hy

/-- What is freed stays dead. -/
theorem dead_of_frees (ids : List RoutineId) (s : Scheduler C)
    (h : a ∈ ids ∨ s.routines.find? a = none) : (ids.foldl free s).routines.find? a = none := by
  induction ids generalizing s with
  | nil => exact h.resolve_left List.not_mem_nil
  | cons id ids ih =>
    refine ih (s.free id) ?_
    rcases h with hmem | hdead
    · rcases List.mem_cons.mp hmem with rfl | hmem
      · exact Or.inr (find?_free_self s a)
      · exact Or.inl hmem
    · refine Or.inr ?_
      rw [Option.eq_none_iff_forall_ne_some]
      intro y hy
      obtain ⟨x, hx, -⟩ := find?_of_free hy
      exact absurd (hdead.symm.trans hx) (by simp)

theorem tends_free (s : Scheduler C) (id : RoutineId) : Tends s (s.free id) := by
  have hstack := (shrunk_free s id).work.stack
  refine .of_entries (fun {a y} hy => ?_) fun {a} ha => ?_
  · obtain ⟨x, hx, hparent, hscript⟩ := find?_of_free hy
    refine ⟨x, hx, hparent.imp_right (And.imp_right fun hon => ?_), fun hs => hscript.symm.trans hs⟩
    rwa [onStack, hstack]
  · rwa [onStack, hstack]

theorem tends_frees (ids : List RoutineId) (s : Scheduler C) : Tends s (ids.foldl free s) := by
  induction ids generalizing s with
  | nil => exact .refl s
  | cons id ids ih => exact (tends_free s id).trans (ih _)

/-- What is found after the unclaimed routines have been freed was there before; a
    root that nobody has claimed is on the stack. -/
theorem tends_freeUnclaimed (s : Scheduler C) : Tends s s.freeUnclaimed.2 ∧
    ∀ a ∈ s.unclaimed, ∀ y, s.freeUnclaimed.2.routines.find? a = some y → y.parent = none →
      s.onStack a = true := by
  have hfold : ∀ (ids : List RoutineId) (n : Nat) (t : Scheduler C),
      Tends t (ids.foldl freeIfLost (n, t)).2 ∧
      ∀ a y, (ids.foldl freeIfLost (n, t)).2.routines.find? a = some y →
        (∃ x, t.routines.find? a = some x ∧
          (y.parent = x.parent ∨ y.parent = none ∧ t.onStack a = true)) ∧
        (a ∈ ids → y.parent = none → t.onStack a = true) := by
    intro ids
    induction ids with
    | nil => exact fun n t => ⟨.refl t, fun a y hy => ⟨⟨y, hy, Or.inl rfl⟩, by rintro ⟨⟩⟩⟩
    | cons id ids ih =>
      intro n t
      rw [List.foldl_cons]
      by_cases hlost : t.isLost id = true
      · simp only [freeIfLost, hlost, if_true]
        obtain ⟨htends, hrest⟩ := ih (n + 1) (t.free id)
        refine ⟨(tends_free t id).trans htends, fun a y hy => ?_⟩
        obtain ⟨⟨z, hz, hparent⟩, hmem⟩ := hrest a y hy
        rw [onStack, (shrunk_free t id).work.stack] at hparent hmem
        obtain ⟨x, hx, hparent', -⟩ := find?_of_free hz
        refine ⟨⟨x, hx, ?_⟩, fun ha hp => ?_⟩
        · rcases hparent with hsame | hcut
          · rw [hsame]
            exact hparent'
          · exact Or.inr hcut
        · rcases List.mem_cons.mp ha with rfl | ha
          · exact absurd ((find?_free_self t a).symm.trans hz) (by simp)
          · exact hmem ha hp
      · simp only [freeIfLost, hlost]
        obtain ⟨htends, hrest⟩ := ih n t
        refine ⟨htends, fun a y hy => ?_⟩
        obtain ⟨⟨x, hx, hparent⟩, hmem⟩ := hrest a y hy
        refine ⟨⟨x, hx, hparent⟩, fun ha hp => ?_⟩
        rcases List.mem_cons.mp ha with rfl | ha
        · -- not lost, so it is on the stack or still has its parent
          rcases hparent with hsame | ⟨-, hon⟩
          · rw [hp] at hsame
            have hnone : t.liveParent x.parent = none := by rw [← hsame]; rfl
            simpa [isLost, hx, hnone] using hlost
          · exact hon
        · exact hmem ha hp
  have hstart : Tends s { s with unclaimed := [] } := .of_same rfl rfl
  obtain ⟨htends, hrest⟩ := hfold s.unclaimed 0 { s with unclaimed := [] }
  exact ⟨hstart.trans htends, fun a ha y hy hp => (hrest a y hy).2 ha hp⟩

theorem tends_suspend (s : Scheduler C) (id : RoutineId) (script : Script C) :
    Tends s (s.suspend id script) := by
  unfold suspend
  split
  · split
    · exact tends_giveBack s id script
    · exact (tends_retire s script).trans (tends_free _ id)
  · exact (tends_retire s script).trans (tends_free _ id)

/-! ### New routines -/

/-- The entries once a routine has been added under a parent. -/
theorem find?_addUnder (hs : s.routines.Sound) (origin : Origin) (script : Script C)
    {parent : Option RoutineId}
    (hroom : (s.addUnder origin script parent).2.routines.slots.size ≤ 2 ^ 32)
    (hne : parent ≠ some s.fresh) :
    s.routines.find? s.fresh = none ∧
    ∀ a, (s.addUnder origin script parent).2.routines.find? a =
      if a = s.fresh then some ⟨origin, some script, s.liveParent parent, []⟩
      else (s.routines.find? a).map fun x =>
        { x with
          children := if s.liveParent parent = some a then addChild x.children s.fresh
            else x.children } := by
  have hfst : (s.add origin script).1 = s.fresh := s.insert_fst _
  have hone : (s.add origin script).2.routines.slots.size ≤ 2 ^ 32 :=
    Nat.le_trans (closed_link (Roster.closed_grows _).steady (.refl _) _ parent).slots hroom
  have hinsert := hs.find?_insert ⟨origin, some script, none, []⟩ hone
  have hdead := hs.find?_insert_fst ⟨origin, some script, none, []⟩ hone
  rw [s.insert_fst] at hinsert hdead
  have hadded : ∀ a, (s.add origin script).2.routines.find? a =
      if a = s.fresh then some ⟨origin, some script, none, []⟩ else s.routines.find? a := hinsert
  -- the parent is live now if it was live before
  have hparent : (s.add origin script).2.liveParent parent = s.liveParent parent := by
    cases parent with
    | none => rfl
    | some q =>
      have hq : q ≠ s.fresh := fun heq => hne (congrArg some heq)
      have hsame : (s.add origin script).2.routines.contains q = s.routines.contains q := by
        rw [Roster.contains, hadded, if_neg hq]
        rfl
      simp only [liveParent, Option.filter_some, hsame]
  refine ⟨hdead, fun a => ?_⟩
  show ((s.add origin script).2.link (s.add origin script).1 parent).routines.find? a = _
  rw [hfst, link, hparent]
  cases hlive : s.liveParent parent with
  | none =>
    show (Roster.modify _ _ _).find? a = _
    rw [Roster.find?_modify, hadded]
    by_cases ha : a = s.fresh
    · simp [ha]
    · simp [ha]
  | some q =>
    obtain ⟨rfl, x, hx⟩ := liveParent_eq_some.mp hlive
    have hq : q ≠ s.fresh := fun heq => hne (congrArg some heq)
    show (Roster.modify (Roster.modify _ _ _) _ _).find? a = _
    rw [Roster.find?_modify, Roster.find?_modify, hadded]
    by_cases ha : a = s.fresh
    · have haq : a ≠ q := fun heq => hq (heq.symm.trans ha)
      simp [ha, hq.symm]
    · by_cases haq : a = q
      · simp [haq, hq]
      · have : ¬ (some q = some a) := fun heq => haq (Option.some.inj heq).symm
        simp [ha, haq, this]

/-- A new routine on the stack, beneath nobody or beneath a live routine. -/
theorem tends_fresh (hl : Linked s.routines) {r : Routine C}
    (hdead : s.routines.find? s.fresh = none) (hself : t.routines.find? s.fresh = some r)
    (hscript : r.script ≠ none)
    (hparent : ∀ q, r.parent = some q → ∃ x, s.routines.find? q = some x)
    (hothers : ∀ a, a ≠ s.fresh → ∃ children : Routine C → List RoutineId,
      t.routines.find? a = (s.routines.find? a).map fun x => { x with children := children x })
    (hstack : t.stack = .routine s.fresh :: s.stack) : Tends s t := by
  have hold : ∀ {a y}, t.routines.find? a = some y → a ≠ s.fresh →
      ∃ x, s.routines.find? a = some x ∧ y.parent = x.parent ∧ y.script = x.script := by
    intro a y hy ha
    obtain ⟨children, hfind⟩ := hothers a ha
    rw [hfind] at hy
    obtain ⟨x, hx, rfl⟩ := Option.map_eq_some_iff.mp hy
    exact ⟨x, hx, rfl, rfl⟩
  have hkeep : ∀ a x, s.routines.find? a = some x →
      ∃ y, t.routines.find? a = some y ∧ y.parent = x.parent := by
    intro a x hx
    have ha : a ≠ s.fresh := by
      rintro rfl
      exact absurd (hdead.symm.trans hx) (by simp)
    obtain ⟨children, hfind⟩ := hothers a ha
    exact ⟨_, hfind.trans (congrArg _ hx), rfl⟩
  refine ⟨?_, ?_, ?_, ?_⟩
  · intro a y hy hp
    by_cases ha : a = s.fresh
    · exact Or.inl (by simp [onStack, hstack, ha])
    · obtain ⟨x, hx, hpar, -⟩ := hold hy ha
      exact Or.inr ⟨x, hx, hpar.symm.trans hp⟩
  · intro a y hy hs
    by_cases ha : a = s.fresh
    · rw [ha, hself, Option.some.injEq] at hy
      exact absurd (hy ▸ hs) hscript
    · obtain ⟨x, hx, -, hsame⟩ := hold hy ha
      exact ⟨x, hx, hsame.symm.trans hs⟩
  · intro hforest a y hy
    by_cases ha : a = s.fresh
    · rw [ha]
      cases hp : r.parent with
      | none => exact .root hself (by rw [hp]; rfl)
      | some q =>
        obtain ⟨x, hx⟩ := hparent q hp
        exact .under hself hp ((hforest q x hx).mono hl hkeep)
    · obtain ⟨x, hx, -, -⟩ := hold hy ha
      exact (hforest a x hx).mono hl hkeep
  · intro a ha
    rw [onStack, hstack]
    exact onStack_cons (.routine s.fresh) ha

/-- A routine that is added under a parent and put on the stack. -/
theorem tends_addUnder (hl : Linked s.routines) (origin : Origin) (script : Script C)
    (parent : Option RoutineId)
    (hroom : (s.addUnder origin script parent).2.routines.slots.size ≤ 2 ^ 32)
    (hne : parent ≠ some s.fresh)
    (hroutines : t.routines = (s.addUnder origin script parent).2.routines)
    (hstack : t.stack = .routine s.fresh :: s.stack) : Tends s t := by
  obtain ⟨hdead, hfind⟩ := find?_addUnder hl.sound origin script hroom hne
  rw [← hroutines] at hfind
  refine tends_fresh hl hdead ((hfind s.fresh).trans (if_pos rfl)) (by rintro ⟨⟩) ?_ ?_ hstack
  · intro q hq
    exact (liveParent_eq_some.mp hq).2
  · intro a ha
    exact ⟨_, (hfind a).trans (if_neg ha)⟩

theorem tends_scheduleChild (hl : Linked s.routines) (origin : Origin) (script : Script C)
    (hroom : (s.scheduleChild origin script id).routines.slots.size ≤ 2 ^ 32)
    (hne : id ≠ s.fresh) : Tends s (s.scheduleChild origin script id) := by
  refine tends_addUnder hl origin script (some id) hroom ?_ rfl ?_
  · exact fun heq => hne (Option.some.inj heq)
  · have hfst : (s.add origin script).1 = s.fresh := s.insert_fst _
    unfold scheduleChild addUnder link
    dsimp only
    rw [hfst]
    cases (s.add origin script).2.liveParent (some id) <;> rfl

theorem tends_scheduleRoot (hl : Linked s.routines) (script : Script C)
    (hroom : (s.scheduleRoot script).routines.slots.size ≤ 2 ^ 32) :
    Tends s (s.scheduleRoot script) := by
  refine tends_addUnder hl .root script none hroom (by rintro ⟨⟩) rfl ?_
  have hfst : (s.add .root script).1 = s.fresh := s.insert_fst _
  exact congrArg (fun a => StackEntry.routine a :: s.stack) hfst

theorem tends_queue (hl : Linked s.routines) (k : Nat) (v : Value)
    (hroom : (s.queue k v).routines.slots.size ≤ 2 ^ 32) : Tends s (s.queue k v) := by
  have hfst : (s.add .reenter (.reentry k (some v))).1 = s.fresh := s.insert_fst _
  have hinsert := hl.sound.find?_insert ⟨.reenter, some (.reentry k (some v)), none, []⟩ hroom
  have hdead := hl.sound.find?_insert_fst ⟨.reenter, some (.reentry k (some v)), none, []⟩ hroom
  rw [s.insert_fst] at hinsert hdead
  refine tends_fresh hl hdead ((hinsert s.fresh).trans (if_pos rfl)) (by rintro ⟨⟩) (by rintro _ ⟨⟩) ?_ ?_
  · exact fun a ha => ⟨Routine.children, (hinsert a).trans ((if_neg ha).trans (by simp))⟩
  · exact congrArg (fun a => StackEntry.routine a :: s.stack) hfst

/-! ### Copies of frames -/

/-- The parent links of the frames of a snapshot lead out of it, to routines that
    have been issued. -/
inductive LeadsOut (r : Roster (Routine C)) (frames : List (FrameCopy C)) : Nat → Prop where
  | beyond {i : Nat} (h : frames[i]? = none) : LeadsOut r frames i
  | outside {i : Nat} {frame : FrameCopy C} {parent : Option RoutineId} (h : frames[i]? = some frame)
      (place : frame.parent = .outside parent) (issued : ∀ q, parent = some q → r.Issued q) :
      LeadsOut r frames i
  | inside {i j : Nat} {frame : FrameCopy C} (h : frames[i]? = some frame)
      (place : frame.parent = .inside j) (above : LeadsOut r frames j) : LeadsOut r frames i

theorem LeadsOut.mono {r r' : Roster (Routine C)} {frames : List (FrameCopy C)} {i : Nat}
    (h : LeadsOut r frames i) (hissued : ∀ a, r.Issued a → r'.Issued a) : LeadsOut r' frames i := by
  induction h with
  | beyond h => exact .beyond h
  | outside h place issued => exact .outside h place fun q hq => hissued q (issued q hq)
  | inside h place _ ih => exact .inside h place ih

/-- A frame's parent is inside where it has been lifted too. -/
theorem place_of_inside {ids : List RoutineId} {parent : Option RoutineId} {j : Nat}
    (h : ParentPlace.of ids parent = .inside j) : ∃ q, parent = some q ∧ ids[j]? = some q := by
  unfold ParentPlace.of at h
  split at h
  · next i hi =>
    cases h
    obtain ⟨q, rfl, hq⟩ := Option.bind_eq_some_iff.mp hi
    refine ⟨q, rfl, ?_⟩
    obtain ⟨hlt, heq, -⟩ := List.findIdx?_eq_some_iff_getElem.mp hq
    rw [List.getElem?_eq_getElem hlt, eq_of_beq heq]
  · cases h

theorem place_of_outside {ids : List RoutineId} {parent o : Option RoutineId}
    (h : ParentPlace.of ids parent = .outside o) : o = parent := by
  unfold ParentPlace.of at h
  split at h
  · cases h
  · exact (ParentPlace.outside.inj h).symm

theorem frame_of_snapshot {p i : Nat} {lifted : List (Lifted C)} {copies : List (Script C)}
    {frame : FrameCopy C} (h : (Snapshot.of p lifted copies).frames[i]? = some frame) :
    ∃ f, lifted[i]? = some f ∧ frame.parent = .of (lifted.map Lifted.id) f.parent := by
  simp only [Snapshot.of, List.getElem?_zipWith] at h
  split at h
  · next f copy hf hcopy =>
    cases h
    exact ⟨f, hf, rfl⟩
  · cases h

/-- The frames of a forest have been lifted with their parents, or without. -/
theorem Forest.leadsOut (hf : s.Forest) {lifted : List (Lifted C)}
    (hlive : ∀ f ∈ lifted, ∃ x, s.routines.find? f.id = some x ∧ x.parent = f.parent)
    (hissued : ∀ f ∈ lifted, ∀ q, f.parent = some q → s.routines.Issued q) (p : Nat)
    (copies : List (Script C)) (i : Nat) :
    LeadsOut s.routines (Snapshot.of p lifted copies).frames i := by
  -- a frame whose parent is not grounded through another frame leads out itself
  have hframe : ∀ i f, lifted[i]? = some f →
      (∀ j g, lifted[j]? = some g → f.parent = some g.id →
        LeadsOut s.routines (Snapshot.of p lifted copies).frames j) →
      LeadsOut s.routines (Snapshot.of p lifted copies).frames i := by
    intro i f hfi habove
    cases hcopy : (Snapshot.of p lifted copies).frames[i]? with
    | none => exact .beyond hcopy
    | some frame =>
      obtain ⟨f', hf', hplace⟩ := frame_of_snapshot hcopy
      obtain rfl := Option.some.inj (hfi.symm.trans hf')
      cases hp : ParentPlace.of (lifted.map Lifted.id) f.parent with
      | outside o =>
        refine .outside hcopy (hplace.trans hp) fun q hq => ?_
        exact hissued f (List.mem_of_getElem? hfi) q ((place_of_outside hp).symm.trans hq)
      | inside j =>
        obtain ⟨q, hq, hj⟩ := place_of_inside hp
        obtain ⟨g, hg, rfl⟩ := Option.map_eq_some_iff.mp (List.getElem?_map (f := Lifted.id) ▸ hj)
        exact .inside hcopy (hplace.trans hp) (habove j g hg hq)
  have hway : ∀ a, Grounded s a → ∀ i f, lifted[i]? = some f → f.id = a →
      LeadsOut s.routines (Snapshot.of p lifted copies).frames i := by
    intro a ha
    induction ha with
    | root live orphan =>
      rintro i f hfi rfl
      obtain ⟨x, hx, hpar⟩ := hlive f (List.mem_of_getElem? hfi)
      rw [live, Option.some.injEq] at hx
      refine hframe i f hfi fun j g hg hq => ?_
      obtain ⟨y, hy, -⟩ := hlive g (List.mem_of_getElem? hg)
      rw [hx, hpar, hq, liveParent_of_live hy] at orphan
      cases orphan
    | under live parent _ ih =>
      rintro i f hfi rfl
      obtain ⟨x, hx, hpar⟩ := hlive f (List.mem_of_getElem? hfi)
      rw [live, Option.some.injEq] at hx
      rw [hx, hpar] at parent
      exact hframe i f hfi fun j g hg hq => ih j g hg (Option.some.inj (hq.symm.trans parent))
  cases hfi : lifted[i]? with
  | none =>
    refine .beyond ?_
    simp [Snapshot.of, List.getElem?_zipWith, hfi]
  | some f =>
    obtain ⟨x, hx, -⟩ := hlive f (List.mem_of_getElem? hfi)
    exact hway f.id (hf f.id x hx) i f hfi rfl

/-- What linking copies does to an entry: it gets a parent at most if it is one
    of the copies. -/
theorem find?_links (ids : List RoutineId) (pairs : List (FrameCopy C × RoutineId))
    (s : Scheduler C) :
    let t := pairs.foldl (fun s (frame, id) => s.link id (frame.parent.resolve ids)) s
    (∀ a x, s.routines.find? a = some x → ∃ y, t.routines.find? a = some y ∧
      y.script = x.script ∧ ((∀ pair ∈ pairs, a ≠ pair.2) → y.parent = x.parent)) ∧
    ∀ a y, t.routines.find? a = some y → ∃ x, s.routines.find? a = some x ∧
      y.script = x.script ∧ (y.parent = x.parent ∨
        ∃ pair ∈ pairs, a = pair.2 ∧ (y.parent = none ∨ y.parent = pair.1.parent.resolve ids)) := by
  induction pairs generalizing s with
  | nil => exact ⟨fun a x hx => ⟨x, hx, rfl, fun _ => rfl⟩, fun a y hy => ⟨y, hy, rfl, Or.inl rfl⟩⟩
  | cons pair pairs ih =>
    obtain ⟨hforth, hback⟩ := ih (s.link pair.2 (pair.1.parent.resolve ids))
    refine ⟨fun a x hx => ?_, fun a y hy => ?_⟩
    · obtain ⟨y, hy, hscript, hparent⟩ := hforth a _ ((find?_link ..).trans (congrArg _ hx))
      refine ⟨y, hy, hscript, fun hne => ?_⟩
      rw [List.forall_mem_cons] at hne
      exact (hparent hne.2).trans (if_neg hne.1)
    · obtain ⟨z, hz, hscript, hparent⟩ := hback a y hy
      rw [find?_link] at hz
      obtain ⟨x, hx, rfl⟩ := Option.map_eq_some_iff.mp hz
      refine ⟨x, hx, hscript, ?_⟩
      rcases hparent with hparent | ⟨pair', hmem, hrest⟩
      · by_cases ha : a = pair.2
        · rw [if_pos ha] at hparent
          refine Or.inr ⟨pair, List.mem_cons_self .., ha, ?_⟩
          cases hlive : s.liveParent (pair.1.parent.resolve ids) with
          | none => exact Or.inl (hparent.trans hlive)
          | some q =>
            exact Or.inr (hparent.trans (hlive.trans (liveParent_eq_some.mp hlive).1.symm))
        · rw [if_neg ha] at hparent
          exact Or.inl hparent
      · exact Or.inr ⟨pair', List.mem_cons_of_mem _ hmem, hrest⟩

/-- What is found after copies have been added is a copy, or was there before. -/
theorem find?_of_addCopies (frames : List (FrameCopy C × Script C)) {s : Scheduler C}
    (hs : s.routines.Sound) (hroom : (addCopies frames s).2.routines.slots.size ≤ 2 ^ 32)
    {x : Routine C} (hx : (addCopies frames s).2.routines.find? a = some x) :
    a ∈ (addCopies frames s).1 ∨ s.routines.find? a = some x := by
  induction frames generalizing s with
  | nil => exact Or.inr hx
  | cons pair frames ih =>
    have hone : (s.add pair.1.origin pair.2).2.routines.slots.size ≤ 2 ^ 32 :=
      Nat.le_trans (closed_addCopies (Roster.closed_grows _).steady (.refl _) frames).slots hroom
    have hfind := hs.find?_insert ⟨pair.1.origin, some pair.2, none, []⟩ hone a
    rcases ih (s := (s.add pair.1.origin pair.2).2) (hs.insert _) hroom hx with hmem | hold
    · exact Or.inl (List.mem_cons_of_mem _ hmem)
    · by_cases ha : a = (s.add pair.1.origin pair.2).1
      · exact Or.inl (ha ▸ List.mem_cons_self ..)
      · exact Or.inr ((hfind.trans (if_neg ha)).symm.trans hold)

theorem stack_plant (s : Scheduler C) (frames : List (FrameCopy C)) (copies : List (Script C)) :
    (s.plant frames copies).2.stack = s.stack := by
  have hcopies : ∀ (pairs : List (FrameCopy C × Script C)) (t : Scheduler C),
      (addCopies pairs t).2.stack = t.stack := by
    intro pairs
    induction pairs with
    | nil => exact fun t => rfl
    | cons pair pairs ih => exact fun t => ih (t.add pair.1.origin pair.2).2
  have hlinks : ∀ (ids : List RoutineId) (pairs : List (FrameCopy C × RoutineId))
      (t : Scheduler C), (pairs.foldl (fun s pair =>
        s.link pair.2 (pair.1.parent.resolve ids)) t).stack = t.stack := by
    intro ids pairs
    induction pairs with
    | nil => exact fun t => rfl
    | cons pair pairs ih =>
      intro t
      refine (ih _).trans ?_
      dsimp only [link]
      cases t.liveParent (pair.1.parent.resolve ids) <;> rfl
  exact (hlinks _ _ _).trans (hcopies (frames.zip copies) s)

theorem tends_reinstate (s : Scheduler C) (ids : List RoutineId) (v : Value) :
    Tends s (s.reinstate ids v) :=
  .of_entries (fun {_ y} hy => ⟨y, hy, Or.inl rfl, fun h => h⟩) fun hon =>
    (aside_reinstate s ids v).stack hon

/-- Copies of frames go on the stack, linked as the frames were. -/
theorem tends_plant (hl : Linked s.routines) {frames : List (FrameCopy C)}
    {copies : List (Script C)} {ids : List RoutineId} (h : s.plant frames copies = (ids, t))
    (hroom : ∀ a, t.routines.Ample a) (hout : ∀ i, LeadsOut s.routines frames i) (v : Value) :
    Tends s (t.reinstate ids v) := by
  obtain ⟨hids, ht⟩ : (addCopies (frames.zip copies) s).1 = ids ∧
      (frames.zip ids).foldl (fun u (frame, id) => u.link id (frame.parent.resolve ids))
        (addCopies (frames.zip copies) s).2 = t := by
    have hids : (addCopies (frames.zip copies) s).1 = ids := congrArg Prod.fst h
    subst hids
    exact ⟨rfl, congrArg Prod.snd h⟩
  have hcopies : ∀ a, (addCopies (frames.zip copies) s).2.routines.Ample a := by
    intro a
    refine (hroom a).of_grows ?_
    rw [← ht]
    exact closed_links (Roster.closed_grows _).steady (.refl _) _ _
  obtain ⟨-, hnodup, hold, hnew⟩ := Linked.addCopies hl (frames.zip copies)
    (hcopies default).slots
  obtain ⟨hforth, hback⟩ := find?_links ids (frames.zip ids) (addCopies (frames.zip copies) s).2
  rw [ht] at hforth hback
  rw [hids] at hnodup hnew
  have hlength : ids.length ≤ frames.length := by
    rw [← hids, length_addCopies, List.length_zip]
    exact Nat.min_le_left _ _
  -- what was there before stays as it is
  have hkeep : ∀ a x, s.routines.find? a = some x →
      ∃ y, t.routines.find? a = some y ∧ y.parent = x.parent := by
    intro a x hx
    obtain ⟨hx', hnot⟩ := hold a x hx
    obtain ⟨y, hy, -, hparent⟩ := hforth a x hx'
    refine ⟨y, hy, hparent fun pair hpair ha => hnot ?_⟩
    rw [hids, ha]
    exact (List.of_mem_zip hpair).2
  have hcases : ∀ {a y}, t.routines.find? a = some y →
      (a ∈ ids ∧ y.script ≠ none) ∨
        ∃ x, s.routines.find? a = some x ∧ y.parent = x.parent ∧ y.script = x.script := by
    intro a y hy
    obtain ⟨x, hx, hscript, hparent⟩ := hback a y hy
    rcases find?_of_addCopies (frames.zip copies) hl.sound (hcopies a).slots hx with hmem | hx'
    · rw [hids] at hmem
      obtain ⟨origin, copy, hcopy⟩ := hnew a hmem
      rw [hx, Option.some.injEq] at hcopy
      exact Or.inl ⟨hmem, by rw [hscript, hcopy]; rintro ⟨⟩⟩
    · refine Or.inr ⟨x, hx', ?_, hscript⟩
      obtain ⟨y', hy', hpar⟩ := hkeep a x hx'
      rw [hy, Option.some.injEq] at hy'
      exact hy' ▸ hpar
  have hentry : ∀ {i : Nat} {frame : FrameCopy C} {a : RoutineId}, frames[i]? = some frame → ids[i]? = some a →
      ∃ y, t.routines.find? a = some y ∧
        (y.parent = none ∨ y.parent = frame.parent.resolve ids) := by
    intro i frame a hframe ha
    obtain ⟨origin, copy, hcopy⟩ := hnew a (List.mem_of_getElem? ha)
    obtain ⟨y, hy, -⟩ := hforth a _ hcopy
    obtain ⟨x, hx, -, hparent⟩ := hback a y hy
    rw [hcopy, Option.some.injEq] at hx
    subst hx
    refine ⟨y, hy, ?_⟩
    rcases hparent with hnone | ⟨pair, hpair, ha', hparent⟩
    · exact Or.inl hnone
    · obtain ⟨j, hj⟩ := List.mem_iff_getElem?.mp hpair
      obtain ⟨hframe', hid⟩ := List.getElem?_zip_eq_some.mp hj
      have hij : i = j := by
        rw [← ha', ← ha] at hid
        exact (List.getElem?_inj (List.getElem?_eq_some_iff.mp ha).1 hnodup).mp hid.symm
      rw [hij, hframe', Option.some.injEq] at hframe
      rwa [hframe] at hparent
  have hgrounded : s.Forest → ∀ i, LeadsOut s.routines frames i → ∀ a, ids[i]? = some a →
      Grounded t a := by
    intro hforest i hi
    induction hi with
    | @beyond i hnone =>
      intro a ha
      have hlt := (List.getElem?_eq_some_iff.mp ha).1
      have hle := List.getElem?_eq_none_iff.mp hnone
      omega
    | @outside i frame parent hframe place issued =>
      intro a ha
      obtain ⟨y, hy, hparent⟩ := hentry hframe ha
      cases hlive : t.liveParent y.parent with
      | none => exact .root hy hlive
      | some q =>
        obtain ⟨hq, z, hz⟩ := liveParent_eq_some.mp hlive
        rcases hparent with hnone | hparent
        · exact absurd (hnone.symm.trans hq) (by simp)
        rw [place, hq] at hparent
        -- what has been issued is none of the copies
        have hnot : q ∉ ids := by
          rw [← hids]
          exact (aside_addCopies _ hl.sound (issued q hparent.symm) (hcopies q)).2
        rcases hcases hz with ⟨hmem, -⟩ | ⟨x, hx, -⟩
        · exact absurd hmem hnot
        · exact .under hy hq ((hforest q x hx).mono hl hkeep)
    | @inside i j frame hframe place _ ih =>
      intro a ha
      obtain ⟨y, hy, hparent⟩ := hentry hframe ha
      cases hp : y.parent with
      | none => exact .root hy (by rw [hp]; rfl)
      | some q =>
        rcases hparent with hnone | hparent
        · exact absurd (hnone.symm.trans hp) (by simp)
        rw [place, hp] at hparent
        exact .under hy hp (ih q hparent.symm)
  have hforest : s.Forest → t.Forest := by
    intro hforest a y hy
    rcases hcases hy with ⟨hmem, -⟩ | ⟨x, hx, -⟩
    · obtain ⟨i, hi⟩ := List.mem_iff_getElem?.mp hmem
      exact hgrounded hforest i (hout i) a hi
    · exact (hforest a x hx).mono hl hkeep
  have hstack : t.stack = s.stack := by
    rw [← stack_plant s frames copies, h]
  refine ⟨?_, ?_, fun hs => (hforest hs).congr rfl, ?_⟩
  · intro a y hy hp
    rcases hcases hy with ⟨hmem, -⟩ | ⟨x, hx, hpar, -⟩
    · refine Or.inl ?_
      simp only [onStack, reinstate, List.contains_iff_mem]
      exact List.mem_append_left _ (List.mem_reverse.mpr (List.mem_map_of_mem hmem))
    · exact Or.inr ⟨x, hx, hpar.symm.trans hp⟩
  · intro a y hy hs
    rcases hcases hy with ⟨-, hscript⟩ | ⟨x, hx, -, hscript⟩
    · exact absurd hs hscript
    · exact ⟨x, hx, hscript.symm.trans hs⟩
  · intro a ha
    refine (tends_reinstate t ids v).stack ?_
    rwa [onStack, hstack]

/-! ### Forced returns -/

/-- What has become of the routines of `s` when routine `id` has finished and
    some of its children have been made to exit. -/
structure Exiting (id : RoutineId) (s t : Scheduler C) : Prop where
  /-- A root is on the stack, or it was a root before, or what was its parent
      had no script to exit with. -/
  roots : ∀ {a y}, t.routines.find? a = some y → y.parent = none → t.onStack a = true ∨
    ∃ x, s.routines.find? a = some x ∧ (x.parent = none ∨
      ∃ q z, x.parent = some q ∧ q ≠ id ∧ s.routines.find? q = some z ∧ z.script = none)
  scripts : ∀ {a y}, t.routines.find? a = some y → y.script = none →
    ∃ x, s.routines.find? a = some x ∧ x.script = none
  /-- A parent is the one of before, or has a script. -/
  links : ∀ {a y q}, t.routines.find? a = some y → y.parent = some q →
    (∃ x, s.routines.find? a = some x ∧ x.parent = some q) ∨
      ∃ z, t.routines.find? q = some z ∧ z.script ≠ none
  forest : s.Forest → t.Forest
  stack : ∀ {a}, s.onStack a = true → t.onStack a = true

/-- A child without a script is taken out. -/
theorem Exiting.scheduleExit_of_out {loose : List RoutineId} {c : RoutineId} {r : Routine C}
    {routines : Roster (Routine C)} (h : Exiting id s t) (hl : LinkedBut loose t.routines)
    (hr : t.routines.remove c = some (r, routines)) (hscript : r.script = none) (hne : c ≠ id) :
    Exiting id s (t.scheduleExit c) := by
  have hc := Roster.find?_of_remove hr
  have hfind : ∀ a, (t.scheduleExit c).routines.find? a = if a = c then none
      else (t.routines.find? a).map fun x =>
        { x with parent := if a ∈ r.children then none else x.parent } := by
    intro a
    rw [Scheduler.scheduleExit_of_out hr hscript, find?_cutAll]
    show (routines.find? a).map _ = _
    rw [Roster.find?_remove hr]
    by_cases ha : a = c
    · rw [if_pos ha, if_pos ha]
      rfl
    · rw [if_neg ha, if_neg ha]
  have hstack : (t.scheduleExit c).stack = t.stack := by
    rw [Scheduler.scheduleExit_of_out hr hscript, (shrunk_cutAll _ _).work.stack]
  have hback : ∀ {a y}, (t.scheduleExit c).routines.find? a = some y → a ≠ c ∧
      ∃ x, t.routines.find? a = some x ∧ y.script = x.script ∧
        y.parent = if a ∈ r.children then none else x.parent := by
    intro a y hy
    rw [hfind] at hy
    split at hy
    · cases hy
    · next ha =>
      obtain ⟨x, hx, rfl⟩ := Option.map_eq_some_iff.mp hy
      exact ⟨ha, x, hx, rfl, rfl⟩
  refine ⟨?_, ?_, ?_, ?_, ?_⟩
  · intro a y hy hp
    obtain ⟨ha, x, hx, -, hparent⟩ := hback hy
    split at hparent
    · next hmem =>
      -- its parent was `c`, which has been without a script all along
      obtain ⟨x', hx', hpar⟩ := hl.child hc hmem
      rcases h.links hx' hpar with ⟨w, hw, hwpar⟩ | ⟨z, hz, hzscript⟩
      · obtain ⟨z, hz, hzscript⟩ := h.scripts hc hscript
        exact Or.inr ⟨w, hw, Or.inr ⟨c, z, hwpar, hne, hz, hzscript⟩⟩
      · rw [hc, Option.some.injEq] at hz
        exact absurd (hz ▸ hscript) hzscript
    · rw [onStack, hstack]
      exact h.roots hx (hparent.symm.trans hp)
  · intro a y hy hs
    obtain ⟨-, x, hx, hsame, -⟩ := hback hy
    exact h.scripts hx (hsame.symm.trans hs)
  · intro a y q hy hq
    obtain ⟨-, x, hx, -, hparent⟩ := hback hy
    split at hparent
    · exact absurd (hparent.symm.trans hq) (by simp)
    · rcases h.links hx (hparent.symm.trans hq) with hold | ⟨z, hz, hzscript⟩
      · exact Or.inl hold
      · have hqc : q ≠ c := by
          rintro rfl
          rw [hc, Option.some.injEq] at hz
          exact hzscript (hz ▸ hscript)
        exact Or.inr ⟨_, (hfind q).trans ((if_neg hqc).trans (congrArg _ hz)), hzscript⟩
  · refine fun hs => (h.forest hs).of_links fun a y q z hy hq hz => ?_
    obtain ⟨-, x, hx, -, hparent⟩ := hback hy
    obtain ⟨-, w, hw, -, -⟩ := hback hz
    split at hparent
    · exact absurd (hparent.symm.trans hq) (by simp)
    · exact Or.inr ⟨x, w, hx, hparent.symm.trans hq, hw⟩
  · intro a ha
    rw [onStack, hstack]
    exact h.stack ha

/-- A child with a script is replaced by a root on the stack. -/
theorem Exiting.scheduleExit_of_script {loose : List RoutineId} {c : RoutineId} {r : Routine C}
    {script : Script C} (h : Exiting id s t) (hl : LinkedBut loose t.routines)
    (hroom : t.routines.slots.size ≤ 2 ^ 32) (hc : t.routines.find? c = some r)
    (hscript : r.script = some script) : Exiting id s (t.scheduleExit c) := by
  have hfind := find?_scheduleExit hl.sound hroom hc hscript fun d hd =>
    (hl.child hc hd).imp fun _ => And.left
  have hstack := (scheduleExit_spec hl.sound hc hscript).2.2.2.2
  have hself := (hfind c.next).trans (if_pos rfl)
  have hroot : Grounded (t.scheduleExit c) c.next := .root hself rfl
  have hfresh := Roster.find?_next hc
  have hback : ∀ {a y}, (t.scheduleExit c).routines.find? a = some y → a ≠ c.next → a ≠ c ∧
      ∃ x, t.routines.find? a = some x ∧ y.script = x.script ∧
        y.parent = if a ∈ r.children then some c.next else x.parent := by
    intro a y hy ha
    rw [hfind, if_neg ha] at hy
    split at hy
    · cases hy
    · next hac =>
      obtain ⟨x, hx, rfl⟩ := Option.map_eq_some_iff.mp hy
      exact ⟨hac, x, hx, rfl, rfl⟩
  have hon : ∀ {a}, t.onStack a = true → (t.scheduleExit c).onStack a = true := by
    intro a ha
    rw [onStack, hstack]
    exact onStack_cons (.routine c.next) ha
  refine ⟨?_, ?_, ?_, ?_, fun ha => hon (h.stack ha)⟩
  · intro a y hy hp
    by_cases ha : a = c.next
    · exact Or.inl (by simp [onStack, hstack, ha])
    · obtain ⟨-, x, hx, -, hparent⟩ := hback hy ha
      split at hparent
      · exact absurd (hparent.symm.trans hp) (by simp)
      · exact (h.roots hx (hparent.symm.trans hp)).imp_left hon
  · intro a y hy hs
    by_cases ha : a = c.next
    · rw [ha, hself, Option.some.injEq] at hy
      rw [← hy] at hs
      cases hs
    · obtain ⟨-, x, hx, hsame, -⟩ := hback hy ha
      exact h.scripts hx (hsame.symm.trans hs)
  · intro a y q hy hq
    by_cases ha : a = c.next
    · rw [ha, hself, Option.some.injEq] at hy
      rw [← hy] at hq
      cases hq
    · obtain ⟨-, x, hx, -, hparent⟩ := hback hy ha
      split at hparent
      · obtain rfl := Option.some.inj (hparent.symm.trans hq)
        exact Or.inr ⟨_, hself, by rintro ⟨⟩⟩
      · next hnot =>
        have hpar := hparent.symm.trans hq
        rcases h.links hx hpar with hold | ⟨z, hz, hzscript⟩
        · exact Or.inl hold
        · have hqn : q ≠ c.next := by
            rintro rfl
            exact absurd (hfresh.symm.trans hz) (by simp)
          have hqc : q ≠ c := by
            rintro rfl
            rcases hl.parent hx hpar with ⟨w, hw, hmem⟩ | ⟨hdead, -⟩
            · rw [hc, Option.some.injEq] at hw
              exact hnot (hw ▸ hmem)
            · exact absurd (hdead.symm.trans hc) (by simp)
          refine Or.inr ⟨_, (hfind q).trans ((if_neg hqn).trans ((if_neg hqc).trans
            (congrArg _ hz))), hzscript⟩
  · refine fun hs => (h.forest hs).of_links fun a y q z hy hq hz => ?_
    by_cases hqn : q = c.next
    · exact Or.inl (hqn ▸ hroot)
    by_cases ha : a = c.next
    · rw [ha, hself, Option.some.injEq] at hy
      rw [← hy] at hq
      cases hq
    · obtain ⟨-, x, hx, -, hparent⟩ := hback hy ha
      obtain ⟨-, w, hw, -, -⟩ := hback hz hqn
      split at hparent
      · exact absurd (hparent.symm.trans hq) fun heq => hqn (Option.some.inj heq).symm
      · exact Or.inr ⟨x, w, hx, hparent.symm.trans hq, hw⟩

theorem Exiting.scheduleExits {kept : Routine C} (hroot : kept.parent = none) (cs : List RoutineId)
    (h : Exiting id s t) (hl : LinkedBut cs t.routines) (hroom : t.routines.slots.size ≤ 2 ^ 32)
    (hnodup : cs.Nodup) (hkept : t.routines.find? id.next = some kept)
    (hparents : ∀ d ∈ cs, d = id ∨ ∃ y, t.routines.find? d = some y ∧ y.parent = some id) :
    Exiting id s (cs.foldl Scheduler.scheduleExit t) := by
  induction cs generalizing t with
  | nil => exact h
  | cons c cs ih =>
    rw [List.nodup_cons] at hnodup
    obtain ⟨hlinked, hslots, hkept', hparents'⟩ :=
      hl.scheduleExit hroom hnodup.1 hkept hroot hparents
    refine ih ?_ hlinked (hslots ▸ hroom) hnodup.2 hkept' hparents'
    cases hr : t.routines.remove c with
    | none =>
      rw [scheduleExit_of_dead (Roster.remove_eq_none.mp hr)]
      exact h
    | some pair =>
      obtain ⟨r, routines⟩ := pair
      have hc := Roster.find?_of_remove hr
      cases hscript : r.script with
      | some script => exact h.scheduleExit_of_script hl hroom hc hscript
      | none =>
        refine h.scheduleExit_of_out hl hr hscript ?_
        rintro rfl
        exact absurd ((Roster.find?_of_next hkept).symm.trans hc) (by simp)

/-- What becomes of the routines when one finishes. -/
theorem exiting_conclude (hl : Linked s.routines) (hroom : s.routines.slots.size ≤ 2 ^ 32)
    (id : RoutineId) (script : Script C) (o : Outcome Value) :
    Exiting id s (s.conclude id script o) := by
  have hlinks : ∀ {a x q}, s.routines.find? a = some x → x.parent = some q →
      (∃ x, s.routines.find? a = some x ∧ x.parent = some q) ∨
        ∃ z, s.routines.find? q = some z ∧ z.script ≠ none :=
    fun hx hq => Or.inl ⟨_, hx, hq⟩
  cases hr : s.routines.remove id with
  | none =>
    rw [conclude_of_dead (Roster.remove_eq_none.mp hr)]
    exact ⟨fun hy hp => Or.inr ⟨_, hy, Or.inl hp⟩, fun hy hs => ⟨_, hy, hs⟩, hlinks,
      Tends.forest (.of_same rfl rfl), fun h => h⟩
  | some pair =>
    obtain ⟨r, routines⟩ := pair
    have hid := Roster.find?_of_remove hr
    by_cases hnone : r.children = []
    · obtain ⟨hstack, -, -, -, hfind⟩ := conclude_childless_spec hl.sound hid hnone script o
      have hback : ∀ {a y}, (s.conclude id script o).routines.find? a = some y →
          ∃ x, s.routines.find? a = some x ∧ y.script = x.script ∧ y.parent = x.parent := by
        intro a y hy
        rw [hfind] at hy
        split at hy
        · cases hy
        · obtain ⟨x, hx, rfl⟩ := Option.map_eq_some_iff.mp hy
          exact ⟨x, hx, rfl, rfl⟩
      have htends : Tends s (s.conclude id script o) := by
        refine .of_entries (fun {a y} hy => ?_) fun {a} ha => ?_
        · obtain ⟨x, hx, hscript, hparent⟩ := hback hy
          exact ⟨x, hx, Or.inl hparent, fun hs => hscript.symm.trans hs⟩
        · rwa [onStack, hstack]
      refine ⟨fun hy hp => ?_, htends.scripts, fun hy hq => ?_, htends.forest, htends.stack⟩
      · rcases htends.roots hy hp with hon | ⟨x, hx, hxp⟩
        · exact Or.inl hon
        · exact Or.inr ⟨x, hx, Or.inl hxp⟩
      · obtain ⟨x, hx, -, hparent⟩ := hback hy
        exact Or.inl ⟨x, hx, hparent.symm.trans hq⟩
    · obtain ⟨hlinked, hslots, hkept, hothers⟩ := hl.keptBack hroom hr script o
      obtain ⟨hfirst, hstack, -, -, -, -, hfind⟩ := keptBack_spec hl.sound hroom hr script o
      have hnext := Roster.find?_next hid
      rw [conclude_of_children hr hnone]
      -- the result of the finished routine is a root on the stack
      have hstart : Exiting id s ((s.keptBack id r routines script o).2.push
          (.routine (s.keptBack id r routines script o).1)) := by
        have hback : ∀ {a y}, (s.keptBack id r routines script o).2.routines.find? a = some y →
            a = id.next ∧ y.parent = none ∧ y.script ≠ none ∨ a ≠ id.next ∧
              ∃ x, s.routines.find? a = some x ∧ y.script = x.script ∧ y.parent = x.parent := by
          intro a y hy
          rw [hfind] at hy
          split at hy
          · next ha => cases hy; exact Or.inl ⟨ha, rfl, by rintro ⟨⟩⟩
          · next ha =>
            split at hy
            · cases hy
            · obtain ⟨x, hx, rfl⟩ := Option.map_eq_some_iff.mp hy
              exact Or.inr ⟨ha, x, hx, rfl, rfl⟩
        refine ⟨?_, ?_, ?_, ?_, ?_⟩
        · intro a y hy hp
          rcases hback hy with ⟨ha, -, -⟩ | ⟨-, x, hx, -, hparent⟩
          · exact Or.inl (by simp [onStack, push, hfirst, ha])
          · exact Or.inr ⟨x, hx, Or.inl (hparent.symm.trans hp)⟩
        · intro a y hy hs
          rcases hback hy with ⟨-, -, hscript⟩ | ⟨-, x, hx, hscript, -⟩
          · exact absurd hs hscript
          · exact ⟨x, hx, hscript.symm.trans hs⟩
        · intro a y q hy hq
          rcases hback hy with ⟨-, hpar, -⟩ | ⟨-, x, hx, -, hparent⟩
          · exact absurd (hpar.symm.trans hq) (by simp)
          · exact Or.inl ⟨x, hx, hparent.symm.trans hq⟩
        · refine fun hs => hs.of_links fun a y q z hy hq hz => ?_
          rcases hback hz with ⟨-, hpar, -⟩ | ⟨-, w, hw, -, -⟩
          · exact Or.inl (.root hz (by rw [hpar]; rfl))
          · rcases hback hy with ⟨-, hpar, -⟩ | ⟨-, x, hx, -, hparent⟩
            · exact absurd (hpar.symm.trans hq) (by simp)
            · exact Or.inr ⟨x, w, hx, hparent.symm.trans hq, hw⟩
        · intro a ha
          refine onStack_cons _ ?_
          rwa [onStack, hstack]
      have hroot : (⟨.settled, some (.settled o), none, []⟩ : Routine C).parent = none := rfl
      have hexits := hstart.scheduleExits hroot r.children hlinked hslots
        (hl.nodup hid) hkept hothers
      exact ⟨hexits.roots, hexits.scripts, hexits.links,
        fun hs => (hexits.forest hs).congr rfl, hexits.stack⟩

/-! ### Lifted frames -/

/-- Lifting takes at most scripts out. -/
theorem find?_liftFrom (stack : List StackEntry) (lifted : List (Lifted C)) (s : Scheduler C)
    (a : RoutineId) :
    (liftFrom stack lifted s).2.routines.find? a = s.routines.find? a ∨
      (liftFrom stack lifted s).2.routines.find? a =
        (s.routines.find? a).map fun x => { x with script := none } := by
  induction stack generalizing lifted s with
  | nil => exact Or.inl rfl
  | cons entry rest ih =>
    cases entry with
    | boundary => exact Or.inl rfl
    | routine id =>
      unfold liftFrom
      split
      · exact ih lifted s
      · next x hx =>
        split
        · exact ih lifted s
        · next script _ =>
          have hone : (s.modify id fun r => { r with script := none }).routines.find? a =
              if a = id then (s.routines.find? a).map fun x => { x with script := none }
              else s.routines.find? a := Roster.find?_modify _ _ _ _
          have hrest := ih (⟨id, x.origin, script, x.parent⟩ :: lifted)
            (s.modify id fun r => { r with script := none })
          rw [hone] at hrest
          split at hrest
          · rw [Option.map_map] at hrest
            exact Or.inr (hrest.elim (fun h => h) fun h => h)
          · exact hrest

theorem find?_lift {frames : List (Lifted C)} (h : s.lift = (frames, t)) (a : RoutineId) :
    t.routines.find? a = s.routines.find? a ∨
      t.routines.find? a = (s.routines.find? a).map fun x => { x with script := none } := by
  have hlifted := find?_liftFrom s.stack [] s a
  have ht : (liftFrom s.stack [] s).2.report _ = t := congrArg Prod.snd h
  exact ht ▸ hlifted

/-- Frames that are live have got their scripts back. -/
theorem script_giveBackAll (frames : List (Lifted C)) (s : Scheduler C) {r : Routine C}
    (ha : a ∈ frames.map Lifted.id) (hr : (s.giveBackAll frames).routines.find? a = some r) :
    r.script ≠ none := by
  intro hs
  unfold giveBackAll at hr
  induction frames generalizing s with
  | nil => cases ha
  | cons frame frames ih =>
    by_cases hmem : a ∈ frames.map Lifted.id
    · exact ih (s.giveBack frame.id frame.script) hmem hr
    · obtain rfl : a = frame.id := (List.mem_cons.mp ha).resolve_right hmem
      -- the script given back stays there
      obtain ⟨x, hx, hxs⟩ := (tends_giveBackAll frames (s.giveBack frame.id frame.script)).scripts
        hr hs
      unfold giveBack at hx
      split at hx
      · have hx' : (s.routines.modify frame.id _).find? frame.id = some x := hx
        rw [Roster.find?_modify, if_pos rfl] at hx'
        obtain ⟨y, -, rfl⟩ := Option.map_eq_some_iff.mp hx'
        cases hxs
      · next hdead =>
        exact hdead (Roster.contains_iff.mpr ⟨x, hx⟩)

end Strand.Scheduler
