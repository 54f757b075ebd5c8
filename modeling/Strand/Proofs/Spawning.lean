import Strand.Proofs.Conclude

/-! # Spawning — how work comes onto the stack

    * A routine that has yielded is shelved, beneath what it asked for.
    * A child goes on top and will be fed unit. It is the last of the children
      of its parent, under the identifier `fresh`. -/

namespace Strand.Scheduler

variable {C : Type} {s : Scheduler C} {id q : RoutineId} {x : Routine C}

/-- The identifier of the next new routine. -/
def fresh (s : Scheduler C) : RoutineId := (s.routines.insert ⟨.root, none, none, []⟩).1

theorem insert_fst (s : Scheduler C) (r : Routine C) : (s.routines.insert r).1 = s.fresh :=
  Roster.insert_fst_congr _ _ _

theorem fresh_congr {t : Scheduler C} (h : t.routines = s.routines) : t.fresh = s.fresh := by
  rw [fresh, h]
  rfl

theorem giveBack_of_live (h : s.routines.find? id = some x) (script : Script C) :
    s.giveBack id script = s.modify id fun r => { r with script := some script } :=
  if_pos (Roster.contains_iff.mpr ⟨x, h⟩)

theorem shelve_of_live (h : s.routines.find? id = some x) (script : Script C) :
    s.shelve id script =
      { s with
        routines := s.routines.modify id fun r => { r with script := some script }
        stack := .routine id :: s.stack } := by
  rw [shelve, if_pos (Roster.contains_iff.mpr ⟨x, h⟩), giveBack_of_live h]
  rfl

theorem fresh_shelve (s : Scheduler C) (id : RoutineId) (script : Script C) :
    (s.shelve id script).fresh = s.fresh := by
  unfold shelve giveBack
  split
  · exact Roster.insert_fst_modify _ _ _ _
  · rfl

/-- A child needs no more slots than a new routine does. -/
theorem slots_scheduleChild (s : Scheduler C) (origin : Origin) (script : Script C)
    (q : RoutineId) : (s.scheduleChild origin script q).routines.slots.size =
      (s.routines.insert ⟨origin, some script, none, []⟩).2.slots.size := by
  show ((s.add origin script).2.link (s.add origin script).1 (some q)).routines.slots.size = _
  unfold link
  dsimp only
  split
  · rw [modify, modify, Roster.size_slots_modify, Roster.size_slots_modify]
    rfl
  · rw [modify, Roster.size_slots_modify]
    rfl

/-- Nothing was found in the slot of a new child before. -/
theorem find?_of_index_fresh (hs : s.routines.Sound) {origin : Origin} {script : Script C}
    (hroom : (s.scheduleChild origin script q).routines.slots.size ≤ 2 ^ 32) {a : RoutineId}
    (ha : a.index = s.fresh.index) : s.routines.find? a = none := by
  refine hs.find?_insert_slot ⟨origin, some script, none, []⟩ ?_ (ha.trans ?_)
  · exact slots_scheduleChild s origin script q ▸ hroom
  · exact congrArg RoutineId.index (s.insert_fst _).symm

/-- How a child comes onto the stack. -/
theorem scheduleChild_spec (hl : Linked s.routines) {origin : Origin} {script : Script C}
    (hroom : (s.scheduleChild origin script q).routines.slots.size ≤ 2 ^ 32)
    (hq : s.routines.find? q = some x) :
    s.routines.find? s.fresh = none ∧
    ∃ routines reports,
      s.scheduleChild origin script q =
        { s with routines, reports, register := .unit, stack := .routine s.fresh :: s.stack } ∧
      ∀ a, routines.find? a =
        if a = s.fresh then some ⟨origin, some script, some q, []⟩
        else if a = q then some { x with children := x.children ++ [s.fresh] }
        else s.routines.find? a := by
  let r : Routine C := ⟨origin, some script, none, []⟩
  have hfst : (s.routines.insert r).1 = s.fresh := s.insert_fst r
  have hlink : (s.add origin script).2.link (s.add origin script).1 (some q) =
      (s.addUnder origin script (some q)).2 := rfl
  have hroom' : (s.routines.insert r).2.slots.size ≤ 2 ^ 32 := slots_scheduleChild s origin script q ▸ hroom
  have hdead : s.routines.find? s.fresh = none := find?_of_index_fresh hl.sound hroom rfl
  have hinsert := hl.sound.find?_insert r hroom'
  rw [hfst] at hinsert
  have hne : q ≠ s.fresh := by
    rintro rfl
    rw [hq] at hdead
    cases hdead
  have hq' : (s.add origin script).2.routines.find? q = some x := by
    show (s.routines.insert r).2.find? q = _
    rw [hinsert, if_neg hne, hq]
  have hnot : s.fresh ∉ x.children := by
    intro hmem
    obtain ⟨y, hy, -⟩ := hl.child hq hmem
    rw [hdead] at hy
    cases hy
  refine ⟨hdead, (s.addUnder origin script (some q)).2.routines,
    (s.scheduleChild origin script q).reports, ?_, ?_⟩
  · unfold scheduleChild addUnder
    dsimp only
    rw [show (s.add origin script).1 = s.fresh from hfst]
    rw [link, liveParent_of_live hq']
    rfl
  · intro a
    rw [← hlink, show (s.add origin script).1 = s.fresh from hfst, routines_link_some hq',
      Roster.find?_modify, Roster.find?_modify]
    show (if a = s.fresh then (if a = q then ((s.routines.insert r).2.find? a).map _
        else (s.routines.insert r).2.find? a).map _
      else if a = q then ((s.routines.insert r).2.find? a).map _
        else (s.routines.insert r).2.find? a) = _
    by_cases haf : a = s.fresh
    · have haq : a ≠ q := fun heq => hne (heq.symm.trans haf)
      rw [if_pos haf, if_neg haq, if_pos haf, hinsert, if_pos haf]
      rfl
    · rw [if_neg haf, if_neg haf]
      by_cases haq : a = q
      · rw [if_pos haq, if_pos haq, hinsert, if_neg haf, haq, hq, Option.map_some,
          addChild_of_notMem hnot]
      · rw [if_neg haq, if_neg haq, hinsert, if_neg haf]

end Strand.Scheduler
