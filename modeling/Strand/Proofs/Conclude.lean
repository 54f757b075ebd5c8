import Strand.Proofs.Kinship

/-! # Conclusions — a finished routine and the forced returns of its children

    When a routine finishes, each of its children is taken out and a wrapper
    that will make it exit is put in its slot. `scheduleExit` does this for
    one child:

    * the wrapper is known by the identifier that follows the child's;
    * it takes over the child's children;
    * it goes on top of the stack.

    Both the agreement of links and the order of exits follow from what this
    does to the entries. -/

namespace Strand.Roster

variable {C : Type} {P : Roster (Routine C) → Prop}

/-- Whatever happens to the routines of a roster, short of changing their
    scripts, leaves `P` true. -/
structure Steady (P : Roster (Routine C) → Prop) : Prop where
  modify : ∀ {r : Roster (Routine C)} (id : RoutineId) (f : Routine C → Routine C),
    (∀ x, (f x).script = x.script) → P r → P (r.modify id f)
  insert : ∀ {r : Roster (Routine C)} (e : Routine C), P r → P (r.insert e).2
  remove : ∀ {r r' : Roster (Routine C)} {id : RoutineId} {e : Routine C},
    r.remove id = some (e, r') → P r → P r'

theorem Closed.steady (h : Closed P) : Steady P :=
  ⟨fun id f _ hr => h.modify id f hr, h.insert, h.remove⟩

end Strand.Roster

namespace Strand.Scheduler

variable {C : Type}

/-! ### Forcing one child to exit -/

/-- Give the routines of `cs` the parent `w`. -/
def adoptAll (cs : List RoutineId) (w : RoutineId) (s : Scheduler C) : Scheduler C :=
  cs.foldl (fun s c => s.modify c fun g => { g with parent := some w }) s

private theorem find?_adoptAll (cs : List RoutineId) (w : RoutineId) (s : Scheduler C)
    (a : RoutineId) :
    (adoptAll cs w s).routines.find? a =
      (s.routines.find? a).map fun x =>
        { x with parent := if a ∈ cs then some w else x.parent } := by
  induction cs generalizing s with
  | nil =>
    show s.routines.find? a = _
    cases s.routines.find? a <;> simp
  | cons c cs ih =>
    show (adoptAll cs w (s.modify c _)).routines.find? a = _
    rw [ih]
    show ((s.routines.modify c _).find? a).map _ = _
    rw [Roster.find?_modify]
    cases ha : s.routines.find? a with
    | none => simp
    | some x => by_cases hac : a = c <;> simp [hac]

private theorem adoptAll_spec (cs : List RoutineId) (w : RoutineId) (s : Scheduler C) :
    SameWork s (adoptAll cs w s) ∧ (s.routines.Sound → (adoptAll cs w s).routines.Sound) ∧
      (adoptAll cs w s).routines.slots.size = s.routines.slots.size ∧
      ∀ a, (adoptAll cs w s).routines.vacated a = s.routines.vacated a := by
  induction cs generalizing s with
  | nil => exact ⟨.refl s, id, rfl, fun _ => rfl⟩
  | cons c cs ih =>
    obtain ⟨hwork, hsound, hslots, hvacated⟩ :=
      ih (s.modify c fun g => { g with parent := some w })
    have hone : SameWork s (s.modify c fun g => { g with parent := some w }) :=
      ⟨rfl, rfl, rfl, rfl⟩
    refine ⟨hone.trans hwork, ?_, ?_, ?_⟩
    · exact fun h => hsound (h.modify c _)
    · exact hslots.trans (Roster.size_slots_modify _ _ _)
    · exact fun a => (hvacated a).trans (Roster.vacated_modify _ _ _ _)

/-- What a child's wrapper looks like. -/
def wrapper (script : Script C) (children : List RoutineId) : Routine C :=
  ⟨.exit, some (.exit script .initial), none, children⟩

section ScheduleExit

variable {s : Scheduler C} {c : RoutineId} {r : Routine C}

/-- What forcing a child with a script to exit comes to. -/
theorem scheduleExit_eq {routines : Roster (Routine C)} {script : Script C}
    (hr : s.routines.remove c = some (r, routines)) (hscript : r.script = some script) :
    s.scheduleExit c =
      (((adoptAll r.children c.next
          { s with
            routines := (routines.insert ⟨.exit, some (.exit script .initial), none, []⟩).2 }).modify
        c.next fun w => { w with children := r.children }).push (.routine c.next)) := by
  have hnext := Roster.insert_fst_of_remove hr (x := ⟨.exit, some (.exit script .initial), none, []⟩)
  unfold scheduleExit replaceByExit
  simp only [hr, hscript, add]
  rw [hnext]
  rfl

/-- The entries after a child with a script has been forced to exit. -/
theorem find?_scheduleExit {script : Script C} (hs : s.routines.Sound)
    (hroom : s.routines.slots.size ≤ 2 ^ 32) (hc : s.routines.find? c = some r)
    (hscript : r.script = some script) (hlive : ∀ d ∈ r.children, ∃ y, s.routines.find? d = some y)
    (a : RoutineId) :
    (s.scheduleExit c).routines.find? a =
      if a = c.next then some (wrapper script r.children)
      else if a = c then none
      else (s.routines.find? a).map fun x =>
        { x with parent := if a ∈ r.children then some c.next else x.parent } := by
  obtain ⟨routines, hr⟩ := Roster.remove_of_find? hc
  have hnext := Roster.insert_fst_of_remove hr (x := ⟨.exit, some (.exit script .initial), none, []⟩)
  have hsize := Roster.size_slots_insert_of_remove hs hr ⟨.exit, some (.exit script .initial), none, []⟩
  have hinsert := (hs.remove hr).find?_insert ⟨.exit, some (.exit script .initial), none, []⟩
    (hsize ▸ hroom)
  rw [scheduleExit_eq hr hscript]
  show (Roster.modify _ c.next _).find? a = _
  rw [Roster.find?_modify, find?_adoptAll]
  show (if a = c.next then Option.map _ (Option.map _ ((routines.insert _).2.find? a))
    else Option.map _ ((routines.insert _).2.find? a)) = _
  rw [hinsert, hnext]
  by_cases ha : a = c.next
  · -- the wrapper is none of the children that it takes over
    have hnot : c.next ∉ r.children := by
      intro hmem
      obtain ⟨y, hy⟩ := hlive _ hmem
      rw [Roster.find?_next hc] at hy
      cases hy
    subst ha
    simp [hnot, wrapper]
  · simp only [if_neg ha, Roster.find?_remove hr]
    by_cases hac : a = c
    · simp [hac]
    · simp [hac]

theorem scheduleExit_spec {script : Script C} (hs : s.routines.Sound)
    (hc : s.routines.find? c = some r) (hscript : r.script = some script) :
    (s.scheduleExit c).routines.Sound ∧
      (s.scheduleExit c).routines.slots.size = s.routines.slots.size ∧
      (∀ a, s.routines.vacated a ≤ (s.scheduleExit c).routines.vacated a) ∧
      s.routines.vacated c < (s.scheduleExit c).routines.vacated c ∧
      (s.scheduleExit c).stack = .routine c.next :: s.stack := by
  obtain ⟨routines, hr⟩ := Roster.remove_of_find? hc
  have hsize := Roster.size_slots_insert_of_remove hs hr ⟨.exit, some (.exit script .initial), none, []⟩
  rw [scheduleExit_eq hr hscript]
  obtain ⟨hwork, hsound, hslots, hvacated⟩ := adoptAll_spec r.children c.next
    { s with routines := (routines.insert ⟨.exit, some (.exit script .initial), none, []⟩).2 }
  have hgrown : ∀ a, routines.vacated a ≤
      (((adoptAll r.children c.next
          { s with
            routines := (routines.insert ⟨.exit, some (.exit script .initial), none, []⟩).2 }).modify
        c.next fun w => { w with children := r.children }).push (.routine c.next)).routines.vacated a := by
    intro a
    show _ ≤ (Roster.modify _ _ _).vacated a
    rw [Roster.vacated_modify, hvacated]
    exact Roster.vacated_insert _ _ a
  refine ⟨(hsound ((hs.remove hr).insert _)).modify _ _, ?_, ?_, ?_, ?_⟩
  · exact (Roster.size_slots_modify _ _ _).trans (hslots.trans hsize)
  · intro a
    refine Nat.le_trans ?_ (hgrown a)
    rw [Roster.vacated_remove hr]
    split <;> omega
  · refine Nat.lt_of_lt_of_le ?_ (hgrown c)
    rw [Roster.vacated_remove hr, if_pos rfl]
    exact Nat.lt_succ_self _
  · exact congrArg _ hwork.stack

/-- A child whose script is out leaves nothing behind, and its children have no
    parent any more. -/
theorem scheduleExit_of_out {routines : Roster (Routine C)}
    (hr : s.routines.remove c = some (r, routines)) (hscript : r.script = none) :
    s.scheduleExit c = cutAll r.children { s with routines } := by
  unfold scheduleExit replaceByExit
  simp only [hr, hscript]
  rfl

theorem scheduleExit_of_dead (h : s.routines.find? c = none) : s.scheduleExit c = s := by
  unfold scheduleExit replaceByExit
  simp only [Roster.remove_eq_none.mpr h]

end ScheduleExit

/-! ### Links while children are forced to exit -/

section Loose

variable {s : Scheduler C} {id c : RoutineId} {loose : List RoutineId} {r : Routine C}

/-- A routine whose parent is not `c` is none of the children of `c`. -/
theorem LinkedBut.notMem_children (h : LinkedBut loose s.routines)
    (hc : s.routines.find? c = some r) {d : RoutineId} {y : Routine C}
    (hd : s.routines.find? d = some y) (hne : y.parent ≠ some c) : d ∉ r.children := by
  intro hmem
  obtain ⟨y', hy', hpar⟩ := h.child hc hmem
  rw [hd, Option.some.injEq] at hy'
  exact hne (hy' ▸ hpar)

/-- A loose child whose script is out is taken out, and its children become
    roots. -/
private theorem LinkedBut.scheduleExit_of_out (h : LinkedBut (c :: loose) s.routines)
    (hc : s.routines.find? c = some r) (hcp : r.parent = some id)
    (hdead : s.routines.find? id = none) (hscript : r.script = none) :
    LinkedBut loose (s.scheduleExit c).routines ∧
      (s.scheduleExit c).routines.slots.size = s.routines.slots.size ∧
      ∀ {d y}, d ≠ c → y.parent ≠ some c → s.routines.find? d = some y →
        (s.scheduleExit c).routines.find? d = some y := by
  obtain ⟨routines, hr⟩ := Roster.remove_of_find? hc
  have hfind := find?_takenOut hr (t := { s with routines }) rfl r.children
  have hlinked := LinkedBut.takenOut h hr (t := { s with routines }) rfl r.children []
    (fun _ hd => hd) fun d hd hnot => absurd hd hnot
  rw [List.nil_append] at hlinked
  -- the dead parent has no list to strike the child from
  have hunlink : (({ s with routines } : Scheduler C).unlink r.parent c).routines.find? =
      routines.find? := by
    funext a
    rw [find?_unlink]
    by_cases hid : r.parent = some a
    · rw [hcp, Option.some.injEq] at hid
      subst hid
      rw [if_pos hcp]
      show (routines.find? id).map _ = routines.find? id
      rw [Roster.find?_remove hr, hdead, ite_self]
      rfl
    · exact if_neg hid
  have heq : ∀ a, (s.scheduleExit c).routines.find? a =
      (cutAll r.children (({ s with routines } : Scheduler C).unlink r.parent c)).routines.find? a := by
    intro a
    rw [Scheduler.scheduleExit_of_out hr hscript, find?_cutAll, find?_cutAll, hunlink]
  refine ⟨⟨?_, ?_, ?_, ?_⟩, ?_, ?_⟩
  · rw [Scheduler.scheduleExit_of_out hr hscript]
    exact cutAll_sound (h.sound.remove hr)
  · intro a x hx
    exact hlinked.nodup (heq a ▸ hx)
  · intro a x d hx hd
    rw [heq d]
    exact hlinked.child (heq a ▸ hx) hd
  · intro d y q hd hq
    rw [heq q]
    exact hlinked.parent (heq d ▸ hd) hq
  · rw [Scheduler.scheduleExit_of_out hr hscript, (shrunk_cutAll _ _).slots]
    exact Roster.size_slots_remove hr
  · intro d y hdc hpar hd
    have hid : ¬ r.parent = some d := by
      rw [hcp, Option.some.injEq]
      rintro rfl
      rw [hdead] at hd
      cases hd
    rw [heq, hfind, if_neg hdc, hd, Option.map_some]
    simp only [if_neg (h.notMem_children hc hd hpar), if_neg hid]

/-- The wrapper of a loose child takes the child's place in all links. -/
private theorem LinkedBut.scheduleExit_of_script (h : LinkedBut (c :: loose) s.routines)
    (hroom : s.routines.slots.size ≤ 2 ^ 32) (hc : s.routines.find? c = some r)
    (hcp : r.parent = some id) (hdead : s.routines.find? id = none) (hnext : id ≠ c.next)
    (hparents : ∀ d ∈ loose, d = id ∨ ∃ y, s.routines.find? d = some y ∧ y.parent = some id)
    {script : Script C} (hscript : r.script = some script) :
    LinkedBut loose (s.scheduleExit c).routines ∧
      ∀ {d y}, d ≠ c → y.parent ≠ some c → s.routines.find? d = some y →
        (s.scheduleExit c).routines.find? d = some y := by
  have hcid : c ≠ id := by
    rintro rfl
    rw [hdead] at hc
    cases hc
  have hlive : ∀ d ∈ r.children, ∃ y, s.routines.find? d = some y ∧ y.parent = some c :=
    fun d hd => h.child hc hd
  have hfind := find?_scheduleExit h.sound hroom hc hscript fun d hd =>
    (hlive d hd).imp fun _ => And.left
  have hfresh : ∀ {d y}, s.routines.find? d = some y → d ≠ c.next := by
    rintro d y hd rfl
    rw [Roster.find?_next hc] at hd
    cases hd
  have hforth : ∀ {d y}, d ≠ c → s.routines.find? d = some y →
      (s.scheduleExit c).routines.find? d =
        some { y with parent := if d ∈ r.children then some c.next else y.parent } := by
    intro d y hdc hd
    rw [hfind, if_neg (hfresh hd), if_neg hdc, hd, Option.map_some]
  have hsame : ∀ {d y}, d ≠ c → y.parent ≠ some c → s.routines.find? d = some y →
      (s.scheduleExit c).routines.find? d = some y := by
    intro d y hdc hpar hd
    rw [hforth hdc hd]
    simp only [if_neg (h.notMem_children hc hd hpar)]
  -- what is found afterwards is the wrapper, or was found before
  have hback : ∀ {a x}, (s.scheduleExit c).routines.find? a = some x →
      (a = c.next ∧ x = wrapper script r.children) ∨
      (a ≠ c ∧ ∃ x₀, s.routines.find? a = some x₀ ∧
        x = { x₀ with parent := if a ∈ r.children then some c.next else x₀.parent }) := by
    intro a x hx
    rw [hfind] at hx
    split at hx
    · next ha => exact Or.inl ⟨ha, (Option.some.inj hx).symm⟩
    · split at hx
      · cases hx
      · next ha =>
        obtain ⟨x₀, hx₀, rfl⟩ := Option.map_eq_some_iff.mp hx
        exact Or.inr ⟨ha, x₀, hx₀, rfl⟩
  refine ⟨⟨(scheduleExit_spec h.sound hc hscript).1, ?_, ?_, ?_⟩, hsame⟩
  · intro a x hx
    rcases hback hx with ⟨-, rfl⟩ | ⟨-, x₀, hx₀, rfl⟩
    · have hnodup : r.children.Nodup := h.nodup hc
      exact hnodup
    · have hnodup : x₀.children.Nodup := h.nodup hx₀
      exact hnodup
  · intro a x d hx hd
    rcases hback hx with ⟨rfl, rfl⟩ | ⟨hac, x₀, hx₀, rfl⟩
    · have hmem : d ∈ r.children := hd
      obtain ⟨y, hy, hpar⟩ := hlive d hmem
      have hdc : d ≠ c := by
        rintro rfl
        rw [hc, Option.some.injEq] at hy
        rw [← hy, hcp, Option.some.injEq] at hpar
        exact hcid hpar.symm
      exact ⟨_, hforth hdc hy, by simp only [if_pos hmem]⟩
    · obtain ⟨y, hy, hpar⟩ := h.child hx₀ hd
      have hdc : d ≠ c := by
        rintro rfl
        rw [hc, Option.some.injEq] at hy
        rw [← hy, hcp, Option.some.injEq] at hpar
        rw [← hpar, hdead] at hx₀
        cases hx₀
      refine ⟨y, hsame hdc ?_ hy, hpar⟩
      rw [hpar, Ne, Option.some.injEq]
      exact hac
  · intro d z q hz hq
    rcases hback hz with ⟨rfl, rfl⟩ | ⟨hdc, z₀, hz₀, rfl⟩
    · cases hq
    · dsimp only at hq
      split at hq
      · next hmem =>
        rw [Option.some.injEq] at hq
        subst hq
        exact Or.inl ⟨wrapper script r.children, by rw [hfind, if_pos rfl], hmem⟩
      · next hmem =>
        rcases h.parent hz₀ hq with ⟨x, hx, hd⟩ | ⟨hgone, hd⟩
        · have hqc : q ≠ c := by
            rintro rfl
            rw [hc, Option.some.injEq] at hx
            exact hmem (hx ▸ hd)
          have hx' := hforth hqc hx
          exact Or.inl ⟨_, hx', hd⟩
        · rcases List.mem_cons.mp hd with rfl | hd
          · exact absurd rfl hdc
          · rcases hparents d hd with rfl | ⟨y, hy, hpar⟩
            · rw [hdead] at hz₀
              cases hz₀
            · rw [hz₀, Option.some.injEq] at hy
              rw [hy, hpar, Option.some.injEq] at hq
              subst hq
              refine Or.inr ⟨?_, hd⟩
              rw [hfind, if_neg hnext, hdead, Option.map_none, ite_self]

/-- One child less is loose once it has been forced to exit. The slot of the
    finished parent `id` has been taken already, so no wrapper gets its name. -/
theorem LinkedBut.scheduleExit (h : LinkedBut (c :: loose) s.routines)
    (hroom : s.routines.slots.size ≤ 2 ^ 32) (hnotin : c ∉ loose) {kept : Routine C}
    (hkept : s.routines.find? id.next = some kept) (hroot : kept.parent = none)
    (hparents : ∀ d ∈ c :: loose, d = id ∨ ∃ y, s.routines.find? d = some y ∧ y.parent = some id) :
    LinkedBut loose (s.scheduleExit c).routines ∧
      (s.scheduleExit c).routines.slots.size = s.routines.slots.size ∧
      (s.scheduleExit c).routines.find? id.next = some kept ∧
      ∀ d ∈ loose, d = id ∨
        ∃ y, (s.scheduleExit c).routines.find? d = some y ∧ y.parent = some id := by
  have hdead := Roster.find?_of_next hkept
  have hrest := fun d hd => hparents d (List.mem_cons_of_mem c hd)
  rcases hparents c (List.mem_cons_self ..) with rfl | ⟨r, hc, hcp⟩
  · -- a routine that was its own child is gone already
    rw [scheduleExit_of_dead hdead]
    refine ⟨⟨h.sound, h.nodup, h.child, ?_⟩, rfl, hkept, hrest⟩
    intro d y q hd hq
    rcases h.parent hd hq with hx | ⟨hgone, hmem⟩
    · exact Or.inl hx
    · rcases List.mem_cons.mp hmem with rfl | hmem
      · rw [hdead] at hd
        cases hd
      · exact Or.inr ⟨hgone, hmem⟩
  have hcid : c ≠ id := by
    rintro rfl
    rw [hdead] at hc
    cases hc
  have hcnext : id.next ≠ c := by
    rintro rfl
    rw [hkept, Option.some.injEq] at hc
    rw [← hc, hroot] at hcp
    cases hcp
  have hstep : LinkedBut loose (s.scheduleExit c).routines ∧
      (s.scheduleExit c).routines.slots.size = s.routines.slots.size ∧
      ∀ {d y}, d ≠ c → y.parent ≠ some c → s.routines.find? d = some y →
        (s.scheduleExit c).routines.find? d = some y := by
    cases hscript : r.script with
    | none => exact h.scheduleExit_of_out hc hcp hdead hscript
    | some script =>
      have hnext : id ≠ c.next := by
        rintro rfl
        exact hcnext (Roster.eq_of_index_eq hc hkept rfl).symm
      obtain ⟨hlinked, hsame⟩ :=
        h.scheduleExit_of_script hroom hc hcp hdead hnext hrest hscript
      exact ⟨hlinked, (scheduleExit_spec h.sound hc hscript).2.1, hsame⟩
  obtain ⟨hlinked, hslots, hsame⟩ := hstep
  refine ⟨hlinked, hslots, hsame hcnext (by rw [hroot]; exact nofun) hkept, ?_⟩
  intro d hd
  rcases hrest d hd with rfl | ⟨y, hy, hpar⟩
  · exact Or.inl rfl
  have hdc : d ≠ c := by
    rintro rfl
    exact hnotin hd
  refine Or.inr ⟨y, hsame hdc ?_ hy, hpar⟩
  rw [hpar, Ne, Option.some.injEq]
  exact hcid.symm

end Loose

/-! ### Finishing -/

/-- A scheduler after the routine `id`, which was `r`, has finished and been
    taken out. -/
def takenOut (s : Scheduler C) (id : RoutineId) (r : Routine C)
    (routines : Roster (Routine C)) (script : Script C) (o : Outcome Value) : Scheduler C :=
  (({ s.retire script with routines }.report (.finished r.origin id o.isSuccess)).unlink
    r.parent id)

/-- The result `o` of a finished routine, kept back as a routine of its own. -/
def keptBack (s : Scheduler C) (id : RoutineId) (r : Routine C)
    (routines : Roster (Routine C)) (script : Script C) (o : Outcome Value) :
    RoutineId × Scheduler C :=
  ((s.takenOut id r routines script o).report
    (.forcingExit r.origin id r.children.length)).addUnder .settled (.settled o) none

theorem conclude_of_dead {s : Scheduler C} {id : RoutineId} (h : s.routines.find? id = none)
    (script : Script C) (o : Outcome Value) :
    s.conclude id script o = { s.retire script with register := o } := by
  have hr : (s.retire script).routines.remove id = none := Roster.remove_eq_none.mpr h
  unfold conclude
  simp only [hr]

/-- A routine without children leaves nothing behind. -/
theorem conclude_of_childless {s : Scheduler C} {id : RoutineId} {r : Routine C}
    {routines : Roster (Routine C)} (h : s.routines.remove id = some (r, routines))
    (hnone : r.children = []) (script : Script C) (o : Outcome Value) :
    s.conclude id script o = { s.takenOut id r routines script o with register := o } := by
  have hr : (s.retire script).routines.remove id = some (r, routines) := h
  unfold conclude
  simp only [hr, hnone, List.isEmpty_nil, if_true]
  rfl

/-- The result of a routine with children is kept back beneath their exits. -/
theorem conclude_of_children {s : Scheduler C} {id : RoutineId} {r : Routine C}
    {routines : Roster (Routine C)} (h : s.routines.remove id = some (r, routines))
    (hsome : r.children ≠ []) (script : Script C) (o : Outcome Value) :
    s.conclude id script o =
      { r.children.foldl Scheduler.scheduleExit
          ((s.keptBack id r routines script o).2.push
            (.routine (s.keptBack id r routines script o).1))
        with register := o } := by
  have hr : (s.retire script).routines.remove id = some (r, routines) := h
  have hempty : r.children.isEmpty = false := by
    cases hc : r.children with
    | nil => exact absurd hc hsome
    | cons => rfl
  unfold conclude
  simp only [hr, hempty, Bool.false_eq_true, if_false]
  rfl

section Steady

variable {P : Roster (Routine C) → Prop} (hP : Roster.Steady P) {s : Scheduler C}

include hP

theorem closed_cutAll (h : P s.routines) (cs : List RoutineId) : P (cutAll cs s).routines := by
  induction cs generalizing s with
  | nil => exact h
  | cons c cs ih => exact ih (s := s.link c none) (hP.modify c _ (fun _ => rfl) h)

theorem closed_unlink (h : P s.routines) (parent : Option RoutineId) (c : RoutineId) :
    P (s.unlink parent c).routines := by
  unfold unlink
  split
  · exact hP.modify _ _ (fun _ => rfl) h
  · exact h

theorem closed_adoptAll (h : P s.routines) (cs : List RoutineId) (w : RoutineId) :
    P (adoptAll cs w s).routines := by
  induction cs generalizing s with
  | nil => exact h
  | cons c cs ih => exact ih (s := s.modify c _) (hP.modify c _ (fun _ => rfl) h)

theorem closed_scheduleExit (h : P s.routines) (c : RoutineId) :
    P (s.scheduleExit c).routines := by
  cases hr : s.routines.remove c with
  | none =>
    rw [scheduleExit_of_dead (Roster.remove_eq_none.mp hr)]
    exact h
  | some pair =>
    obtain ⟨r, routines⟩ := pair
    have hremoved : P routines := hP.remove hr h
    cases hscript : r.script with
    | none =>
      rw [scheduleExit_of_out hr hscript]
      exact closed_cutAll hP (s := { s with routines }) hremoved r.children
    | some script =>
      rw [scheduleExit_eq hr hscript]
      exact hP.modify _ _ (fun _ => rfl) (closed_adoptAll hP (hP.insert _ hremoved) r.children c.next)

theorem closed_scheduleExits (h : P s.routines) (cs : List RoutineId) :
    P (cs.foldl Scheduler.scheduleExit s).routines := by
  induction cs generalizing s with
  | nil => exact h
  | cons c cs ih => exact ih (closed_scheduleExit hP h c)

theorem closed_conclude (h : P s.routines) (id : RoutineId) (script : Script C)
    (o : Outcome Value) : P (s.conclude id script o).routines := by
  cases hr : s.routines.remove id with
  | none =>
    rw [conclude_of_dead (Roster.remove_eq_none.mp hr)]
    exact h
  | some pair =>
    obtain ⟨r, routines⟩ := pair
    have hremoved : P routines := hP.remove hr h
    have htaken : P (s.takenOut id r routines script o).routines :=
      closed_unlink hP (s := { s.retire script with
        routines, reports := .finished r.origin id o.isSuccess :: s.reports }) hremoved r.parent id
    by_cases hnone : r.children = []
    · rw [conclude_of_childless hr hnone]
      exact htaken
    · rw [conclude_of_children hr hnone]
      have hkept : P (s.keptBack id r routines script o).2.routines :=
        hP.modify _ _ (fun _ => rfl) (hP.insert _ htaken)
      exact closed_scheduleExits hP (s := (s.keptBack id r routines script o).2.push
        (.routine (s.keptBack id r routines script o).1)) hkept r.children

end Steady

theorem grows_scheduleExit (s : Scheduler C) (c : RoutineId) :
    Roster.Grows s.routines (s.scheduleExit c).routines :=
  closed_scheduleExit (Roster.closed_grows _).steady (.refl _) c

/-- A child that is forced to exit is taken out. -/
theorem vacated_scheduleExit {s : Scheduler C} {c : RoutineId} {r : Routine C}
    (hs : s.routines.Sound) (hc : s.routines.find? c = some r) :
    s.routines.vacated c < (s.scheduleExit c).routines.vacated c := by
  cases hscript : r.script with
  | some script => exact (scheduleExit_spec hs hc hscript).2.2.2.1
  | none =>
    obtain ⟨routines, hr⟩ := Roster.remove_of_find? hc
    rw [scheduleExit_of_out hr hscript]
    refine Nat.lt_of_lt_of_le ?_ ((shrunk_cutAll r.children { s with routines }).vacated c)
    rw [Roster.vacated_remove hr, if_pos rfl]
    exact Nat.lt_succ_self _

/-- Others stay. -/
theorem live_scheduleExit {s : Scheduler C} {c a : RoutineId} {x : Routine C}
    (hs : s.routines.Sound) (hroom : s.routines.slots.size ≤ 2 ^ 32)
    (ha : s.routines.find? a = some x) (hne : a ≠ c) :
    (s.scheduleExit c).routines.Sound ∧
      (s.scheduleExit c).routines.slots.size = s.routines.slots.size ∧
      ∃ y, (s.scheduleExit c).routines.find? a = some y := by
  cases hr : s.routines.remove c with
  | none =>
    rw [scheduleExit_of_dead (Roster.remove_eq_none.mp hr)]
    exact ⟨hs, rfl, x, ha⟩
  | some pair =>
    obtain ⟨r, routines⟩ := pair
    have hc : s.routines.find? c = some r := Roster.find?_of_remove hr
    have hother : routines.find? a = some x := by
      rw [Roster.find?_remove hr, if_neg hne, ha]
    cases hscript : r.script with
    | none =>
      rw [scheduleExit_of_out hr hscript]
      refine ⟨cutAll_sound (hs.remove hr), ?_, ?_⟩
      · exact (shrunk_cutAll r.children { s with routines }).slots.trans (Roster.size_slots_remove hr)
      · rw [find?_cutAll]
        exact ⟨_, congrArg (Option.map _) hother⟩
    | some script =>
      obtain ⟨hsound, hslots, -⟩ := scheduleExit_spec hs hc hscript
      refine ⟨hsound, hslots, ?_⟩
      have hsize := Roster.size_slots_insert_of_remove hs hr
        ⟨.exit, some (.exit script .initial), none, []⟩
      have hinsert := (hs.remove hr).find?_insert ⟨.exit, some (.exit script .initial), none, []⟩
        (hsize ▸ hroom) a
      have hnext := Roster.insert_fst_of_remove hr
        (x := ⟨.exit, some (.exit script .initial), none, []⟩)
      rw [scheduleExit_eq hr hscript]
      show ∃ y, (Roster.modify _ _ _).find? a = some y
      rw [Roster.find?_modify, find?_adoptAll, hinsert, hnext]
      by_cases heq : a = c.next
      · simp [heq]
      · simp [heq, hother]

theorem vacated_scheduleExits {c : RoutineId} (cs : List RoutineId) {s : Scheduler C}
    {x : Routine C} (hs : s.routines.Sound) (hroom : s.routines.slots.size ≤ 2 ^ 32)
    (hc : s.routines.find? c = some x) (hmem : c ∈ cs) :
    s.routines.vacated c < (cs.foldl Scheduler.scheduleExit s).routines.vacated c := by
  induction cs generalizing s x with
  | nil => cases hmem
  | cons d cs ih =>
    by_cases hcd : c = d
    · subst hcd
      have hgrows : Roster.Grows (s.scheduleExit c).routines _ :=
        closed_scheduleExits (Roster.closed_grows _).steady (.refl _) cs
      exact Nat.lt_of_lt_of_le (vacated_scheduleExit hs hc) (hgrows.vacated c)
    · obtain ⟨hs', hslots, y, hy⟩ := live_scheduleExit hs hroom hc hcd
      have hrest := (List.mem_cons.mp hmem).resolve_left hcd
      exact Nat.lt_of_le_of_lt ((grows_scheduleExit s d).vacated c)
        (ih hs' (hslots ▸ hroom) hy hrest)

/-- What is kept back takes the slot of the finished routine. -/
private theorem insert_takenOut {s : Scheduler C} (hs : s.routines.Sound) {id : RoutineId}
    {r : Routine C} {routines : Roster (Routine C)}
    (h : s.routines.remove id = some (r, routines)) (script : Script C) (o : Outcome Value)
    (x : Routine C) :
    ((s.takenOut id r routines script o).routines.insert x).1 = id.next ∧
      ((s.takenOut id r routines script o).routines.insert x).2.slots.size =
        s.routines.slots.size := by
  have hcases : (s.takenOut id r routines script o).routines = routines ∨
      ∃ q f, (s.takenOut id r routines script o).routines = routines.modify q f := by
    unfold takenOut unlink
    split
    · exact Or.inr ⟨_, _, rfl⟩
    · exact Or.inl rfl
  have hsize := Roster.size_slots_insert_of_remove hs h x
  rcases hcases with heq | ⟨q, f, heq⟩
  · rw [heq]
    exact ⟨Roster.insert_fst_of_remove h x, hsize⟩
  · rw [heq]
    refine ⟨(Roster.insert_fst_modify _ _ _ _).trans (Roster.insert_fst_of_remove h x), ?_⟩
    rw [(hs.remove h).size_slots_insert] at hsize
    rw [((hs.remove h).modify q f).size_slots_insert, Roster.vacant_modify,
      Roster.size_slots_modify, hsize]

/-- A new routine without family, as `addUnder` adds it. -/
theorem LinkedBut.addUnder_none {s : Scheduler C} {loose : List RoutineId}
    (h : LinkedBut loose s.routines) (origin : Origin) (script : Script C)
    (hroom : (s.routines.insert ⟨origin, some script, none, []⟩).2.slots.size ≤ 2 ^ 32)
    (hnew : ∀ c ∈ loose, ∀ y, s.routines.find? c = some y →
      y.parent ≠ some (s.routines.insert ⟨origin, some script, none, []⟩).1) :
    LinkedBut loose (s.addUnder origin script none).2.routines ∧
      ∀ a, (s.addUnder origin script none).2.routines.find? a =
        if a = (s.routines.insert ⟨origin, some script, none, []⟩).1 then
          some ⟨origin, some script, none, []⟩
        else s.routines.find? a := by
  have hinsert := h.insert origin (some script) hroom hnew
  have hfind := h.sound.find?_insert ⟨origin, some script, none, []⟩ hroom
  have hself : (s.add origin script).2.routines.find? (s.add origin script).1 =
      some ⟨origin, some script, none, []⟩ := by
    show (s.routines.insert _).2.find? (s.routines.insert _).1 = _
    rw [hfind, if_pos rfl]
  refine ⟨LinkedBut.link (s := (s.add origin script).2) hinsert hself rfl none, ?_⟩
  intro a
  show (Roster.modify _ _ _).find? a = _
  rw [Roster.find?_modify]
  show (if a = (s.routines.insert _).1 then ((s.routines.insert _).2.find? a).map _
    else (s.routines.insert _).2.find? a) = _
  rw [hfind]
  split <;> rfl

/-- The links agree again when all children have been forced to exit. -/
private theorem LinkedBut.scheduleExits {id : RoutineId} (kept : Routine C)
    (hroot : kept.parent = none) (cs : List RoutineId) {s : Scheduler C}
    (h : LinkedBut cs s.routines) (hroom : s.routines.slots.size ≤ 2 ^ 32) (hnodup : cs.Nodup)
    (hkept : s.routines.find? id.next = some kept)
    (hparents : ∀ d ∈ cs, d = id ∨ ∃ y, s.routines.find? d = some y ∧ y.parent = some id) :
    Linked (cs.foldl Scheduler.scheduleExit s).routines := by
  induction cs generalizing s with
  | nil => exact h
  | cons c cs ih =>
    rw [List.nodup_cons] at hnodup
    obtain ⟨hlinked, hslots, hkept', hparents'⟩ :=
      h.scheduleExit hroom hnodup.1 hkept hroot hparents
    exact ih hlinked (hslots ▸ hroom) hnodup.2 hkept' hparents'

/-- While the result of a finished routine is kept back, only its children name
    a parent that is gone. -/
theorem Linked.keptBack {s : Scheduler C} (h : Linked s.routines)
    (hroom : s.routines.slots.size ≤ 2 ^ 32) {id : RoutineId} {r : Routine C}
    {routines : Roster (Routine C)} (hr : s.routines.remove id = some (r, routines))
    (script : Script C) (o : Outcome Value) :
    LinkedBut r.children (s.keptBack id r routines script o).2.routines ∧
      (s.keptBack id r routines script o).2.routines.slots.size ≤ 2 ^ 32 ∧
      (s.keptBack id r routines script o).2.routines.find? id.next =
        some ⟨.settled, some (.settled o), none, []⟩ ∧
      ∀ d ∈ r.children, d = id ∨ ∃ y,
        (s.keptBack id r routines script o).2.routines.find? d = some y ∧ y.parent = some id := by
  have hid := Roster.find?_of_remove hr
  have hloose := LinkedBut.takenOut (h.weaken nofun : LinkedBut [id] s.routines) hr
    (t := { s.retire script with routines }.report (.finished r.origin id o.isSuccess)) rfl
    [] r.children nofun fun d hd _ => hd
  rw [List.append_nil] at hloose
  obtain ⟨hfirst, hsize⟩ := insert_takenOut h.sound hr script o
    ⟨.settled, some (.settled o), none, []⟩
  have htaken := find?_takenOut hr
    (t := { s.retire script with routines }.report (.finished r.origin id o.isSuccess)) rfl []
  -- the children name the finished routine, whose slot is taken at once
  have hparents : ∀ d ∈ r.children, d = id ∨ ∃ y,
      (s.takenOut id r routines script o).routines.find? d = some y ∧ y.parent = some id := by
    intro d hd
    by_cases hdid : d = id
    · exact Or.inl hdid
    obtain ⟨y, hy, hpar⟩ := h.child hid hd
    have hy' := htaken d
    rw [if_neg hdid, hy] at hy'
    exact Or.inr ⟨_, hy', hpar⟩
  obtain ⟨hlinked, hfind⟩ := LinkedBut.addUnder_none (s := (s.takenOut id r routines script
    o).report (.forcingExit r.origin id r.children.length)) hloose .settled (.settled o)
    (hsize ▸ hroom) (by
      intro c hc y hy hpar
      rcases hparents c hc with rfl | ⟨y', hy', hpar'⟩
      · have hgone := htaken c
        rw [if_pos rfl] at hgone
        exact absurd (hgone.symm.trans hy) nofun
      · have hsame : y' = y := Option.some.inj (hy'.symm.trans hy)
        rw [← hsame, hpar', Option.some.injEq] at hpar
        exact RoutineId.next_ne id (hfirst ▸ hpar).symm)
  refine ⟨hlinked, ?_, (hfind id.next).trans (if_pos hfirst.symm), ?_⟩
  · refine Nat.le_trans (Nat.le_of_eq ?_) hroom
    exact (Roster.size_slots_modify _ _ _).trans hsize
  · intro d hd
    rcases hparents d hd with hdid | ⟨y, hy, hpar⟩
    · exact Or.inl hdid
    refine Or.inr ⟨y, (hfind d).trans (Eq.trans (if_neg ?_) hy), hpar⟩
    rintro rfl
    have hnone : (s.takenOut id r routines script o).routines.find? _ = none :=
      Roster.Sound.find?_insert_fst hloose.sound _ (hsize ▸ hroom)
    exact absurd (hnone.symm.trans hy) nofun

theorem Linked.conclude {s : Scheduler C} (h : Linked s.routines)
    (hroom : s.routines.slots.size ≤ 2 ^ 32) (id : RoutineId) (script : Script C)
    (o : Outcome Value) : Linked (s.conclude id script o).routines := by
  cases hr : s.routines.remove id with
  | none =>
    rw [conclude_of_dead (Roster.remove_eq_none.mp hr)]
    exact h
  | some pair =>
    obtain ⟨r, routines⟩ := pair
    have hid := Roster.find?_of_remove hr
    by_cases hnone : r.children = []
    · have hloose := LinkedBut.takenOut (h.weaken nofun : LinkedBut [id] s.routines) hr
        (t := { s.retire script with routines }.report (.finished r.origin id o.isSuccess)) rfl
        [] [] nofun fun d hd _ => hnone ▸ hd
      rw [conclude_of_childless hr hnone]
      exact hloose
    · obtain ⟨hlinked, hslots, hkept, hothers⟩ := h.keptBack hroom hr script o
      rw [conclude_of_children hr hnone]
      exact LinkedBut.scheduleExits ⟨.settled, some (.settled o), none, []⟩ rfl r.children
        (s := (s.keptBack id r routines script o).2.push
          (.routine (s.keptBack id r routines script o).1)) hlinked hslots (h.nodup hid) hkept
        hothers

/-! ### What a conclusion does to the entries -/

section Entries

variable {s : Scheduler C} {id : RoutineId} {r : Routine C}

private theorem takenOut_spec {routines : Roster (Routine C)} (hs : s.routines.Sound)
    (h : s.routines.remove id = some (r, routines)) (script : Script C) (o : Outcome Value) :
    SameWork s (s.takenOut id r routines script o) ∧
      (s.takenOut id r routines script o).routines.Sound ∧
      (s.takenOut id r routines script o).routines.slots.size = s.routines.slots.size ∧
      (∀ a, s.routines.vacated a ≤ (s.takenOut id r routines script o).routines.vacated a) ∧
      s.routines.vacated id < (s.takenOut id r routines script o).routines.vacated id ∧
      ∀ a, (s.takenOut id r routines script o).routines.find? a =
        if a = id then none
        else (s.routines.find? a).map fun x =>
          { x with children := if r.parent = some a then x.children.erase id else x.children } := by
  have hfind := find?_takenOut h
    (t := { s.retire script with routines }.report (.finished r.origin id o.isSuccess)) rfl []
  have hsound := sound_takenOut hs h
    (t := { s.retire script with routines }.report (.finished r.origin id o.isSuccess)) rfl []
  have hgrows : Roster.Grows routines (s.takenOut id r routines script o).routines :=
    closed_unlink (Roster.closed_grows _).steady (s := { s.retire script with
      routines, reports := .finished r.origin id o.isSuccess :: s.reports }) (.refl _) r.parent id
  refine ⟨?_, hsound, ?_, ?_, ?_, ?_⟩
  · unfold takenOut unlink
    split <;> exact ⟨rfl, rfl, rfl, rfl⟩
  · have hsize : (s.takenOut id r routines script o).routines.slots.size =
        routines.slots.size := by
      unfold takenOut unlink
      split
      · exact Roster.size_slots_modify _ _ _
      · rfl
    rw [hsize, Roster.size_slots_remove h]
  · exact fun a => Nat.le_trans ((Roster.grows_remove h).vacated a) (hgrows.vacated a)
  · refine Nat.lt_of_lt_of_le ?_ (hgrows.vacated id)
    show s.routines.vacated id < routines.vacated id
    rw [Roster.vacated_remove h, if_pos rfl]
    exact Nat.lt_succ_self _
  · intro a
    refine (hfind a).trans ?_
    simp

/-- A routine without children is taken out, and struck from its parent's list. -/
theorem conclude_childless_spec (hs : s.routines.Sound) (h : s.routines.find? id = some r)
    (hnone : r.children = []) (script : Script C) (o : Outcome Value) :
    (s.conclude id script o).stack = s.stack ∧
      (s.conclude id script o).register = o ∧
      (s.conclude id script o).routines.slots.size = s.routines.slots.size ∧
      s.routines.vacated id < (s.conclude id script o).routines.vacated id ∧
      ∀ a, (s.conclude id script o).routines.find? a =
        if a = id then none
        else (s.routines.find? a).map fun x =>
          { x with children := if r.parent = some a then x.children.erase id else x.children } := by
  obtain ⟨routines, hr⟩ := Roster.remove_of_find? h
  obtain ⟨hwork, -, hslots, -, hless, hfind⟩ := takenOut_spec hs hr script o
  rw [conclude_of_childless hr hnone]
  exact ⟨hwork.stack, rfl, hslots, hless, hfind⟩

/-- The result of a finished routine is kept back on the stack, in its slot. -/
theorem keptBack_spec {routines : Roster (Routine C)} (hs : s.routines.Sound)
    (hroom : s.routines.slots.size ≤ 2 ^ 32) (hr : s.routines.remove id = some (r, routines))
    (script : Script C) (o : Outcome Value) :
    (s.keptBack id r routines script o).1 = id.next ∧
      (s.keptBack id r routines script o).2.stack = s.stack ∧
      (s.keptBack id r routines script o).2.routines.Sound ∧
      (s.keptBack id r routines script o).2.routines.slots.size = s.routines.slots.size ∧
      s.routines.vacated id < (s.keptBack id r routines script o).2.routines.vacated id ∧
      (∀ a, s.routines.vacated a ≤ (s.keptBack id r routines script o).2.routines.vacated a) ∧
      ∀ a, (s.keptBack id r routines script o).2.routines.find? a =
        if a = id.next then some ⟨.settled, some (.settled o), none, []⟩
        else if a = id then none
        else (s.routines.find? a).map fun x =>
          { x with children := if r.parent = some a then x.children.erase id else x.children } := by
  obtain ⟨hwork, hsound, hslots, hvacated, hless, hfind⟩ := takenOut_spec hs hr script o
  obtain ⟨hfirst, hsize⟩ := insert_takenOut hs hr script o ⟨.settled, some (.settled o), none, []⟩
  have hinsert := hsound.find?_insert ⟨.settled, some (.settled o), none, []⟩ (hsize ▸ hroom)
  have hgrown : ∀ a, (s.takenOut id r routines script o).routines.vacated a ≤
      (s.keptBack id r routines script o).2.routines.vacated a := fun a =>
    ((Roster.grows_insert _ _).trans (Roster.grows_modify _ _ _)).vacated a
  refine ⟨hfirst, hwork.stack, ?_, ?_, ?_, ?_, ?_⟩
  · exact (hsound.insert _).modify _ _
  · exact (Roster.size_slots_modify _ _ _).trans hsize
  · exact Nat.lt_of_lt_of_le hless (hgrown id)
  · exact fun a => Nat.le_trans (hvacated a) (hgrown a)
  · intro a
    show (Roster.modify _ _ _).find? a = _
    rw [Roster.find?_modify]
    show (if a = ((s.takenOut id r routines script o).routines.insert _).1 then
        Option.map _ (((s.takenOut id r routines script o).routines.insert _).2.find? a)
      else ((s.takenOut id r routines script o).routines.insert _).2.find? a) = _
    rw [hinsert, hfirst, hfind]
    split <;> rfl

/-- A routine with children is replaced by its result, on top of which the exits
    of its children are put. -/
theorem conclude_children_spec (hs : s.routines.Sound) (hroom : s.routines.slots.size ≤ 2 ^ 32)
    (h : s.routines.find? id = some r) (hsome : r.children ≠ []) (script : Script C)
    (o : Outcome Value) :
    ∃ t : Scheduler C,
      s.conclude id script o =
        { r.children.foldl Scheduler.scheduleExit t with register := o } ∧
      t.stack = .routine id.next :: s.stack ∧ t.routines.Sound ∧
      t.routines.slots.size = s.routines.slots.size ∧
      s.routines.vacated id < t.routines.vacated id ∧
      (∀ a, s.routines.vacated a ≤ t.routines.vacated a) ∧
      ∀ a, t.routines.find? a =
        if a = id.next then some ⟨.settled, some (.settled o), none, []⟩
        else if a = id then none
        else (s.routines.find? a).map fun x =>
          { x with children := if r.parent = some a then x.children.erase id else x.children } := by
  obtain ⟨routines, hr⟩ := Roster.remove_of_find? h
  obtain ⟨hfirst, hstack, hspec⟩ := keptBack_spec hs hroom hr script o
  refine ⟨_, conclude_of_children hr hsome script o, ?_, hspec⟩
  rw [hfirst, ← hstack]
  rfl

/-- The children of a finished routine are taken out. -/
theorem Linked.vacated_conclude (hl : Linked s.routines)
    (hroom : s.routines.slots.size ≤ 2 ^ 32) (h : s.routines.find? id = some r) {c : RoutineId}
    (hmem : c ∈ r.children) (hne : c ≠ id) (script : Script C) (o : Outcome Value) :
    s.routines.vacated c < (s.conclude id script o).routines.vacated c := by
  obtain ⟨x, hx, -⟩ := hl.child h hmem
  obtain ⟨t, heq, -, hsound, hslots, -, hvacated, hfind⟩ :=
    conclude_children_spec hl.sound hroom h (List.ne_nil_of_mem hmem) script o
  have hnext : c ≠ id.next := by
    rintro rfl
    rw [Roster.find?_next h] at hx
    cases hx
  have hc := hfind c
  rw [if_neg hnext, if_neg hne, hx] at hc
  rw [heq]
  exact Nat.lt_of_le_of_lt (hvacated c)
    (vacated_scheduleExits _ hsound (hslots ▸ hroom) hc hmem)

end Entries

end Strand.Scheduler
