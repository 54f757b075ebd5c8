import Strand.Proofs.Posts

/-! # Reclamation — what is freed when nothing reaches a routine

    A routine that suspends without a live parent is freed, and so are the
    unclaimed routines that are lost. With each goes what hangs from it: its
    descendants, down to those that are on the stack (`HangsFrom`).

    * `dead_free_iff` and `dead_freeUnclaimed_iff` say that freeing takes all of
      that and nothing else.
    * Whoever is freed is on no stack, and not in flight unless it is the routine
      that suspends. A routine that a continuation remembers is freed exactly if
      its parent is freed with it (`freed_unless_remembered_below`). -/

namespace Strand

variable {C R : Type}

open Scheduler

namespace Scheduler

variable {s t : Scheduler C} {a c q top : RoutineId}

/-! ### What hangs from a routine -/

/-- `a` is the live routine `top` or descends from it, by way of routines that are
    not on the stack. -/
inductive HangsFrom (s : Scheduler C) (top : RoutineId) : RoutineId → Prop where
  | top {x : Routine C} (live : s.routines.find? top = some x) : HangsFrom s top top
  | child {q c : RoutineId} {y : Routine C} (above : HangsFrom s top q)
      (live : s.routines.find? c = some y) (parent : y.parent = some q)
      (off : s.onStack c = false) : HangsFrom s top c

theorem HangsFrom.trans (h : HangsFrom s top q) (h' : HangsFrom s q a) : HangsFrom s top a := by
  induction h' with
  | top => exact h
  | child _ live parent off ih => exact .child ih live parent off

theorem HangsFrom.live (h : HangsFrom s top a) : ∃ x, s.routines.find? a = some x := by
  cases h with
  | top live => exact ⟨_, live⟩
  | child _ live _ _ => exact ⟨_, live⟩

theorem HangsFrom.live_top (h : HangsFrom s top a) : ∃ x, s.routines.find? top = some x := by
  induction h with
  | top live => exact ⟨_, live⟩
  | child _ _ _ _ ih => exact ih

/-- Only the top may be on the stack. -/
theorem HangsFrom.onStack (h : HangsFrom s top a) : a = top ∨ s.onStack a = false := by
  cases h with
  | top => exact Or.inl rfl
  | child _ _ _ off => exact Or.inr off

/-- Whoever hangs below the top hangs from it by way of its own parent. -/
theorem HangsFrom.parent (h : HangsFrom s top a) (hne : a ≠ top) :
    ∃ x q, s.routines.find? a = some x ∧ x.parent = some q ∧ HangsFrom s top q := by
  cases h with
  | top => exact absurd rfl hne
  | child above live parent _ => exact ⟨_, _, live, parent, above⟩

/-- The way up from whoever hangs from the top leads past others that do, and then
    past the top. -/
theorem HangsFrom.leadsUp (h : HangsFrom s top a) {o : RoutineId} (hup : s.LeadsUp a o) :
    HangsFrom s top o ∨ s.LeadsUp top o := by
  induction h with
  | top => exact Or.inr hup
  | @child q c y above live parent off ih =>
    rcases Relation.ReflTransGen.cases_head hup with rfl | ⟨z, ⟨x, hx, hz⟩, hrest⟩
    · exact Or.inl (.child above live parent off)
    · rw [live, Option.some.injEq] at hx
      subst hx
      obtain rfl := Option.some.inj (parent.symm.trans hz)
      exact ih hrest

/-- Where the live routines are fewer and at most without the parents that they
    had, and the stack is the same, whoever hangs from a routine did so before. -/
theorem HangsFrom.before (h : HangsFrom t top a) (hstack : t.stack = s.stack)
    (hparents : ∀ c y, t.routines.find? c = some y →
      ∃ x, s.routines.find? c = some x ∧ ∀ q, y.parent = some q → x.parent = some q) :
    HangsFrom s top a := by
  induction h with
  | top live =>
    obtain ⟨x, hx, -⟩ := hparents _ _ live
    exact .top hx
  | child _ live parent off ih =>
    obtain ⟨x, hx, hparent⟩ := hparents _ _ live
    rw [Scheduler.onStack, hstack] at off
    exact .child ih hx (hparent _ parent) off

/-! ### Freeing takes what hangs from a routine -/

/-- Whoever is dead once all pending routines are freed hung from one of them. -/
theorem hangsFrom_of_freeAll (fuel : Nat) (pending : List RoutineId) (s : Scheduler C)
    (hl : LinkedBut pending s.routines) {x : Routine C} (ha : s.routines.find? a = some x)
    (hdead : (freeAll fuel pending s).routines.find? a = none) :
    ∃ top ∈ pending, HangsFrom s top a := by
  induction fuel generalizing pending s x with
  | zero => exact absurd (ha.symm.trans hdead) (by simp)
  | succ fuel ih =>
    cases pending with
    | nil => exact absurd (ha.symm.trans hdead) (by simp)
    | cons id pending =>
      cases hr : s.routines.remove id with
      | none =>
        have hid := Roster.remove_eq_none.mp hr
        rw [freeAll_of_dead hid] at hdead
        have hl' : LinkedBut pending s.routines := by
          refine ⟨hl.sound, hl.nodup, hl.child, fun {c y q} hc hq => ?_⟩
          rcases hl.parent hc hq with hx | ⟨hgone, hmem⟩
          · exact Or.inl hx
          · rcases List.mem_cons.mp hmem with rfl | hmem
            · exact absurd (hid.symm.trans hc) (by simp)
            · exact Or.inr ⟨hgone, hmem⟩
        obtain ⟨top, hmem, hhangs⟩ := ih pending s hl' ha hdead
        exact ⟨top, List.mem_cons_of_mem _ hmem, hhangs⟩
      | some pair =>
        obtain ⟨r, routines⟩ := pair
        have hid := Roster.find?_of_remove hr
        rw [freeAll_of_remove hr] at hdead
        by_cases hne : a = id
        · subst hne
          exact ⟨a, List.mem_cons_self .., .top hid⟩
        · have hlive := find?_severed hr a
          rw [if_neg hne, ha] at hlive
          obtain ⟨top, hmem, hhangs⟩ := ih _ _ (hl.severed hr) hlive hdead
          have hbefore : HangsFrom s top a := by
            refine hhangs.before (shrunk_severed hr).work.stack fun c y hy => ?_
            rw [find?_severed hr] at hy
            split at hy
            · cases hy
            · obtain ⟨z, hz, rfl⟩ := Option.map_eq_some_iff.mp hy
              refine ⟨z, hz, fun q hq => ?_⟩
              dsimp only at hq
              split at hq
              · cases hq
              · exact hq
          rcases List.mem_append.mp hmem with hchild | hmem
          · -- a child that is not on the stack hangs from its parent
            rw [List.mem_reverse, List.mem_filter] at hchild
            obtain ⟨y, hy, hparent⟩ := hl.child hid hchild.1
            have hoff : s.onStack top = false := by simpa using hchild.2
            exact ⟨id, List.mem_cons_self .., (HangsFrom.child (.top hid) hy hparent hoff).trans hbefore⟩
          · exact ⟨top, List.mem_cons_of_mem _ hmem, hbefore⟩

/-- Where parents and children agree, and whoever is off the stack has kept its
    parent, those who hang from a dead routine are dead. -/
theorem HangsFrom.dead (h : HangsFrom s top a) (hl : Linked t.routines)
    (htop : t.routines.find? top = none)
    (hparents : ∀ c y, t.routines.find? c = some y → s.onStack c = false →
      ∃ x, s.routines.find? c = some x ∧ y.parent = x.parent) : t.routines.find? a = none := by
  induction h with
  | top => exact htop
  | @child q c y _ live parent off ih =>
    cases hc : t.routines.find? c with
    | none => rfl
    | some z =>
      obtain ⟨x, hx, hsame⟩ := hparents c z hc off
      rw [live, Option.some.injEq] at hx
      subst hx
      obtain ⟨w, hw, -⟩ := hl.parent_live hc (hsame.trans parent)
      exact absurd (ih.symm.trans hw) (by simp)

/-- Freeing a routine takes what hangs from it and nothing else. -/
theorem dead_free_iff (hl : Linked s.routines) {x : Routine C} (ha : s.routines.find? a = some x) :
    (s.free top).routines.find? a = none ↔ HangsFrom s top a := by
  constructor
  · intro hdead
    obtain ⟨top', hmem, hhangs⟩ := hangsFrom_of_freeAll _ [top] s (hl.weaken (by rintro _ ⟨⟩)) ha hdead
    exact List.mem_singleton.mp hmem ▸ hhangs
  · intro hhangs
    refine hhangs.dead (hl.free top) (find?_free_self s top) fun c y hc hoff => ?_
    obtain ⟨z, hz, hparent, -⟩ := find?_of_free hc
    refine ⟨z, hz, hparent.resolve_right fun hcut => ?_⟩
    exact absurd (hoff.symm.trans hcut.2) (by simp)

/-- A routine that suspends with a live parent stays, and whatever hangs from it;
    otherwise it goes, with what hangs from it and nothing else. -/
theorem dead_suspend_iff (hl : Linked s.routines) (script : Script C) {x : Routine C}
    (ha : s.routines.find? a = some x) :
    (s.suspend q script).routines.find? a = none ↔
      (∀ r, s.routines.find? q = some r → s.liveParent r.parent = none) ∧ HangsFrom s q a := by
  have hfreed : ((s.retire script).free q).routines.find? a = none ↔ HangsFrom s q a := by
    rw [dead_free_iff (s := s.retire script) hl ha]
    exact ⟨fun h => h.before rfl fun c y hy => ⟨y, hy, fun _ h => h⟩,
      fun h => h.before rfl fun c y hy => ⟨y, hy, fun _ h => h⟩⟩
  unfold suspend
  split
  · next r hr =>
    split
    · next p hparent =>
      have hlive : ¬ (s.giveBack q script).routines.find? a = none := by
        intro hdead
        rw [giveBack_of_live hr] at hdead
        have hdead' : (s.routines.modify q _).find? a = none := hdead
        rw [Roster.find?_modify, ha] at hdead'
        split at hdead' <;> cases hdead'
      refine ⟨fun hdead => absurd hdead hlive, fun ⟨horphan, _⟩ => ?_⟩
      exact absurd (hparent.symm.trans (horphan r hr)) (by simp)
    · next hparent =>
      rw [hfreed]
      refine ⟨fun h => ⟨fun r' hr' => ?_, h⟩, And.right⟩
      obtain rfl := Option.some.inj (hr.symm.trans hr')
      exact hparent
  · next hdead =>
    rw [hfreed]
    refine ⟨fun h => ⟨fun r' hr' => ?_, h⟩, And.right⟩
    exact absurd (hdead.symm.trans hr') (by simp)

/-- Whoever is there after the unclaimed routines have been freed was there before;
    it has lost its parent at most if it is on the stack. -/
theorem find?_of_freeUnclaimed {y : Routine C}
    (hy : s.freeUnclaimed.2.routines.find? a = some y) :
    ∃ x, s.routines.find? a = some x ∧
      (y.parent = x.parent ∨ y.parent = none ∧ s.onStack a = true) := by
  have hfold : ∀ (ids : List RoutineId) (n : Nat) (t : Scheduler C),
      (ids.foldl freeIfLost (n, t)).2.routines.find? a = some y →
        ∃ x, t.routines.find? a = some x ∧
          (y.parent = x.parent ∨ y.parent = none ∧ t.onStack a = true) := by
    intro ids
    induction ids with
    | nil => exact fun n t hy => ⟨y, hy, Or.inl rfl⟩
    | cons id ids ih =>
      intro n t hy
      rw [List.foldl_cons] at hy
      by_cases hlost : t.isLost id = true
      · simp only [freeIfLost, hlost, if_true] at hy
        obtain ⟨z, hz, hparent⟩ := ih (n + 1) (t.free id) hy
        obtain ⟨x, hx, hparent', -⟩ := find?_of_free hz
        rw [onStack, (shrunk_free t id).work.stack] at hparent
        refine ⟨x, hx, ?_⟩
        rcases hparent with hsame | hcut
        · exact hsame ▸ hparent'
        · exact Or.inr hcut
      · simp only [freeIfLost, hlost] at hy
        exact ih n t hy
  exact hfold s.unclaimed 0 { s with unclaimed := [] } hy

/-- Whoever is freed as unclaimed hung from an unclaimed routine that was lost. -/
theorem hangsFrom_of_freeUnclaimed (hl : Linked s.routines) {x : Routine C}
    (ha : s.routines.find? a = some x) (hdead : s.freeUnclaimed.2.routines.find? a = none) :
    ∃ top ∈ s.unclaimed, s.isLost top = true ∧ HangsFrom s top a := by
  have hfold : ∀ (ids : List RoutineId) (n : Nat) (t : Scheduler C) (x : Routine C),
      Linked t.routines → t.routines.find? a = some x →
      (ids.foldl freeIfLost (n, t)).2.routines.find? a = none →
        ∃ top ∈ ids, t.isLost top = true ∧ HangsFrom t top a := by
    intro ids
    induction ids with
    | nil => exact fun n t x _ ha hdead => absurd (ha.symm.trans hdead) (by simp)
    | cons id ids ih =>
      intro n t x hlt ha hdead
      rw [List.foldl_cons] at hdead
      by_cases hlost : t.isLost id = true
      · simp only [freeIfLost, hlost, if_true] at hdead
        cases hnow : (t.free id).routines.find? a with
        | none => exact ⟨id, List.mem_cons_self .., hlost, (dead_free_iff hlt ha).mp hnow⟩
        | some y =>
          obtain ⟨top, hmem, htop, hhangs⟩ := ih (n + 1) (t.free id) y (hlt.free id) hnow hdead
          have hstack := (shrunk_free t id).work.stack
          have hbefore : HangsFrom t top a := by
            refine hhangs.before hstack fun c y hy => ?_
            obtain ⟨z, hz, hparent, -⟩ := find?_of_free hy
            refine ⟨z, hz, fun q hq => ?_⟩
            rcases hparent with hsame | ⟨hnone, -⟩
            · exact hsame.symm.trans hq
            · exact absurd (hnone.symm.trans hq) (by simp)
          obtain ⟨r, hr, hoff, horphan⟩ := isLost_eq_true htop
          obtain ⟨w, hw, hparent, -⟩ := find?_of_free hr
          rw [onStack, hstack] at hoff
          have hsame : r.parent = w.parent :=
            hparent.resolve_right fun hcut => absurd (hoff.symm.trans hcut.2) (by simp)
          -- it was lost before, unless its parent went with the first one
          by_cases hgone : t.liveParent w.parent = none
          · refine ⟨top, List.mem_cons_of_mem _ hmem, ?_, hbefore⟩
            simp [isLost, hw, hgone, show t.onStack top = false from hoff]
          · obtain ⟨q, hq⟩ := Option.ne_none_iff_exists'.mp hgone
            obtain ⟨hwq, z, hz⟩ := liveParent_eq_some.mp hq
            have hdeadq := (dead_free_iff hlt hz).mp (horphan q (hsame.trans hwq))
            exact ⟨id, List.mem_cons_self .., hlost, (hdeadq.child hw hwq hoff).trans hbefore⟩
      · simp only [freeIfLost, hlost] at hdead
        obtain ⟨top, hmem, hrest⟩ := ih n t x hlt ha hdead
        exact ⟨top, List.mem_cons_of_mem _ hmem, hrest⟩
  obtain ⟨top, hmem, hlost, hhangs⟩ :=
    hfold s.unclaimed 0 { s with unclaimed := [] } x hl ha hdead
  exact ⟨top, hmem, hlost, hhangs.before rfl fun c y hy => ⟨y, hy, fun _ h => h⟩⟩

/-- Freeing the unclaimed routines takes what hangs from those that are lost, and
    nothing else. -/
theorem dead_freeUnclaimed_iff (hl : Linked s.routines) {x : Routine C}
    (ha : s.routines.find? a = some x) :
    s.freeUnclaimed.2.routines.find? a = none ↔
      ∃ top ∈ s.unclaimed, s.isLost top = true ∧ HangsFrom s top a := by
  refine ⟨hangsFrom_of_freeUnclaimed hl ha, fun ⟨top, hmem, hlost, hhangs⟩ => ?_⟩
  obtain ⟨r, hr, hoff, horphan⟩ := isLost_eq_true hlost
  have hlinked := (freeUnclaimed_spec hl).2.1
  have hparents : ∀ c y, s.freeUnclaimed.2.routines.find? c = some y → s.onStack c = false →
      ∃ x, s.routines.find? c = some x ∧ y.parent = x.parent := by
    intro c y hy hoff
    obtain ⟨x, hx, hparent⟩ := find?_of_freeUnclaimed hy
    refine ⟨x, hx, hparent.resolve_right fun hcut => ?_⟩
    exact absurd (hoff.symm.trans hcut.2) (by simp)
  refine hhangs.dead hlinked ?_ hparents
  cases htop : s.freeUnclaimed.2.routines.find? top with
  | none => rfl
  | some y =>
    obtain ⟨z, hz, hsame⟩ := hparents top y htop hoff
    obtain rfl := Option.some.inj (hr.symm.trans hz)
    cases hparent : y.parent with
    | none =>
      have hon := (tends_freeUnclaimed s).2 top hmem y htop hparent
      exact absurd (hoff.symm.trans hon) (by simp)
    | some q =>
      -- a parent that is live now was live before
      obtain ⟨w, hw, -⟩ := hlinked.parent_live htop hparent
      obtain ⟨v, hv, -⟩ := find?_of_freeUnclaimed hw
      exact absurd ((horphan q (hsame.symm.trans hparent)).symm.trans hv) (by simp)

/-- Routine `a` is live in `s` and no longer in `t`. -/
def Frees (s t : Scheduler C) (a : RoutineId) : Prop :=
  s.routines.contains a = true ∧ t.routines.find? a = none

end Scheduler

/-! ### Reclaiming in a run -/

namespace Machine

variable {B : Behavior C R} {p : Nat} {m : Machine C R} {s t : Scheduler C} {a o : RoutineId}

/-- What frees routines that nothing else is to reach: the routine that is being
    stepped suspends, or, while none is being stepped, a sweep frees the unclaimed
    ones that are lost. -/
inductive Reclaims (p : Nat) (m : Machine C R) (s : Scheduler C) : Scheduler C → Prop where
  | suspend {id : RoutineId} (stepping : m.stage p = .stepping id) (script : Script C) :
    Reclaims p m s (s.suspend id script)
  | sweep (settled : m.stage p = .sweeping ∨ s.current = none) : Reclaims p m s s.freeUnclaimed.2

/-- What is freed hangs from routines that have no live parent, are on no stack, and
    that no continuation remembers. -/
theorem Reclaims.tops (hfree : m.Reclaims p s t) (h : Reachable B m)
    (hs : m.scheduler? p = some s) (hroom : ∀ a, s.routines.Ample a) :
    ∃ tops : RoutineId → Prop,
      (∀ a, s.Frees t a ↔ ∃ top, tops top ∧ HangsFrom s top a) ∧
      ∀ top, tops top → top ∉ m.remembered p ∧ s.onStack top = false ∧
        ∀ r, s.routines.find? top = some r → s.liveParent r.parent = none := by
  obtain ⟨lost, hposted⟩ := h.posted hs hroom
  have hl := h.linked hs (hroom default).slots
  -- whoever is in hand or unclaimed is nowhere else
  have hplaces : ∀ top r, s.routines.find? top = some r →
      0 < (m.stage p).handed.count top + s.unclaimed.count top →
        top ∉ m.remembered p ∧ s.onStack top = false := by
    intro top r hr hpos
    have hone := hposted.once top r hr m.store.snapshots.cells.size
    rw [count_posts] at hone
    dsimp only at hone
    refine ⟨fun hmem => ?_, Bool.eq_false_iff.mpr fun hon => ?_⟩
    · have hmem' := List.count_pos_iff.mpr hmem
      rw [Machine.remembered] at hmem'
      omega
    · have hmem : top ∈ routinesOf s.stack :=
        List.mem_filterMap.mpr ⟨.routine top, by simpa [Scheduler.onStack] using hon, rfl⟩
      have hmem' := List.count_pos_iff.mpr hmem
      omega
  cases hfree with
  | @suspend id stepping script =>
    refine ⟨fun top => top = id ∧ ∃ r, s.routines.find? id = some r ∧ s.liveParent r.parent = none,
      fun a => ⟨fun hgone => ?_, ?_⟩, ?_⟩
    · obtain ⟨ha, hdead⟩ := hgone
      obtain ⟨x, hx⟩ := Roster.contains_iff.mp ha
      obtain ⟨horphan, hhangs⟩ := (dead_suspend_iff hl script hx).mp hdead
      obtain ⟨r, hr⟩ := hhangs.live_top
      exact ⟨id, ⟨rfl, r, hr, horphan r hr⟩, hhangs⟩
    · rintro ⟨top, ⟨rfl, r, hr, horphan⟩, hhangs⟩
      obtain ⟨x, hx⟩ := hhangs.live
      have ha := Roster.contains_iff.mpr ⟨x, hx⟩
      refine ⟨ha, (dead_suspend_iff hl script hx).mpr ⟨fun r' hr' => ?_, hhangs⟩⟩
      exact Option.some.inj (hr.symm.trans hr') ▸ horphan
    · rintro top ⟨rfl, r, hr, horphan⟩
      have hhand : 0 < (m.stage p).handed.count top + s.unclaimed.count top := by
        rw [stepping]
        simp [PassStage.handed]
      obtain ⟨hnot, hoff⟩ := hplaces top r hr hhand
      exact ⟨hnot, hoff, fun r' hr' => Option.some.inj (hr.symm.trans hr') ▸ horphan⟩
  | sweep settled =>
    refine ⟨fun top => top ∈ s.unclaimed ∧ s.isLost top = true, fun a => ⟨fun hgone => ?_, ?_⟩, ?_⟩
    · obtain ⟨ha, hdead⟩ := hgone
      obtain ⟨x, hx⟩ := Roster.contains_iff.mp ha
      obtain ⟨top, hmem, hlost, hhangs⟩ := (dead_freeUnclaimed_iff hl hx).mp hdead
      exact ⟨top, ⟨hmem, hlost⟩, hhangs⟩
    · rintro ⟨top, ⟨hmem, hlost⟩, hhangs⟩
      obtain ⟨x, hx⟩ := hhangs.live
      have ha := Roster.contains_iff.mpr ⟨x, hx⟩
      exact ⟨ha, (dead_freeUnclaimed_iff hl hx).mpr ⟨top, hmem, hlost, hhangs⟩⟩
    · rintro top ⟨hmem, hlost⟩
      obtain ⟨r, hr, -, horphan⟩ := isLost_eq_true hlost
      have hhand : 0 < (m.stage p).handed.count top + s.unclaimed.count top :=
        Nat.add_pos_right _ (List.count_pos_iff.mpr hmem)
      obtain ⟨hnot, hoff⟩ := hplaces top r hr hhand
      refine ⟨hnot, hoff, fun r' hr' => liveParent_eq_none.mpr fun q hq => ?_⟩
      exact horphan q (Option.some.inj (hr.symm.trans hr') ▸ hq)

/-- What is reclaimed is on no stack, and is not in flight unless it is the routine
    that suspends. A routine that a continuation remembers, which has not been
    invoked, is freed exactly if its parent is freed with it. As long as that
    happens to none, no routine that descends from a remembered one is freed
    either. -/
theorem freed_unless_remembered_below (h : Reachable B m) (hs : m.scheduler? p = some s)
    (hroom : ∀ a, s.routines.Ample a) (hfree : m.Reclaims p s t) :
    (∀ a, s.Frees t a → s.onStack a = false ∧
      (s.current = some a → m.stage p = .sweeping ∨ m.stage p = .stepping a)) ∧
    (∀ o ∈ m.remembered p, s.Frees t o ↔
      ∃ x q, s.routines.find? o = some x ∧ x.parent = some q ∧ s.Frees t q) ∧
    ((∀ o ∈ m.remembered p, ∀ x q, s.routines.find? o = some x → x.parent = some q →
        ¬ s.Frees t q) →
      ∀ o ∈ m.remembered p, ∀ a, s.Frees t a → ¬ s.LeadsUp a o) := by
  obtain ⟨tops, hfrees, htops⟩ := hfree.tops h hs hroom
  -- a remembered routine that hangs from a top has its parent in between
  have hbelow : ∀ o ∈ m.remembered p, ∀ top, tops top → HangsFrom s top o →
      ∃ x q, s.routines.find? o = some x ∧ x.parent = some q ∧ HangsFrom s top q := by
    intro o ho top htop hhangs
    refine hhangs.parent ?_
    rintro rfl
    exact (htops o htop).1 ho
  have hoff : ∀ o ∈ m.remembered p, ∀ x, s.routines.find? o = some x → s.onStack o = false := by
    intro o ho x hx
    obtain ⟨lost, hposted⟩ := h.posted hs hroom
    have hone := hposted.once o x hx m.store.snapshots.cells.size
    rw [count_posts] at hone
    have hmem := List.count_pos_iff.mpr ho
    rw [Machine.remembered] at hmem
    dsimp only at hone
    refine Bool.eq_false_iff.mpr fun hon => ?_
    have hstack : o ∈ routinesOf s.stack :=
      List.mem_filterMap.mpr ⟨.routine o, by simpa [Scheduler.onStack] using hon, rfl⟩
    have hstack' := List.count_pos_iff.mpr hstack
    omega
  refine ⟨fun a ha => ⟨?_, fun hcurrent => ?_⟩, fun o ho => ⟨fun hfreed => ?_, ?_⟩, ?_⟩
  · obtain ⟨top, htop, hhangs⟩ := (hfrees a).mp ha
    rcases hhangs.onStack with rfl | hoff
    · exact (htops a htop).2.1
    · exact hoff
  · cases hfree with
    | @suspend id stepping script =>
      have hagrees := (h.ordered hs).2
      rw [stepping] at hagrees
      have hid : s.current = some id := congrArg Prod.snd hagrees
      rw [hcurrent, Option.some.injEq] at hid
      exact Or.inr (hid ▸ stepping)
    | sweep settled =>
      refine settled.imp_right fun hnone => ?_
      exact absurd (hnone.symm.trans hcurrent) (by simp)
  · obtain ⟨top, htop, hhangs⟩ := (hfrees o).mp hfreed
    obtain ⟨x, q, hx, hq, habove⟩ := hbelow o ho top htop hhangs
    exact ⟨x, q, hx, hq, (hfrees q).mpr ⟨top, htop, habove⟩⟩
  · rintro ⟨x, q, hx, hq, hfreed⟩
    obtain ⟨top, htop, habove⟩ := (hfrees q).mp hfreed
    exact (hfrees o).mpr ⟨top, htop, habove.child hx hq (hoff o ho x hx)⟩
  · intro hkept o ho a ha hup
    obtain ⟨top, htop, hhangs⟩ := (hfrees a).mp ha
    rcases hhangs.leadsUp hup with hbetween | habove
    · obtain ⟨x, q, hx, hq, hq'⟩ := hbelow o ho top htop hbetween
      exact hkept o ho x q hx hq ((hfrees q).mpr ⟨top, htop, hq'⟩)
    · -- above a top there is nobody
      rcases Relation.ReflTransGen.cases_head habove with rfl | ⟨q, ⟨x, hx, hq⟩, -⟩
      · exact (htops _ htop).1 ho
      · obtain ⟨w, hw, -⟩ := (h.linked hs (hroom default).slots).parent_live hx hq
        have hdead := liveParent_eq_none.mp ((htops _ htop).2.2 x hx) q hq
        exact absurd (hdead.symm.trans hw) (by simp)

end Machine

/-- The routine that is being stepped. -/
def PassStage.stepped : PassStage C → Option RoutineId
  | .stepping id => some id
  | _ => none

theorem PassStage.eq_stepping_of_check {σ : PassStage C} {id : RoutineId}
    (h : σ.stepped = some id) : σ = .stepping id := by
  cases σ <;> cases h
  rfl

open Machine Strand.Language in
/-- A root resets a body and, once it has come back, suspends. The body shifts, and
    the handler keeps the continuation. -/
def dropping : Machine Code Running :=
  let scheduler := Operand.mk (.type .scheduler) (.apply (.lookup "s") [])
  let handler := Term.apply .returning [.mk .outcome (.literal .unit)]
  let shift := Term.apply (.shift (.mk handler none none (some "k") none)) []
  let body := Term.apply (.staged [.onSuccess shift] none) []
  let root := Term.apply (.staged [.onSuccess (.apply (.reset body) []),
    .onSuccess (.apply .suspend [])] none) []
  Program.machine [] .empty (.bind "s" (.apply (.newScheduler {}) [])
    (.apply (.evaluate root) [scheduler]))

open Machine Strand.Language in
/-- After 108 moves the root is about to suspend. The continuation remembers the
    body, whose parent is the root: it is freed if and only if the root is. -/
theorem freed_unless_remembered_below_dropping :
    ∃ (m : Machine Code Running) (s : Scheduler Code),
      m = after behavior 108 dropping ∧ m.scheduler? 0 = some s ∧ s.stack = [] ∧
      m.remembered 0 = [⟨1, 0⟩] ∧ ∀ script,
        (∀ a, s.Frees (s.suspend ⟨0, 0⟩ script) a → s.onStack a = false ∧
          (s.current = some a → m.stage 0 = .sweeping ∨ m.stage 0 = .stepping a)) ∧
        ∀ o ∈ m.remembered 0, s.Frees (s.suspend ⟨0, 0⟩ script) o ↔
          ∃ x q, s.routines.find? o = some x ∧ x.parent = some q ∧
            s.Frees (s.suspend ⟨0, 0⟩ script) q := by
  obtain ⟨run, hrun⟩ : ∃ run, run = dropping := ⟨_, rfl⟩
  have hover : ((after behavior 108 run).scheduler? 0).map
      (fun s => (s.stack, s.routines.young)) = some ([], true) := by
    rw [hrun]
    decide +kernel
  have hremembered : (after behavior 108 run).remembered 0 = [⟨1, 0⟩] := by
    rw [hrun]
    decide +kernel
  have hstage : ((after behavior 108 run).stage 0).stepped = some ⟨0, 0⟩ := by
    rw [hrun]
    decide +kernel
  have hreach : Reachable behavior (after behavior 108 run) := by
    rw [hrun]
    exact ⟨_, Reaches.later (p := 0) ⟨108, rfl, rfl⟩⟩
  obtain ⟨s, hs, hend⟩ := Option.map_eq_some_iff.mp hover
  obtain ⟨hstack, hyoung⟩ := Prod.mk.inj hend
  rw [← hrun]
  refine ⟨after behavior 108 run, s, rfl, hs, hstack, hremembered, fun script => ?_⟩
  have hfreed := freed_unless_remembered_below hreach hs (Roster.ample_of_young hyoung)
    (.suspend (PassStage.eq_stepping_of_check hstage) script)
  exact ⟨hfreed.1, hfreed.2.1⟩

/-- A routine has yielded that it suspends. -/
def Focus.suspends : Focus C R → Bool
  | .release [] (.give (.stepped (.yield .suspend) _)) => true
  | _ => false

theorem Focus.suspends_of_check {f : Focus C R} (h : f.suspends = true) :
    ∃ script, f = .release [] (.give (.stepped (.yield .suspend) script)) := by
  unfold Focus.suspends at h
  split at h
  · exact ⟨_, rfl⟩
  · cases h

open Machine Strand.Language in
/-- The root suspends with the next move. That frees the body as well, which the
    continuation remembers: nobody has invoked it, and it still exists. -/
theorem remembered_body_freed :
    ∃ (m : Machine Code Running) (s t : Scheduler Code),
      m = after behavior 108 dropping ∧ Reachable behavior m ∧ m.scheduler? 0 = some s ∧
      (∃ script, m.focus = .release [] (.give (.stepped (.yield .suspend) script))) ∧
      (m.step behavior).scheduler? 0 = some t ∧ s.Frees t ⟨1, 0⟩ ∧
      ⟨1, 0⟩ ∈ m.remembered 0 ∧ ⟨1, 0⟩ ∈ (m.step behavior).remembered 0 ∧
      ∀ script, m.Reclaims 0 s (s.suspend ⟨0, 0⟩ script) ∧
        s.Frees (s.suspend ⟨0, 0⟩ script) ⟨1, 0⟩ := by
  obtain ⟨run, hrun⟩ : ∃ run, run = dropping := ⟨_, rfl⟩
  have hbefore : ((after behavior 108 run).scheduler? 0).map (fun s => (s.stack,
      [⟨0, 0⟩, ⟨1, 0⟩].map fun a => (s.routines.find? a).map Routine.parent)) =
        some ([], [some none, some (some ⟨0, 0⟩)]) := by
    rw [hrun]
    decide +kernel
  have hafter : (((after behavior 108 run).step behavior).scheduler? 0).map
      (fun t => t.routines.contains ⟨1, 0⟩) = some false := by
    rw [hrun]
    decide +kernel
  have hremembered : (after behavior 108 run).remembered 0 = [⟨1, 0⟩] ∧
      ((after behavior 108 run).step behavior).remembered 0 = [⟨1, 0⟩] := by
    rw [hrun]
    decide +kernel
  have hfocus : (after behavior 108 run).focus.suspends = true := by
    rw [hrun]
    decide +kernel
  have hstage : ((after behavior 108 run).stage 0).stepped = some ⟨0, 0⟩ := by
    rw [hrun]
    decide +kernel
  have hyoung : ((after behavior 108 run).scheduler? 0).map (fun s => s.routines.young) =
      some true := by
    rw [hrun]
    decide +kernel
  have hreach : Reachable behavior (after behavior 108 run) := by
    rw [hrun]
    exact ⟨_, Reaches.later (p := 0) ⟨108, rfl, rfl⟩⟩
  obtain ⟨s, hs, hend⟩ := Option.map_eq_some_iff.mp hbefore
  obtain ⟨t, ht, hdead⟩ := Option.map_eq_some_iff.mp hafter
  simp only [List.map_cons, List.map_nil, Prod.mk.injEq, List.cons.injEq, and_true,
    Option.map_eq_some_iff] at hend
  obtain ⟨hstack, ⟨x, hx, hroot⟩, y, hy, hbody⟩ := hend
  rw [hs, Option.map_some, Option.some.injEq] at hyoung
  have hlive : s.routines.contains ⟨1, 0⟩ = true := Roster.contains_iff.mpr ⟨y, hy⟩
  have hoff : s.onStack ⟨1, 0⟩ = false := by
    rw [Scheduler.onStack, hstack]
    rfl
  rw [← hrun]
  refine ⟨after behavior 108 run, s, t, rfl, hreach, hs, Focus.suspends_of_check hfocus, ht,
    ⟨hlive, ?_⟩, ?_, ?_, fun script => ⟨?_, hlive, ?_⟩⟩
  · simpa [Roster.contains] using hdead
  · rw [hremembered.1]
    exact List.mem_singleton_self _
  · rw [hremembered.2]
    exact List.mem_singleton_self _
  · exact .suspend (PassStage.eq_stepping_of_check hstage) script
  · have hl := hreach.linked hs ((Roster.ample_of_young hyoung) default).slots
    refine (dead_suspend_iff hl script hy).mpr ⟨fun r hr => ?_, ?_⟩
    · rw [hx, Option.some.injEq] at hr
      rw [← hr, hroot]
      rfl
    · exact .child (.top hx) hy hbody hoff

end Strand
