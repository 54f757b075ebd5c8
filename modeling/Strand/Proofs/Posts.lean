import Strand.Proofs.Lanes
import Strand.Proofs.Strands

/-! # Posts — where a live routine stands

    A live routine has one place among its kin, and at most one place where it
    waits for its turn.

    * Among its kin, parents and children agree, and parent links lead up
      without a cycle (`routines_form_forest`).
    * It waits on the stack, as one of the routines that a continuation
      remembers, or unclaimed. `Status.posts` lists all these places, together
      with the routines that a pass has in hand. A move takes a routine from one
      of them to another, or puts a new one on the stack (`Stride.posted`).

    So whoever is popped has its script at hand and is nowhere else
    (`live_routine_scheduled_once`). A panic that comes out of copying lifted
    frames is the one thing that loses scripts. -/

namespace Strand

variable {C R : Type}

open Scheduler

/-! ### Kin -/

namespace Scheduler

variable {s : Scheduler C} {a q : RoutineId}

/-- `q` is the parent of `a`. -/
def ParentOf (s : Scheduler C) (q a : RoutineId) : Prop :=
  ∃ x, s.routines.find? a = some x ∧ x.parent = some q

/-- Whoever is grounded is not among those above it. -/
theorem Grounded.not_above_itself (h : Grounded s a) : ¬ Relation.TransGen s.ParentOf a a := by
  induction h with
  | root live orphan =>
    intro hcycle
    obtain ⟨q, hq, x, hx, hparent⟩ := Relation.TransGen.tail'_iff.mp hcycle
    rw [live, Option.some.injEq] at hx
    subst hx
    -- the parent is the routine itself or has one, so it is live
    have hdead := liveParent_eq_none.mp orphan q hparent
    rcases Relation.ReflTransGen.cases_tail hq with rfl | ⟨z, -, y, hy, -⟩
    · exact absurd (hdead.symm.trans live) (by simp)
    · exact absurd (hdead.symm.trans hy) (by simp)
  | @under a q x live parent above ih =>
    intro hcycle
    obtain ⟨z, hz, y, hy, hparent⟩ := Relation.TransGen.tail'_iff.mp hcycle
    rw [live, Option.some.injEq] at hy
    subst hy
    obtain rfl := Option.some.inj (parent.symm.trans hparent)
    exact ih (.head' ⟨x, live, parent⟩ hz)

end Scheduler

/-! ### Places -/

/-- The routines that a pass has taken off the stack and is going to put
    somewhere. -/
def PassStage.handed : PassStage C → List RoutineId
  | .stepping id => [id]
  | .capturing _ frames => frames.map Lifted.id
  | _ => []

/-- The routines that a snapshot remembers, if there is one. -/
def originals (snapshot : Option (Snapshot C)) : List RoutineId :=
  (snapshot.bind Snapshot.routines).getD []

/-- The routines that the first `n` snapshots remember. -/
def remembered (t : Nat → Option (Snapshot C)) (n : Nat) : List RoutineId :=
  (List.range n).flatMap fun k => originals (t k)

/-- Every place where a routine can be that waits for its turn, with the first
    `n` snapshots. -/
def Status.posts (x : Status C) (n : Nat) : List RoutineId :=
  routinesOf x.scheduler.stack ++ x.stage.handed ++ remembered x.captures n ++ x.scheduler.unclaimed

section Counting

variable {t : Nat → Option (Snapshot C)} {a : RoutineId}

theorem count_remembered_mono {n n' : Nat} (h : n ≤ n') :
    (remembered t n).count a ≤ (remembered t n').count a := by
  induction h with
  | refl => exact Nat.le_refl _
  | @step n' _ ih =>
    refine Nat.le_trans ih ?_
    rw [remembered, remembered, List.range_succ, List.flatMap_append, List.count_append]
    exact Nat.le_add_right _ _

/-- What one snapshot remembers counts if it is among the first ones. -/
theorem count_remembered_update (t : Nat → Option (Snapshot C)) (k : Nat)
    (after : Option (Snapshot C)) (n : Nat) (a : RoutineId) :
    (remembered (Function.update t k after) n).count a +
        (if k < n then (originals (t k)).count a else 0) =
      (remembered t n).count a + (if k < n then (originals after).count a else 0) := by
  induction n with
  | zero => simp [remembered]
  | succ n ih =>
    simp only [remembered, List.range_succ, List.flatMap_append, List.flatMap_singleton,
      List.count_append] at ih ⊢
    by_cases hk : k = n
    · subst hk
      simp only [Nat.lt_irrefl, if_false, Nat.lt_succ_self, if_true, Function.update_self] at ih ⊢
      omega
    · rw [Function.update_of_ne (Ne.symm hk)]
      have hlt : k < n + 1 ↔ k < n := by omega
      simp only [hlt]
      omega

theorem count_remembered_of_found {k n : Nat} {snapshot : Snapshot C} {ids : List RoutineId}
    (hk : t k = some snapshot) (hids : snapshot.routines = some ids) (hn : k < n) :
    (remembered (Function.update t k (some { snapshot with routines := none })) n).count a +
      ids.count a = (remembered t n).count a := by
  have hsum := count_remembered_update t k (some { snapshot with routines := none }) n a
  simpa [hn, hk, originals, hids] using hsum

/-- A snapshot that forgets what it remembers takes nothing to anywhere. -/
theorem count_remembered_forgotten {k : Nat} {after : Option (Snapshot C)}
    (h : originals after = []) (n : Nat) :
    (remembered (Function.update t k after) n).count a ≤ (remembered t n).count a := by
  have hsum := count_remembered_update t k after n a
  simp only [h, List.count_nil, ite_self] at hsum
  omega

end Counting

namespace Scheduler

variable {s t : Scheduler C} {a id : RoutineId}

@[simp] theorem routinesOf_append (work rest : List StackEntry) :
    routinesOf (work ++ rest) = routinesOf work ++ routinesOf rest :=
  List.filterMap_append

@[simp] theorem routinesOf_map (ids : List RoutineId) :
    routinesOf (ids.map StackEntry.routine) = ids := by
  induction ids with
  | nil => rfl
  | cons a ids ih => exact congrArg (a :: ·) ih

/-- Who is picked is taken off the stack, and who is above it is passed over. -/
theorem pickFrom_passes {stack : List StackEntry} {script : Script C}
    (h : pickFrom stack s = (some (id, script), t)) :
    ∃ passed, stack = passed ++ .routine id :: t.stack ∧
      ∀ a x, .routine a ∈ passed → s.routines.find? a = some x → x.script = none := by
  induction stack generalizing s with
  | nil => cases h
  | cons work rest ih =>
    have hskip : ∀ {u : Scheduler C}, u.routines = s.routines →
        (∀ a x, work = .routine a → s.routines.find? a = some x → x.script = none) →
        pickFrom rest u = (some (id, script), t) →
        ∃ passed, work :: rest = passed ++ .routine id :: t.stack ∧
          ∀ a x, .routine a ∈ passed → s.routines.find? a = some x → x.script = none := by
      intro u hu hwork hrest
      obtain ⟨passed, hstack, hpassed⟩ := ih hrest
      refine ⟨work :: passed, congrArg _ hstack, fun a x ha hx => ?_⟩
      rcases List.mem_cons.mp ha with heq | ha
      · exact hwork a x heq.symm hx
      · exact hpassed a x ha (hu ▸ hx)
    cases work with
    | boundary =>
      exact hskip (u := s.report .boundaryConsumed) rfl (fun _ _ heq => by cases heq) h
    | routine top =>
      rw [pickFrom] at h
      split at h
      · next hdead =>
        refine hskip (u := s.report (.skippingStale top)) rfl (fun a x heq hx => ?_) h
        cases heq
        exact absurd (hdead.symm.trans hx) (by simp)
      · next r hr =>
        split at h
        · next hout =>
          refine hskip rfl (fun a x heq hx => ?_) h
          cases heq
          exact (Option.some.inj (hr.symm.trans hx)) ▸ hout
        · cases h
          exact ⟨[], rfl, by rintro _ _ ⟨⟩⟩

/-- Without anybody to pick, nothing is left on the stack. -/
theorem stack_of_pickFrom_none {stack : List StackEntry} (h : pickFrom stack s = (none, t)) :
    t.stack = [] := by
  induction stack generalizing s with
  | nil =>
    cases h
    rfl
  | cons work rest ih =>
    cases work with
    | boundary => exact ih h
    | routine top =>
      rw [pickFrom] at h
      split at h
      · exact ih h
      · split at h
        · exact ih h
        · cases h

/-- What is lifted is no longer on the stack. -/
theorem count_liftFrom (stack : List StackEntry) (lifted : List (Lifted C)) (s : Scheduler C)
    (a : RoutineId) :
    (routinesOf (liftFrom stack lifted s).2.stack).count a +
        ((liftFrom stack lifted s).1.map Lifted.id).count a ≤
      (routinesOf stack).count a + (lifted.map Lifted.id).count a := by
  induction stack generalizing lifted s with
  | nil => exact Nat.le_refl _
  | cons work rest ih =>
    cases work with
    | boundary => exact Nat.le_refl _
    | routine id =>
      rw [liftFrom, routinesOf_routine, List.count_cons]
      split
      · have := ih lifted s
        omega
      · next r _ =>
        split
        · have := ih lifted s
          omega
        · next script _ =>
          have hrest := ih (⟨id, r.origin, script, r.parent⟩ :: lifted)
            (s.modify id fun r => { r with script := none })
          simp only [List.map_cons, List.count_cons] at hrest
          omega

/-- A routine is lifted once: afterwards its script is out. -/
theorem nodup_liftFrom (stack : List StackEntry) (lifted : List (Lifted C)) (s : Scheduler C)
    (hnodup : (lifted.map Lifted.id).Nodup)
    (hout : ∀ f ∈ lifted, ∀ r, s.routines.find? f.id = some r → r.script = none) :
    ((liftFrom stack lifted s).1.map Lifted.id).Nodup := by
  induction stack generalizing lifted s with
  | nil => exact hnodup
  | cons work rest ih =>
    cases work with
    | boundary => exact hnodup
    | routine id =>
      rw [liftFrom]
      split
      · exact ih lifted s hnodup hout
      · next r hr =>
        split
        · exact ih lifted s hnodup hout
        · next script hscript =>
          refine ih _ _ (List.nodup_cons.mpr ⟨?_, hnodup⟩) ?_
          · intro hmem
            obtain ⟨f, hf, hid⟩ := List.mem_map.mp hmem
            have hid' : f.id = id := hid
            exact absurd (hscript.symm.trans (hout f hf r (hid' ▸ hr))) (by simp)
          · intro f hf y hy
            have hy' : (s.routines.modify id _).find? f.id = some y := hy
            rw [Roster.find?_modify] at hy'
            rcases List.mem_cons.mp hf with rfl | hf
            · rw [if_pos rfl, hr] at hy'
              cases hy'
              rfl
            · split at hy'
              · obtain ⟨x, -, rfl⟩ := Option.map_eq_some_iff.mp hy'
                rfl
              · exact hout f hf y hy'

theorem nodup_lift {frames : List (Lifted C)} (h : s.lift = (frames, t)) :
    (frames.map Lifted.id).Nodup := by
  have hframes : (liftFrom s.stack [] s).1 = frames := congrArg Prod.fst h
  rw [← hframes]
  exact nodup_liftFrom s.stack [] s List.nodup_nil (by rintro _ ⟨⟩)

theorem count_lift {frames : List (Lifted C)} (h : s.lift = (frames, t)) (a : RoutineId) :
    (routinesOf t.stack).count a + (frames.map Lifted.id).count a ≤
      (routinesOf s.stack).count a := by
  have hcount := count_liftFrom s.stack [] s a
  have hframes : (liftFrom s.stack [] s).1 = frames := congrArg Prod.fst h
  have hstack : (liftFrom s.stack [] s).2.stack = t.stack := congrArg (fun y => y.2.stack) h
  rw [hframes, hstack] at hcount
  simpa using hcount

/-! ### New work -/

/-- The routines of `new` are new, and each is listed once. -/
structure New (s t : Scheduler C) (new : List RoutineId) : Prop where
  nodup : new.Nodup
  fresh : ∀ a ∈ new, ¬ s.routines.Issued a
  issued : ∀ a ∈ new, t.routines.Issued a

theorem New.nil (s t : Scheduler C) : New s t [] :=
  ⟨List.nodup_nil, by rintro _ ⟨⟩, by rintro _ ⟨⟩⟩

theorem New.singleton (hs : s.routines.Sound) (origin : Origin) (script : Script C)
    (hgrows : Roster.Grows (s.add origin script).2.routines t.routines)
    (hkept : ∀ a, (s.add origin script).2.routines.Issued a → t.routines.Issued a)
    (hroom : ∀ a, t.routines.Ample a) : New s t [(s.add origin script).1] := by
  have hadded : ∀ a, (s.add origin script).2.routines.Ample a := fun a => (hroom a).of_grows hgrows
  refine ⟨List.nodup_singleton _, ?_, ?_⟩
  · intro a ha hissued
    exact hs.ne_insert_fst hissued ⟨origin, some script, none, []⟩ (hadded a)
      (List.mem_singleton.mp ha)
  · intro a ha
    obtain rfl := List.mem_singleton.mp ha
    refine hkept _ (Roster.issued_of_find? (e := ⟨origin, some script, none, []⟩) ?_)
    exact ((hs.find?_insert _ (hadded default).slots _).trans (if_pos rfl))

/-- What a finished routine leaves on the stack is new. -/
theorem New.conclude (hl : Linked s.routines) (id : RoutineId) (script : Script C)
    (o : Outcome Value)
    (hroom : ∀ a, (s.conclude id script o).routines.Ample a) :
    ∃ new, New s (s.conclude id script o) new ∧
      routinesOf (s.conclude id script o).stack = new ++ routinesOf s.stack := by
  have hslots : s.routines.slots.size ≤ 2 ^ 32 :=
    ((hroom default).of_grows
      (closed_conclude (Roster.closed_grows _).steady (.refl _) id script o)).slots
  cases hr : s.routines.find? id with
  | none =>
    refine ⟨[], .nil _ _, ?_⟩
    rw [conclude_of_dead hr]
    rfl
  | some r =>
    obtain ⟨new, hstack, -, hrests, -, hnodup, -⟩ := conclude_leaves hl hslots hr script o
    have hpiles : Piles (fun _ => False) s (s.conclude id script o) :=
      piles_conclude hl hslots script o
    obtain ⟨work, hwork, hnew⟩ := hpiles
    obtain rfl : work = new.map Item.entry := List.append_cancel_right (hwork.symm.trans hstack)
    refine ⟨new.map Prod.fst, ⟨hnodup, ?_, ?_⟩, ?_⟩
    · intro a ha hissued
      obtain ⟨i, hi, rfl⟩ := List.mem_map.mp ha
      exact hnew i.1 (List.mem_map_of_mem (f := Item.entry) hi) hissued (hroom i.1)
    · intro a ha
      obtain ⟨i, hi, rfl⟩ := List.mem_map.mp ha
      exact (hrests i hi).1.issued
    · have hentries : new.map Item.entry = (new.map Prod.fst).map StackEntry.routine := by
        rw [List.map_map]
        rfl
      rw [hstack, routinesOf_append, hentries, routinesOf_map]

/-- Copies that are planted are new. -/
theorem New.addCopies (frames : List (FrameCopy C × Script C)) (hs : s.routines.Sound)
    (hroom : ∀ a, (addCopies frames s).2.routines.Ample a) :
    New s (addCopies frames s).2 (addCopies frames s).1 := by
  induction frames generalizing s with
  | nil => exact .nil _ _
  | cons frame frames ih =>
    have hgrows : Roster.Grows (s.add frame.1.origin frame.2).2.routines
        (addCopies (frame :: frames) s).2.routines :=
      closed_addCopies (Roster.closed_grows _).steady (.refl _) frames
    have hfirst := New.singleton hs frame.1.origin frame.2 hgrows
      (fun a ha => closed_addCopies (Roster.closed_issued a).steady ha frames) hroom
    have hrest := ih (s := (s.add frame.1.origin frame.2).2) (hs.insert _) hroom
    have hmine : (s.add frame.1.origin frame.2).2.routines.Issued
        (s.add frame.1.origin frame.2).1 :=
      Roster.issued_of_find? ((hs.find?_insert _ ((hroom default).of_grows hgrows).slots _).trans
        (if_pos rfl))
    refine ⟨List.nodup_cons.mpr ⟨fun hmem => hrest.fresh _ hmem hmine, hrest.nodup⟩, ?_, ?_⟩
    · intro a ha hissued
      rcases List.mem_cons.mp ha with rfl | ha
      · exact hfirst.fresh _ (List.mem_singleton_self _) hissued
      · exact hrest.fresh a ha (hissued.insert _)
    · intro a ha
      rcases List.mem_cons.mp ha with rfl | ha
      · exact hfirst.issued _ (List.mem_singleton_self _)
      · exact hrest.issued a ha

theorem New.plant (hs : s.routines.Sound) (frames : List (FrameCopy C)) (copies : List (Script C))
    (hroom : ∀ a, (s.plant frames copies).2.routines.Ample a) :
    New s (s.plant frames copies).2 (s.plant frames copies).1 := by
  have hgrows : Roster.Grows (Scheduler.addCopies (frames.zip copies) s).2.routines
      (s.plant frames copies).2.routines := closed_links (Roster.closed_grows _).steady (.refl _) _ _
  have hnew := New.addCopies (frames.zip copies) hs fun a => (hroom a).of_grows hgrows
  exact ⟨hnew.nodup, hnew.fresh,
    fun a ha => closed_links (Roster.closed_issued a).steady (hnew.issued a ha) _ _⟩

end Scheduler

/-! ### Moves from place to place -/

/-- Every live routine is in one place at most, and without a script only while
    it is in hand, or `lost`: then it is nowhere. -/
structure Posted (lost : RoutineId → Prop) (x : Status C) : Prop where
  issued : ∀ n, ∀ a ∈ x.posts n, x.scheduler.routines.Issued a
  once : ∀ a r, x.scheduler.routines.find? a = some r → ∀ n, (x.posts n).count a ≤ 1
  scripts : ∀ a r, x.scheduler.routines.find? a = some r → r.script = none →
    x.stage.InHand x.scheduler a ∨ lost a
  nowhere : ∀ a, lost a → x.scheduler.routines.Issued a ∧
    ∀ r, x.scheduler.routines.find? a = some r → ∀ n, a ∉ x.posts n
  handed : x.stage.handed.Nodup
  distinct : ∀ k snapshot ids, x.captures k = some snapshot → snapshot.routines = some ids →
    ids.Nodup

section Stride

variable {p : Nat} {x y : Status C} {σ σ' : PassStage C} {s s' : Scheduler C}
  {t : Nat → Option (Snapshot C)} {id : RoutineId} {lost : RoutineId → Prop}

/-- Whoever has been issued and is live was live before. -/
theorem live_of_issued {r : Roster (Routine C)} {r' : Roster (Routine C)} {a : RoutineId}
    (hgrows : Roster.Grows r r') (h : r.Issued a) {y : Routine C} (hy : r'.find? a = some y)
    (hample : r'.Ample a) : ∃ x, r.find? a = some x := by
  rcases h with hlive | hgone
  · exact Roster.contains_iff.mp hlive
  · have hgeneration : a.generation.toNat = r'.vacated a := by
      obtain ⟨v, hv, hgen⟩ := Roster.find?_eq_some.mp hy
      have hvacated : r'.vacated a = v := by simp [Roster.vacated, hv]
      have hlt := hample.vacated
      rw [← hgen, UInt32.toNat_ofNat', hvacated, Nat.mod_eq_of_lt (hvacated ▸ hlt)]
    have := hgrows.vacated a
    omega

/-- A move takes routines from place to place, and puts new ones somewhere. -/
theorem Posted.moved (hk : Posted lost x) (hedits : Edits x.scheduler y.scheduler)
    (hroom : ∀ a, y.scheduler.routines.Ample a) {new : List RoutineId}
    (hnew : New x.scheduler y.scheduler new)
    (hposts : ∀ n, ∃ n', ∀ a, (y.posts n).count a ≤ (x.posts n').count a + new.count a)
    (hscripts : ∀ a r, y.scheduler.routines.find? a = some r → r.script = none →
      y.stage.InHand y.scheduler a ∨ lost a)
    (hhanded : y.stage.handed.Nodup)
    (hdistinct : ∀ k snapshot ids, y.captures k = some snapshot → snapshot.routines = some ids →
      ids.Nodup) : Posted lost y := by
  refine ⟨?_, ?_, hscripts, ?_, hhanded, hdistinct⟩
  · intro n a ha
    obtain ⟨n', hle⟩ := hposts n
    have hpos := List.count_pos_iff.mpr ha
    rcases Nat.eq_zero_or_pos ((x.posts n').count a) with hzero | hold
    · have := hle a
      exact hnew.issued a (List.count_pos_iff.mp (by omega))
    · exact hedits.issued (hk.issued n' a (List.count_pos_iff.mp hold))
  · intro a r hr n
    obtain ⟨n', hle⟩ := hposts n
    have hle' := hle a
    by_cases hissued : x.scheduler.routines.Issued a
    · obtain ⟨z, hz⟩ := live_of_issued hedits.grows hissued hr (hroom a)
      have hone := hk.once a z hz n'
      have hnone : new.count a = 0 := List.count_eq_zero.mpr fun ha => hnew.fresh a ha hissued
      omega
    · have hnone : (x.posts n').count a = 0 :=
        List.count_eq_zero.mpr fun ha => hissued (hk.issued n' a ha)
      have hone := List.nodup_iff_count_le_one.mp hnew.nodup a
      omega
  · intro a ha
    obtain ⟨hissued, hnowhere⟩ := hk.nowhere a ha
    refine ⟨hedits.issued hissued, fun r hr n hmem => ?_⟩
    -- it was live and nowhere before, and it is not new
    obtain ⟨z, hz⟩ := live_of_issued hedits.grows hissued hr (hroom a)
    obtain ⟨n', hle⟩ := hposts n
    have hle' := hle a
    have hold : (x.posts n').count a = 0 := List.count_eq_zero.mpr (hnowhere z hz n')
    have hnone : new.count a = 0 := List.count_eq_zero.mpr fun hin => hnew.fresh a hin hissued
    have hpos := List.count_pos_iff.mpr hmem
    omega

theorem count_posts (x : Status C) (n : Nat) (a : RoutineId) :
    (x.posts n).count a = (routinesOf x.scheduler.stack).count a + x.stage.handed.count a +
      (remembered x.captures n).count a + x.scheduler.unclaimed.count a := by
  simp only [Status.posts, List.count_append]

/-- A move that takes no script out, and at most gives back what is in hand. -/
theorem Posted.kept (hk : Posted lost ⟨σ, s, t⟩) (htends : Tends s s') (hedits : Edits s s')
    (hroom : ∀ a, s'.routines.Ample a) {new : List RoutineId} (hnew : New s s' new)
    (hplaces : ∀ a, (routinesOf s'.stack).count a + σ'.handed.count a ≤
      (routinesOf s.stack).count a + σ.handed.count a + new.count a)
    (hunclaimed : s'.unclaimed = s.unclaimed) (hhanded : σ'.handed.Nodup)
    (hhand : ∀ a r, s'.routines.find? a = some r → σ.InHand s a → r.script = none →
      σ'.InHand s' a ∨ lost a) : Posted lost ⟨σ', s', t⟩ := by
  refine hk.moved hedits hroom hnew (fun n => ⟨n, fun a => ?_⟩) (fun a r hr hscript => ?_) hhanded
    hk.distinct
  · have := hplaces a
    rw [count_posts, count_posts, hunclaimed]
    dsimp only at this ⊢
    omega
  · obtain ⟨x, hx, hx'⟩ := htends.scripts hr hscript
    rcases hk.scripts a x hx hx' with hin | hlost
    · exact hhand a r hr hin hscript
    · exact Or.inr hlost

/-- What is stepped goes back on the stack. -/
theorem Posted.shelved (hk : Posted lost ⟨.stepping id, s, t⟩) (script : Script C)
    (hroom : ∀ a, (s.shelve id script).routines.Ample a) :
    Posted lost ⟨.building id, s.shelve id script, t⟩ := by
  refine hk.kept (tends_shelve s id script) (edits_shelve s id script) hroom (.nil _ _) ?_
    (congrArg Prod.snd (badge_shelve s id script)) List.nodup_nil ?_
  · intro a
    unfold shelve
    split
    · show (routinesOf (.routine id :: (s.giveBack id script).stack)).count a + 0 ≤
        _ + [id].count a + 0
      rw [stack_giveBack, routinesOf_routine]
      simp only [List.count_cons, List.count_nil]
      omega
    · exact Nat.le_add_right _ _
  · rintro a r hr rfl hscript
    have hlive : s.routines.contains a = true := by
      rw [← contains_shelve s a script a]
      exact Roster.contains_iff.mpr ⟨r, hr⟩
    obtain ⟨x, hx⟩ := Roster.contains_iff.mp hlive
    rw [shelve_of_live hx] at hr
    have hr' : (s.routines.modify a _).find? a = some r := hr
    rw [Roster.find?_modify, if_pos rfl, hx] at hr'
    cases hr'
    cases hscript

/-- Where the routines, the stack and the unclaimed ones are the same. -/
theorem Posted.same (hk : Posted lost ⟨σ, s, t⟩) (hroutines : s'.routines = s.routines)
    (hstack : routinesOf s'.stack = routinesOf s.stack) (hunclaimed : s'.unclaimed = s.unclaimed)
    (hcurrent : s'.current = s.current) : Posted lost ⟨σ, s', t⟩ := by
  have hhand : ∀ a, σ.InHand s a → σ.InHand s' a := by
    intro a ha
    cases σ <;> first
      | exact ha
      | exact hcurrent.trans ha
  have hsame : ∀ n, (⟨σ, s', t⟩ : Status C).posts n = (⟨σ, s, t⟩ : Status C).posts n := by
    intro n
    simp only [Status.posts, hstack, hunclaimed]
  refine ⟨fun n a ha => ?_, fun a r hr n => ?_, fun a r hr hscript => ?_, fun a ha => ?_,
    hk.handed, hk.distinct⟩
  · rw [hsame] at ha
    exact hroutines ▸ hk.issued n a ha
  · rw [hsame]
    exact hk.once a r (hroutines ▸ hr) n
  · exact (hk.scripts a r (hroutines ▸ hr) hscript).imp_left (hhand a)
  · refine ⟨hroutines ▸ (hk.nowhere a ha).1, fun r hr n => ?_⟩
    rw [hsame]
    exact (hk.nowhere a ha).2 r (hroutines ▸ hr) n

/-- A child is put on the stack. -/
theorem posted_child (hk : Posted lost ⟨.building id, s, t⟩) (hl : Linked s.routines) {c : RoutineId}
    (hc : s.routines.Issued c) (origin : Origin) (script : Script C)
    (hroom : ∀ a, (s.scheduleChild origin script c).routines.Ample a) :
    Posted lost ⟨.sweeping, (s.scheduleChild origin script c).told, t⟩ := by
  have hgrows : Roster.Grows (s.add origin script).2.routines
      (s.scheduleChild origin script c).routines :=
    closed_link (Roster.closed_grows _).steady (.refl _) _ (some c)
  have hnew : New s (s.scheduleChild origin script c).told [(s.add origin script).1] :=
    .singleton hl.sound origin script hgrows
      (fun a ha => closed_link (Roster.closed_issued a).steady ha _ (some c)) hroom
  have hne := hl.sound.ne_insert_fst hc ⟨origin, some script, none, []⟩
    ((hroom c).of_grows hgrows)
  rw [s.insert_fst] at hne
  refine hk.kept ((tends_scheduleChild hl origin script (hroom c).slots hne).trans (tends_told _))
    ((edits_scheduleChild s origin script c).trans (.idle rfl)) hroom hnew (fun a => ?_)
    (congrArg Prod.snd (badge_scheduleChild s origin script c)) List.nodup_nil
    fun a _ _ hin _ => False.elim hin
  have hstack : (s.scheduleChild origin script c).told.stack =
      .routine (s.add origin script).1 :: s.stack := congrArg _ (stack_link _ _ _)
  show (routinesOf (s.scheduleChild origin script c).told.stack).count a + 0 ≤ _ + 0 + _
  rw [hstack, routinesOf_routine]
  simp only [List.count_cons, List.count_nil]
  omega

/-- A routine is taken off the stack to be stepped. -/
theorem posted_pick {script : Script C} (hk : Posted lost ⟨.head, s, t⟩)
    (h : s.pick = (some (id, script), s'))
    (hroom : ∀ a, s'.routines.Ample a) :
    Posted lost ⟨.stepping id, { s' with register := .unit }.told, t⟩ := by
  have hedits := edits_pickFrom s.stack s
  have hunclaimed := unclaimed_pickFrom s.stack s
  rw [← pick, h] at hedits hunclaimed
  obtain ⟨passed, hstack, -⟩ := pickFrom_passes h
  refine hk.moved (hedits.trans (.idle rfl)) hroom (.nil _ _) (fun n => ⟨n, fun a => ?_⟩) ?_
    (List.nodup_singleton _) hk.distinct
  · rw [count_posts, count_posts]
    show (routinesOf s'.stack).count a + [id].count a + _ + s'.unclaimed.count a ≤
      (routinesOf s.stack).count a + 0 + _ + s.unclaimed.count a + 0
    rw [hunclaimed, hstack, routinesOf_append, List.count_append, routinesOf_routine]
    simp only [List.count_cons, List.count_nil]
    omega
  · intro a r hr hscript
    by_cases ha : a = id
    · exact Or.inl ha
    · have hsame := (pickFrom_others h).2 a fun _ heq => ha (Prod.mk.inj (Option.some.inj heq)).1.symm
      exact (hk.scripts a r (hsame.symm.trans hr) hscript).imp_left False.elim

/-- Of what was on the stack or in the step under way, nothing survives a panic
    that leaves the pass. -/
theorem leave_spec (s : Scheduler C) :
    (s.leave true).stack = [] ∧ (s.leave true).unclaimed = s.unclaimed ∧
      ∀ a r, (s.leave true).routines.find? a = some r →
        s.onStack a = false ∧ s.current ≠ some a ∧
          ∃ x, s.routines.find? a = some x ∧ (r.script = none → x.script = none) := by
  obtain ⟨ids, u, hids, hroutines, hempty, hunclaimed, hleave⟩ :
      ∃ (ids : List RoutineId) (u : Scheduler C),
        (∀ a, s.onStack a = true ∨ s.current = some a → a ∈ ids) ∧ u.routines = s.routines ∧
        u.stack = [] ∧ u.unclaimed = s.unclaimed ∧
        s.leave true = { ids.foldl free u with register := .unit } := by
    refine ⟨_, _, ?_, ?_, ?_, ?_, rfl⟩
    · rintro a (hon | hcur)
      · refine List.mem_append_left _ (List.mem_filterMap.mpr ⟨.routine a, ?_, rfl⟩)
        simpa [onStack] using hon
      · refine List.mem_append_right _ ?_
        simp [hcur]
    all_goals rfl
  have hstack : ∀ (ids : List RoutineId) (v : Scheduler C), (ids.foldl free v).stack = v.stack := by
    intro ids
    induction ids with
    | nil => exact fun v => rfl
    | cons a ids ih => exact fun v => (ih _).trans (shrunk_free v a).work.stack
  rw [hleave]
  refine ⟨(hstack ids u).trans hempty,
    (congrArg Prod.snd (badge_frees ids u) : (ids.foldl free u).unclaimed = _).trans hunclaimed, ?_⟩
  intro a r hr
  have hnot : a ∉ ids := fun hmem =>
    absurd ((dead_of_frees ids u (Or.inl hmem)).symm.trans hr) (by simp)
  have hlive : ∃ x, u.routines.find? a = some x := by
    cases hu : u.routines.find? a with
    | some x => exact ⟨x, rfl⟩
    | none => exact absurd ((dead_of_frees ids u (Or.inr hu)).symm.trans hr) (by simp)
  obtain ⟨x, hx⟩ := hlive
  refine ⟨?_, fun hcur => hnot (hids a (Or.inr hcur)), x, hroutines ▸ hx, fun hscript => ?_⟩
  · cases hon : s.onStack a with
    | false => rfl
    | true => exact absurd (hids a (Or.inl hon)) hnot
  · obtain ⟨y, hy, hyscript⟩ := (tends_frees ids u).scripts hr hscript
    obtain rfl := Option.some.inj (hx.symm.trans hy)
    exact hyscript

/-- A panic leaves the pass: nothing is on the stack or in hand any more. -/
theorem posted_abandon (hk : Posted lost ⟨σ, s, t⟩) (hhand : ∀ a, σ.InHand s a → s.current = some a)
    (hroom : ∀ a, (s.leave true).routines.Ample a) :
    Posted lost ⟨.idle, (s.leave true).told, t⟩ := by
  obtain ⟨hstack, hunclaimed, hback⟩ := leave_spec s
  refine hk.moved ((edits_leave s true).trans (.idle rfl)) hroom (.nil _ _)
    (fun n => ⟨n, fun a => ?_⟩) (fun a r hr hscript => ?_) List.nodup_nil hk.distinct
  · rw [count_posts, count_posts]
    show (routinesOf (s.leave true).stack).count a + 0 + _ + (s.leave true).unclaimed.count a ≤ _
    rw [hstack, hunclaimed]
    simp only [routinesOf_nil, List.count_nil]
    omega
  · obtain ⟨-, hcurrent, x, hx, hxscript⟩ := hback a r hr
    refine Or.inr ((hk.scripts a x hx (hxscript hscript)).resolve_left fun hin => ?_)
    exact hcurrent (hhand a hin)

/-- The pass is over. -/
theorem posted_leave (hk : Posted lost ⟨.head, s, t⟩) (h : s.pick = (none, s')) (unwinding : Bool)
    (hroom : ∀ a, ({ s' with register := .unit }.leave unwinding).routines.Ample a) :
    Posted lost ⟨.idle, ({ s' with register := .unit }.leave unwinding).told, t⟩ := by
  have hedits := edits_pickFrom s.stack s
  have hunclaimed := unclaimed_pickFrom s.stack s
  rw [← pick, h] at hedits hunclaimed
  have hgrows := (edits_leave { s' with register := .unit } unwinding).grows
  have hover : Posted lost ⟨.idle, { s' with register := .unit }, t⟩ := by
    refine hk.moved (hedits.trans (.idle rfl)) (fun a => (hroom a).of_grows hgrows) (.nil _ _)
      (fun n => ⟨n, fun a => ?_⟩) (fun a r hr hscript => ?_) List.nodup_nil hk.distinct
    · rw [count_posts, count_posts]
      show (routinesOf s'.stack).count a + 0 + _ + s'.unclaimed.count a ≤ _
      rw [stack_of_pickFrom_none h, hunclaimed]
      simp only [routinesOf_nil, List.count_nil]
      omega
    · have hsame := (pickFrom_others h).2 a (fun _ heq => by cases heq)
      exact (hk.scripts a r (hsame.symm.trans hr) hscript).imp_left False.elim
  cases unwinding with
  | true => exact posted_abandon hover (fun _ h => False.elim h) hroom
  | false => exact hover.same rfl rfl rfl rfl

/-- A routine that suspends has its script back, or is gone. -/
theorem script_suspend (s : Scheduler C) (script : Script C) {r : Routine C}
    (hr : (s.suspend id script).routines.find? id = some r) : r.script ≠ none := by
  unfold suspend at hr
  split at hr
  · next x hx =>
    split at hr
    · rw [giveBack_of_live hx] at hr
      have hr' : (s.routines.modify id _).find? id = some r := hr
      rw [Roster.find?_modify, if_pos rfl, hx] at hr'
      obtain rfl := Option.some.inj hr'
      rintro ⟨⟩
    · exact absurd ((find?_free_self _ id).symm.trans hr) (by simp)
  · exact absurd ((find?_free_self _ id).symm.trans hr) (by simp)

theorem unclaimed_freeUnclaimed (s : Scheduler C) : s.freeUnclaimed.2.unclaimed = [] := by
  have hfold : ∀ (ids : List RoutineId) (freed : Nat × Scheduler C),
      (ids.foldl freeIfLost freed).2.unclaimed = freed.2.unclaimed := by
    intro ids
    induction ids with
    | nil => exact fun _ => rfl
    | cons id ids ih =>
      intro freed
      rw [List.foldl_cons, ih]
      unfold freeIfLost
      split
      · exact congrArg Prod.snd (badge_free freed.2 id)
      · rfl
  rw [freeUnclaimed_eq, hfold]

/-- Frames are lifted off the stack. -/
theorem posted_lift {frames : List (Lifted C)} (hk : Posted lost ⟨.building id, s, t⟩)
    (h : s.lift = (frames, s')) (hroom : ∀ a, s'.routines.Ample a) :
    Posted lost ⟨.capturing id frames, s'.told, t⟩ := by
  have hedits := edits_lift s
  have hbadge := badge_lift s
  rw [h] at hedits hbadge
  have hunclaimed : s'.unclaimed = s.unclaimed := congrArg Prod.snd hbadge
  refine hk.moved (hedits.trans (.idle rfl)) hroom (.nil _ _) (fun n => ⟨n, fun a => ?_⟩)
    (fun a r hr hscript => ?_) (nodup_lift h) hk.distinct
  · have hcount := count_lift h a
    rw [count_posts, count_posts]
    show (routinesOf s'.stack).count a + (frames.map Lifted.id).count a + _ +
      s'.unclaimed.count a ≤ (routinesOf s.stack).count a + 0 + _ + _ + 0
    rw [hunclaimed]
    dsimp only
    omega
  · by_cases ha : a ∈ frames.map Lifted.id
    · exact Or.inl ha
    · exact (hk.scripts a r ((lift_others h ha).2.1.symm.trans hr) hscript).imp_left False.elim

/-- The continuation remembers the frames. -/
theorem posted_capture {frames : List (Lifted C)} (hk : Posted lost ⟨.capturing id frames, s, t⟩)
    (copies : List (Script C)) {k : Nat} (hnew : t k = none)
    (hroom : ∀ a, (s.giveBackAll frames).routines.Ample a) :
    Posted lost ⟨.building id, (s.giveBackAll frames).told,
      Function.update t k (some (.of p frames copies))⟩ := by
  have hunclaimed : (s.giveBackAll frames).unclaimed = s.unclaimed :=
    congrArg Prod.snd (badge_giveBackAll frames s)
  refine hk.moved ((edits_giveBackAll s frames).trans (.idle rfl)) hroom (.nil _ _)
    (fun n => ⟨n, fun a => ?_⟩) (fun a r hr hscript => ?_) List.nodup_nil ?_
  · have hsum := count_remembered_update t k (some (.of p frames copies)) n a
    have hmine : originals (some (Snapshot.of p frames copies)) = frames.map Lifted.id := rfl
    rw [count_posts, count_posts]
    show (routinesOf (s.giveBackAll frames).stack).count a + 0 + _ +
      (s.giveBackAll frames).unclaimed.count a ≤
        _ + (frames.map Lifted.id).count a + (remembered t n).count a + _ + 0
    rw [stack_giveBackAll, hunclaimed]
    simp only [hnew, hmine] at hsum ⊢
    split at hsum <;> omega
  · obtain ⟨x, hx, hxscript⟩ := (tends_giveBackAll frames s).scripts hr hscript
    refine Or.inr ((hk.scripts a x hx hxscript).resolve_left fun hin => ?_)
    exact script_giveBackAll frames s hin hr hscript
  · intro k' snapshot ids hk' hids
    by_cases hne : k' = k
    · subst hne
      obtain rfl := Option.some.inj ((Function.update_self k' _ t).symm.trans hk')
      obtain rfl := Option.some.inj hids
      exact hk.handed
    · exact hk.distinct k' snapshot ids ((Function.update_of_ne hne _ t).symm.trans hk') hids

/-- A continuation remembers its routines no longer: they are on the stack, or
    unclaimed, or nowhere. -/
theorem Posted.forgotten {k : Nat} {snapshot : Snapshot C} {after : Option (Snapshot C)}
    (hk : Posted lost ⟨σ, s, t⟩) (hfound : t k = some snapshot) (hafter : originals after = [])
    (hroutines : s'.routines = s.routines) (hcurrent : s'.current = s.current)
    (hplaces : ∀ a, (routinesOf s'.stack).count a + s'.unclaimed.count a ≤
      (routinesOf s.stack).count a + s.unclaimed.count a +
        (originals (some snapshot)).count a)
    (hroom : ∀ a, s'.routines.Ample a) : Posted lost ⟨σ, s', Function.update t k after⟩ := by
  have hhand : ∀ a, σ.InHand s a → σ.InHand s' a := by
    intro a ha
    cases σ <;> first
      | exact ha
      | exact hcurrent.trans ha
  refine hk.moved (.idle hroutines) hroom (.nil _ _) (fun n => ⟨max n (k + 1), fun a => ?_⟩)
    (fun a r hr hscript => (hk.scripts a r (hroutines ▸ hr) hscript).imp_left (hhand a))
    hk.handed ?_
  · have hsum := count_remembered_update t k after (max n (k + 1)) a
    have hmono := count_remembered_mono (t := Function.update t k after) (a := a)
      (Nat.le_max_left n (k + 1))
    have hlt : k < max n (k + 1) := by omega
    rw [if_pos hlt, if_pos hlt, hafter, hfound, List.count_nil] at hsum
    have := hplaces a
    rw [count_posts, count_posts, List.count_nil]
    dsimp only
    omega
  · intro k' snapshot' ids hk' hids
    by_cases hne : k' = k
    · subst hne
      rw [show after = some snapshot' from (Function.update_self k' _ t).symm.trans hk'] at hafter
      have hnil : ids = [] := by simpa [originals, hids] using hafter
      exact hnil ▸ List.nodup_nil
    · exact hk.distinct k' snapshot' ids ((Function.update_of_ne hne _ t).symm.trans hk') hids

theorem count_reinstate (s : Scheduler C) (ids : List RoutineId) (v : Value) (a : RoutineId) :
    (routinesOf (s.reinstate ids v).stack).count a = ids.count a + (routinesOf s.stack).count a := by
  show (routinesOf ((ids.map StackEntry.routine).reverse ++ .boundary :: s.stack)).count a = _
  rw [← List.map_reverse, routinesOf_append, routinesOf_map, routinesOf_boundary,
    List.count_append, List.count_reverse]

/-- A fresh routine that no pass has in hand is put on the stack. -/
theorem Posted.fresh (hk : Posted lost ⟨σ, s, t⟩) (hs : s.routines.Sound) {origin : Origin}
    {script : Script C} (htends : Tends s s') (hedits : Edits s s')
    (hgrows : Roster.Grows (s.add origin script).2.routines s'.routines)
    (hkept : ∀ a, (s.add origin script).2.routines.Issued a → s'.routines.Issued a)
    (hstack : s'.stack = .routine (s.add origin script).1 :: s.stack)
    (hunclaimed : s'.unclaimed = s.unclaimed) (hhanded : σ'.handed = σ.handed)
    (hhand : ∀ a, σ.InHand s a → σ'.InHand s' a) (hroom : ∀ a, s'.routines.Ample a) :
    Posted lost ⟨σ', s', t⟩ := by
  refine hk.kept htends hedits hroom (.singleton hs origin script hgrows hkept hroom)
    (fun a => ?_) hunclaimed (hhanded ▸ hk.handed) fun a _ _ hin _ => Or.inl (hhand a hin)
  rw [hstack, hhanded, routinesOf_routine]
  simp only [List.count_cons, List.count_nil]
  omega

/-- A routine whose script is out is no copy that has just been planted. -/
theorem scripts_plant (hl : Linked s.routines) (frames : List (FrameCopy C))
    (copies : List (Script C)) (hroom : ∀ a, (s.plant frames copies).2.routines.Ample a)
    {r : Routine C} (hr : (s.plant frames copies).2.routines.find? a = some r)
    (hscript : r.script = none) :
    ∃ z, s.routines.find? a = some z ∧ z.script = none := by
  have hadded : (addCopies (frames.zip copies) s).2.routines.slots.size ≤ 2 ^ 32 :=
    ((hroom default).of_grows (closed_links (Roster.closed_grows _).steady (.refl _)
      (addCopies (frames.zip copies) s).1
      (frames.zip (addCopies (frames.zip copies) s).1))).slots
  obtain ⟨x, hx, hsame, -⟩ := (find?_links (addCopies (frames.zip copies) s).1
    (frames.zip (addCopies (frames.zip copies) s).1) (addCopies (frames.zip copies) s).2).2 a r hr
  rcases find?_of_addCopies (frames.zip copies) hl.sound hadded hx with hmem | hold
  · obtain ⟨origin, copy, hcopy⟩ := (Linked.addCopies hl (frames.zip copies) hadded).2.2.2 a hmem
    rw [hx, Option.some.injEq] at hcopy
    rw [hsame, hcopy] at hscript
    cases hscript
  · exact ⟨x, hold, hsame.symm.trans hscript⟩

/-- A routine is done. -/
theorem posted_conclude (hk : Posted lost ⟨.stepping id, s, t⟩) (hl : Linked s.routines) (script : Script C)
    (o : Outcome Value) (hroom : ∀ a, (s.conclude id script o).routines.Ample a) :
    Posted lost ⟨.sweeping, (s.conclude id script o).told, t⟩ := by
  obtain ⟨new, hnew, hstack⟩ := New.conclude hl id script o hroom
  have hedits := edits_conclude s id script o
  have hunclaimed : (s.conclude id script o).unclaimed = s.unclaimed :=
    congrArg Prod.snd (badge_conclude s id script o)
  have hslots := ((hroom default).of_grows hedits.grows).slots
  refine hk.moved (hedits.trans (.idle rfl)) hroom ⟨hnew.nodup, hnew.fresh, hnew.issued⟩
    (fun n => ⟨n, fun a => ?_⟩) (fun a r hr hscript => ?_) List.nodup_nil hk.distinct
  · rw [count_posts, count_posts]
    show (routinesOf (s.conclude id script o).stack).count a + 0 + _ +
      (s.conclude id script o).unclaimed.count a ≤ _
    rw [hstack, hunclaimed, List.count_append]
    dsimp only
    omega
  · obtain ⟨z, hz, hzscript⟩ := (exiting_conclude hl hslots id script o).scripts hr hscript
    refine Or.inr ((hk.scripts a z hz hzscript).resolve_left fun hin => ?_)
    obtain rfl : a = id := hin
    exact absurd ((find?_conclude_self hl.sound script o (hroom a)).symm.trans hr) (by simp)

/-- A round of a sweep, while no routine is being stepped. -/
theorem posted_sweep {σ' : PassStage C} (hk : Posted lost ⟨σ, s, t⟩) (hl : Linked s.routines)
    (hempty : ∀ a, ¬ σ.InHand s a) (hhanded : σ'.handed = σ.handed)
    (hroom : ∀ a, s.freeUnclaimed.2.routines.Ample a) :
    Posted lost ⟨σ', { s.freeUnclaimed.2 with current := none, retired := [] }.told, t⟩ := by
  refine hk.moved ((edits_freeUnclaimed s).trans (.idle rfl)) hroom (.nil _ _)
    (fun n => ⟨n, fun a => ?_⟩) (fun a r hr hscript => ?_) (hhanded ▸ hk.handed) hk.distinct
  · have hstack : s.freeUnclaimed.2.stack = s.stack :=
      (freeUnclaimed_spec hl).1.shrunk.work.stack
    rw [count_posts, count_posts]
    show (routinesOf s.freeUnclaimed.2.stack).count a + σ'.handed.count a + _ +
      s.freeUnclaimed.2.unclaimed.count a ≤ _
    rw [hstack, hhanded, unclaimed_freeUnclaimed]
    simp only [List.count_nil]
    omega
  · obtain ⟨z, hz, hzscript⟩ := (tends_freeUnclaimed s).1.scripts hr hscript
    exact Or.inr ((hk.scripts a z hz hzscript).resolve_left (hempty a))

/-- Copies of captured frames go on the stack. -/
theorem posted_plant (hk : Posted lost ⟨σ, s, t⟩) (hl : Linked s.routines) (frames : List (FrameCopy C))
    (copies : List (Script C)) (v : Value)
    (hroom : ∀ a, ((s.plant frames copies).2.told.reinstate (s.plant frames copies).1 v).told.routines.Ample a) :
    Posted lost ⟨σ, ((s.plant frames copies).2.told.reinstate (s.plant frames copies).1 v).told, t⟩ := by
  have hstack := stack_plant s frames copies
  have hbadge := badge_plant s frames copies
  have hunclaimed : (s.plant frames copies).2.unclaimed = s.unclaimed :=
    congrArg Prod.snd hbadge
  have hcurrent' : (s.plant frames copies).2.current = s.current :=
    congrArg (fun b => b.1.2) hbadge
  have hnew := New.plant hl.sound frames copies hroom
  refine hk.moved ((edits_plant s frames copies).trans (.idle rfl)) hroom
    ⟨hnew.nodup, hnew.fresh, hnew.issued⟩ (fun n => ⟨n, fun a => ?_⟩)
    (fun a r hr hscript => ?_) hk.handed hk.distinct
  · rw [count_posts, count_posts]
    show (routinesOf ((s.plant frames copies).2.told.reinstate
      (s.plant frames copies).1 v).stack).count a + σ.handed.count a + _ +
        (s.plant frames copies).2.unclaimed.count a ≤ _
    rw [count_reinstate, hunclaimed, told, hstack]
    dsimp only
    omega
  · obtain ⟨z, hz, hzscript⟩ := scripts_plant hl frames copies hroom hr hscript
    refine (hk.scripts a z hz hzscript).imp_left fun hin => ?_
    cases σ <;> first
      | exact hin
      | exact hcurrent'.trans hin

/-- A panic that comes out of copying lifted frames loses their scripts. -/
theorem posted_lost {frames : List (Lifted C)} (hk : Posted lost ⟨.capturing id frames, s, t⟩) :
    Posted (fun a => lost a ∨ a ∈ frames.map Lifted.id) ⟨.leaving, s, t⟩ := by
  have hcount : ∀ n a, ((⟨.leaving, s, t⟩ : Status C).posts n).count a +
      (frames.map Lifted.id).count a = ((⟨.capturing id frames, s, t⟩ : Status C).posts n).count a := by
    intro n a
    rw [count_posts, count_posts]
    show _ + 0 + _ + _ + _ = _ + (frames.map Lifted.id).count a + _ + _
    dsimp only
    omega
  refine ⟨fun n a ha => ?_, fun a r hr n => ?_, fun a r hr hscript => ?_, fun a ha => ?_,
    List.nodup_nil, hk.distinct⟩
  · have hpos := List.count_pos_iff.mpr ha
    have := hcount n a
    exact hk.issued n a (List.count_pos_iff.mp (by omega))
  · have hone := hk.once a r hr n
    have := hcount n a
    omega
  · exact Or.inr (hk.scripts a r hr hscript).symm
  · rcases ha with hlost | hmem
    · refine ⟨(hk.nowhere a hlost).1, fun r hr n hposted => ?_⟩
      have hnone := List.count_eq_zero.mpr ((hk.nowhere a hlost).2 r hr n)
      have hpos := List.count_pos_iff.mpr hposted
      have := hcount n a
      omega
    · have hhand := List.count_pos_iff.mpr hmem
      refine ⟨hk.issued 0 a (List.count_pos_iff.mp ?_), fun r hr n hposted => ?_⟩
      · have := hcount 0 a
        omega
      · have hone := hk.once a r hr n
        have hpos := List.count_pos_iff.mpr hposted
        have := hcount n a
        omega

theorem Stride.of_capturing_of_leaving {frames : List (Lifted C)} {t' : Nat → Option (Snapshot C)}
    (h : Stride p ⟨.capturing id frames, s, t⟩ ⟨.leaving, s', t'⟩) : s' = s ∧ t' = t := by
  cases h with
  | fail => exact ⟨rfl, rfl⟩
  | sweep _ h' =>
    rcases h' with h' | ⟨-, h'⟩ <;> cases h'

/-- Every move leaves a live routine in one place at most. Only a panic that
    comes out of copying lifted frames loses scripts. -/
theorem Stride.posted (h : Stride p x y) (hk : Posted lost x) (hl : Linked x.scheduler.routines)
    (hagrees : x.stage.Agrees x.scheduler)
    (hcurrent : ∀ a, x.scheduler.current = some a → x.scheduler.routines.Issued a)
    (hroom : ∀ a, y.scheduler.routines.Ample a)
    (hcopied : ∀ id frames, x.stage = .capturing id frames → y.stage ≠ .leaving) :
    Posted lost y := by
  cases h with
  | still => exact hk
  | note σ s t unhandled => exact hk.same rfl rfl rfl rfl
  | pick h t => exact posted_pick hk h hroom
  | leave h unwinding t => exact posted_leave hk h unwinding hroom
  | @fail σ h s t =>
    have hhand : ∀ a, σ.InHand s a → s.current = some a := by
      intro a hin
      cases σ with
      | stepping id =>
        obtain rfl : a = id := hin
        exact congrArg Prod.snd hagrees
      | capturing id frames => exact absurd rfl (hcopied id frames rfl)
      | leaving => exact hin
      | _ => cases hin
    exact hk.kept (.refl s) (.refl s) hroom (.nil _ _) (fun a => Nat.le_add_right _ _) rfl
      List.nodup_nil fun a _ _ hin _ => Or.inl (hhand a hin)
  | abandon s t => exact posted_abandon hk (fun _ h => h) hroom
  | @sweep σ σ' s h h' t =>
    have hempty : ∀ a, ¬ σ.InHand s a := by
      intro a hin
      rcases h with rfl | hnone
      · exact hin
      · cases σ with
        | stepping id | capturing id frames =>
          exact absurd (hnone.symm.trans (congrArg Prod.snd hagrees)) (by simp)
        | leaving => exact absurd (hnone.symm.trans hin) (by simp)
        | _ => cases hin
    have hhanded : σ'.handed = σ.handed := by
      rcases h' with rfl | ⟨rfl, rfl⟩ <;> rfl
    exact posted_sweep hk hl hempty hhanded hroom
  | conclude s id script o t =>
    exact posted_conclude hk hl script o hroom
  | suspend s id script t =>
    refine hk.kept ((tends_suspend s id script).trans (tends_told _))
      ((edits_suspend s id script).trans (.idle rfl)) hroom (.nil _ _) (fun a => ?_)
      (congrArg Prod.snd (badge_suspend s id script)) List.nodup_nil ?_
    · show (routinesOf (s.suspend id script).stack).count a + 0 ≤ _
      rw [stack_suspend]
      omega
    · rintro a r hr rfl hscript
      exact absurd hscript (script_suspend s script hr)
  | reset s id script t =>
    have hshelved : Posted lost ⟨.building id, s.shelve id script, t⟩ := hk.shelved script hroom
    exact hshelved.same rfl rfl rfl rfl
  | splice s id script nested t =>
    have hgrows := (edits_scheduleChild (s.shelve id script).told .splice nested id).grows
    have hroom' : ∀ a, (s.shelve id script).routines.Ample a := fun a => (hroom a).of_grows hgrows
    have hedits := edits_shelve s id script
    have hshelved : Posted lost ⟨.building id, (s.shelve id script).told, t⟩ :=
      (hk.shelved script hroom').same rfl rfl rfl rfl
    exact posted_child hshelved (hedits.linked hl (hroom' default).slots)
      (hedits.issued (hcurrent id (congrArg Prod.snd hagrees))) .splice nested hroom
  | build s id origin script t =>
    exact posted_child hk hl (hcurrent id (congrArg Prod.snd hagrees)) origin script hroom
  | @lift s s' id script frames h t =>
    have hgrows := (edits_lift (s.shelve id script)).grows
    rw [h] at hgrows
    exact posted_lift (hk.shelved script fun a => (hroom a).of_grows hgrows) h hroom
  | @liftNothing s s' id script k t h hnew =>
    have hgrows := (edits_lift (s.shelve id script)).grows
    rw [h] at hgrows
    have hlifted := posted_lift (hk.shelved script fun a => (hroom a).of_grows hgrows) h hroom
    exact posted_capture hlifted [] hnew hroom
  | capture s id frames copies hnew => exact posted_capture hk copies hnew hroom
  | root s script t =>
    have hstack : (s.scheduleRoot script).stack = .routine (s.add .root script).1 :: s.stack :=
      congrArg (StackEntry.routine (s.add .root script).1 :: ·)
        (stack_link (s.add .root script).2 (s.add .root script).1 none)
    have hrooted : Posted lost ⟨.head, s.scheduleRoot script, t⟩ :=
      hk.fresh hl.sound (tends_scheduleRoot hl script (hroom default).slots)
        (edits_scheduleRoot s script) (closed_link (Roster.closed_grows _).steady (.refl _) _ none)
        (fun a ha => closed_link (Roster.closed_issued a).steady ha _ none) hstack rfl rfl
        (fun _ h => False.elim h) hroom
    exact hrooted.same rfl rfl rfl rfl
  | @queue σ s h k v t =>
    have hqueued : Posted lost ⟨σ, s.queue k v, t⟩ := by
      refine hk.fresh hl.sound (tends_queue hl k v (hroom default).slots) (edits_queue s k v)
        (.refl _) (fun _ h => h) rfl rfl rfl (fun a ha => ?_) hroom
      cases σ <;> exact ha
    exact hqueued.same rfl rfl rfl rfl
  | @reenter s h k v t =>
    have hqueued : Posted lost ⟨.head, s.queue k v, t⟩ :=
      hk.fresh hl.sound (tends_queue hl k v (hroom default).slots) (edits_queue s k v)
        (.refl _) (fun _ h => h) rfl rfl rfl (fun _ h => False.elim h) hroom
    exact hqueued.same rfl rfl rfl rfl
  | @reinstate σ s k snapshot ids t hk' hids hlive v =>
    refine hk.forgotten hk' rfl rfl rfl (fun a => ?_) hroom
    show (routinesOf (s.reinstate ids v).stack).count a + s.unclaimed.count a ≤ _
    rw [count_reinstate]
    simp only [originals, Option.bind_some, hids, Option.getD_some]
    omega
  | @claim σ s k snapshot t hk' hgone =>
    exact hk.forgotten hk' rfl rfl rfl (fun a => Nat.le_add_right _ _) hroom
  | @plant σ s s' k snapshot copies ids t hk' h v =>
    have hs' : (s.plant snapshot.frames copies).2 = s' := congrArg Prod.snd h
    have hids : (s.plant snapshot.frames copies).1 = ids := congrArg Prod.fst h
    subst hs' hids
    exact posted_plant hk hl snapshot.frames copies v hroom
  | @plantNothing σ s k snapshot t hk' hnone hgone v =>
    refine hk.forgotten hk' rfl rfl rfl (fun a => ?_) hroom
    show (routinesOf (s.told.reinstate [] v).stack).count a + s.unclaimed.count a ≤ _
    rw [count_reinstate]
    simp only [List.count_nil, told]
    omega
  | @unclaim σ s k snapshot ids t hk' hids =>
    refine hk.forgotten hk' rfl rfl rfl (fun a => ?_) hroom
    show (routinesOf s.stack).count a + (s.unclaimed ++ ids).count a ≤ _
    simp only [originals, Option.bind_some, hids, Option.getD_some, List.count_append]
    omega
  | @forget σ s k snapshot t hk' hnone =>
    exact hk.forgotten hk' rfl rfl rfl (fun a => Nat.le_add_right _ _) hroom

end Stride

/-! ### Along a run -/

namespace Machine

variable {B : Behavior C R} {p : Nat} {m n : Machine C R}

/-- What a machine comes to by way of machines that are all such that `Q`. -/
inductive LaterWhile (B : Behavior C R) (Q : Machine C R → Prop) (m : Machine C R) :
    Machine C R → Prop where
  | refl : LaterWhile B Q m m
  | step {n : Machine C R} (h : LaterWhile B Q m n) (hq : Q n) : LaterWhile B Q m (n.step B)
  /-- The next operation; the events so far may have been read. -/
  | anew {n : Machine C R} (h : LaterWhile B Q m n) (halted : n.control = []) (events : List Event)
      (focus : Focus C R) : LaterWhile B Q m ⟨{ n.store with events }, [], focus⟩

theorem LaterWhile.later {Q : Machine C R → Prop} (h : LaterWhile B Q m n) : Later B m n := by
  induction h with
  | refl => exact .refl
  | step _ _ ih => exact .step ih
  | anew _ halted events focus ih => exact .anew ih halted events focus

/-- A run in which `Q` holds at every move. -/
theorem laterWhile_after {Q : Machine C R → Prop} {j : Nat} (h : ∀ i < j, Q (after B i m)) :
    LaterWhile B Q m (after B j m) := by
  induction j with
  | zero => exact .refl
  | succ j ih =>
    rw [after_add B j 1]
    exact .step (ih fun i hi => h i (Nat.lt_succ_of_lt hi)) (h j (Nat.lt_succ_self j))

variable (B p) in
/-- No panic comes out of copying frames that have been lifted. -/
def CopyingReturns (m : Machine C R) : Prop :=
  ∀ id frames, m.stage p = .capturing id frames → (m.step B).stage p ≠ .leaving

variable (p) in
/-- What the continuations of scheduler `p` remember that have not been invoked. -/
def remembered (m : Machine C R) : List RoutineId :=
  Strand.remembered (m.realm p).captures m.store.snapshots.cells.size

theorem posted_new (settings : Settings) {t : Nat → Option (Snapshot C)}
    (hcaptures : ∀ k, t k = none) : Posted (fun _ => False) ⟨.idle, .new settings, t⟩ := by
  have hposts : ∀ n, (⟨.idle, .new settings, t⟩ : Status C).posts n = [] := by
    intro n
    simp [Status.posts, Strand.remembered, hcaptures, originals, PassStage.handed, Scheduler.new]
  have hdead : ∀ a, (.empty : Roster (Routine C)).find? a = none := fun a =>
    Roster.find?_of_no_slot (by simp [Roster.empty])
  refine ⟨fun n a ha => ?_, fun a r hr => ?_, fun a r hr => ?_, fun a ha => False.elim ha,
    List.nodup_nil, fun k snapshot ids hk => ?_⟩
  · rw [hposts] at ha
    cases ha
  · exact absurd ((hdead a).symm.trans hr) (by simp)
  · exact absurd ((hdead a).symm.trans hr) (by simp)
  · exact absurd ((hcaptures k).symm.trans hk) (by simp)

/-- A move that is not a panic out of copying loses nothing. -/
theorem posted_step {lost : RoutineId → Prop} {s₀ s : Scheduler C} (hreach : Reachable B m)
    (hbefore : m.scheduler? p = some s₀) (hs : (m.step B).scheduler? p = some s)
    (hk : Posted lost ⟨m.stage p, s₀, (m.realm p).captures⟩) (hroom : ∀ a, s.routines.Ample a)
    (hcopied : m.CopyingReturns B p) :
    Posted lost ⟨(m.step B).stage p, s, ((m.step B).realm p).captures⟩ := by
  have hgrows := (Later.step .refl : Later B m (m.step B)).grows hbefore hs
  have hroom₀ : ∀ a, s₀.routines.Ample a := fun a => (hroom a).of_grows hgrows
  obtain ⟨focus, hlater⟩ := hreach
  exact (Reachable.stride ⟨focus, hlater⟩ hbefore hs).posted hk
    (Reachable.linked ⟨focus, hlater⟩ hbefore (hroom₀ default).slots)
    (Reachable.ordered ⟨focus, hlater⟩ hbefore).2
    (fun a ha => (hlater.accounted hbefore hroom₀).current ha) hroom hcopied

/-- As long as copying returns, every live routine is in one place at most, and
    none has lost its script. -/
theorem LaterWhile.posted {focus : Focus C R}
    (h : LaterWhile B (CopyingReturns B p) ⟨.empty, [], focus⟩ m) {s : Scheduler C}
    (hs : m.scheduler? p = some s) (hroom : ∀ a, s.routines.Ample a) :
    Posted (fun _ => False) ⟨m.stage p, s, (m.realm p).captures⟩ := by
  induction h generalizing s with
  | refl =>
    have hnone : (Store.empty : Store C).schedulers.find? p = none := by
      simp [Store.empty, Table.empty, Table.find?, Table.cell?]
    exact absurd (hnone.symm.trans hs) (by simp)
  | @step n hn hcopied ih =>
    have hreach : Reachable B n := ⟨focus, hn.later⟩
    cases hbefore : n.scheduler? p with
    | none =>
      obtain ⟨hidle, hcaptures, settings, rfl⟩ := hreach.born hbefore hs
      rw [hidle]
      exact posted_new settings hcaptures
    | some s₀ =>
      have hgrows := (Later.step .refl : Later B n (n.step B)).grows hbefore hs
      have hk := ih hbefore fun a => (hroom a).of_grows hgrows
      exact posted_step hreach hbefore hs hk hroom hcopied
  | @anew n hn halted events focus' ih =>
    have hstage : n.stage p = .idle := by simp [stage, halted, stageFrom]
    have hk := ih hs hroom
    rw [hstage] at hk
    exact hk

/-- In every reachable machine a live routine is in one place at most. -/
theorem Reachable.posted (h : Reachable B m) {s : Scheduler C} (hs : m.scheduler? p = some s)
    (hroom : ∀ a, s.routines.Ample a) :
    ∃ lost, Posted lost ⟨m.stage p, s, (m.realm p).captures⟩ := by
  obtain ⟨focus, h⟩ := h
  induction h generalizing s with
  | refl =>
    have hnone : (Store.empty : Store C).schedulers.find? p = none := by
      simp [Store.empty, Table.empty, Table.find?, Table.cell?]
    exact absurd (hnone.symm.trans hs) (by simp)
  | @step n hn ih =>
    have hreach : Reachable B n := ⟨focus, hn⟩
    cases hbefore : n.scheduler? p with
    | none =>
      obtain ⟨hidle, hcaptures, settings, rfl⟩ := hreach.born hbefore hs
      rw [hidle]
      exact ⟨_, posted_new settings hcaptures⟩
    | some s₀ =>
      have hgrows := (Later.step .refl : Later B n (n.step B)).grows hbefore hs
      obtain ⟨lost, hk⟩ := ih hbefore fun a => (hroom a).of_grows hgrows
      by_cases hcopied : n.CopyingReturns B p
      · exact ⟨lost, posted_step hreach hbefore hs hk hroom hcopied⟩
      · -- the panic comes out of copying, and changes nothing else
        simp only [CopyingReturns, not_forall, not_not] at hcopied
        obtain ⟨id, frames, hcapturing, hleaving⟩ := hcopied
        have hstride := hreach.stride hbefore hs
        rw [hcapturing] at hk
        rw [hcapturing, hleaving] at hstride
        obtain ⟨rfl, hcaptures⟩ := hstride.of_capturing_of_leaving
        rw [hleaving, hcaptures]
        exact ⟨_, posted_lost hk⟩
  | @anew n hn halted events focus' ih =>
    have hstage : n.stage p = .idle := by simp [stage, halted, stageFrom]
    obtain ⟨lost, hk⟩ := ih hs hroom
    rw [hstage] at hk
    exact ⟨lost, hk⟩

/-- The routines always form a forest whose links match in both directions: a
    child on a live routine's list is live and names it as its parent, a parent
    that is named is live and lists the child, once, and parent links never come
    back to where they started. -/
theorem routines_form_forest (h : Reachable B m) {s : Scheduler C} (hs : m.scheduler? p = some s)
    (hroom : ∀ a, s.routines.Ample a) :
    (∀ q r c, s.routines.find? q = some r → c ∈ r.children →
      ∃ x, s.routines.find? c = some x ∧ x.parent = some q) ∧
    (∀ c x q, s.routines.find? c = some x → x.parent = some q →
      ∃ r, s.routines.find? q = some r ∧ r.children.count c = 1) ∧
    ∀ a, ¬ Relation.TransGen s.ParentOf a a := by
  obtain ⟨focus, hlater⟩ := h
  have hl := Reachable.linked ⟨focus, hlater⟩ hs (hroom default).slots
  have hforest := (hlater.accounted hs hroom).forest
  refine ⟨fun q r c hq hc => hl.child hq hc, fun c x q hc hparent => ?_, fun a hcycle => ?_⟩
  · obtain ⟨r, hq, hmem⟩ := hl.parent_live hc hparent
    exact ⟨r, hq, List.count_eq_one_of_mem (hl.nodup hq) hmem⟩
  · obtain ⟨q, -, x, hx, -⟩ := Relation.TransGen.tail'_iff.mp hcycle
    exact (hforest a x hx).not_above_itself hcycle

/-- A live routine is scheduled from one place at most and never loses its turn,
    as long as copying returns. Between the steps of a pass and while there is
    none:

    * every live routine has its script, and is at most once on the stack, among
      the routines of the continuations that have not been invoked, and among the
      unclaimed ones, taken together;
    * whoever is passed over on the way to the next routine is dead, and the
      routine that is picked is nowhere else;
    * no continuation remembers a routine twice. -/
theorem live_routine_scheduled_once {focus : Focus C R}
    (h : LaterWhile B (CopyingReturns B p) ⟨.empty, [], focus⟩ m) {s : Scheduler C}
    (hs : m.scheduler? p = some s) (hroom : ∀ a, s.routines.Ample a)
    (hstage : m.stage p = .head ∨ s.running = false) :
    (∀ a r, s.routines.find? a = some r → r.script ≠ none ∧
      (routinesOf s.stack ++ m.remembered p ++ s.unclaimed).count a ≤ 1) ∧
    (∀ id script t, s.pick = (some (id, script), t) →
      ∃ passed, s.stack = passed ++ .routine id :: t.stack ∧
        (∀ a, .routine a ∈ passed → s.routines.find? a = none) ∧
        id ∉ routinesOf (passed ++ t.stack) ++ m.remembered p ++ s.unclaimed) ∧
    (∀ t, s.pick = (none, t) → ∀ a, .routine a ∈ s.stack → s.routines.find? a = none) ∧
    ∀ k snapshot ids, m.store.snapshots.find? k = some snapshot → snapshot.home = p →
      snapshot.routines = some ids → ids.Nodup := by
  have hposted := h.posted hs hroom
  have hreach : Reachable B m := ⟨focus, h.later⟩
  -- at the head of a pass and beside one, nothing is in hand
  have hempty : (m.stage p).handed = [] ∧ ∀ a, ¬ (m.stage p).InHand s a := by
    rcases hstage with hσ | hidle
    · rw [hσ]
      exact ⟨rfl, fun _ h => h⟩
    · rw [(hreach.ordered hs).2.idle hidle]
      exact ⟨rfl, fun _ h => h⟩
  have hscripts : ∀ a r, s.routines.find? a = some r → r.script ≠ none :=
    fun a r hr hnone => hempty.2 a ((hposted.scripts a r hr hnone).resolve_right id)
  have honce : ∀ a r, s.routines.find? a = some r →
      (routinesOf s.stack ++ m.remembered p ++ s.unclaimed).count a ≤ 1 := by
    intro a r hr
    have hcount := hposted.once a r hr m.store.snapshots.cells.size
    rwa [Status.posts, hempty.1, List.append_nil] at hcount
  refine ⟨fun a r hr => ⟨hscripts a r hr, honce a r hr⟩, fun id script t hpick => ?_,
    fun t hpick a ha => ?_, fun k snapshot ids hk hhome hids => ?_⟩
  · obtain ⟨passed, hstack, hpassed⟩ := pickFrom_passes hpick
    obtain ⟨r, hr, -⟩ := live_of_pickFrom hpick
    refine ⟨passed, hstack, fun a ha => ?_, fun hmem => ?_⟩
    · cases hlive : s.routines.find? a with
      | none => rfl
      | some x => exact absurd (hpassed a x ha hlive) (hscripts a x hlive)
    · have hone := honce id r hr
      have hpos := List.count_pos_iff.mpr hmem
      rw [hstack] at hone
      simp only [routinesOf_append, routinesOf_routine, List.count_append, List.count_cons,
        beq_self_eq_true, if_true] at hone hpos
      omega
  · cases hlive : s.routines.find? a with
    | none => rfl
    | some x =>
      obtain ⟨script, hscript⟩ := Option.ne_none_iff_exists'.mp (hscripts a x hlive)
      rcases pickFrom_waiting hpick hlive hscript ha with heq | ⟨⟨_, _, heq, -⟩, -⟩ <;> cases heq
  · have hfound : (m.realm p).captures k = some snapshot :=
      Option.filter_eq_some_iff.mpr ⟨hk, decide_eq_true hhome⟩
    exact hposted.distinct k snapshot ids hfound hids

/-- Whether no panic comes out of copying frames that have been lifted. -/
def copyingReturns (B : Behavior C R) (p : Nat) (m : Machine C R) : Bool :=
  match m.stage p, (m.step B).stage p with
  | .capturing _ _, .leaving => false
  | _, _ => true

theorem copyingReturns_of_check (h : m.copyingReturns B p = true) : m.CopyingReturns B p := by
  intro id frames hbefore hafter
  rw [copyingReturns, hbefore, hafter] at h
  cases h

end Machine

/-- Whether the pass is at its head. -/
def PassStage.isHead : PassStage C → Bool
  | .head => true
  | _ => false

theorem PassStage.eq_head_of_check {σ : PassStage C} (h : σ.isHead = true) : σ = .head := by
  cases σ <;> first
    | rfl
    | cases h

open Machine Strand.Language in
/-- A root splices a child that shifts, and the handler keeps the continuation. -/
def keeping : Machine Code Running :=
  let handler := Term.apply .returning [.mk .outcome (.literal .unit)]
  let shift := Term.apply (.shift (.mk handler none none (some "k") none)) []
  splicing (.apply (.staged [.onSuccess shift] none) [])

open Machine Strand.Language in
/-- After 96 moves the handler is about to be stepped. It is the child of the
    routine that has shifted, which is the root's child. -/
theorem routines_form_forest_keeping :
    ∃ (m : Machine Code Running) (s : Scheduler Code),
      m = after behavior 96 keeping ∧ m.scheduler? 0 = some s ∧
      [⟨0, 0⟩, ⟨1, 0⟩, ⟨2, 0⟩].map (fun a => (s.routines.find? a).map Routine.parent) =
        [some none, some (some ⟨0, 0⟩), some (some ⟨1, 0⟩)] ∧
      (∀ q r c, s.routines.find? q = some r → c ∈ r.children →
        ∃ x, s.routines.find? c = some x ∧ x.parent = some q) ∧
      (∀ c x q, s.routines.find? c = some x → x.parent = some q →
        ∃ r, s.routines.find? q = some r ∧ r.children.count c = 1) ∧
      ∀ a, ¬ Relation.TransGen s.ParentOf a a := by
  obtain ⟨run, hrun⟩ : ∃ run, run = keeping := ⟨_, rfl⟩
  have hover : ((after behavior 96 run).scheduler? 0).map (fun s => (s.routines.young,
      [⟨0, 0⟩, ⟨1, 0⟩, ⟨2, 0⟩].map fun a => (s.routines.find? a).map Routine.parent)) =
        some (true, [some none, some (some ⟨0, 0⟩), some (some ⟨1, 0⟩)]) := by
    rw [hrun]
    decide +kernel
  have hreach : Reachable behavior (after behavior 96 run) := by
    rw [hrun]
    exact ⟨_, Reaches.later (p := 0) ⟨96, rfl, rfl⟩⟩
  obtain ⟨s, hs, hend⟩ := Option.map_eq_some_iff.mp hover
  obtain ⟨hyoung, hparents⟩ := Prod.mk.inj hend
  rw [← hrun]
  exact ⟨after behavior 96 run, s, rfl, hs, hparents,
    routines_form_forest hreach hs (Roster.ample_of_young hyoung)⟩

open Machine Strand.Language in
/-- At that moment the continuation remembers the root and the child, which are
    on no stack, and the handler, which is picked, is nowhere else. -/
theorem live_routine_scheduled_once_keeping :
    ∃ (m : Machine Code Running) (s : Scheduler Code),
      m = after behavior 96 keeping ∧ m.scheduler? 0 = some s ∧
      s.stack = [.routine ⟨2, 0⟩] ∧ m.remembered 0 = [⟨0, 0⟩, ⟨1, 0⟩] ∧
      (∀ a r, s.routines.find? a = some r → r.script ≠ none ∧
        (routinesOf s.stack ++ m.remembered 0 ++ s.unclaimed).count a ≤ 1) ∧
      ∀ id script t, s.pick = (some (id, script), t) →
        ∃ passed, s.stack = passed ++ .routine id :: t.stack ∧
          (∀ a, .routine a ∈ passed → s.routines.find? a = none) ∧
          id ∉ routinesOf (passed ++ t.stack) ++ m.remembered 0 ++ s.unclaimed := by
  obtain ⟨run, hrun⟩ : ∃ run, run = keeping := ⟨_, rfl⟩
  have hover : ((after behavior 96 run).scheduler? 0).map
      (fun s => (s.stack, s.routines.young)) = some ([.routine ⟨2, 0⟩], true) := by
    rw [hrun]
    decide +kernel
  have hremembered : (after behavior 96 run).remembered 0 = [⟨0, 0⟩, ⟨1, 0⟩] := by
    rw [hrun]
    decide +kernel
  have hhead : ((after behavior 96 run).stage 0).isHead = true := by
    rw [hrun]
    decide +kernel
  have hcopied : throughout behavior (fun _ => false) (copyingReturns behavior 0) 200 run = true := by
    rw [hrun]
    decide +kernel
  have hlater : LaterWhile behavior (CopyingReturns behavior 0) ⟨.empty, [], run.focus⟩
      (after behavior 96 run) := by
    have hstart : run = ⟨.empty, [], run.focus⟩ := by
      rw [hrun]
      rfl
    rw [← hstart]
    exact laterWhile_after fun i _ =>
      copyingReturns_of_check (check_after hcopied i fun _ _ => rfl)
  obtain ⟨s, hs, hend⟩ := Option.map_eq_some_iff.mp hover
  obtain ⟨hstack, hyoung⟩ := Prod.mk.inj hend
  have honce := live_routine_scheduled_once hlater hs (Roster.ample_of_young hyoung)
    (Or.inl (PassStage.eq_head_of_check hhead))
  rw [← hrun]
  exact ⟨after behavior 96 run, s, rfl, hs, hstack, hremembered, honce.1, honce.2.1⟩

end Strand
