import Strand.Program
import Strand.Proofs.Forest
import Strand.Proofs.Phases
import Strand.Proofs.Rehearsal

/-! # Custody — who keeps a routine that has no parent

    A routine with a live parent is its parent's business. One without is kept
    by somebody else, or it would never be freed:

    * by the stack, or by the pass that has just taken it off;
    * by a continuation that has not been invoked and remembers it;
    * by the list of the unclaimed routines.

    A move hands such routines on from one keeper to another (`Stride.accounted`).
    Two moves let routines fall: a panic that comes out of copying captured
    frames, and the invocation of a continuation some of whose routines are
    dead already. What they let fall strays, and so does whoever becomes a child
    of what strays. Nothing else does (`live_routines_kept`). -/

namespace Strand

variable {C R : Type}

open Scheduler

/-- The routines that a pass has taken off the stack. -/
def PassStage.InHand (s : Scheduler C) : PassStage C → RoutineId → Prop
  | .stepping id, a => a = id
  | .capturing _ frames, a => a ∈ frames.map Lifted.id
  | .leaving, a => s.current = some a
  | _, _ => False

/-- Where no pass is under way, the stage shows it. -/
theorem PassStage.Agrees.idle {σ : PassStage C} {s : Scheduler C} (h : σ.Agrees s)
    (hidle : s.running = false) : σ = .idle := by
  cases σ with
  | idle => rfl
  | sweeping | leaving => exact absurd (hidle.symm.trans h) (by simp)
  | _ => exact absurd (hidle.symm.trans (congrArg Prod.fst h)) (by simp)

namespace Status

/-- Some continuation that has not been invoked remembers this routine. -/
def Original (x : Status C) (a : RoutineId) : Prop :=
  ∃ k snapshot ids, x.captures k = some snapshot ∧ snapshot.routines = some ids ∧ a ∈ ids

/-- Somebody other than a parent keeps this routine. -/
def Holds (x : Status C) (a : RoutineId) : Prop :=
  x.scheduler.onStack a = true ∨ x.stage.InHand x.scheduler a ∨ x.Original a ∨
    a ∈ x.scheduler.unclaimed

end Status

/-- A routine that a move lets fall. -/
inductive Falls (x y : Status C) (a : RoutineId) : Prop where
  /-- It has been lifted, and a panic comes out of copying the frames. -/
  | copying {id : RoutineId} {frames : List (Lifted C)} (stage : x.stage = .capturing id frames)
      (leaving : y.stage = .leaving) (lifted : a ∈ frames.map Lifted.id) (other : a ≠ id)
  /-- It belongs to a continuation that is invoked when not all its routines are
      live any more. -/
  | claimed {k : Nat} {snapshot : Snapshot C} {ids : List RoutineId}
      (found : x.captures k = some snapshot) (remembered : snapshot.routines = some ids)
      (mine : a ∈ ids) (gone : ids.all x.scheduler.routines.contains = false)
      (invoked : y.captures k = some { snapshot with routines := none })

/-- Whoever has no parent is accounted for, or strays. -/
structure Accounted (stray : RoutineId → Prop) (x : Status C) : Prop where
  roots : ∀ {a r}, x.scheduler.routines.find? a = some r → r.parent = none → x.Holds a ∨ stray a
  /-- A routine is without a script only while it is in hand. -/
  scripts : ∀ {a r}, x.scheduler.routines.find? a = some r → r.script = none →
    x.stage.InHand x.scheduler a ∨ stray a
  forest : x.scheduler.Forest
  current : ∀ {a}, x.scheduler.current = some a → x.scheduler.routines.Issued a
  snapshots : ∀ {k snapshot}, x.captures k = some snapshot →
    ∀ i, LeadsOut x.scheduler.routines snapshot.frames i
  lifted : ∀ {id frames}, x.stage = .capturing id frames → ∀ p copies i,
    LeadsOut x.scheduler.routines (Snapshot.of p frames copies).frames i

/-- What has been issued stays so. -/
theorem Scheduler.Edits.issued {s s' : Scheduler C} (h : Edits s s') {a : RoutineId}
    (ha : s.routines.Issued a) : s'.routines.Issued a :=
  h.closed (Roster.closed_issued a) ha

theorem Scheduler.edits_queue (s : Scheduler C) (k : Nat) (v : Value) : Edits s (s.queue k v) :=
  (Edit.add .reenter (.reentry k (some v)) rfl : Edit s (s.queue k v)).once

section Stride

variable {p : Nat} {x y : Status C} {stray stray' : RoutineId → Prop}

/-- What a move has to hand on: the scheduler is tended, and what was kept
    otherwise than by the stack is still kept. -/
theorem Accounted.handed (hk : Accounted stray x) (htends : Tends x.scheduler y.scheduler)
    (hedits : Edits x.scheduler y.scheduler) (hstray : ∀ a, stray a → stray' a)
    (hhand : ∀ a r, y.scheduler.routines.find? a = some r → x.stage.InHand x.scheduler a →
      (r.parent = none → y.Holds a ∨ stray' a) ∧
      (r.script = none → y.stage.InHand y.scheduler a ∨ stray' a))
    (horiginal : ∀ a r, y.scheduler.routines.find? a = some r → r.parent = none → x.Original a →
      y.Holds a ∨ stray' a)
    (hunclaimed : ∀ a r, y.scheduler.routines.find? a = some r → r.parent = none →
      a ∈ x.scheduler.unclaimed → y.Holds a ∨ stray' a)
    (hcurrent : ∀ a, y.scheduler.current = some a →
      x.scheduler.current = some a ∨ x.scheduler.routines.Issued a)
    (hsnapshots : ∀ k snapshot, y.captures k = some snapshot →
      ∀ i, LeadsOut x.scheduler.routines snapshot.frames i)
    (hlifted : ∀ id frames, y.stage = .capturing id frames → ∀ p copies i,
      LeadsOut x.scheduler.routines (Snapshot.of p frames copies).frames i) : Accounted stray' y := by
  have hissued := fun a => hedits.issued (a := a)
  refine ⟨?_, ?_, htends.forest hk.forest, ?_, ?_, ?_⟩
  · intro a r hr hp
    rcases htends.roots hr hp with hon | ⟨r₀, hr₀, hp₀⟩
    · exact Or.inl (Or.inl hon)
    · rcases hk.roots hr₀ hp₀ with (hon | hin | horig | hun) | hs
      · exact Or.inl (Or.inl (htends.stack hon))
      · exact (hhand a r hr hin).1 hp
      · exact horiginal a r hr hp horig
      · exact hunclaimed a r hr hp hun
      · exact Or.inr (hstray a hs)
  · intro a r hr hs
    obtain ⟨r₀, hr₀, hs₀⟩ := htends.scripts hr hs
    rcases hk.scripts hr₀ hs₀ with hin | hstr
    · exact (hhand a r hr hin).2 hs
    · exact Or.inr (hstray a hstr)
  · intro a ha
    exact hissued a ((hcurrent a ha).elim hk.current id)
  · exact fun h i => (hsnapshots _ _ h i).mono hissued
  · exact fun h p copies i => (hlifted _ _ h p copies i).mono hissued

/-- More may stray. -/
theorem Accounted.mono (hk : Accounted stray x) (hstray : ∀ a, stray a → stray' a) :
    Accounted stray' x :=
  ⟨fun hr hp => (hk.roots hr hp).imp_right (hstray _),
    fun hr hs => (hk.scripts hr hs).imp_right (hstray _), hk.forest, hk.current, hk.snapshots,
    hk.lifted⟩

variable {σ σ' : PassStage C} {s s' : Scheduler C} {t : Nat → Option (Snapshot C)} {id : RoutineId}

/-- A move that tends the scheduler, with nothing in hand that it does not keep
    in hand. -/
theorem Accounted.tended (hk : Accounted stray ⟨σ, s, t⟩) (htends : Tends s s')
    (hedits : Edits s s') (hstray : ∀ a, stray a → stray' a)
    (hunclaimed : s'.unclaimed = s.unclaimed) (hcurrent : s'.current = s.current)
    (hhand : ∀ a, σ.InHand s a → σ'.InHand s a)
    (hlifted : ∀ id frames, σ' = .capturing id frames → σ = .capturing id frames) :
    Accounted stray' ⟨σ', s', t⟩ := by
  have hhand' : ∀ a, σ.InHand s a → σ'.InHand s' a := by
    intro a ha
    have := hhand a ha
    cases σ' <;> first
      | exact this
      | exact hcurrent.trans this
  refine hk.handed htends hedits hstray ?_ ?_ ?_ ?_ ?_ ?_
  · intro a r _ hin
    exact ⟨fun _ => Or.inl (Or.inr (Or.inl (hhand' a hin))), fun _ => Or.inl (hhand' a hin)⟩
  · exact fun a r _ _ horig => Or.inl (Or.inr (Or.inr (Or.inl horig)))
  · intro a r _ _ hun
    refine Or.inl (Or.inr (Or.inr (Or.inr ?_)))
    show a ∈ s'.unclaimed
    rwa [hunclaimed]
  · exact fun a ha => Or.inl (hcurrent.symm.trans ha)
  · exact fun k snapshot h => hk.snapshots h
  · exact fun id frames h => hk.lifted (hlifted id frames h)

/-- What was in hand goes back on the stack. -/
theorem Accounted.shelved (hk : Accounted stray ⟨.stepping id, s, t⟩) (script : Script C) :
    Accounted stray ⟨.building id, s.shelve id script, t⟩ := by
  have hbadge := badge_shelve s id script
  refine hk.handed (tends_shelve s id script) (edits_shelve s id script) (fun _ h => h) ?_ ?_ ?_
    ?_ ?_ (fun _ _ h => by cases h)
  · rintro a r hr rfl
    -- it is live, so it has got its script back and is on the stack
    have hlive : s.routines.contains a = true := by
      rw [← contains_shelve s a script a]
      exact Roster.contains_iff.mpr ⟨r, hr⟩
    obtain ⟨x, hx⟩ := Roster.contains_iff.mp hlive
    simp only [shelve_of_live hx] at hr ⊢
    refine ⟨fun _ => Or.inl (Or.inl (by simp [onStack])), fun hs => ?_⟩
    rw [Roster.find?_modify, if_pos rfl, hx] at hr
    cases hr
    cases hs
  · exact fun a r _ _ horig => Or.inl (Or.inr (Or.inr (Or.inl horig)))
  · intro a r _ _ hun
    refine Or.inl (Or.inr (Or.inr (Or.inr ?_)))
    show a ∈ (s.shelve id script).unclaimed
    have hsame : (s.shelve id script).unclaimed = s.unclaimed := congrArg Prod.snd hbadge
    rwa [hsame]
  · intro a ha
    have hsame : (s.shelve id script).current = s.current := congrArg (fun b => b.1.2) hbadge
    exact Or.inl (hsame.symm.trans ha)
  · exact fun k snapshot h => hk.snapshots h

/-- A move that takes routines off the stack, and their scripts with them. -/
theorem Accounted.taken (hk : Accounted stray ⟨σ, s, t⟩) (hempty : ∀ a, ¬ σ.InHand s a)
    (hedits : Edits s s')
    (hentries : ∀ a, s'.routines.find? a = s.routines.find? a ∨ σ'.InHand s' a ∧
      s'.routines.find? a = (s.routines.find? a).map fun x => { x with script := none })
    (hstack : ∀ a x script, s.routines.find? a = some x → x.script = some script →
      s.onStack a = true → s'.onStack a = true ∨ σ'.InHand s' a)
    (hunclaimed : s'.unclaimed = s.unclaimed)
    (hcurrent : ∀ a, s'.current = some a → s.current = some a ∨ s.routines.Issued a)
    (hlifted : ∀ id frames, σ' = .capturing id frames → ∀ p copies i,
      LeadsOut s.routines (Snapshot.of p frames copies).frames i) : Accounted stray ⟨σ', s', t⟩ := by
  have hissued := fun a => hedits.issued (a := a)
  have hback : ∀ {a r}, s'.routines.find? a = some r → ∃ x, s.routines.find? a = some x ∧
      r.parent = x.parent ∧ (r = x ∨ σ'.InHand s' a) := by
    intro a r hr
    rcases hentries a with hsame | ⟨hin, hout⟩
    · exact ⟨r, hsame.symm.trans hr, rfl, Or.inl rfl⟩
    · rw [hout] at hr
      obtain ⟨x, hx, rfl⟩ := Option.map_eq_some_iff.mp hr
      exact ⟨x, hx, rfl, Or.inr hin⟩
  refine ⟨?_, ?_, ?_, ?_, ?_, ?_⟩
  · intro a r hr hp
    obtain ⟨x, hx, hparent, -⟩ := hback hr
    rcases hk.roots hx (hparent.symm.trans hp) with (hon | hin | horig | hun) | hs
    · cases hscript : x.script with
      | some script =>
        rcases hstack a x script hx hscript hon with hon' | hin
        · exact Or.inl (Or.inl hon')
        · exact Or.inl (Or.inr (Or.inl hin))
      | none =>
        -- an entry without a script is passed over; only a stray one is there
        exact Or.inr ((hk.scripts hx hscript).resolve_left (hempty a))
    · exact absurd hin (hempty a)
    · exact Or.inl (Or.inr (Or.inr (Or.inl horig)))
    · refine Or.inl (Or.inr (Or.inr (Or.inr ?_)))
      show a ∈ s'.unclaimed
      rwa [hunclaimed]
    · exact Or.inr hs
  · intro a r hr hs
    obtain ⟨x, hx, -, rfl | hin⟩ := hback hr
    · exact Or.inr ((hk.scripts hx hs).resolve_left (hempty a))
    · exact Or.inl hin
  · refine hk.forest.of_links fun a r q z hr hq hz => ?_
    obtain ⟨x, hx, hparent, -⟩ := hback hr
    obtain ⟨w, hw, -⟩ := hback hz
    exact Or.inr ⟨x, w, hx, hparent.symm.trans hq, hw⟩
  · exact fun {a} ha => hissued a ((hcurrent a ha).elim hk.current fun h => h)
  · exact fun h i => (hk.snapshots h i).mono hissued
  · exact fun h p copies i => (hlifted _ _ h p copies i).mono hissued

/-- A routine is taken off the stack to be stepped. -/
theorem accounted_pick {script : Script C} (hk : Accounted stray ⟨.head, s, t⟩)
    (h : s.pick = (some (id, script), s')) :
    Accounted stray ⟨.stepping id, { s' with register := .unit }.told, t⟩ := by
  have hsame : ∀ a, a ≠ id → s'.routines.find? a = s.routines.find? a := fun a ha =>
    (pickFrom_others h).2 a fun _ heq => ha (Prod.mk.inj (Option.some.inj heq)).1.symm
  obtain ⟨x, hx, -⟩ := Machine.live_of_pickFrom h
  have hpace := pace_pickFrom s.stack s
  have hpicked : s'.current = some id := by
    have hcurrent := hpace.2
    rw [← pick, h] at hcurrent
    exact hcurrent
  have hedits : Edits s s' := by
    have := edits_pickFrom s.stack s
    rwa [← pick, h] at this
  refine hk.taken (fun _ h => h) (hedits.trans (.idle rfl)) ?_ ?_ ?_ ?_ (fun _ _ h => by cases h)
  · intro a
    by_cases ha : a = id
    · subst ha
      have hout : s'.routines.find? a = _ := pickFrom_picked h
      exact Or.inr ⟨rfl, hout⟩
    · exact Or.inl (hsame a ha)
  · intro a y script' hy hscript' hon
    have hmem : .routine a ∈ s.stack := by simpa [onStack] using hon
    rcases pickFrom_waiting h hy hscript' hmem with heq | ⟨-, hon'⟩
    · exact Or.inr (Prod.mk.inj (Option.some.inj heq)).1.symm
    · exact Or.inl hon'
  · have hunclaimed := unclaimed_pickFrom s.stack s
    rw [← pick, h] at hunclaimed
    exact hunclaimed
  · intro a ha
    obtain rfl := Option.some.inj (hpicked.symm.trans ha)
    exact Or.inr (Roster.issued_of_find? hx)

/-- A panic leaves the pass: what was scheduled or in hand is freed. -/
theorem accounted_abandon (hk : Accounted stray ⟨σ, s, t⟩)
    (hhand : ∀ a, σ.InHand s a → s.current = some a) :
    Accounted stray ⟨.idle, (s.leave true).told, t⟩ := by
  obtain ⟨ids, u, hids, hroutines, hempty, hunclaimed, hcurrent, hleave⟩ :
      ∃ (ids : List RoutineId) (u : Scheduler C),
        (∀ a, s.onStack a = true ∨ s.current = some a → a ∈ ids) ∧ u.routines = s.routines ∧
        u.stack = [] ∧ u.unclaimed = s.unclaimed ∧ u.current = none ∧
        s.leave true = { ids.foldl free u with register := .unit } := by
    refine ⟨_, _, ?_, ?_, ?_, ?_, ?_, rfl⟩
    · rintro a (hon | hcur)
      · refine List.mem_append_left _ (List.mem_filterMap.mpr ⟨.routine a, ?_, rfl⟩)
        simpa [onStack] using hon
      · refine List.mem_append_right _ ?_
        simp [hcur]
    all_goals rfl
  have hfreed := tends_frees ids u
  have hbadge := badge_frees ids u
  have hstack : (ids.foldl free u).stack = [] := by
    have hshrunk : ∀ (ids : List RoutineId) (v : Scheduler C), (ids.foldl free v).stack = v.stack := by
      intro ids
      induction ids with
      | nil => exact fun v => rfl
      | cons a ids ih => exact fun v => (ih _).trans (shrunk_free v a).work.stack
    exact (hshrunk ids u).trans hempty
  have hdead : ∀ {a r}, (ids.foldl free u).routines.find? a = some r → a ∉ ids := by
    intro a r hr hmem
    exact absurd ((dead_of_frees ids u (Or.inl hmem)).symm.trans hr) (by simp)
  have hissued := fun a => (edits_leave s true).issued (a := a)
  rw [hleave] at hissued ⊢
  refine ⟨?_, ?_, ?_, ?_, ?_, fun h => by cases h⟩
  · intro a r hr hp
    rcases hfreed.roots hr hp with hon | ⟨x, hx, hxp⟩
    · rw [onStack, hstack] at hon
      cases hon
    · rw [hroutines] at hx
      rcases hk.roots hx hxp with (hon | hin | horig | hun) | hs
      · exact absurd (hids a (Or.inl hon)) (hdead hr)
      · exact absurd (hids a (Or.inr (hhand a hin))) (hdead hr)
      · exact Or.inl (Or.inr (Or.inr (Or.inl horig)))
      · refine Or.inl (Or.inr (Or.inr (Or.inr ?_)))
        show a ∈ (ids.foldl free u).unclaimed
        have hsame : (ids.foldl free u).unclaimed = u.unclaimed := congrArg Prod.snd hbadge
        rwa [hsame, hunclaimed]
      · exact Or.inr hs
  · intro a r hr hscript
    obtain ⟨x, hx, hxs⟩ := hfreed.scripts hr hscript
    rw [hroutines] at hx
    rcases hk.scripts hx hxs with hin | hs
    · exact absurd (hids a (Or.inr (hhand a hin))) (hdead hr)
    · exact Or.inr hs
  · exact (hfreed.forest (hk.forest.congr hroutines)).congr rfl
  · intro a ha
    have hsame : (ids.foldl free u).current = u.current := congrArg (fun b => b.1.2) hbadge
    exact absurd (hcurrent.symm.trans (hsame.symm.trans ha)) (by simp)
  · exact fun h i => (hk.snapshots h i).mono hissued

/-- The pass is over: no live routine with a script is left on the stack. -/
theorem accounted_leave (hk : Accounted stray ⟨.head, s, t⟩) (h : s.pick = (none, s'))
    (unwinding : Bool) (hagrees : PassStage.Agrees s .head) :
    Accounted stray ⟨.idle, ({ s' with register := .unit }.leave unwinding).told, t⟩ := by
  have hsame : ∀ a, s'.routines.find? a = s.routines.find? a := fun a =>
    (pickFrom_others h).2 a (fun _ h => by cases h)
  have hcurrent : s'.current = none := by
    have hpace := (pace_pickFrom s.stack s).2
    rw [← pick, h] at hpace
    exact hpace.trans (congrArg Prod.snd hagrees)
  have hunclaimed := unclaimed_pickFrom s.stack s
  have hedits := edits_pickFrom s.stack s
  rw [← pick, h] at hedits
  rw [← pick, h] at hunclaimed
  have hover : Accounted stray ⟨.idle, { s' with register := .unit }, t⟩ := by
    refine hk.taken (fun _ h => h) (hedits.trans (.idle rfl)) (fun a => Or.inl (hsame a)) ?_
      hunclaimed ?_ (fun _ _ h => by cases h)
    · intro a x script hx hscript hon
      have hmem : .routine a ∈ s.stack := by simpa [onStack] using hon
      rcases pickFrom_waiting h hx hscript hmem with heq | ⟨⟨_, _, heq, -⟩, -⟩ <;> cases heq
    · exact fun a ha => absurd (hcurrent.symm.trans ha) (by simp)
  cases unwinding with
  | true => exact accounted_abandon hover (fun _ h => False.elim h)
  | false =>
    exact hover.tended (.of_same rfl rfl) (.idle rfl) (fun _ h => h) rfl rfl
      (fun _ h => False.elim h) (fun _ _ h => by cases h)

/-- A panic comes out of what the pass was busy with. -/
theorem accounted_fail (hk : Accounted stray ⟨σ, s, t⟩) (hagrees : σ.Agrees s)
    (hstray : ∀ a, stray a → stray' a)
    (hfalls : ∀ a, Falls ⟨σ, s, t⟩ ⟨.leaving, s, t⟩ a → stray' a) :
    Accounted stray' ⟨.leaving, s, t⟩ := by
  have hhand : ∀ a, σ.InHand s a → s.current = some a ∨ stray' a := by
    intro a hin
    cases σ with
    | stepping id =>
      obtain rfl : a = id := hin
      exact Or.inl (congrArg Prod.snd hagrees)
    | capturing id frames =>
      by_cases ha : a = id
      · subst ha
        exact Or.inl (congrArg Prod.snd hagrees)
      · exact Or.inr (hfalls a (.copying rfl rfl hin ha))
    | leaving => exact Or.inl hin
    | _ => cases hin
  refine hk.handed (.refl s) (.refl s) hstray ?_ ?_ ?_ ?_ (fun k snapshot h => hk.snapshots h) (fun _ _ h => by cases h)
  · intro a r _ hin
    rcases hhand a hin with hcur | hs
    · exact ⟨fun _ => Or.inl (Or.inr (Or.inl hcur)), fun _ => Or.inl hcur⟩
    · exact ⟨fun _ => Or.inr hs, fun _ => Or.inr hs⟩
  · exact fun a r _ _ horig => Or.inl (Or.inr (Or.inr (Or.inl horig)))
  · exact fun a r _ _ hun => Or.inl (Or.inr (Or.inr (Or.inr hun)))
  · exact fun a ha => Or.inl ha

/-- One round of a sweep: an unclaimed root is freed, if it is not on the stack. -/
theorem accounted_sweep (hk : Accounted stray ⟨σ, s, t⟩) (hagrees : σ.Agrees s)
    (h : σ = .sweeping ∨ s.current = none) (h' : σ' = σ ∨ σ = .sweeping ∧ σ' = .head) :
    Accounted stray
      ⟨σ', { s.freeUnclaimed.2 with current := none, retired := [] }.told, t⟩ := by
  have hempty : ∀ a, ¬ σ.InHand s a := by
    intro a hin
    rcases h with rfl | hnone
    · exact hin
    · cases σ with
      | stepping id | capturing id frames =>
        exact absurd (hnone.symm.trans (congrArg Prod.snd hagrees)) (by simp)
      | leaving => exact absurd (hnone.symm.trans hin) (by simp)
      | _ => cases hin
  obtain ⟨htends, hclaims⟩ := tends_freeUnclaimed s
  refine hk.handed (htends.trans (.of_same rfl rfl)) ((edits_freeUnclaimed s).trans (.idle rfl))
    (fun _ h => h) (fun a r _ hin => absurd hin (hempty a)) ?_ ?_ (fun _ h => by cases h)
    (fun k snapshot h => hk.snapshots h) ?_
  · exact fun a r _ _ horig => Or.inl (Or.inr (Or.inr (Or.inl horig)))
  · exact fun a r hr hp hun => Or.inl (Or.inl (htends.stack (hclaims a hun r hr hp)))
  · intro id frames hσ'
    rcases h' with rfl | ⟨-, rfl⟩
    · exact hk.lifted hσ'
    · cases hσ'

/-- A routine finishes: its result and the forced returns of its children are on
    the stack. Where a child was without a script, its own children stray. -/
theorem accounted_conclude (hk : Accounted stray ⟨.stepping id, s, t⟩) (hl : Linked s.routines)
    (script : Script C) (o : Outcome Value)
    (hroom : ∀ a, (s.conclude id script o).routines.Ample a) (hstray : ∀ a, stray a → stray' a)
    (hchild : ∀ q r a, stray q → s.routines.find? q = some r → a ∈ r.children → stray' a) :
    Accounted stray' ⟨.sweeping, (s.conclude id script o).told, t⟩ := by
  have hedits := edits_conclude s id script o
  have hbadge := badge_conclude s id script o
  have hslots := ((hroom id).of_grows hedits.grows).slots
  have hexiting := exiting_conclude hl hslots id script o
  have hdead := find?_conclude_self hl.sound script o (hroom id)
  have hother : ∀ {a r}, (s.conclude id script o).routines.find? a = some r → a ≠ id := by
    rintro a r hr rfl
    exact absurd (hdead.symm.trans hr) (by simp)
  refine ⟨?_, ?_, (hexiting.forest hk.forest).congr rfl, ?_, ?_, fun h => by cases h⟩
  · intro a r hr hp
    rcases hexiting.roots hr hp with hon | ⟨x, hx, hxp | ⟨q, z, hxq, hne, hz, hzs⟩⟩
    · exact Or.inl (Or.inl hon)
    · rcases hk.roots hx hxp with (hon | hin | horig | hun) | hs
      · exact Or.inl (Or.inl (hexiting.stack hon))
      · exact absurd hin (hother hr)
      · exact Or.inl (Or.inr (Or.inr (Or.inl horig)))
      · refine Or.inl (Or.inr (Or.inr (Or.inr ?_)))
        have hsame : (s.conclude id script o).unclaimed = s.unclaimed := congrArg Prod.snd hbadge
        show a ∈ (s.conclude id script o).unclaimed
        rwa [hsame]
      · exact Or.inr (hstray a hs)
    · obtain ⟨z', hz', hmem⟩ := hl.parent_live hx hxq
      rcases hk.scripts hz hzs with hin | hs
      · exact absurd hin hne
      · exact Or.inr (hchild q z' a hs hz' hmem)
  · intro a r hr hs
    obtain ⟨x, hx, hxs⟩ := hexiting.scripts hr hs
    rcases hk.scripts hx hxs with hin | hs
    · exact absurd hin (hother hr)
    · exact Or.inr (hstray a hs)
  · intro a ha
    have hsame : (s.conclude id script o).current = s.current := congrArg (fun b => b.1.2) hbadge
    exact hedits.issued (hk.current (hsame.symm.trans ha))
  · exact fun h i => (hk.snapshots h i).mono fun a => hedits.issued

/-- A routine suspends: it has a live parent, or it is freed. -/
theorem accounted_suspend (hk : Accounted stray ⟨.stepping id, s, t⟩) (script : Script C) :
    Accounted stray ⟨.sweeping, (s.suspend id script).told, t⟩ := by
  have hbadge := badge_suspend s id script
  have hself : ∀ r, (s.suspend id script).routines.find? id = some r →
      r.parent ≠ none ∧ r.script ≠ none := by
    intro r hr
    unfold suspend at hr
    split at hr
    · next x hx =>
      split at hr
      · next q hq =>
        rw [giveBack_of_live hx] at hr
        have hr' : (s.routines.modify id _).find? id = some r := hr
        rw [Roster.find?_modify, if_pos rfl, hx] at hr'
        obtain rfl := Option.some.inj hr'
        have hxq := (liveParent_eq_some.mp hq).1
        exact ⟨fun hnone => absurd (hxq.symm.trans hnone) (by simp), by rintro ⟨⟩⟩
      · exact absurd ((find?_free_self _ id).symm.trans hr) (by simp)
    · exact absurd ((find?_free_self _ id).symm.trans hr) (by simp)
  refine hk.handed ((tends_suspend s id script).trans (tends_told _))
    ((edits_suspend s id script).trans (.idle rfl)) (fun _ h => h) ?_ ?_ ?_ ?_
    (fun k snapshot h => hk.snapshots h) (fun _ _ h => by cases h)
  · rintro a r hr rfl
    exact ⟨fun hp => absurd hp (hself r hr).1, fun hs => absurd hs (hself r hr).2⟩
  · exact fun a r _ _ horig => Or.inl (Or.inr (Or.inr (Or.inl horig)))
  · intro a r _ _ hun
    refine Or.inl (Or.inr (Or.inr (Or.inr ?_)))
    have hsame : (s.suspend id script).unclaimed = s.unclaimed := congrArg Prod.snd hbadge
    show a ∈ (s.suspend id script).unclaimed
    rwa [hsame]
  · intro a ha
    have hsame : (s.suspend id script).current = s.current := congrArg (fun b => b.1.2) hbadge
    exact Or.inl (hsame.symm.trans ha)

/-- Frames are lifted off the stack, to be copied. -/
theorem accounted_lift {frames : List (Lifted C)} (hk : Accounted stray ⟨.building id, s, t⟩)
    (hl : Linked s.routines) (h : s.lift = (frames, s')) :
    Accounted stray ⟨.capturing id frames, s'.told, t⟩ := by
  have hedits : Edits s s' := by
    have := edits_lift s
    rwa [h] at this
  have hbadge : s'.badge = s.badge := by
    have := badge_lift s
    rwa [h] at this
  have hlive := live_of_lift h
  refine hk.taken (fun _ h => h) (hedits.trans (.idle rfl)) ?_ ?_ (congrArg Prod.snd hbadge) ?_ ?_
  · intro a
    by_cases ha : a ∈ frames.map Lifted.id
    · exact (find?_lift h a).imp_right fun hout => ⟨ha, hout⟩
    · exact Or.inl (lift_others h ha).2.1
  · intro a x script hx hscript hon
    by_cases ha : a ∈ frames.map Lifted.id
    · exact Or.inr ha
    · exact Or.inl ((lift_others h ha).2.2 x script hx hscript hon)
  · intro a ha
    have hsame : s'.current = s.current := congrArg (fun b => b.1.2) hbadge
    exact Or.inl (hsame.symm.trans ha)
  · rintro id' frames' heq p copies i
    cases heq
    refine hk.forest.leadsOut (fun f hf => ?_) (fun f hf q hq => ?_) p copies i
    · obtain ⟨x, hx, -, hparent⟩ := hlive f hf
      exact ⟨x, hx, hparent⟩
    · obtain ⟨x, hx, -, hparent⟩ := hlive f hf
      obtain ⟨z, hz, -⟩ := hl.parent_live hx (hparent.trans hq)
      exact Roster.issued_of_find? hz

/-- The copies are made, and the continuation remembers the frames. -/
theorem accounted_capture {frames : List (Lifted C)} (hk : Accounted stray ⟨.capturing id frames, s, t⟩)
    (copies : List (Script C)) {k : Nat} (hnew : t k = none) :
    Accounted stray ⟨.building id, (s.giveBackAll frames).told,
      Function.update t k (some (.of p frames copies))⟩ := by
  have hbadge := badge_giveBackAll frames s
  refine hk.handed ((tends_giveBackAll frames s).trans (tends_told _))
    ((edits_giveBackAll s frames).trans (.idle rfl)) (fun _ h => h) ?_ ?_ ?_ ?_ ?_ (fun _ _ h => by cases h)
  · intro a r hr hin
    refine ⟨fun _ => Or.inl (Or.inr (Or.inr (Or.inl ?_))), fun hs => ?_⟩
    · exact ⟨k, .of p frames copies, frames.map Lifted.id, Function.update_self .., rfl, hin⟩
    · exact absurd hs (script_giveBackAll frames s hin hr)
  · rintro a r - - ⟨k', snapshot, ids, hk', hids, ha⟩
    have hne : k' ≠ k := by
      rintro rfl
      exact absurd (hnew.symm.trans hk') (by simp)
    exact Or.inl (Or.inr (Or.inr (Or.inl ⟨k', snapshot, ids,
      (Function.update_of_ne hne ..).trans hk', hids, ha⟩)))
  · intro a r _ _ hun
    refine Or.inl (Or.inr (Or.inr (Or.inr ?_)))
    have hsame : (s.giveBackAll frames).unclaimed = s.unclaimed := congrArg Prod.snd hbadge
    show a ∈ (s.giveBackAll frames).unclaimed
    rwa [hsame]
  · intro a ha
    have hsame : (s.giveBackAll frames).current = s.current := congrArg (fun b => b.1.2) hbadge
    exact Or.inl (hsame.symm.trans ha)
  · intro k' snapshot hk' i
    by_cases hne : k' = k
    · subst hne
      obtain rfl := Option.some.inj ((Function.update_self k' _ t).symm.trans hk')
      exact hk.lifted rfl p copies i
    · exact hk.snapshots ((Function.update_of_ne hne _ t).symm.trans hk') i

/-- A continuation is invoked or dies, and what it remembered goes elsewhere. -/
theorem Accounted.forgotten {k : Nat} {snapshot : Snapshot C} {after : Option (Snapshot C)}
    (hk : Accounted stray ⟨σ, s, t⟩) (htends : Tends s s') (hedits : Edits s s')
    (hstray : ∀ a, stray a → stray' a) (hcurrent : s'.current = s.current)
    (hunclaimed : ∀ a ∈ s.unclaimed, a ∈ s'.unclaimed) (hfound : t k = some snapshot)
    (hafter : ∀ snapshot', after = some snapshot' → snapshot'.frames = snapshot.frames)
    (hmine : ∀ ids, snapshot.routines = some ids → ∀ a ∈ ids,
      s'.onStack a = true ∨ a ∈ s'.unclaimed ∨ stray' a) :
    Accounted stray' ⟨σ, s', Function.update t k after⟩ := by
  have hhand : ∀ a, σ.InHand s a → σ.InHand s' a := by
    intro a ha
    cases σ <;> first
      | exact ha
      | exact hcurrent.trans ha
  refine hk.handed htends hedits hstray ?_ ?_ ?_ ?_ ?_ fun id frames h => hk.lifted h
  · intro a r _ hin
    exact ⟨fun _ => Or.inl (Or.inr (Or.inl (hhand a hin))), fun _ => Or.inl (hhand a hin)⟩
  · rintro a r - - ⟨k', snapshot', ids, hk', hids, ha⟩
    by_cases hne : k' = k
    · subst hne
      obtain rfl := Option.some.inj (hfound.symm.trans hk')
      rcases hmine ids hids a ha with hon | hun | hs
      · exact Or.inl (Or.inl hon)
      · exact Or.inl (Or.inr (Or.inr (Or.inr hun)))
      · exact Or.inr hs
    · exact Or.inl (Or.inr (Or.inr (Or.inl ⟨k', snapshot', ids,
        (Function.update_of_ne hne ..).trans hk', hids, ha⟩)))
  · exact fun a r _ _ hun => Or.inl (Or.inr (Or.inr (Or.inr (hunclaimed a hun))))
  · exact fun a ha => Or.inl (hcurrent.symm.trans ha)
  · intro k' snapshot' hk' i
    by_cases hne : k' = k
    · subst hne
      rw [hafter snapshot' ((Function.update_self k' _ t).symm.trans hk')]
      exact hk.snapshots hfound i
    · exact hk.snapshots ((Function.update_of_ne hne _ t).symm.trans hk') i

/-- A child is put on the stack, beneath the routine that is being stepped. -/
theorem accounted_child (hk : Accounted stray ⟨.building id, s, t⟩) (hl : Linked s.routines)
    (hcurrent : s.current = some id) (origin : Origin) (script : Script C)
    (hroom : ∀ a, (s.scheduleChild origin script id).routines.Ample a) :
    Accounted stray ⟨.sweeping, (s.scheduleChild origin script id).told, t⟩ := by
  have hadded : (s.add origin script).2.routines.Ample id :=
    (hroom id).of_grows (closed_link (Roster.closed_grows _).steady (.refl _) _ (some id))
  have hne := hl.sound.ne_insert_fst (hk.current hcurrent) ⟨origin, some script, none, []⟩ hadded
  rw [s.insert_fst] at hne
  have hbadge := badge_scheduleChild s origin script id
  exact hk.tended ((tends_scheduleChild hl origin script (hroom id).slots hne).trans (tends_told _))
    ((edits_scheduleChild s origin script id).trans (.idle rfl)) (fun _ h => h)
    (congrArg Prod.snd hbadge) (congrArg (fun b => b.1.2) hbadge) (fun _ h => False.elim h) (fun _ _ h => by cases h)

/-- Every move accounts for the routines that have no parent. -/
theorem Stride.accounted (h : Stride p x y) (hk : Accounted stray x) (hl : Linked x.scheduler.routines)
    (hagrees : x.stage.Agrees x.scheduler) (hroom : ∀ a, y.scheduler.routines.Ample a)
    (hstray : ∀ a, stray a → stray' a) (hfalls : ∀ a, Falls x y a → stray' a)
    (hchild : ∀ q r a, stray q → x.scheduler.routines.find? q = some r → a ∈ r.children → stray' a) :
    Accounted stray' y := by
  have hweaken : ∀ {z : Status C}, Accounted stray z → Accounted stray' z := fun hz => hz.mono hstray
  cases h with
  | still => exact hweaken hk
  | note σ s t unhandled =>
    exact hk.tended (.of_same rfl rfl) (.idle rfl) hstray rfl rfl (fun _ h => h) fun _ _ h => h
  | pick h => exact hweaken (accounted_pick hk h)
  | leave h unwinding => exact hweaken (accounted_leave hk h unwinding hagrees)
  | fail h s t => exact accounted_fail hk hagrees hstray hfalls
  | abandon s t => exact hweaken (accounted_abandon hk fun _ h => h)
  | sweep h h' => exact hweaken (accounted_sweep hk hagrees h h')
  | conclude s id script o =>
    exact accounted_conclude hk hl script o hroom hstray hchild
  | suspend s id script => exact hweaken (accounted_suspend hk script)
  | reset s id script t =>
    exact (hk.shelved script).tended ((tends_push _ _).trans (tends_told _)) (.idle rfl) hstray rfl
      rfl (fun _ h => False.elim h) (fun _ _ h => by cases h)
  | splice s id script nested t =>
    have hshelved := hk.shelved script
    have hgrows := ((edits_scheduleChild (s.shelve id script).told .splice nested id)).grows
    have hroom' : ∀ a, (s.shelve id script).routines.Ample a := fun a => (hroom a).of_grows hgrows
    have hlinked := (edits_shelve s id script).linked hl (hroom' default).slots
    have hcurrent : (s.shelve id script).current = some id :=
      (congrArg (fun b => b.1.2) (badge_shelve s id script)).trans (congrArg Prod.snd hagrees)
    have htold : Accounted stray ⟨.building id, (s.shelve id script).told, t⟩ :=
      hshelved.tended (tends_told _) (.idle rfl) (fun _ h => h) rfl rfl (fun _ h => False.elim h) (fun _ _ h => by cases h)
    exact hweaken (accounted_child htold hlinked hcurrent .splice nested hroom)
  | build s id origin script t =>
    exact hweaken (accounted_child hk hl (congrArg Prod.snd hagrees) origin script hroom)
  | @lift s s' id script frames h t =>
    have hgrows := (edits_lift (s.shelve id script)).grows
    rw [h] at hgrows
    have hroom' := (hroom default).of_grows hgrows
    exact hweaken (accounted_lift (hk.shelved script)
      ((edits_shelve s id script).linked hl hroom'.slots) h)
  | @liftNothing s s' id script k t h hnew =>
    have hgrows := (edits_lift (s.shelve id script)).grows
    rw [h] at hgrows
    have hroom' := (hroom default).of_grows hgrows
    have hlifted := accounted_lift (hk.shelved script)
      ((edits_shelve s id script).linked hl hroom'.slots) h
    exact hweaken (accounted_capture hlifted [] hnew)
  | capture s id frames copies hnew => exact hweaken (accounted_capture hk copies hnew)
  | root s script t =>
    exact hk.tended ((tends_scheduleRoot hl script (hroom default).slots).trans (.of_same rfl rfl))
      ((edits_scheduleRoot s script).trans (.idle rfl)) hstray rfl rfl (fun _ h => False.elim h) (fun _ _ h => by cases h)
  | @queue σ s h k v t =>
    exact hk.tended ((tends_queue hl k v (hroom default).slots).trans (.of_same rfl rfl))
      ((edits_queue s k v).trans (.idle rfl)) hstray rfl rfl (fun _ h => h) fun _ _ h => h
  | @reenter s h k v t =>
    exact hk.tended ((tends_queue hl k v (hroom default).slots).trans (.of_same rfl rfl))
      ((edits_queue s k v).trans (.idle rfl)) hstray rfl rfl (fun _ h => False.elim h) (fun _ _ h => by cases h)
  | @reinstate σ s k snapshot ids t hk' hids hlive v =>
    refine hk.forgotten ((tends_reinstate s ids v).trans (tends_told _)) (.idle rfl) hstray rfl
      (fun _ h => h) hk' (fun _ h => Option.some.inj h ▸ rfl) fun ids' hids' a ha => Or.inl ?_
    obtain rfl := Option.some.inj (hids.symm.trans hids')
    simp only [onStack, told, Scheduler.reinstate, List.contains_iff_mem]
    exact List.mem_append_left _ (List.mem_reverse.mpr (List.mem_map_of_mem ha))
  | @claim σ s k snapshot t hk' hgone =>
    refine hk.forgotten (.refl s) (.refl s) hstray rfl (fun _ h => h) hk'
      (fun _ h => Option.some.inj h ▸ rfl) fun ids hids a ha => Or.inr (Or.inr (hfalls a ?_))
    exact .claimed hk' hids ha (hgone ids hids) (Function.update_self ..)
  | @plant σ s s' k snapshot copies ids t hk' h v =>
    have hedits := edits_plant s snapshot.frames copies
    have hbadge := badge_plant s snapshot.frames copies
    rw [h] at hedits hbadge
    exact hk.tended ((tends_plant hl h hroom (hk.snapshots hk') v).trans (.of_same rfl rfl))
      (hedits.trans (.idle rfl)) hstray (congrArg Prod.snd hbadge)
      (congrArg (fun b => b.1.2) hbadge) (fun _ h => h) fun _ _ h => h
  | @plantNothing σ s k snapshot t hk' hnone hgone v =>
    refine hk.forgotten ((tends_told s).trans ((tends_reinstate s.told [] v).trans (tends_told _)))
      (.idle rfl) hstray rfl (fun _ h => h) hk' (fun _ h => Option.some.inj h ▸ rfl)
      fun ids hids a ha => Or.inr (Or.inr (hfalls a ?_))
    exact .claimed hk' hids ha (hgone ids hids) (Function.update_self ..)
  | @unclaim σ s k snapshot ids t hk' hids =>
    refine hk.forgotten (.of_same rfl rfl) (.idle rfl) hstray rfl
      (fun _ h => List.mem_append_left _ h) hk' (fun _ h => by cases h) fun ids' hids' a ha => Or.inr (Or.inl ?_)
    obtain rfl := Option.some.inj (hids.symm.trans hids')
    exact List.mem_append_right _ ha
  | @forget σ s k snapshot t hk' hnone =>
    refine hk.forgotten (.refl s) (.refl s) hstray rfl (fun _ h => h) hk' (fun _ h => by cases h)
      fun ids hids => absurd (hnone.symm.trans hids) (by simp)

end Stride

/-! ### Along a run -/

/-- Without a scheduler, only a frame of a capture brings a snapshot. -/
theorem Act.captures_of_none {p : Nat} {panicked : Prop} {x y : Realm C R} (h : Act p panicked x y)
    (hnone : x.scheduler = none) (hframes : ∀ f ∈ x.frames, f = .pass p) {k : Nat}
    (hk : x.captures k = none) : y.captures k = none := by
  cases h with
  | capture s id handler frames copies copies' left hk' =>
    exact absurd (hframes _ (List.mem_singleton_self _)) (by simp)
  | @unclaim s k' snapshot ids t hk' hids =>
    show Function.update t k' none k = none
    rw [Function.update_apply]
    split
    · rfl
    · exact hk
  | @forget s k' snapshot t hk' hnone =>
    show Function.update t k' none k = none
    rw [Function.update_apply]
    split
    · rfl
    · exact hk
  | _ => first
    | exact hk
    | cases hnone

/-- A scheduler that has not been there begins without routines. -/
theorem Act.created {p : Nat} {panicked : Prop} {x y : Realm C R} (h : Act p panicked x y)
    (hnone : x.scheduler = none) {s : Scheduler C} (hsome : y.scheduler = some s) :
    ∃ settings, s = .new settings := by
  cases h with
  | create settings t => exact ⟨settings, (Option.some.inj hsome).symm⟩
  | _ =>
    cases hnone
    try cases hsome

namespace Machine

variable {B : Behavior C R} {p : Nat} {m₀ m n : Machine C R}

/-- A routine of scheduler `p` that nobody keeps any more, because a move has let
    it fall or has made it a child of such a routine. -/
inductive Strays (B : Behavior C R) (p : Nat) (m₀ : Machine C R) :
    Machine C R → RoutineId → Prop where
  | fallen {n : Machine C R} {x y : Status C} {a : RoutineId} (h : Later B m₀ n)
      (before : n.status? p = some x) (after : (n.step B).status? p = some y)
      (falls : Falls x y a) : Strays B p m₀ (n.step B) a
  | child {n : Machine C R} {s : Scheduler C} {q a : RoutineId} {r : Routine C}
      (h : Strays B p m₀ n q) (found : n.scheduler? p = some s)
      (parent : s.routines.find? q = some r) (listed : a ∈ r.children) : Strays B p m₀ n a
  | step {n : Machine C R} {a : RoutineId} (h : Strays B p m₀ n a) : Strays B p m₀ (n.step B) a
  | anew {n : Machine C R} {a : RoutineId} (h : Strays B p m₀ n a) (halted : n.control = [])
      (events : List Event) (focus : Focus C R) :
      Strays B p m₀ ⟨{ n.store with events }, [], focus⟩ a

theorem scheduler?_of_size (hle : m.store.schedulers.cells.size ≤ p) : m.scheduler? p = none := by
  rw [Option.eq_none_iff_forall_ne_some]
  exact fun s hs => Nat.not_lt_of_le hle (Table.lt_size_of_find? hs)

/-- Of a scheduler that is still to come, only a pass can be on the control stack. -/
theorem Reachable.frames_early (h : Reachable B m) (hle : m.store.schedulers.cells.size ≤ p) :
    ∀ f ∈ (m.realm p).frames, f = .pass p := by
  intro f hf
  obtain ⟨hmem, hof⟩ := List.mem_filter.mp hf
  cases h.phased p with
  | gone none old => exact absurd old (Nat.not_lt_of_le hle)
  | unborn none free => exact absurd ((free f hmem).symm.trans hof) (by simp)
  | early none top free =>
    rw [top] at hmem
    rcases List.mem_cons.mp hmem with heq | hmem
    · exact heq
    · exact absurd ((free f hmem).symm.trans hof) (by simp)
  | there found => exact absurd ((scheduler?_of_size hle).symm.trans found) (by simp)

/-- It has no snapshots either. -/
theorem Reachable.no_captures (h : Reachable B m) (hle : m.store.schedulers.cells.size ≤ p)
    (k : Nat) : (m.realm p).captures k = none ∧ ((m.step B).realm p).captures k = none := by
  have hstep : ∀ {n : Machine C R}, Reachable B n → n.store.schedulers.cells.size ≤ p →
      (n.realm p).captures k = none → ((n.step B).realm p).captures k = none := by
    intro n hn hle hk
    obtain ⟨top, top', below, hx, -, -, hact⟩ := moves_step (p := p) n B
    exact hact.captures_of_none (scheduler?_of_size hle)
      (fun f hf => hn.frames_early hle f (hx ▸ List.mem_append_left _ hf)) hk
  have hnone : (m.realm p).captures k = none := by
    obtain ⟨focus, hm⟩ := h
    induction hm with
    | refl => simp [realm, Store.empty, Table.empty, Table.find?, Table.cell?]
    | @step n hn ih =>
      have hle' := Nat.le_trans (edited_step n B).size hle
      exact hstep ⟨focus, hn⟩ hle' (ih hle')
    | anew hn halted events focus' ih => exact ih hle
  exact ⟨hnone, hstep h hle hnone⟩

/-- A scheduler that was not there before the last move is new, without a pass
    and without snapshots. -/
theorem Reachable.born (h : Reachable B m) (hbefore : m.scheduler? p = none) {s : Scheduler C}
    (hs : (m.step B).scheduler? p = some s) :
    (m.step B).stage p = .idle ∧ (∀ k, ((m.step B).realm p).captures k = none) ∧
      ∃ settings, s = .new settings := by
  obtain ⟨top, top', below, -, -, -, hact⟩ := moves_step (p := p) m B
  obtain ⟨settings, rfl⟩ := hact.created hbefore hs
  obtain ⟨hord, hagrees⟩ := (h.later (.step .refl)).ordered hs
  have hsize : m.store.schedulers.cells.size ≤ p := by
    rcases (edited_step m B).edits hs with ⟨s, hs', -⟩ | ⟨hle, -⟩
    · exact absurd (hbefore.symm.trans hs') (by simp)
    · exact hle
  exact ⟨(Agrees.none_of_idle hord hagrees rfl).1, fun k => (h.no_captures hsize k).2, settings, rfl⟩

/-- In every machine that an empty store comes to, whoever has no parent is kept
    or strays. -/
theorem Later.accounted {focus : Focus C R} (h : Later B ⟨.empty, [], focus⟩ m) {s : Scheduler C}
    (hs : m.scheduler? p = some s) (hroom : ∀ a, s.routines.Ample a) :
    Accounted (Strays B p ⟨.empty, [], focus⟩ m) ⟨m.stage p, s, (m.realm p).captures⟩ := by
  induction h generalizing s with
  | refl =>
    have hnone : (Store.empty : Store C).schedulers.find? p = none := by
      simp [Store.empty, Table.empty, Table.find?, Table.cell?]
    exact absurd (hnone.symm.trans hs) (by simp)
  | @step n hn ih =>
    have hreach : Reachable B n := ⟨focus, hn⟩
    cases hbefore : n.scheduler? p with
    | none =>
      obtain ⟨hstage, hcaptures, settings, rfl⟩ := hreach.born hbefore hs
      have hnone : ∀ a, (.empty : Roster (Routine C)).find? a = none := fun a =>
        Roster.find?_of_no_slot (by simp [Roster.empty])
      rw [hstage]
      refine ⟨fun hr => ?_, fun hr => ?_, forest_new settings, (by rintro _ ⟨⟩), fun hk => ?_,
        (by rintro _ _ ⟨⟩)⟩
      · exact absurd ((hnone _).symm.trans hr) (by simp)
      · exact absurd ((hnone _).symm.trans hr) (by simp)
      · exact absurd ((hcaptures _).symm.trans hk) (by simp)
    | some s₀ =>
      have hgrows := (Later.step .refl : Later B n (n.step B)).grows hbefore hs
      have hroom₀ : ∀ a, s₀.routines.Ample a := fun a => (hroom a).of_grows hgrows
      have hbefore' : n.status? p = some ⟨n.stage p, s₀, (n.realm p).captures⟩ := by
        simp [status?, hbefore]
      have hafter : (n.step B).status? p =
          some ⟨(n.step B).stage p, s, ((n.step B).realm p).captures⟩ := by
        simp [status?, hs]
      refine (hreach.stride hbefore hs).accounted (ih hbefore hroom₀)
        (hreach.linked hbefore (hroom₀ default).slots) (hreach.ordered hbefore).2 hroom
        (fun a ha => ha.step) (fun a ha => .fallen hn hbefore' hafter ha) ?_
      exact fun q r a hq hr ha => (Strays.child hq hbefore hr ha).step
  | @anew n hn halted events focus' ih =>
    have hstage : n.stage p = .idle := by simp [stage, halted, stageFrom]
    have hk := ih hs hroom
    rw [hstage] at hk
    exact hk.mono fun a ha => ha.anew halted events focus'

/-- The next move ends a sweep of scheduler `p`. -/
def EndsSweep (B : Behavior C R) (p : Nat) (m : Machine C R) : Prop :=
  ∃ a control, m.focus = .release [] (.give a) ∧ m.control = .sweeping p :: control ∧
    (m.step B).control = control

theorem step_sweeping (B : Behavior C R) {a : Answer C} {control : List (Frame C R)}
    (hfocus : m.focus = .release [] (.give a)) (hcontrol : m.control = .sweeping p :: control) :
    m.step B = sweep { m with control } B.held p := by
  simp only [step, hfocus, goOn, hcontrol]
  rfl

/-- A sweep ends only once nothing is unclaimed. -/
theorem EndsSweep.unclaimed (h : m.EndsSweep B p) {s : Scheduler C}
    (hs : (m.step B).scheduler? p = some s) : s.unclaimed = [] := by
  obtain ⟨a, control, hfocus, hcontrol, hend⟩ := h
  rw [step_sweeping B hfocus hcontrol] at hs hend
  cases hbefore : m.scheduler? p with
  | none =>
    have hbefore' : scheduler? { m with control } p = none := hbefore
    simp only [sweep, hbefore'] at hs
    exact absurd (hbefore.symm.trans hs) (by simp)
  | some s₀ =>
    have hbefore' : scheduler? { m with control } p = some s₀ := hbefore
    simp only [sweep, hbefore'] at hs hend
    split at hend
    · next hdone =>
      rw [if_pos hdone] at hs
      obtain rfl := Option.some.inj ((scheduler?_onScheduler_some hbefore' _).symm.trans hs)
      show s₀.freeUnclaimed.2.unclaimed = []
      rw [freeUnclaimed_of_none hdone.1]
    · exact absurd hend (List.cons_ne_self _ _)

end Machine

/-- No slot of a roster has been vacated too often, nor are there too many. -/
def Roster.young {α : Type} (r : Roster α) : Bool :=
  r.slots.size ≤ 2 ^ 32 && r.slots.toList.all fun slot => slot.vacated < 2 ^ 32

theorem Roster.ample_of_young {α : Type} {r : Roster α} (h : r.young = true) (a : RoutineId) :
    r.Ample a := by
  obtain ⟨hslots, hall⟩ := Bool.and_eq_true_iff.mp h
  refine ⟨of_decide_eq_true hslots, ?_⟩
  unfold vacated
  cases hslot : r.slots[a.index.toNat]? with
  | none => exact Nat.two_pow_pos 32
  | some slot =>
    obtain ⟨hlt, rfl⟩ := Array.getElem?_eq_some_iff.mp hslot
    exact of_decide_eq_true (List.all_eq_true.mp hall _ (Array.getElem_mem_toList hlt))

open Machine Strand.Language in
/-- A root splices a child. What panics comes to is dropped, and the routines
    are counted. -/
def splicing (child : Term) : Machine Code Running :=
  let scheduler := Operand.mk (.type .scheduler) (.apply (.lookup "s") [])
  let root := Term.apply (.staged [.onSuccess (.apply .splice [.mk .script child])] none) []
  Program.machine [] .empty (.bind "s" (.apply (.newScheduler {}) [])
    (.sequence [.rescue (.contain (.apply (.evaluate root) [scheduler])) (.literal .unit)]
      (.apply .countRoutines [.mk .runner (.apply (.lookup "s") [])])))

end Strand
