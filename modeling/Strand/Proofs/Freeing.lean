import Strand.Proofs.Reclamation

/-! # Freeing — what a routine that is freed takes along

    Freeing works off a list of pending routines: each one that is live is taken out, and
    those of its children that are not on the stack are pending next. `FreesAll` is this
    loop, without a bound on its rounds.

    * The loop ends, and the bound that `free` is given is enough (`freesAll_free`).
    * What is taken out is what hangs from the routine, once each; the children of these
      that are on the stack lose their parent, the parent of the routine loses a child, and
      nothing else changes (`free_takes_what_hangs`). -/

namespace Strand.Scheduler

variable {C : Type} {s t : Scheduler C} {a c id q : RoutineId} {r : Routine C}
  {pending : List RoutineId}

/-! ### The loop -/

/-- Freeing the pending routines, first one first, turns `s` into `t`. -/
inductive FreesAll : List RoutineId → Scheduler C → Scheduler C → Prop where
  | done {s : Scheduler C} : FreesAll [] s s
  | dead {id : RoutineId} {pending : List RoutineId} {s t : Scheduler C}
      (gone : s.routines.find? id = none) (rest : FreesAll pending s t) :
      FreesAll (id :: pending) s t
  | live {id : RoutineId} {pending : List RoutineId} {s t : Scheduler C} {r : Routine C}
      {routines : Roster (Routine C)} (removed : s.routines.remove id = some (r, routines))
      (rest : FreesAll ((r.children.filter fun c => !s.onStack c).reverse ++ pending)
        (s.severed id r routines) t) :
      FreesAll (id :: pending) s t

/-- Every round takes an identifier off the pending ones, and what it adds it takes off the
    children: so the loop ends within as many rounds. -/
theorem freesAll_freeAll (fuel : Nat) (pending : List RoutineId) (s : Scheduler C)
    (hfuel : pending.length + s.childCount ≤ fuel) :
    FreesAll pending s (freeAll fuel pending s) := by
  induction fuel generalizing pending s with
  | zero =>
    obtain rfl : pending = [] := List.eq_nil_of_length_eq_zero (by omega)
    exact .done
  | succ fuel ih =>
    cases pending with
    | nil => exact .done
    | cons id pending =>
      rw [List.length_cons] at hfuel
      cases hr : s.routines.remove id with
      | none =>
        have hdead := Roster.remove_eq_none.mp hr
        rw [freeAll_of_dead hdead]
        exact .dead hdead (ih pending s (by omega))
      | some pair =>
        obtain ⟨r, routines⟩ := pair
        rw [freeAll_of_remove hr]
        refine .live hr (ih _ _ ?_)
        have hcount := childCount_severed hr
        have hlost := List.length_filter_le (fun c => !s.onStack c) r.children
        rw [List.length_append, List.length_reverse]
        omega

theorem freesAll_free (s : Scheduler C) (id : RoutineId) : FreesAll [id] s (s.free id) :=
  freesAll_freeAll _ _ s (Nat.le_refl _)

/-! ### What a round changes -/

theorem cutAll_eq (cs : List RoutineId) (s : Scheduler C) :
    cutAll cs s = { s with routines := (cutAll cs s).routines } := by
  induction cs generalizing s with
  | nil => rfl
  | cons c cs ih =>
    show cutAll cs (s.link c none) = _
    rw [ih]
    rfl

theorem unlink_eq (s : Scheduler C) (parent : Option RoutineId) (c : RoutineId) :
    s.unlink parent c = { s with routines := (s.unlink parent c).routines } := by
  cases parent <;> rfl

/-- A routine that is taken out leaves its script, and a report, behind. -/
theorem severed_eq (s : Scheduler C) (id : RoutineId) (r : Routine C)
    (routines : Roster (Routine C)) :
    s.severed id r routines = { s with
      routines := (s.severed id r routines).routines
      retired := s.retired ++ r.script.toList
      reports := .freed r.origin id :: s.reports } := by
  unfold severed
  dsimp only
  rw [cutAll_eq, unlink_eq]
  cases r.script with
  | none => simp [report]
  | some script => rfl

/-- Each routine that is freed leaves its script behind, once; nothing else changes but the
    roster and the log. -/
theorem FreesAll.retires (h : FreesAll pending s t) :
    ∃ freed : List RoutineId, freed.Nodup ∧
      (∀ a, a ∈ freed ↔ s.routines.contains a = true ∧ t.routines.contains a = false) ∧
      (∀ a, t.routines.contains a = true → s.routines.contains a = true) ∧
      t = { s with
        routines := t.routines
        retired := s.retired ++ freed.filterMap fun a => (s.routines.find? a).bind Routine.script
        reports := t.reports } := by
  induction h with
  | done =>
    refine ⟨[], .nil, fun a => ?_, fun a ha => ha, by simp⟩
    simp
  | dead _ _ ih => exact ih
  | @live id pending s t r routines removed _ ih =>
    obtain ⟨freed, hnodup, hmem, hback, heq⟩ := ih
    have hid := Roster.find?_of_remove removed
    have hfind := find?_severed removed
    have hother : ∀ a, a ≠ id → ((s.severed id r routines).routines.contains a ↔
        s.routines.contains a) := by
      intro a ha
      simp only [Roster.contains, hfind a, if_neg ha, Option.isSome_map]
    have hgone : (s.severed id r routines).routines.contains id = false := by
      simp [Roster.contains, hfind id]
    have hlive : s.routines.contains id = true := by simp [Roster.contains, hid]
    have hnot : id ∉ freed := by
      rw [hmem, hgone]
      simp
    have hdead : t.routines.contains id = false := by
      rw [← Bool.not_eq_true]
      exact fun hlate => absurd (hback id hlate) (by simp [hgone])
    refine ⟨id :: freed, List.nodup_cons.mpr ⟨hnot, hnodup⟩, fun a => ?_, fun a ha => ?_, ?_⟩
    · rw [List.mem_cons, hmem]
      by_cases hne : a = id
      · subst hne
        simp [hlive, hdead]
      · simp only [hne, false_or, hother a hne]
    · by_cases hne : a = id
      · exact hne ▸ hlive
      · exact (hother a hne).mp (hback a ha)
    · rw [heq, severed_eq]
      dsimp only
      have hscripts : (freed.filterMap fun a =>
          ((s.severed id r routines).routines.find? a).bind Routine.script) =
            freed.filterMap fun a => (s.routines.find? a).bind Routine.script := by
        refine List.filterMap_congr fun a ha => ?_
        have hne : a ≠ id := fun heq => hnot (heq ▸ ha)
        rw [hfind a, if_neg hne]
        cases s.routines.find? a <;> rfl
      rw [hscripts, List.filterMap_cons, hid, Option.bind_some]
      cases r.script <;> simp

/-! ### Who remains -/

/-- When a routine is taken out, its children off the stack have no live parent, and are
    pending; the others that are pending have none as before. -/
theorem orphans_severed {routines : Roster (Routine C)}
    (removed : s.routines.remove id = some (r, routines))
    (hl : LinkedBut (id :: pending) s.routines)
    (horphan : ∀ c ∈ pending, ∀ y, s.routines.find? c = some y →
      ∀ q, y.parent = some q → s.routines.find? q = none) :
    ∀ c ∈ (r.children.filter fun c => !s.onStack c).reverse ++ pending, ∀ y,
      (s.severed id r routines).routines.find? c = some y →
      ∀ q, y.parent = some q → (s.severed id r routines).routines.find? q = none := by
  have hid := Roster.find?_of_remove removed
  have hfind := find?_severed removed
  intro c hc y hy q hq
  rw [hfind] at hy ⊢
  split at hy
  · cases hy
  · obtain ⟨x, hx, rfl⟩ := Option.map_eq_some_iff.mp hy
    dsimp only at hq
    split at hq
    · cases hq
    · rcases List.mem_append.mp hc with hc | hc
      · rw [List.mem_reverse, List.mem_filter] at hc
        obtain ⟨w, hw, hparent⟩ := hl.child hid hc.1
        obtain rfl := Option.some.inj (hx.symm.trans hw)
        rw [if_pos (Option.some.inj (hq.symm.trans hparent))]
      · rw [horphan c hc x hx q hq]
        split <;> rfl

/-- While only routines without a live parent are pending, nobody who remains loses a
    child. -/
theorem FreesAll.remaining (h : FreesAll pending s t) (hl : LinkedBut pending s.routines)
    (horphan : ∀ c ∈ pending, ∀ y, s.routines.find? c = some y →
      ∀ q, y.parent = some q → s.routines.find? q = none)
    {y : Routine C} (hy : t.routines.find? a = some y) :
    ∃ x, s.routines.find? a = some x ∧ y = { x with parent := y.parent } := by
  induction h generalizing y with
  | done => exact ⟨y, hy, rfl⟩
  | @dead id pending s t gone _ ih =>
    refine ih ⟨hl.sound, hl.nodup, hl.child, fun {c y q} hc hq => ?_⟩
      (fun c hc => horphan c (List.mem_cons_of_mem _ hc)) hy
    rcases hl.parent hc hq with hx | ⟨hdead, hmem⟩
    · exact Or.inl hx
    · rcases List.mem_cons.mp hmem with rfl | hmem
      · exact absurd (gone.symm.trans hc) (by simp)
      · exact Or.inr ⟨hdead, hmem⟩
  | @live id pending s t r routines removed _ ih =>
    obtain ⟨z, hz, hsame⟩ := ih (hl.severed removed)
      (orphans_severed removed hl fun c hc => horphan c (List.mem_cons_of_mem _ hc)) hy
    rw [find?_severed removed] at hz
    split at hz
    · cases hz
    · obtain ⟨x, hx, rfl⟩ := Option.map_eq_some_iff.mp hz
      have hnot : r.parent ≠ some a := by
        intro hparent
        have hdead := horphan id (List.mem_cons_self ..) r (Roster.find?_of_remove removed) a hparent
        exact absurd (hdead.symm.trans hx) (by simp)
      rw [if_neg hnot] at hsame
      exact ⟨x, hx, hsame⟩

/-- Whoever remains when a routine is freed is as before, but for its parent and for the
    routine itself among its children. -/
theorem remaining_free (hl : Linked s.routines) (hid : s.routines.find? id = some r) {y : Routine C}
    (hy : (s.free id).routines.find? a = some y) :
    ∃ x, s.routines.find? a = some x ∧ y = { x with
      parent := y.parent
      children := if r.parent = some a then x.children.erase id else x.children } := by
  cases freesAll_free s id with
  | dead gone => exact absurd (gone.symm.trans hid) (by simp)
  | @live _ _ _ _ r' routines removed rest =>
    obtain rfl := Option.some.inj ((Roster.find?_of_remove removed).symm.trans hid)
    have hl' : LinkedBut [id] s.routines := hl.weaken (List.forall_mem_nil _)
    obtain ⟨z, hz, hsame⟩ := rest.remaining (hl'.severed removed)
      (orphans_severed removed hl' (List.forall_mem_nil _)) hy
    rw [find?_severed removed] at hz
    split at hz
    · cases hz
    · obtain ⟨x, hx, rfl⟩ := Option.map_eq_some_iff.mp hz
      exact ⟨x, hx, hsame⟩

/-- Whoever remains keeps its parent if that remains, and has none otherwise. -/
theorem parent_free (hl : Linked s.routines) (hid : s.routines.find? id = some r) {x : Routine C}
    (ha : s.routines.find? a = some x) (hout : ¬ HangsFrom s id a) :
    (∀ q, x.parent = some q → HangsFrom s id q → (s.free id).routines.find? a = some { x with
      parent := none
      children := if r.parent = some a then x.children.erase id else x.children }) ∧
    ((∀ q, x.parent = some q → ¬ HangsFrom s id q) → (s.free id).routines.find? a = some { x with
      children := if r.parent = some a then x.children.erase id else x.children }) := by
  have hfree := hl.free id
  cases hy : (s.free id).routines.find? a with
  | none => exact absurd ((dead_free_iff hl ha).mp hy) hout
  | some y =>
    obtain ⟨x', hx', hsame⟩ := remaining_free hl hid hy
    obtain rfl := Option.some.inj (ha.symm.trans hx')
    obtain ⟨x'', hx'', hcut, -⟩ := find?_of_free hy
    obtain rfl := Option.some.inj (ha.symm.trans hx'')
    refine ⟨fun q hq hhangs => ?_, fun hstays => ?_⟩
    · obtain ⟨z, hz⟩ := hhangs.live
      have hdead := (dead_free_iff hl hz).mpr hhangs
      have hnone : y.parent = none := by
        refine (hcut.resolve_left fun heq => ?_).1
        obtain ⟨w, hw, -⟩ := hfree.parent_live hy (heq.trans hq)
        exact absurd (hdead.symm.trans hw) (by simp)
      rw [hsame, hnone]
    · have hkept : y.parent = x.parent := by
        rcases hcut with hsame | ⟨hnone, -⟩
        · exact hsame
        · cases hq : x.parent with
          | none => exact hnone
          | some q =>
            -- the parent is still there, and lists it
            obtain ⟨w, hw, hmem⟩ := hl.parent_live ha hq
            cases hz : (s.free id).routines.find? q with
            | none => exact absurd ((dead_free_iff hl hw).mp hz) (hstays q hq)
            | some z =>
              obtain ⟨w', hw', hz'⟩ := remaining_free hl hid hz
              obtain rfl := Option.some.inj (hw.symm.trans hw')
              have hne : a ≠ id := by
                rintro rfl
                exact hout (.top hid)
              have hlisted : a ∈ z.children := by
                rw [hz']
                dsimp only
                split
                · exact (List.mem_erase_of_ne hne).mpr hmem
                · exact hmem
              obtain ⟨y', hy', hparent⟩ := hfree.child hz hlisted
              obtain rfl := Option.some.inj (hy.symm.trans hy')
              exact hparent
      rw [hsame, hkept]

/-! ### Forests -/

/-- No way leads up from a routine's parent to the routine itself. -/
theorem Grounded.not_below (h : Grounded s a) {x : Routine C} (hx : s.routines.find? a = some x)
    (hq : x.parent = some q) : ¬ s.LeadsUp q a := by
  induction h generalizing x q with
  | @root a z live orphan =>
    obtain rfl := Option.some.inj (live.symm.trans hx)
    have hdead := liveParent_eq_none.mp orphan q hq
    intro hup
    rcases Relation.ReflTransGen.cases_head hup with rfl | ⟨_, ⟨y, hy, -⟩, -⟩
    · exact absurd (hdead.symm.trans live) (by simp)
    · exact absurd (hdead.symm.trans hy) (by simp)
  | @under a o z live parent _ ih =>
    obtain rfl := Option.some.inj (live.symm.trans hx)
    obtain rfl := Option.some.inj (parent.symm.trans hq)
    intro hup
    have hround : s.LeadsUp a o := .single ⟨z, live, parent⟩
    rcases Relation.ReflTransGen.cases_head hup with rfl | ⟨o', ⟨y, hy, hparent⟩, hrest⟩
    · exact ih live parent .refl
    · exact ih hy hparent (hrest.trans hround)

/-- From whoever hangs from a routine, the way leads up to it. -/
theorem HangsFrom.leadsUp_top {top : RoutineId} (h : HangsFrom s top a) : s.LeadsUp a top := by
  induction h with
  | top => exact .refl
  | child _ live parent _ ih => exact ih.head ⟨_, live, parent⟩

/-- The parent of a routine does not hang from it. -/
theorem Forest.parent_stays (hf : s.Forest) (hid : s.routines.find? id = some r)
    (hq : r.parent = some q) : ¬ HangsFrom s id q :=
  fun h => (hf id r hid).not_below hid hq h.leadsUp_top

/-- Whoever is below a child on the stack, of someone who hangs from a routine, does not
    hang from that routine, nor is it above it. -/
theorem Forest.kept_apart (hf : s.Forest) {top d : RoutineId} {y : Routine C}
    (hup : HangsFrom s top q) (hc : s.routines.find? c = some y) (hparent : y.parent = some q)
    (hon : s.onStack c = true) (hd : s.LeadsUp d c) :
    ¬ HangsFrom s top d ∧ ¬ s.LeadsUp top d := by
  have habove : ¬ s.LeadsUp top c := fun h =>
    (hf c y hc).not_below hc hparent (hup.leadsUp_top.trans h)
  refine ⟨fun hhangs => ?_, fun h => habove (h.trans hd)⟩
  rcases hhangs.leadsUp hd with hc' | hc'
  · rcases hc'.onStack with rfl | hoff
    · exact habove .refl
    · exact absurd (hoff.symm.trans hon) (by simp)
  · exact habove hc'

/-! ### Freeing, in full -/

/-- Where parents and children agree and no routine is its own ancestor, freeing a live
    routine comes to an end.

    * It takes that routine and whoever hangs from it: its descendants, down to those that
      are on the stack. The script of each is left behind for the next sweep, once.
    * A child on the stack, of one that is taken out, stays without a parent, and everyone
      below it stays as it is.
    * The parent of the routine has one child less. Nothing else changes. -/
theorem free_takes_what_hangs (hl : Linked s.routines) (hf : s.Forest)
    (hid : s.routines.find? id = some r) :
    FreesAll [id] s (s.free id) ∧ ∃ freed : List RoutineId, freed.Nodup ∧
      (∀ a, a ∈ freed ↔ s.HangsFrom id a) ∧
      s.free id = { s with
        routines := (s.free id).routines
        retired := s.retired ++ freed.filterMap fun a => (s.routines.find? a).bind Routine.script
        reports := (s.free id).reports } ∧
      (∀ a ∈ freed, (s.free id).routines.find? a = none) ∧
      (∀ a ∈ freed, ∀ x c, s.routines.find? a = some x → c ∈ x.children → s.onStack c = true →
        ∃ y, s.routines.find? c = some y ∧
          (s.free id).routines.find? c = some { y with parent := none } ∧
          ∀ d, d ≠ c → s.LeadsUp d c → (s.free id).routines.find? d = s.routines.find? d) ∧
      (∀ q, r.parent = some q → ∃ x, s.routines.find? q = some x ∧
        (s.free id).routines.find? q = some { x with children := x.children.erase id }) ∧
      ∀ a ∉ freed, r.parent ≠ some a →
        (∀ x q, s.routines.find? a = some x → x.parent = some q → q ∉ freed) →
        (s.free id).routines.find? a = s.routines.find? a := by
  have hloop := freesAll_free s id
  obtain ⟨freed, hnodup, hmem, hback, heq⟩ := hloop.retires
  have hhangs : ∀ a, a ∈ freed ↔ s.HangsFrom id a := by
    intro a
    rw [hmem, Roster.contains_iff]
    constructor
    · rintro ⟨⟨x, hx⟩, hdead⟩
      exact (dead_free_iff hl hx).mp (by simpa [Roster.contains] using hdead)
    · intro hhangs
      obtain ⟨x, hx⟩ := hhangs.live
      refine ⟨⟨x, hx⟩, ?_⟩
      simp [Roster.contains, (dead_free_iff hl hx).mpr hhangs]
  -- whoever stays, keeps its parent and is not the parent of the routine, is as before
  have hsame : ∀ a, ¬ s.HangsFrom id a → r.parent ≠ some a →
      (∀ x q, s.routines.find? a = some x → x.parent = some q → ¬ s.HangsFrom id q) →
      (s.free id).routines.find? a = s.routines.find? a := by
    intro a hout hnot hparents
    cases ha : s.routines.find? a with
    | none =>
      rw [Option.eq_none_iff_forall_ne_some]
      intro y hy
      obtain ⟨x, hx, -⟩ := remaining_free hl hid hy
      exact absurd (ha.symm.trans hx) (by simp)
    | some x =>
      rw [(parent_free hl hid ha hout).2 (hparents x · ha), if_neg hnot]
  refine ⟨hloop, freed, hnodup, hhangs, heq, fun a ha => ?_, ?_, ?_, ?_⟩
  · have hdead := ((hmem a).mp ha).2
    simpa [Roster.contains] using hdead
  · intro a ha x c hx hc hon
    have hup := (hhangs a).mp ha
    obtain ⟨y, hy, hparent⟩ := hl.child hx hc
    have hapart := fun d => hf.kept_apart (d := d) hup hy hparent hon
    have hnot : ∀ d, s.LeadsUp d c → r.parent ≠ some d := fun d hd hpar =>
      (hapart d hd).2 (.single ⟨r, hid, hpar⟩)
    refine ⟨y, hy, ?_, fun d hne hd => hsame d (hapart d hd).1 (hnot d hd) ?_⟩
    · rw [(parent_free hl hid hy (hapart c .refl).1).1 a hparent hup, if_neg (hnot c .refl)]
    · intro z q hz hq
      -- the way up leads on by way of the parent
      rcases Relation.ReflTransGen.cases_head hd with rfl | ⟨q', ⟨z', hz', hq'⟩, hrest⟩
      · exact absurd rfl hne
      · obtain rfl := Option.some.inj (hz.symm.trans hz')
        obtain rfl := Option.some.inj (hq.symm.trans hq')
        exact (hapart q hrest).1
  · intro q hq
    obtain ⟨x, hx, -⟩ := hl.parent_live hid hq
    refine ⟨x, hx, ?_⟩
    rw [(parent_free hl hid hx (hf.parent_stays hid hq)).2 ?_, if_pos hq]
    intro o ho hhangs
    -- that would be a way round
    exact (hf id r hid).not_below hid hq (hhangs.leadsUp_top.head ⟨x, hx, ho⟩)
  · intro a ha hnot hparents
    exact hsame a (mt (hhangs a).mpr ha) hnot fun x q hx hq => mt (hhangs q).mpr (hparents x q hx hq)

end Strand.Scheduler

namespace Strand

open Scheduler Machine Strand.Language

/-- When the root of `dropping` is freed, its body goes with it. -/
theorem free_takes_what_hangs_dropping : ∃ (s : Scheduler Code) (freed : List RoutineId),
    (after behavior 108 dropping).scheduler? 0 = some s ∧ Linked s.routines ∧ s.Forest ∧
      FreesAll [⟨0, 0⟩] s (s.free ⟨0, 0⟩) ∧ freed.Nodup ∧ ⟨0, 0⟩ ∈ freed ∧ ⟨1, 0⟩ ∈ freed := by
  obtain ⟨run, hrun⟩ : ∃ run, run = dropping := ⟨_, rfl⟩
  have hfamily : ((after behavior 108 run).scheduler? 0).map (fun s => (s.stack,
      [⟨0, 0⟩, ⟨1, 0⟩].map fun a => (s.routines.find? a).map Routine.parent)) =
        some ([], [some none, some (some ⟨0, 0⟩)]) := by
    rw [hrun]
    decide +kernel
  have hyoung : ((after behavior 108 run).scheduler? 0).map (fun s => s.routines.young) =
      some true := by
    rw [hrun]
    decide +kernel
  have hlater : Later behavior ⟨.empty, [], run.focus⟩ (after behavior 108 run) := by
    rw [hrun]
    exact Reaches.later (p := 0) ⟨108, rfl, rfl⟩
  obtain ⟨s, hs, hend⟩ := Option.map_eq_some_iff.mp hfamily
  rw [hs, Option.map_some, Option.some.injEq] at hyoung
  simp only [List.map_cons, List.map_nil, Prod.mk.injEq, List.cons.injEq, and_true,
    Option.map_eq_some_iff] at hend
  obtain ⟨hstack, ⟨x, hx, -⟩, y, hy, hbody⟩ := hend
  have hroom := Roster.ample_of_young hyoung
  have hreach : Reachable behavior (after behavior 108 run) := ⟨_, hlater⟩
  have hl := hreach.linked hs (hroom default).slots
  have hf := (hlater.accounted hs hroom).forest
  have hoff : s.onStack ⟨1, 0⟩ = false := by
    rw [Scheduler.onStack, hstack]
    rfl
  obtain ⟨hloop, freed, hnodup, hmem, -⟩ := free_takes_what_hangs hl hf hx
  rw [← hrun]
  exact ⟨s, freed, hs, hl, hf, hloop, hnodup, (hmem _).mpr (.top hx),
    (hmem _).mpr (.child (.top hx) hy hbody hoff)⟩

end Strand
