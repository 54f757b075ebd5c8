import Strand.Proofs.Reclamation
import Strand.Proofs.Reinstatement

/-! # Captives — routines off the stack that nobody puts back

    Routines that a shift has taken off the stack stay off it until their
    continuation is invoked, also when that has died: no other move puts them on
    the stack or has them stepped (`Captive`). So whatever happens to them comes
    from above, by way of their parents (`Stride.hangs`).

    Main results:

    * `LaterWhile.captive` and `Captive.unseen` — nobody steps them until their
      continuation is invoked;
    * `LaterWhile.adrift` and `Adrift.dead` — if they hang on nobody else, they are
      all freed once their continuation has died. -/

namespace Strand

variable {C R : Type}

open Scheduler

/-! ### What happens to a routine from above -/

namespace Scheduler

variable {s t : Scheduler C} {a c id q : RoutineId} {x : Routine C}

/-- A routine is still there, with the same parent. -/
def Stays (s t : Scheduler C) (a : RoutineId) : Prop :=
  ∃ x y, s.routines.find? a = some x ∧ t.routines.find? a = some y ∧ y.parent = x.parent

/-- If a routine is still there, it has the same parent. -/
def SameParent (s t : Scheduler C) (a : RoutineId) : Prop :=
  ∀ y, t.routines.find? a = some y → ∃ x, s.routines.find? a = some x ∧ y.parent = x.parent

theorem Stays.trans {u : Scheduler C} (h : Stays s t a) (h' : Stays t u a) : Stays s u a := by
  obtain ⟨x, y, hx, hy, hparent⟩ := h
  obtain ⟨y', z, hy', hz, hparent'⟩ := h'
  obtain rfl : y = y' := Option.some.inj (hy.symm.trans hy')
  exact ⟨x, z, hx, hz, hparent'.trans hparent⟩

theorem Stays.of_same (hx : s.routines.find? a = some x)
    (h : t.routines.find? a = s.routines.find? a) : Stays s t a :=
  ⟨x, x, hx, h.trans hx, rfl⟩

theorem Stays.live (h : Stays s t a) : ∃ y, t.routines.find? a = some y := by
  obtain ⟨-, y, -, hy, -⟩ := h
  exact ⟨y, hy⟩

theorem Stays.sameParent (h : Stays s t a) : SameParent s t a := by
  obtain ⟨x, y, hx, hy, hsame⟩ := h
  intro y' hy'
  obtain rfl : y = y' := Option.some.inj (hy.symm.trans hy')
  exact ⟨x, hx, hsame⟩

theorem SameParent.refl (s : Scheduler C) (a : RoutineId) : SameParent s s a :=
  fun y hy => ⟨y, hy, rfl⟩

theorem SameParent.trans {u : Scheduler C} (h : SameParent s t a) (h' : SameParent t u a) :
    SameParent s u a := by
  intro z hz
  obtain ⟨y, hy, hsame'⟩ := h' z hz
  obtain ⟨x, hx, hsame⟩ := h y hy
  exact ⟨x, hx, hsame'.trans hsame⟩

/-- Only on the stack a routine outlives its parent. -/
theorem sameParent_free (id : RoutineId) (hoff : s.onStack a = false) : SameParent s (s.free id) a := by
  intro y hy
  obtain ⟨x, hx, hparent, -⟩ := find?_of_free hy
  refine ⟨x, hx, hparent.resolve_right fun hcut => ?_⟩
  exact Bool.false_ne_true (hoff.symm.trans hcut.2)

theorem sameParent_frees (ids : List RoutineId) (hoff : s.onStack a = false) :
    SameParent s (ids.foldl free s) a := by
  induction ids generalizing s with
  | nil => exact .refl s a
  | cons id ids ih =>
    refine (sameParent_free id hoff).trans (ih ?_)
    rw [onStack, (shrunk_free s id).work.stack]
    exact hoff

theorem sameParent_freeUnclaimed (hoff : s.onStack a = false) :
    SameParent s s.freeUnclaimed.2 a := by
  intro y hy
  obtain ⟨x, hx, hparent⟩ := find?_of_freeUnclaimed hy
  refine ⟨x, hx, hparent.resolve_right fun hcut => ?_⟩
  exact Bool.false_ne_true (hoff.symm.trans hcut.2)

theorem sameParent_suspend (hoff : s.onStack a = false) (hne : a ≠ id) (script : Script C) :
    SameParent s (s.suspend id script) a := by
  have hfreed : SameParent s ((s.retire script).free id) a :=
    sameParent_free (s := s.retire script) id hoff
  unfold suspend
  split
  · next r hr =>
    split
    · have hsame : (s.giveBack id script).routines.find? a = s.routines.find? a := by
        rw [giveBack_of_live hr]
        exact (Roster.find?_modify _ _ _ _).trans (if_neg hne)
      exact fun y hy => ⟨y, hsame.symm.trans hy, rfl⟩
    · exact hfreed
  · exact hfreed

/-- A new routine makes no difference to those that are live. -/
theorem stays_addUnder (hs : s.routines.Sound) (hx : s.routines.find? a = some x) (origin : Origin)
    (script : Script C) {parent : Option RoutineId}
    (hroom : (s.addUnder origin script parent).2.routines.slots.size ≤ 2 ^ 32)
    (hne : parent ≠ some s.fresh) : Stays s (s.addUnder origin script parent).2 a := by
  obtain ⟨hdead, hfind⟩ := find?_addUnder hs origin script hroom hne
  have ha : a ≠ s.fresh := by
    rintro rfl
    exact absurd (hdead.symm.trans hx) (by simp)
  have hfind' := hfind a
  rw [if_neg ha, hx] at hfind'
  exact ⟨x, _, hx, hfind', rfl⟩

theorem stays_plant (hl : Linked s.routines) (hx : s.routines.find? a = some x)
    (frames : List (FrameCopy C)) (copies : List (Script C))
    (hroom : ∀ a, (s.plant frames copies).2.routines.Ample a) :
    Stays s (s.plant frames copies).2 a := by
  have hcopies : (addCopies (frames.zip copies) s).2.routines.slots.size ≤ 2 ^ 32 :=
    ((hroom default).of_grows
      (closed_links (Roster.closed_grows _).steady (.refl _) _ _)).slots
  obtain ⟨-, -, hold, -⟩ := Linked.addCopies hl (frames.zip copies) hcopies
  obtain ⟨hfound, hnot⟩ := hold a x hx
  obtain ⟨y, hy, -, hparent⟩ := (find?_links (addCopies (frames.zip copies) s).1
    (frames.zip (addCopies (frames.zip copies) s).1) _).1 a x hfound
  refine ⟨x, y, hx, hy, hparent fun pair hmem heq => hnot ?_⟩
  rw [heq]
  exact (List.of_mem_zip hmem).2

/-- A routine that is made to exit leaves those alone that are not its children. -/
theorem stays_scheduleExit {loose : List RoutineId} (hl : LinkedBut loose s.routines)
    (hroom : s.routines.slots.size ≤ 2 ^ 32) (hx : s.routines.find? a = some x) (hne : a ≠ c)
    (hparent : x.parent ≠ some c) : Stays s (s.scheduleExit c) a := by
  cases hc : s.routines.find? c with
  | none =>
    rw [scheduleExit_of_dead hc]
    exact .of_same hx rfl
  | some r =>
    have hnot : a ∉ r.children := hl.notMem_children hc hx hparent
    cases hscript : r.script with
    | none =>
      obtain ⟨routines, hr⟩ := Roster.remove_of_find? hc
      rw [scheduleExit_of_out hr hscript]
      have hfind := find?_cutAll r.children { s with routines } a
      rw [Roster.find?_remove hr a, if_neg hne, hx] at hfind
      refine ⟨x, _, hx, hfind, ?_⟩
      simp [hnot]
    | some script =>
      have hnext : a ≠ c.next := by
        rintro rfl
        exact absurd ((Roster.find?_next hc).symm.trans hx) (by simp)
      have hfind := find?_scheduleExit hl.sound hroom hc hscript
        (fun d hd => (hl.child hc hd).imp fun _ h => h.1) a
      rw [if_neg hnext, if_neg hne, hx] at hfind
      refine ⟨x, _, hx, hfind, ?_⟩
      simp [hnot]

theorem stays_scheduleExits {kept : Routine C} (hroot : kept.parent = none) (cs : List RoutineId)
    (hl : LinkedBut cs s.routines) (hroom : s.routines.slots.size ≤ 2 ^ 32) (hnodup : cs.Nodup)
    (hkept : s.routines.find? id.next = some kept)
    (hparents : ∀ d ∈ cs, d = id ∨ ∃ y, s.routines.find? d = some y ∧ y.parent = some id)
    (hx : s.routines.find? a = some x) (hnot : a ∉ cs) (hparent : ∀ c ∈ cs, x.parent ≠ some c) :
    Stays s (cs.foldl Scheduler.scheduleExit s) a := by
  induction cs generalizing s x with
  | nil => exact .of_same hx rfl
  | cons c cs ih =>
    rw [List.mem_cons, not_or] at hnot
    rw [List.forall_mem_cons] at hparent
    obtain ⟨hnodup, hnodup'⟩ := List.nodup_cons.mp hnodup
    obtain ⟨hl', hslots, hkept', hparents'⟩ :=
      hl.scheduleExit hroom hnodup hkept hroot hparents
    obtain ⟨x', y, hx', hy, hsame⟩ := stays_scheduleExit hl hroom hx hnot.1 hparent.1
    obtain rfl : x = x' := Option.some.inj (hx.symm.trans hx')
    exact .trans ⟨x, y, hx, hy, hsame⟩ (ih hl' (hslots ▸ hroom) hnodup' hkept' hparents' hy hnot.2
      (by rw [hsame]; exact hparent.2))

/-- Whoever stays when a routine finishes: all but the routine, its children and
    theirs. -/
theorem stays_conclude (hl : Linked s.routines) (hroom : s.routines.slots.size ≤ 2 ^ 32)
    (hx : s.routines.find? a = some x) (hne : a ≠ id)
    (hparent : ∀ q, x.parent = some q → q ≠ id ∧ ¬ s.ParentOf id q) (script : Script C)
    (o : Outcome Value) : Stays s (s.conclude id script o) a := by
  cases hr : s.routines.find? id with
  | none =>
    rw [conclude_of_dead hr]
    exact .of_same hx rfl
  | some r =>
    by_cases hnone : r.children = []
    · obtain ⟨-, -, -, -, hfind⟩ := conclude_childless_spec hl.sound hr hnone script o
      have hfind' := hfind a
      rw [if_neg hne, hx] at hfind'
      exact ⟨x, _, hx, hfind', rfl⟩
    · obtain ⟨routines, hremoved⟩ := Roster.remove_of_find? hr
      obtain ⟨hfirst, -, -, -, -, -, hfind⟩ := keptBack_spec hl.sound hroom hremoved script o
      obtain ⟨hloose, hslots, hkept, hparents⟩ := hl.keptBack hroom hremoved script o
      have hnext : a ≠ id.next := by
        rintro rfl
        exact absurd ((Roster.find?_next hr).symm.trans hx) (by simp)
      have hfind' := hfind a
      rw [if_neg hnext, if_neg hne, hx] at hfind'
      have hchild : a ∉ r.children := fun hmem => by
        obtain ⟨y, hy, hid⟩ := hl.child hr hmem
        obtain rfl : x = y := Option.some.inj (hx.symm.trans hy)
        exact (hparent id hid).1 rfl
      rw [conclude_of_children hremoved hnone, hfirst]
      obtain ⟨x', y, hx', hy, hsame⟩ := stays_scheduleExits
        (s := (s.keptBack id r routines script o).2.push (.routine id.next)) rfl r.children hloose
        hslots (hl.nodup hr) hkept hparents hfind' hchild fun c hc heq => by
          obtain ⟨y, hy, hid⟩ := hl.child hr hc
          exact (hparent c heq).2 ⟨y, hy, hid⟩
      obtain rfl := Option.some.inj (hx'.symm.trans hfind')
      exact ⟨x, y, hx, hy, hsame⟩

end Scheduler

/-! ### Captives -/

/-- Routine `a` is off the stack and not in hand, and no continuation but `k`
    remembers it. -/
structure Captive (k : Nat) (a : RoutineId) (x : Status C) : Prop where
  issued : x.scheduler.routines.Issued a
  stack : a ∉ routinesOf x.scheduler.stack
  handed : a ∉ x.stage.handed
  others : ∀ j, j ≠ k → a ∉ originals (x.captures j)

section Stride

variable {p k : Nat} {x y : Status C} {σ σ' : PassStage C} {s s' : Scheduler C}
  {t t' : Nat → Option (Snapshot C)} {a id : RoutineId}

theorem Captive.onStack (h : Captive k a x) : x.scheduler.onStack a = false := by
  refine Bool.eq_false_iff.mpr fun hon => h.stack ?_
  exact List.mem_filterMap.mpr ⟨.routine a, by simpa [Scheduler.onStack] using hon, rfl⟩

/-- Only new routines are put on the stack. -/
theorem Captive.kept (h : Captive k a ⟨σ, s, t⟩) (hedits : Edits s s') {new : List RoutineId}
    (hnew : New s s' new)
    (hplaces : a ∈ routinesOf s'.stack ++ σ'.handed → a ∈ routinesOf s.stack ++ σ.handed ++ new) :
    Captive k a ⟨σ', s', t⟩ := by
  have hnone : a ∉ routinesOf s'.stack ++ σ'.handed := fun hmem => by
    rcases List.mem_append.mp (hplaces hmem) with hmem | hmem
    · exact (List.mem_append.mp hmem).elim h.stack h.handed
    · exact hnew.fresh a hmem h.issued
  rw [List.mem_append, not_or] at hnone
  exact ⟨hedits.issued h.issued, hnone.1, hnone.2, h.others⟩

/-- What a continuation remembers goes to the stack at most. -/
theorem Captive.recalled (h : Captive k a ⟨σ, s, t⟩) {j : Nat} {after : Option (Snapshot C)}
    (hafter : j ≠ k → a ∉ originals after) (hissued : s'.routines.Issued a)
    (hstack : a ∈ routinesOf s'.stack → a ∈ routinesOf s.stack)
    (hhanded : a ∈ σ'.handed → a ∈ σ.handed) :
    Captive k a ⟨σ', s', Function.update t j after⟩ := by
  refine ⟨hissued, fun hmem => h.stack (hstack hmem), fun hmem => h.handed (hhanded hmem),
    fun i hi => ?_⟩
  show a ∉ originals (Function.update t j after i)
  by_cases hij : i = j
  · subst hij
    rw [Function.update_self]
    exact hafter hi
  · rw [Function.update_of_ne hij]
    exact h.others i hi

/-- What is lifted has been on the stack, or is the routine that is stepped. -/
theorem Captive.lifted {frames : List (Lifted C)} {script : Script C}
    (h : Captive k a ⟨.stepping id, s, t⟩) (hlift : (s.shelve id script).lift = (frames, s')) :
    Captive k a ⟨.capturing id frames, s'.told, t⟩ := by
  have hedits := edits_lift (s.shelve id script)
  rw [hlift] at hedits
  have hcount := count_lift hlift a
  have hshelved : (routinesOf (s.shelve id script).stack).count a = 0 := by
    refine List.count_eq_zero.mpr fun hmem => ?_
    unfold shelve at hmem
    split at hmem
    · have hmem' : a ∈ routinesOf (.routine id :: (s.giveBack id script).stack) := hmem
      rw [stack_giveBack, routinesOf_routine] at hmem'
      exact (List.mem_cons.mp hmem').elim (List.ne_of_not_mem_cons h.handed) h.stack
    · exact h.stack hmem
  refine h.kept (((edits_shelve s id script).trans hedits).trans (.idle rfl)) (.nil _ _)
    fun hmem => ?_
  have hpos : 0 < (routinesOf s'.stack ++ frames.map Lifted.id).count a :=
    List.count_pos_iff.mpr hmem
  rw [List.count_append] at hpos
  omega

/-- A fresh routine is put on the stack. -/
theorem Captive.spawned (h : Captive k a ⟨σ, s, t⟩) (hl : Linked s.routines) (origin : Origin)
    (script : Script C) (hroom : ∀ a, (s.scheduleChild origin script id).routines.Ample a) :
    Captive k a ⟨.sweeping, (s.scheduleChild origin script id).told, t⟩ := by
  have hnew : New s (s.scheduleChild origin script id).told [(s.add origin script).1] :=
    .singleton hl.sound origin script
      (closed_link (Roster.closed_grows _).steady (.refl _) _ (some id))
      (fun a ha => closed_link (Roster.closed_issued a).steady ha _ (some id)) hroom
  refine h.kept ((edits_scheduleChild s origin script id).trans (.idle rfl)) hnew fun hmem => ?_
  have hstack : (s.scheduleChild origin script id).told.stack =
      .routine (s.add origin script).1 :: s.stack := congrArg _ (stack_link _ _ _)
  rw [hstack] at hmem
  simp only [routinesOf_routine, PassStage.handed, List.append_nil, List.mem_cons] at hmem
  simp only [List.mem_append, List.mem_singleton]
  tauto

theorem Captive.shelved (h : Captive k a ⟨.stepping id, s, t⟩) (script : Script C) :
    Captive k a ⟨.building id, s.shelve id script, t⟩ := by
  refine h.kept (edits_shelve s id script) (.nil _ _) fun hmem => ?_
  unfold shelve at hmem
  split at hmem
  · have hmem' : a ∈ routinesOf (.routine id :: (s.giveBack id script).stack) ++ [] := hmem
    rw [stack_giveBack, routinesOf_routine] at hmem'
    simp only [List.mem_cons, List.append_nil] at hmem'
    simp only [PassStage.handed, List.mem_append, List.mem_singleton, List.append_nil]
    tauto
  · simp only [PassStage.handed, List.append_nil] at hmem
    exact List.mem_append_left _ (List.mem_append_left _ hmem)

theorem stack_leave (s : Scheduler C) (panicking : Bool) (h : s.stack = []) :
    (s.leave panicking).stack = [] := by
  cases panicking with
  | true => exact (leave_spec s).1
  | false => exact h

/-- No move but the invocation of its continuation brings a captive back. -/
theorem Stride.captive (h : Stride p x y) (hc : Captive k a x) (hl : Linked x.scheduler.routines)
    (hroom : ∀ a, y.scheduler.routines.Ample a)
    (hk : ∀ snapshot ids, x.captures k = some snapshot → snapshot.routines = some ids →
      y.captures k ≠ some { snapshot with routines := none }) : Captive k a y := by
  have hsame : ∀ {σ : PassStage C} {s s' : Scheduler C} {t : Nat → Option (Snapshot C)},
      Captive k a ⟨σ, s, t⟩ → s'.routines = s.routines →
      routinesOf s'.stack = routinesOf s.stack → Captive k a ⟨σ, s', t⟩ := by
    intro σ s s' t hc hroutines hstack
    have hissued : s'.routines.Issued a := by rw [hroutines]; exact hc.issued
    have hoff : a ∉ routinesOf s'.stack := by rw [hstack]; exact hc.stack
    exact ⟨hissued, hoff, hc.handed, hc.others⟩
  -- what the continuation that is invoked remembers is not the captive
  have hclaim : ∀ {t : Nat → Option (Snapshot C)} {j : Nat} {snapshot : Snapshot C}
      {ids : List RoutineId}, (∀ i, i ≠ k → a ∉ originals (t i)) → t j = some snapshot →
      snapshot.routines = some ids →
      (j = k → Function.update t j (some { snapshot with routines := none }) k ≠
        some { snapshot with routines := none }) → a ∉ ids := by
    intro t j snapshot ids hothers hj hids hk hmem
    by_cases hjk : j = k
    · subst hjk
      exact hk rfl (Function.update_self ..)
    · refine hothers j hjk ?_
      rw [hj, originals, Option.bind_some, hids]
      exact hmem
  cases h with
  | still => exact hc
  | note σ s t unhandled => exact hsame hc rfl rfl
  | @pick s s' id script h t =>
    obtain ⟨passed, hstack, -⟩ := pickFrom_passes h
    have hedits := edits_pickFrom s.stack s
    rw [← Scheduler.pick, h] at hedits
    have hid : id ∈ routinesOf s.stack := by
      rw [hstack, routinesOf_append, routinesOf_routine]
      exact List.mem_append_right _ (List.mem_cons_self ..)
    refine hc.kept (hedits.trans (.idle rfl)) (.nil _ _) fun hmem => ?_
    rcases List.mem_append.mp hmem with hmem | hmem
    · refine List.mem_append_left _ (List.mem_append_left _ ?_)
      rw [hstack, routinesOf_append, routinesOf_routine]
      exact List.mem_append_right _ (List.mem_cons_of_mem _ hmem)
    · obtain rfl := List.mem_singleton.mp hmem
      exact List.mem_append_left _ (List.mem_append_left _ hid)
  | @leave s s' h unwinding t =>
    have hedits := edits_pickFrom s.stack s
    rw [← Scheduler.pick, h] at hedits
    have hempty : ({ s' with register := .unit }.leave unwinding).stack = [] :=
      stack_leave _ unwinding (stack_of_pickFrom_none (t := s') h)
    have hset : Edits s' { s' with register := .unit } := .idle rfl
    have hleft := hset.trans (edits_leave { s' with register := .unit } unwinding)
    have htold : Edits ({ s' with register := .unit }.leave unwinding)
      ({ s' with register := .unit }.leave unwinding).told := .idle rfl
    refine hc.kept ((hedits.trans hleft).trans htold) (.nil _ _) fun hmem => ?_
    have hmem' : a ∈ routinesOf ({ s' with register := .unit }.leave unwinding).stack ++ [] := hmem
    rw [hempty] at hmem'
    cases hmem'
  | fail h s t =>
    refine hc.kept (.refl s) (.nil _ _) fun hmem => ?_
    rw [PassStage.handed.eq_def, List.append_nil] at hmem
    exact List.mem_append_left _ (List.mem_append_left _ hmem)
  | abandon s t =>
    refine hc.kept ((edits_leave s true).trans (.idle rfl)) (.nil _ _) fun hmem => ?_
    have hmem' : a ∈ routinesOf (s.leave true).stack ++ [] := hmem
    rw [(leave_spec s).1] at hmem'
    cases hmem'
  | @sweep σ σ' s h h' t =>
    have hhanded : σ'.handed = σ.handed := by
      rcases h' with rfl | ⟨rfl, rfl⟩ <;> rfl
    refine hc.kept ((edits_freeUnclaimed s).trans (.idle rfl)) (.nil _ _) fun hmem => ?_
    have hstack : s.freeUnclaimed.2.stack = s.stack := (freeUnclaimed_spec hl).1.shrunk.work.stack
    have hmem' : a ∈ routinesOf s.freeUnclaimed.2.stack ++ σ'.handed := hmem
    rw [hstack, hhanded] at hmem'
    exact List.mem_append_left _ hmem'
  | conclude s id script o t =>
    obtain ⟨new, hnew, hstack⟩ := New.conclude hl id script o hroom
    refine hc.kept ((edits_conclude s id script o).trans (.idle rfl))
      ⟨hnew.nodup, hnew.fresh, hnew.issued⟩ fun hmem => ?_
    have hmem' : a ∈ routinesOf (s.conclude id script o).stack ++ [] := hmem
    rw [hstack] at hmem'
    simp only [List.append_nil, List.mem_append] at hmem' ⊢
    tauto
  | suspend s id script t =>
    refine hc.kept ((edits_suspend s id script).trans (.idle rfl)) (.nil _ _) fun hmem => ?_
    have hmem' : a ∈ routinesOf (s.suspend id script).stack ++ [] := hmem
    rw [stack_suspend, List.append_nil] at hmem'
    exact List.mem_append_left _ (List.mem_append_left _ hmem')
  | reset s id script t => exact hsame (hc.shelved script) rfl rfl
  | splice s id script nested t =>
    have hgrows := (edits_scheduleChild (s.shelve id script).told .splice nested id).grows
    have hshelved : Captive k a ⟨.building id, (s.shelve id script).told, t⟩ :=
      hsame (hc.shelved script) rfl rfl
    exact hshelved.spawned ((edits_shelve s id script).linked hl
      ((hroom default).of_grows hgrows).slots) .splice nested hroom
  | build s id origin script t => exact hc.spawned hl origin script hroom
  | lift h t => exact hc.lifted h
  | @liftNothing s s' id script j t h hj =>
    have hlifted := hc.lifted h
    exact hlifted.recalled (fun _ => List.not_mem_nil) hlifted.issued (fun hmem => hmem)
      fun hmem => hmem
  | @capture s id frames copies j t hj =>
    refine hc.recalled (fun _ => hc.handed)
      (((edits_giveBackAll s frames).trans (.idle rfl)).issued hc.issued) (fun hmem => ?_)
      fun hmem => by cases hmem
    have hmem' : a ∈ routinesOf (s.giveBackAll frames).stack := hmem
    rwa [stack_giveBackAll] at hmem'
  | root s script t =>
    have hstack : (s.scheduleRoot script).stack = .routine (s.add .root script).1 :: s.stack :=
      congrArg (StackEntry.routine (s.add .root script).1 :: ·)
        (stack_link (s.add .root script).2 (s.add .root script).1 none)
    have hnew : New s { (s.scheduleRoot script).told with running := true }.told
        [(s.add .root script).1] :=
      .singleton hl.sound .root script (closed_link (Roster.closed_grows _).steady (.refl _) _ none)
        (fun a ha => closed_link (Roster.closed_issued a).steady ha _ none) hroom
    refine hc.kept ((edits_scheduleRoot s script).trans (.idle rfl)) hnew fun hmem => ?_
    have hmem' : a ∈ routinesOf (s.scheduleRoot script).stack ++ [] := hmem
    rw [hstack] at hmem'
    simp only [routinesOf_routine, List.append_nil, List.mem_cons] at hmem'
    simp only [List.mem_append, List.mem_singleton]
    tauto
  | @queue σ s h j v t =>
    have hnew : New s (s.queue j v).told [(s.add .reenter (.reentry j (some v))).1] :=
      .singleton hl.sound _ _ (.refl _) (fun _ h => h) hroom
    refine hc.kept ((edits_queue s j v).trans (.idle rfl)) hnew fun hmem => ?_
    have hmem' : a ∈ routinesOf (.routine (s.add .reenter (.reentry j (some v))).1 :: s.stack) ++
        σ.handed := hmem
    simp only [routinesOf_routine, List.cons_append, List.mem_cons, List.mem_append] at hmem'
    simp only [List.mem_append, List.mem_singleton]
    tauto
  | @reenter s h j v t =>
    have hnew : New s { s.queue j v with register := .success v, running := true }.told
        [(s.add .reenter (.reentry j (some v))).1] :=
      .singleton hl.sound _ _ (.refl _) (fun _ h => h) hroom
    refine hc.kept ((edits_queue s j v).trans (.idle rfl)) hnew fun hmem => ?_
    have hmem' : a ∈ routinesOf (.routine (s.add .reenter (.reentry j (some v))).1 :: s.stack) ++
        [] := hmem
    simp only [routinesOf_routine, List.append_nil, List.mem_cons] at hmem'
    simp only [List.mem_append, List.mem_singleton]
    tauto
  | @reinstate σ s j snapshot ids t hj hids hlive v =>
    refine hc.recalled (fun _ => List.not_mem_nil) hc.issued (fun hmem => ?_) fun hmem => hmem
    have hpos : 0 < (routinesOf (s.reinstate ids v).stack).count a := List.count_pos_iff.mpr hmem
    rw [count_reinstate, List.count_eq_zero.mpr (hclaim hc.others hj hids fun hjk => by
      subst hjk
      exact hk snapshot ids hj hids)] at hpos
    exact List.count_pos_iff.mp (by omega)
  | claim hj hgone =>
    exact hc.recalled (fun _ => List.not_mem_nil) hc.issued (fun hmem => hmem) fun hmem => hmem
  | @plant σ s s' j snapshot copies ids t hj h v =>
    have hs' : (s.plant snapshot.frames copies).2 = s' := congrArg Prod.snd h
    have hids : (s.plant snapshot.frames copies).1 = ids := congrArg Prod.fst h
    subst hs' hids
    have hnew := New.plant hl.sound snapshot.frames copies hroom
    refine hc.kept ((edits_plant s snapshot.frames copies).trans (.idle rfl))
      ⟨hnew.nodup, hnew.fresh, hnew.issued⟩ fun hmem => ?_
    have hpos : 0 < (routinesOf ((s.plant snapshot.frames copies).2.told.reinstate
        (s.plant snapshot.frames copies).1 v).stack ++ σ.handed).count a :=
      List.count_pos_iff.mpr hmem
    rw [List.count_append, count_reinstate, told, stack_plant] at hpos
    refine List.count_pos_iff.mp ?_
    rw [List.count_append, List.count_append]
    dsimp only at hpos ⊢
    omega
  | @plantNothing σ s j snapshot t hj hnone hgone v =>
    refine hc.recalled (fun _ => List.not_mem_nil) hc.issued (fun hmem => ?_) fun hmem => hmem
    have hpos : 0 < (routinesOf (s.told.reinstate [] v).stack).count a := List.count_pos_iff.mpr hmem
    rw [count_reinstate, List.count_nil, Nat.zero_add] at hpos
    exact List.count_pos_iff.mp hpos
  | unclaim s hj hids =>
    exact hc.recalled (fun _ => List.not_mem_nil) hc.issued (fun hmem => hmem) fun hmem => hmem
  | forget s hj hnone =>
    exact hc.recalled (fun _ => List.not_mem_nil) hc.issued (fun hmem => hmem) fun hmem => hmem

/-- A routine that is stepped finishes, and is the parent of `a` or of that. -/
def EndsAbove (x y : Status C) (a : RoutineId) : Prop :=
  ∃ id q, x.stage = .stepping id ∧ x.scheduler.ParentOf q a ∧
    (q = id ∨ x.scheduler.ParentOf id q) ∧ y.scheduler.routines.find? q = none

theorem sameParent_leave (s : Scheduler C) (a : RoutineId) (panicking : Bool) :
    SameParent s (s.leave panicking) a := by
  cases panicking with
  | false => exact .refl s a
  | true =>
    exact sameParent_frees (s := { { s with running := false } with stack := [], current := none }.report
      (.abandoning (s.stack.reverse.filterMap StackEntry.routine? ++ s.current.toList).length)) _ rfl

/-- Shelving changes no entry but the one of the routine that is stepped. -/
theorem stays_shelve {r : Routine C} (hne : a ≠ id) (hx : s.routines.find? a = some r)
    (script : Script C) : Stays s (s.shelve id script) a := by
  refine .of_same hx ?_
  cases hid : s.routines.find? id with
  | none =>
    have hdead : ¬ s.routines.contains id = true := fun hlive => by
      obtain ⟨z, hz⟩ := Roster.contains_iff.mp hlive
      exact absurd (hid.symm.trans hz) (by simp)
    rw [shelve, if_neg hdead]
    rfl
  | some z =>
    rw [shelve_of_live hid]
    exact (Roster.find?_modify _ _ _ _).trans (if_neg hne)

theorem stays_scheduleChild {r : Routine C} (hl : Linked s.routines) (hid : s.routines.Issued id)
    (hx : s.routines.find? a = some r) (origin : Origin) (script : Script C)
    (hroom : ∀ a, (s.scheduleChild origin script id).routines.Ample a) :
    Stays s (s.scheduleChild origin script id) a := by
  have hgrows : Roster.Grows (s.add origin script).2.routines
      (s.scheduleChild origin script id).routines :=
    closed_link (Roster.closed_grows _).steady (.refl _) _ (some id)
  have hne := hl.sound.ne_insert_fst hid ⟨origin, some script, none, []⟩
    ((hroom id).of_grows hgrows)
  rw [s.insert_fst] at hne
  have hstays : Stays s (s.addUnder origin script (some id)).2 a :=
    stays_addUnder hl.sound hx origin script (hroom default).slots
      fun heq => hne (Option.some.inj heq)
  exact hstays

theorem stays_add {r : Routine C} (hl : Linked s.routines) (hx : s.routines.find? a = some r)
    (origin : Origin) (script : Script C) (hroom : ∀ a, (s.add origin script).2.routines.Ample a) :
    Stays s (s.add origin script).2 a := by
  have hne := hl.sound.ne_insert_fst (Roster.issued_of_find? hx) ⟨origin, some script, none, []⟩
    (hroom a)
  refine .of_same hx ?_
  exact (hl.sound.find?_insert ⟨origin, some script, none, []⟩ (hroom default).slots a).trans
    (if_neg hne)

theorem find?_giveBackAll (frames : List (Lifted C)) (s : Scheduler C)
    (hnot : a ∉ frames.map Lifted.id) :
    (s.giveBackAll frames).routines.find? a = s.routines.find? a := by
  induction frames generalizing s with
  | nil => rfl
  | cons f frames ih =>
    rw [List.map_cons, List.mem_cons, not_or] at hnot
    refine (ih (s.giveBack f.id f.script) hnot.2).trans ?_
    unfold giveBack
    split
    · exact (Roster.find?_modify _ _ _ _).trans (if_neg hnot.1)
    · rfl

/-- A pass is left with nothing on the stack. -/
theorem sameParent_left (h : s.pick = (none, s')) (unwinding : Bool) (a : RoutineId) :
    SameParent s ({ s' with register := .unit }.leave unwinding) a := by
  have hsame : s'.routines.find? a = s.routines.find? a :=
    (pickFrom_others h).2 a fun _ heq => by cases heq
  intro y hy
  obtain ⟨x, hx, hparent⟩ := sameParent_leave { s' with register := .unit } a unwinding y hy
  exact ⟨x, hsame.symm.trans hx, hparent⟩

/-- A routine finishes: a captive stays, unless its parent is the routine or a child
    of it. -/
theorem stays_concluded {r : Routine C} (hl : Linked s.routines)
    (hx : s.routines.find? a = some r) (hne : a ≠ id) (script : Script C) (o : Outcome Value)
    (hroom : ∀ a, (s.conclude id script o).routines.Ample a) :
    Stays s (s.conclude id script o) a ∨
      ∃ q, s.ParentOf q a ∧ (q = id ∨ s.ParentOf id q) ∧
        (s.conclude id script o).routines.find? q = none := by
  have hslots : s.routines.slots.size ≤ 2 ^ 32 :=
    ((hroom default).of_grows (edits_conclude s id script o).grows).slots
  by_cases hends : ∃ q, r.parent = some q ∧ (q = id ∨ s.ParentOf id q)
  · obtain ⟨q, hq, habove⟩ := hends
    refine Or.inr ⟨q, ⟨r, hx, hq⟩, habove, ?_⟩
    have hample := hroom q
    rcases habove with rfl | ⟨z, hz, hparent⟩
    · exact find?_conclude_self hl.sound script o hample
    · obtain ⟨w, hw, hmem⟩ := hl.parent_live hz hparent
      by_cases hself : q = id
      · exact hself ▸ find?_conclude_self hl.sound script o (hself ▸ hample)
      · exact Roster.find?_of_vacated hz (hl.vacated_conclude hslots hw hmem hself script o)
          (Nat.lt_of_lt_of_le hample.vacated (Nat.le_add_left ..))
  · refine Or.inl (stays_conclude hl hslots hx hne (fun q hq => ?_) script o)
    rw [← not_or]
    exact fun habove => hends ⟨q, hq, habove⟩

/-- As long as it is live a captive has the same parent, unless a routine finishes
    above it. -/
theorem Stride.hangs (h : Stride p x y) (hc : Captive k a x) (hl : Linked x.scheduler.routines)
    (hagrees : x.stage.Agrees x.scheduler)
    (hissued : ∀ a, x.scheduler.current = some a → x.scheduler.routines.Issued a)
    (hroom : ∀ a, y.scheduler.routines.Ample a) {r : Routine C}
    (hx : x.scheduler.routines.find? a = some r) :
    SameParent x.scheduler y.scheduler a ∨ EndsAbove x y a := by
  have hoff := hc.onStack
  cases h with
  | still | note | fail | reinstate | claim | plantNothing | unclaim | forget =>
    exact Or.inl (Stays.of_same hx rfl).sameParent
  | @pick s s' id script h t =>
    obtain ⟨passed, hstack, -⟩ := pickFrom_passes h
    have hne : ∀ script', (some (id, script) : Option (RoutineId × Script C)) ≠ some (a, script') := by
      intro script' heq
      have hid : id = a := congrArg Prod.fst (Option.some.inj heq)
      refine hc.stack (hid ▸ ?_)
      show id ∈ routinesOf s.stack
      rw [hstack, routinesOf_append, routinesOf_routine]
      exact List.mem_append_right _ (List.mem_cons_self ..)
    exact Or.inl (Stays.of_same hx ((pickFrom_others h).2 a hne)).sameParent
  | @leave s s' h unwinding t => exact Or.inl (sameParent_left h unwinding a)
  | abandon s t => exact Or.inl (sameParent_leave s a true)
  | @sweep σ σ' s h h' t => exact Or.inl (sameParent_freeUnclaimed hoff)
  | suspend s id script t =>
    exact Or.inl (sameParent_suspend hoff (List.ne_of_not_mem_cons hc.handed) script)
  | conclude s id script o t =>
    rcases stays_concluded hl hx (List.ne_of_not_mem_cons hc.handed) script o hroom with
      hstays | ⟨q, hparent, habove, hgone⟩
    · exact Or.inl hstays.sameParent
    · exact Or.inr ⟨id, q, rfl, hparent, habove, hgone⟩
  | reset s id script t =>
    exact Or.inl (stays_shelve (List.ne_of_not_mem_cons hc.handed) hx script).sameParent
  | splice s id script nested t =>
    have hstays := stays_shelve (List.ne_of_not_mem_cons hc.handed) hx script
    obtain ⟨z, hz⟩ := hstays.live
    have hgrows := (edits_scheduleChild (s.shelve id script).told .splice nested id).grows
    have hedits := edits_shelve s id script
    refine Or.inl (hstays.trans ?_).sameParent
    exact stays_scheduleChild (s := (s.shelve id script).told)
      (hedits.linked hl ((hroom default).of_grows hgrows).slots)
      (hedits.issued (hissued id (congrArg Prod.snd hagrees))) hz .splice nested hroom
  | build s id origin script t =>
    exact Or.inl (stays_scheduleChild hl (hissued id (congrArg Prod.snd hagrees)) hx origin
      script hroom).sameParent
  | @lift s s' id script frames h t =>
    have hlifted := hc.lifted h
    have hstays := stays_shelve (List.ne_of_not_mem_cons hc.handed) hx script
    obtain ⟨z, hz⟩ := hstays.live
    exact Or.inl (hstays.trans (.of_same hz (lift_others h hlifted.handed).2.1)).sameParent
  | @liftNothing s s' id script j t h hj =>
    have hlifted := hc.lifted h
    have hstays := stays_shelve (List.ne_of_not_mem_cons hc.handed) hx script
    obtain ⟨z, hz⟩ := hstays.live
    exact Or.inl (hstays.trans (.of_same hz (lift_others h hlifted.handed).2.1)).sameParent
  | capture s id frames copies hj =>
    exact Or.inl (Stays.of_same hx (find?_giveBackAll frames s hc.handed)).sameParent
  | root s script t =>
    have hstays : Stays s (s.addUnder .root script none).2 a :=
      stays_addUnder hl.sound hx .root script (hroom default).slots (by simp)
    exact Or.inl (Stays.sameParent hstays)
  | @queue σ s h j v t =>
    have hstays := stays_add hl hx .reenter (.reentry j (some v)) hroom
    exact Or.inl (Stays.sameParent hstays)
  | @reenter s h j v t =>
    have hroom' : ∀ a, (s.add .reenter (.reentry j (some v))).2.routines.Ample a := hroom
    have hstays := stays_add hl hx .reenter (.reentry j (some v)) hroom'
    exact Or.inl (Stays.sameParent hstays)
  | @plant σ s s' j snapshot copies ids t hj h v =>
    have hs' : (s.plant snapshot.frames copies).2 = s' := congrArg Prod.snd h
    have hroom' : ∀ a, s'.routines.Ample a := hroom
    have hstays : Stays s s' a := by
      rw [← hs'] at hroom' ⊢
      exact stays_plant hl hx snapshot.frames copies hroom'
    exact Or.inl (Stays.sameParent hstays)

end Stride

/-! ### Along a run -/

namespace Machine

variable {B : Behavior C R} {p k : Nat} {m n m₀ : Machine C R} {s s₀ : Scheduler C}
  {fs : List RoutineId} {a : RoutineId}

/-- A pass shows what it does with a routine while it steps it. -/
theorem Reachable.stage_of_event (h : Reachable B m) (hs : m.scheduler? p = some s)
    {e : PassEvent C} (he : m.event? p = some e) : m.stage p = .stepping e.id := by
  have hstacked := (h.ordered hs).1.stacked
  -- above the step there are at most a forced return and what it holds
  have hstage : ∀ {id : RoutineId} {rest : List (Frame C R)} (above : List (Frame C R)),
      m.control = above ++ .stepping p id :: rest → (∀ f ∈ above, f.isPass p = false) →
      m.stage p = .stepping id := by
    intro id rest above hcontrol habove
    rw [hcontrol] at hstacked
    have hskip : ∀ (above : List (Frame C R)) (top : Strand.Above C R),
        (∀ f ∈ above, f.isPass p = false) →
        Stacked p (above ++ .stepping p id :: rest) →
        stageFrom p top (above ++ .stepping p id :: rest) = .stepping id := by
      intro above
      induction above with
      | nil =>
        intro top _ hstacked
        obtain ⟨L, rfl⟩ := startsPass_eq (hstacked.2.1 rfl)
        simp [stageFrom, Frame.isPass, Above.stage]
      | cons f above ih =>
        intro top habove hstacked
        rw [List.forall_mem_cons] at habove
        rw [List.cons_append, stageFrom, habove.1]
        exact ih (.frame f) habove.2 hstacked.2.2
    rw [stage, hcontrol]
    exact hskip above _ habove hstacked
  unfold event? at he
  split at he
  · next hf hcontrol =>
    obtain ⟨⟨rfl, -⟩, heq⟩ := Option.ite_none_right_eq_some.mp he
    cases heq
    exact hstage [] hcontrol (List.forall_mem_nil _)
  · next progress q id rest hf hcontrol =>
    obtain ⟨rfl, heq⟩ := Option.ite_none_right_eq_some.mp he
    cases heq
    exact hstage [.inExit progress] hcontrol (by simp [Frame.isPass])
  · next progress hs' q id rest hf hcontrol =>
    obtain ⟨rfl, heq⟩ := Option.ite_none_right_eq_some.mp he
    cases heq
    exact hstage [.inExit progress, .holding hs'] hcontrol (by simp [Frame.isPass])
  · next progress hs' q id rest hf hcontrol =>
    obtain ⟨rfl, heq⟩ := Option.ite_none_right_eq_some.mp he
    cases heq
    exact hstage [.inExit progress, .holding hs'] hcontrol (by simp [Frame.isPass])
  · next hf hcontrol =>
    obtain ⟨⟨rfl, -⟩, heq⟩ := Option.ite_none_right_eq_some.mp he
    cases heq
    exact hstage [] hcontrol (List.forall_mem_nil _)
  · next hf hcontrol =>
    obtain ⟨⟨rfl, -⟩, heq⟩ := Option.ite_none_right_eq_some.mp he
    cases heq
    exact hstage [] hcontrol (List.forall_mem_nil _)
  · cases he

/-- The next move is no invocation of continuation `k`. -/
def LetsLie (k : Nat) (m : Machine C R) : Prop := ∀ v, ¬ m.Invokes k v

/-- A move that is no invocation of it leaves a continuation alone. -/
theorem unclaimed_of_letsLie (h : n.LetsLie k) :
    ∀ snapshot ids, (n.realm p).captures k = some snapshot → snapshot.routines = some ids →
      ((n.step B).realm p).captures k ≠ some { snapshot with routines := none } := by
  intro snapshot ids hk hids hk'
  have hfound := (Option.filter_eq_some_iff.mp hk).1
  rcases snapshot?_step hfound (Option.filter_eq_some_iff.mp hk').1 with heq | ⟨⟨v, hv⟩, -⟩
  · rw [← heq] at hids
    cases hids
  · exact h v hv

/-- As long as nobody invokes their continuation, captives stay so. -/
theorem LaterWhile.captive (h : LaterWhile B (LetsLie k) m₀ m) (hreach : Reachable B m₀)
    (hs₀ : m₀.scheduler? p = some s₀) (hc : Captive k a ⟨m₀.stage p, s₀, (m₀.realm p).captures⟩)
    (hs : m.scheduler? p = some s) (hroom : ∀ a, s.routines.Ample a) :
    Captive k a ⟨m.stage p, s, (m.realm p).captures⟩ := by
  induction h generalizing s with
  | refl =>
    obtain rfl : s₀ = s := Option.some.inj (hs₀.symm.trans hs)
    exact hc
  | @step n hn hlie ih =>
    obtain ⟨u, hu⟩ := hn.later.scheduler_between (.step .refl) hs₀ hs
    have hgrows := (Later.step .refl : Later B n (n.step B)).grows hu hs
    have hroom' : ∀ b, u.routines.Ample b := fun b => (hroom b).of_grows hgrows
    have hreach' := hreach.later hn.later
    exact (hreach'.stride hu hs).captive (ih hu hroom') (hreach'.linked hu (hroom' default).slots) hroom
      (unclaimed_of_letsLie hlie)
  | anew _ halted events focus ih =>
    obtain ⟨hissued, hstack, -, hothers⟩ := ih hs hroom
    exact ⟨hissued, hstack, List.not_mem_nil, hothers⟩

/-- Captives are never stepped. -/
theorem Captive.unseen (hc : Captive k a ⟨m.stage p, s, (m.realm p).captures⟩) (hreach : Reachable B m)
    (hs : m.scheduler? p = some s) {e : PassEvent C} (he : m.event? p = some e) : e.id ≠ a := by
  rintro rfl
  refine hc.handed ?_
  show e.id ∈ (m.stage p).handed
  rw [hreach.stage_of_event hs he]
  exact List.mem_singleton_self _

/-! ### Captives without a parent -/

/-- These routines are captives of continuation `k`. None of them has a parent that is not
    among them, and whoever has none is kept. -/
structure Adrift (k : Nat) (fs : List RoutineId) (x : Status C) : Prop where
  captive : ∀ a ∈ fs, Captive k a x
  within : ∀ a ∈ fs, ∀ r q, x.scheduler.routines.find? a = some r → r.parent = some q → q ∈ fs
  kept : Accounted (· ∉ fs) x

theorem Adrift.stride {x y : Status C} (h : Adrift k fs x) (hstride : Stride p x y)
    (hl : Linked x.scheduler.routines) (hagrees : x.stage.Agrees x.scheduler)
    (hgrows : Roster.Grows x.scheduler.routines y.scheduler.routines)
    (hroom : ∀ a, y.scheduler.routines.Ample a)
    (hk : ∀ snapshot ids, x.captures k = some snapshot → snapshot.routines = some ids →
      y.captures k ≠ some { snapshot with routines := none }) : Adrift k fs y := by
  refine ⟨fun a ha => hstride.captive (h.captive a ha) hl hroom hk, fun a ha r q hr hq => ?_, ?_⟩
  · obtain ⟨z, hz⟩ := live_of_issued hgrows (h.captive a ha).issued hr (hroom a)
    rcases hstride.hangs (h.captive a ha) hl hagrees (fun _ => h.kept.current) hroom hz with
      hsame | ⟨id, q', hstage, ⟨r', hr', hq'⟩, habove, -⟩
    · obtain ⟨r', hr', hparent⟩ := hsame r hr
      exact h.within a ha r' q hr' (hparent.symm.trans hq)
    · -- whoever finishes above a captive would be a captive that is stepped
      have hmem := h.within a ha r' q' hr' hq'
      have hid : id ∈ fs := by
        rcases habove with rfl | ⟨z', hz', hid⟩
        · exact hmem
        · exact h.within q' hmem z' id hz' hid
      exact absurd (hstage ▸ List.mem_singleton_self id) (h.captive id hid).handed
  · refine hstride.accounted h.kept hl hagrees hroom (fun _ ha => ha) (fun a hfalls ha => ?_) ?_
    · have hcaptive := h.captive a ha
      cases hfalls with
      | copying stage _ lifted _ =>
        refine hcaptive.handed ?_
        rw [stage]
        exact lifted
      | @claimed j snapshot ids found remembered mine _ invoked =>
        by_cases hj : j = k
        · subst hj
          exact hk snapshot ids found remembered invoked
        · refine hcaptive.others j hj ?_
          rw [originals, found, Option.bind_some, remembered]
          exact mine
    · intro q r a hq hr ha hmem
      obtain ⟨x', hx', hparent⟩ := hl.child hr ha
      exact hq (h.within a hmem x' q hx' hparent)

/-- As long as nobody invokes their continuation, that stays so. -/
theorem LaterWhile.adrift (h : LaterWhile B (LetsLie k) m₀ m) (hreach : Reachable B m₀)
    (hs₀ : m₀.scheduler? p = some s₀) (hc : Adrift k fs ⟨m₀.stage p, s₀, (m₀.realm p).captures⟩)
    (hs : m.scheduler? p = some s) (hroom : ∀ a, s.routines.Ample a) :
    Adrift k fs ⟨m.stage p, s, (m.realm p).captures⟩ := by
  induction h generalizing s with
  | refl =>
    obtain rfl : s₀ = s := Option.some.inj (hs₀.symm.trans hs)
    exact hc
  | @step n hn hlie ih =>
    obtain ⟨u, hu⟩ := hn.later.scheduler_between (.step .refl) hs₀ hs
    have hgrows := (Later.step .refl : Later B n (n.step B)).grows hu hs
    have hroom' : ∀ b, u.routines.Ample b := fun b => (hroom b).of_grows hgrows
    have hreach' := hreach.later hn.later
    exact (ih hu hroom').stride (hreach'.stride hu hs) (hreach'.linked hu (hroom' default).slots)
      (hreach'.ordered hu).2 hgrows hroom (unclaimed_of_letsLie hlie)
  | @anew n hn halted events focus ih =>
    have hk := ih hs hroom
    have hstage : n.stage p = .idle := by simp [stage, halted, stageFrom]
    rw [hstage] at hk
    exact hk

/-- Once their continuation is dead and nothing is unclaimed, none of them is left
    between two steps. -/
theorem Adrift.dead {t : Nat → Option (Snapshot C)} (h : Adrift k fs ⟨.head, s, t⟩)
    (hl : Linked s.routines) (hunclaimed : s.unclaimed = []) (hgone : t k = none) :
    ∀ a ∈ fs, s.routines.find? a = none := by
  -- whoever is above one of them is one of them
  have hwithin : ∀ {a q}, s.LeadsUp a q → a ∈ fs → q ∈ fs := by
    intro a q hup ha
    induction hup with
    | refl => exact ha
    | tail _ hparent ih =>
      obtain ⟨x, hx, hq⟩ := hparent
      exact h.within _ ih x _ hx hq
  intro a ha
  cases hx : s.routines.find? a with
  | none => rfl
  | some x =>
    exfalso
    obtain ⟨q, hup, y, hy, horphan⟩ := (h.kept.forest a x hx).leadsUp
    have hq : q ∈ fs := hwithin hup ha
    have hcaptive := h.captive q hq
    rcases h.kept.roots hy (hl.parent_of_orphan hy horphan) with hholds | hstray
    · rcases hholds with hstack | hhand | ⟨j, snapshot, ids, hj, hids, hmem⟩ | hloose
      · rw [hcaptive.onStack] at hstack
        cases hstack
      · exact hhand
      · by_cases hjk : j = k
        · subst hjk
          cases hgone.symm.trans hj
        · refine hcaptive.others j hjk ?_
          show q ∈ originals (t j)
          have hfound : t j = some snapshot := hj
          rw [originals, hfound, Option.bind_some, hids]
          exact hmem
      · rw [hunclaimed] at hloose
        cases hloose
    · exact hstray hq

end Machine

end Strand
