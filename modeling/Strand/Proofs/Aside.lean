import Strand.Proofs.Issued

/-! # Aside — routines that nothing is done to

    `Aside` says that a routine was none of those that an operation was about:
    it has its script still, nobody has adopted it, and it has kept its place on
    the stack. It holds of a routine that is nobody's child, whatever is done to
    others: they are freed (`aside_free`), finish (`aside_conclude`), spawn
    children or are copied.

    So of all acts, only going down the stack concerns a routine that no frame
    names (`Act.aside`):

    * a re-entry on the stack waits until it is picked or lifted (`Act.waits`);
    * a routine whose script is out is not fed again (`Act.spent`). -/

namespace Strand

namespace Roster

variable {α : Type} {r r' : Roster α} {a : RoutineId}

/-- 32 bits are enough to number the slots, and to tell the generations of one
    slot apart. -/
structure Ample (a : RoutineId) (r : Roster α) : Prop where
  slots : r.slots.size ≤ 2 ^ 32
  vacated : r.vacated a < 2 ^ 32

theorem Ample.of_grows (h : r'.Ample a) (hgrows : Grows r r') : r.Ample a :=
  ⟨Nat.le_trans hgrows.slots h.slots, Nat.lt_of_le_of_lt (hgrows.vacated a) h.vacated⟩

/-- What has been issued is not issued anew. -/
theorem Sound.ne_insert_fst (hs : r.Sound) (hi : r.Issued a) (e : α)
    (hample : (r.insert e).2.Ample a) : a ≠ (r.insert e).1 := by
  intro ha
  have hold := hample.of_grows (grows_insert r e)
  exact hs.not_issued_insert_fst e hample.slots (ha ▸ hold.vacated) (ha ▸ hi)

end Roster

namespace Scheduler

variable {C : Type} {a : RoutineId} {s t u : Scheduler C}

/-! ### Staying aside -/

/-- Routine `a` is none of those that were changed: it has the same script, it
    has been adopted by nobody, and it has kept its place on the stack. -/
structure Aside (a : RoutineId) (s t : Scheduler C) : Prop where
  entry : ∀ y, t.routines.find? a = some y →
    ∃ x, s.routines.find? a = some x ∧ y.script = x.script ∧ (x.parent = none → y.parent = none)
  live : s.onStack a = true → ∀ x, s.routines.find? a = some x → ∃ y, t.routines.find? a = some y
  stack : s.onStack a = true → t.onStack a = true
  running : s.running = true → t.running = true

theorem Aside.refl (a : RoutineId) (s : Scheduler C) : Aside a s s :=
  ⟨fun y hy => ⟨y, hy, rfl, id⟩, fun _ x hx => ⟨x, hx⟩, id, id⟩

theorem Aside.trans (h : Aside a s t) (h' : Aside a t u) : Aside a s u := by
  refine ⟨?_, ?_, fun hon => h'.stack (h.stack hon), fun hrun => h'.running (h.running hrun)⟩
  · intro z hz
    obtain ⟨y, hy, hscript', hparent'⟩ := h'.entry z hz
    obtain ⟨x, hx, hscript, hparent⟩ := h.entry y hy
    exact ⟨x, hx, hscript'.trans hscript, fun hnone => hparent' (hparent hnone)⟩
  · intro hon x hx
    obtain ⟨y, hy⟩ := h.live hon x hx
    exact h'.live (h.stack hon) y hy

/-- The routines are the same, and nothing has been taken off the stack. -/
theorem Aside.of_same (hroutines : t.routines = s.routines)
    (hstack : s.onStack a = true → t.onStack a = true)
    (hrunning : s.running = true → t.running = true) : Aside a s t := by
  refine ⟨?_, ?_, hstack, hrunning⟩
  · intro y hy
    exact ⟨y, hroutines ▸ hy, rfl, id⟩
  · intro _ x hx
    exact ⟨x, hroutines ▸ hx⟩

theorem onStack_cons (work : StackEntry) (h : s.onStack a = true) :
    (s.push work).onStack a = true := by
  simp only [onStack, List.contains_iff_mem] at h ⊢
  exact List.mem_cons_of_mem _ h

theorem aside_push (s : Scheduler C) (work : StackEntry) : Aside a s (s.push work) :=
  .of_same rfl (onStack_cons work) id

theorem aside_modify (s : Scheduler C) (id : RoutineId) (f : Routine C → Routine C)
    (hf : a = id → ∀ x, (f x).script = x.script ∧ (x.parent = none → (f x).parent = none)) :
    Aside a s (s.modify id f) := by
  have hfind : (s.modify id f).routines.find? a =
      if a = id then (s.routines.find? a).map f else s.routines.find? a :=
    Roster.find?_modify _ _ _ _
  refine ⟨?_, ?_, fun h => h, fun h => h⟩
  · intro y hy
    rw [hfind] at hy
    split at hy
    · next ha =>
      obtain ⟨x, hx, rfl⟩ := Option.map_eq_some_iff.mp hy
      exact ⟨x, hx, (hf ha x).1, (hf ha x).2⟩
    · exact ⟨y, hy, rfl, fun hnone => hnone⟩
  · intro _ x hx
    rw [hfind, hx]
    split
    · exact ⟨_, rfl⟩
    · exact ⟨x, rfl⟩

theorem aside_remove {id : RoutineId} {r : Routine C} {routines : Roster (Routine C)}
    (hr : s.routines.remove id = some (r, routines)) (hne : s.onStack a = true → a ≠ id) :
    Aside a s { s with routines } := by
  have hfind : ∀ b, routines.find? b = if b = id then none else s.routines.find? b :=
    Roster.find?_remove hr
  refine ⟨?_, ?_, fun h => h, fun h => h⟩
  · intro y hy
    rw [hfind] at hy
    split at hy
    · cases hy
    · exact ⟨y, hy, rfl, fun hnone => hnone⟩
  · intro hon x hx
    exact ⟨x, (hfind a).trans ((if_neg (hne hon)).trans hx)⟩

theorem aside_add (hs : s.routines.Sound) (hi : s.routines.Issued a) (origin : Origin)
    (script : Script C) (hample : (s.add origin script).2.routines.Ample a) :
    Aside a s (s.add origin script).2 := by
  have hne := hs.ne_insert_fst hi ⟨origin, some script, none, []⟩ hample
  have hfind : (s.add origin script).2.routines.find? a = s.routines.find? a :=
    (hs.find?_insert _ hample.slots a).trans (if_neg hne)
  refine ⟨?_, ?_, fun h => h, fun h => h⟩
  · intro y hy
    exact ⟨y, hfind ▸ hy, rfl, fun hnone => hnone⟩
  · intro _ x hx
    exact ⟨x, hfind ▸ hx⟩

theorem aside_link (s : Scheduler C) {c : RoutineId} {parent : Option RoutineId}
    (h : a = c → parent = none) : Aside a s (s.link c parent) := by
  unfold link
  dsimp only
  have hchild : ∀ t : Scheduler C,
      Aside a t (t.modify c fun r => { r with parent := s.liveParent parent }) := by
    intro t
    refine aside_modify t c _ fun hac x => ⟨rfl, fun _ => ?_⟩
    rw [h hac]
    rfl
  cases hlive : s.liveParent parent with
  | none =>
    rw [hlive] at hchild
    exact hchild s
  | some q =>
    rw [hlive] at hchild
    have hparent : Aside a s
        (s.modify q fun r => { r with children := addChild r.children c }) :=
      aside_modify s q _ fun _ x => ⟨rfl, fun hnone => hnone⟩
    exact hparent.trans (hchild _)

theorem aside_unlink (s : Scheduler C) (parent : Option RoutineId) (c : RoutineId) :
    Aside a s (s.unlink parent c) := by
  unfold unlink
  split
  · exact aside_modify s _ _ fun _ x => ⟨rfl, fun hnone => hnone⟩
  · exact .refl a s

theorem aside_cutAll (cs : List RoutineId) (s : Scheduler C) : Aside a s (cutAll cs s) := by
  induction cs generalizing s with
  | nil => exact .refl a s
  | cons c cs ih => exact (aside_link s fun _ => rfl).trans (ih (s.link c none))

/-! ### Freeing others -/

theorem aside_severed {id : RoutineId} {r : Routine C} {routines : Roster (Routine C)}
    (hr : s.routines.remove id = some (r, routines)) (hne : s.onStack a = true → a ≠ id) :
    Aside a s (s.severed id r routines) := by
  refine Aside.trans ?_ ((aside_unlink _ r.parent id).trans (aside_cutAll _ _))
  cases r.script with
  | none => exact (aside_remove hr hne).trans (.of_same rfl (fun h => h) fun h => h)
  | some script => exact (aside_remove hr hne).trans (.of_same rfl (fun h => h) fun h => h)

/-- A routine on the stack outlives what is freed. -/
theorem aside_freeAll (fuel : Nat) {pending : List RoutineId} (s : Scheduler C)
    (hne : s.onStack a = true → a ∉ pending) : Aside a s (freeAll fuel pending s) := by
  induction fuel generalizing pending s with
  | zero => exact .refl a s
  | succ fuel ih =>
    cases pending with
    | nil => exact .refl a s
    | cons id pending =>
      cases hr : s.routines.remove id with
      | none =>
        rw [freeAll_of_dead (Roster.remove_eq_none.mp hr)]
        exact ih s fun hon hmem => hne hon (List.mem_cons_of_mem _ hmem)
      | some pair =>
        obtain ⟨r, routines⟩ := pair
        have hsevered := aside_severed hr (a := a) fun hon ha => hne hon (by simp [ha])
        have hstack : (s.severed id r routines).onStack a = s.onStack a := by
          rw [onStack, (shrunk_severed hr).work.stack]
          rfl
        rw [freeAll_of_remove hr]
        refine hsevered.trans (ih _ fun hon hmem => ?_)
        rw [hstack] at hon
        rcases List.mem_append.mp hmem with hlost | hmem
        · simp only [List.mem_reverse, List.mem_filter, hon, Bool.not_true, Bool.false_eq_true,
            and_false] at hlost
        · exact hne hon (List.mem_cons_of_mem _ hmem)

theorem aside_free (s : Scheduler C) {id : RoutineId} (hne : s.onStack a = true → a ≠ id) :
    Aside a s (s.free id) := by
  refine aside_freeAll _ s fun hon hmem => hne hon ?_
  simpa using hmem

theorem aside_freeUnclaimed (s : Scheduler C) : Aside a s s.freeUnclaimed.2 := by
  have hfold : ∀ (ids : List RoutineId) (n : Nat) (t : Scheduler C),
      Aside a t (ids.foldl freeIfLost (n, t)).2 := by
    intro ids
    induction ids with
    | nil => exact fun _ t => .refl a t
    | cons id ids ih =>
      intro n t
      rw [List.foldl_cons]
      by_cases hlost : t.isLost id = true
      · -- what is lost is not on the stack
        obtain ⟨-, -, hoff, -⟩ := isLost_eq_true hlost
        simp only [freeIfLost, hlost, if_true]
        refine (aside_free t fun hon ha => ?_).trans (ih _ _)
        rw [ha, hoff] at hon
        cases hon
      · simp only [freeIfLost, hlost]
        exact ih n t
  have hstart : Aside a s { s with unclaimed := [] } := .of_same rfl (fun h => h) fun h => h
  exact hstart.trans (hfold _ _ _)

/-! ### Steps of others -/

theorem aside_giveBack (s : Scheduler C) {id : RoutineId} (hne : a ≠ id) (script : Script C) :
    Aside a s (s.giveBack id script) := by
  unfold giveBack
  split
  · exact aside_modify s id _ fun ha => absurd ha hne
  · exact .of_same rfl (fun h => h) fun h => h

theorem aside_giveBackAll (frames : List (Lifted C)) (s : Scheduler C)
    (hne : a ∉ frames.map Lifted.id) : Aside a s (s.giveBackAll frames) := by
  unfold giveBackAll
  induction frames generalizing s with
  | nil => exact .refl a s
  | cons frame frames ih =>
    rw [List.map_cons, List.mem_cons, not_or] at hne
    exact (aside_giveBack s hne.1 frame.script).trans (ih _ hne.2)

theorem aside_shelve (s : Scheduler C) {id : RoutineId} (hne : a ≠ id) (script : Script C) :
    Aside a s (s.shelve id script) := by
  unfold shelve
  split
  · exact (aside_giveBack s hne script).trans (aside_push _ _)
  · exact .of_same rfl (fun h => h) fun h => h

theorem aside_suspend (s : Scheduler C) {id : RoutineId} (hne : a ≠ id) (script : Script C) :
    Aside a s (s.suspend id script) := by
  have hretired : Aside a s (s.retire script) := .of_same rfl (fun h => h) fun h => h
  unfold suspend
  split
  · split
    · exact aside_giveBack s hne script
    · exact hretired.trans (aside_free _ fun _ => hne)
  · exact hretired.trans (aside_free _ fun _ => hne)

theorem aside_addUnder (hs : s.routines.Sound) (hi : s.routines.Issued a) (origin : Origin)
    (script : Script C) (parent : Option RoutineId)
    (hample : (s.addUnder origin script parent).2.routines.Ample a) :
    Aside a s (s.addUnder origin script parent).2 := by
  have hadded : (s.add origin script).2.routines.Ample a :=
    hample.of_grows (closed_link (Roster.closed_grows _).steady (s := (s.add origin script).2) (.refl _) _
      parent)
  refine (aside_add hs hi origin script hadded).trans (aside_link _ fun ha => ?_)
  exact absurd ha (hs.ne_insert_fst hi _ hadded)

theorem aside_scheduleChild (hs : s.routines.Sound) (hi : s.routines.Issued a) (origin : Origin)
    (script : Script C) (parent : RoutineId)
    (hample : (s.scheduleChild origin script parent).routines.Ample a) :
    Aside a s (s.scheduleChild origin script parent) :=
  (aside_addUnder hs hi origin script (some parent) hample).trans
    (.of_same rfl (fun h => onStack_cons _ h) fun h => h)

theorem aside_scheduleRoot (hs : s.routines.Sound) (hi : s.routines.Issued a) (script : Script C)
    (hample : (s.scheduleRoot script).routines.Ample a) : Aside a s (s.scheduleRoot script) :=
  (aside_addUnder hs hi .root script none hample).trans
    (.of_same rfl (fun h => onStack_cons _ h) fun h => h)

theorem aside_queue (hs : s.routines.Sound) (hi : s.routines.Issued a) (k : Nat) (v : Value)
    (hample : (s.queue k v).routines.Ample a) : Aside a s (s.queue k v) :=
  (aside_add hs hi .reenter (.reentry k (some v)) hample).trans (aside_push _ _)

theorem aside_reinstate (s : Scheduler C) (ids : List RoutineId) (v : Value) :
    Aside a s (s.reinstate ids v) := by
  refine .of_same rfl ?_ fun h => h
  intro hon
  simp only [onStack, List.contains_iff_mem] at hon ⊢
  exact List.mem_append_right _ (List.mem_cons_of_mem _ hon)

/-! ### Copies of others -/

theorem aside_addCopies (frames : List (FrameCopy C × Script C)) {s : Scheduler C}
    (hs : s.routines.Sound) (hi : s.routines.Issued a)
    (hample : (addCopies frames s).2.routines.Ample a) :
    Aside a s (addCopies frames s).2 ∧ a ∉ (addCopies frames s).1 := by
  induction frames generalizing s with
  | nil => exact ⟨.refl a s, List.not_mem_nil⟩
  | cons pair frames ih =>
    have hadded : (s.add pair.1.origin pair.2).2.routines.Ample a :=
      hample.of_grows (closed_addCopies (Roster.closed_grows _).steady (.refl _) frames)
    have hne := hs.ne_insert_fst hi ⟨pair.1.origin, some pair.2, none, []⟩ hadded
    obtain ⟨hrest, hnot⟩ := ih (s := (s.add pair.1.origin pair.2).2) (hs.insert _) (hi.insert _)
      hample
    refine ⟨(aside_add hs hi _ _ hadded).trans hrest, ?_⟩
    intro hmem
    rcases List.mem_cons.mp hmem with ha | hmem
    · exact hne ha
    · exact hnot hmem

theorem aside_links (ids : List RoutineId) (pairs : List (FrameCopy C × RoutineId))
    (hne : ∀ pair ∈ pairs, a ≠ pair.2) :
    Aside a s (pairs.foldl (fun s (frame, id) => s.link id (frame.parent.resolve ids)) s) := by
  induction pairs generalizing s with
  | nil => exact .refl a s
  | cons pair pairs ih =>
    rw [List.forall_mem_cons] at hne
    exact (aside_link s fun ha => absurd ha hne.1).trans (ih hne.2)

theorem aside_plant (hs : s.routines.Sound) (hi : s.routines.Issued a) (frames : List (FrameCopy C))
    (copies : List (Script C)) (hample : (s.plant frames copies).2.routines.Ample a) :
    Aside a s (s.plant frames copies).2 := by
  have hadded : (addCopies (frames.zip copies) s).2.routines.Ample a :=
    hample.of_grows (closed_links (Roster.closed_grows _).steady (.refl _) _ _)
  obtain ⟨hcopies, hnot⟩ := aside_addCopies (frames.zip copies) hs hi hadded
  refine hcopies.trans (aside_links _ _ fun pair hpair ha => hnot ?_)
  rw [ha]
  exact (List.of_mem_zip hpair).2

/-! ### Conclusions of others -/

/-- Routine `a` is nobody's child. -/
def Unlisted (a : RoutineId) (r : Roster (Routine C)) : Prop :=
  ∀ b x, r.find? b = some x → a ∉ x.children

section Unlisted

variable {r r' : Roster (Routine C)}

theorem Unlisted.modify (h : Unlisted a r) (id : RoutineId) {f : Routine C → Routine C}
    (hf : ∀ x, a ∉ x.children → a ∉ (f x).children) : Unlisted a (r.modify id f) := by
  intro b x hx
  rw [Roster.find?_modify] at hx
  split at hx
  · obtain ⟨y, hy, rfl⟩ := Option.map_eq_some_iff.mp hx
    exact hf y (h b y hy)
  · exact h b x hx

theorem Unlisted.insert (h : Unlisted a r) (hs : r.Sound) {e : Routine C}
    (hroom : (r.insert e).2.slots.size ≤ 2 ^ 32) (he : a ∉ e.children) :
    Unlisted a (r.insert e).2 := by
  intro b x hx
  rw [hs.find?_insert e hroom] at hx
  split at hx
  · rw [Option.some.injEq] at hx
    exact hx ▸ he
  · exact h b x hx

theorem Unlisted.remove (h : Unlisted a r) {id : RoutineId} {e : Routine C}
    (hr : r.remove id = some (e, r')) : Unlisted a r' := by
  intro b x hx
  rw [Roster.find?_remove hr] at hx
  split at hx
  · cases hx
  · exact h b x hx

theorem Unlisted.adoptAll (h : Unlisted a s.routines) (cs : List RoutineId) (w : RoutineId) :
    Unlisted a (adoptAll cs w s).routines := by
  induction cs generalizing s with
  | nil => exact h
  | cons c cs ih => exact ih (s := s.modify c _) (Unlisted.modify h c fun _ hx => hx)

theorem Unlisted.cutAll (h : Unlisted a s.routines) (cs : List RoutineId) :
    Unlisted a (cutAll cs s).routines := by
  induction cs generalizing s with
  | nil => exact h
  | cons c cs ih => exact ih (s := s.link c none) (Unlisted.modify h c fun _ hx => hx)

theorem Unlisted.unlink (h : Unlisted a s.routines) (parent : Option RoutineId) (c : RoutineId) :
    Unlisted a (s.unlink parent c).routines := by
  unfold Scheduler.unlink
  split
  · exact Unlisted.modify h _ fun _ hx hmem => hx (List.mem_of_mem_erase hmem)
  · exact h

end Unlisted

theorem aside_adoptAll (cs : List RoutineId) (w : RoutineId) (s : Scheduler C) (hne : a ∉ cs) :
    Aside a s (adoptAll cs w s) := by
  induction cs generalizing s with
  | nil => exact .refl a s
  | cons c cs ih =>
    rw [List.mem_cons, not_or] at hne
    exact (aside_modify s c _ fun ha => absurd ha hne.1).trans (ih _ hne.2)

theorem aside_scheduleExit {c : RoutineId} (hs : s.routines.Sound) (hi : s.routines.Issued a)
    (hu : Unlisted a s.routines) (hne : a ≠ c) (hample : (s.scheduleExit c).routines.Ample a) :
    Aside a s (s.scheduleExit c) ∧ Unlisted a (s.scheduleExit c).routines := by
  cases hr : s.routines.remove c with
  | none =>
    rw [scheduleExit_of_dead (Roster.remove_eq_none.mp hr)]
    exact ⟨.refl a s, hu⟩
  | some pair =>
    obtain ⟨r, routines⟩ := pair
    have hremoved : Aside a s { s with routines } := aside_remove hr fun _ => hne
    have hu' : Unlisted a routines := hu.remove hr
    cases hscript : r.script with
    | none =>
      rw [scheduleExit_of_out hr hscript]
      exact ⟨hremoved.trans (aside_cutAll _ _), Unlisted.cutAll (s := { s with routines }) hu' _⟩
    | some script =>
      have hchild : a ∉ r.children := hu c r (Roster.find?_of_remove hr)
      rw [scheduleExit_eq hr hscript] at hample ⊢
      have hinserted : (({ s with routines } : Scheduler C).add .exit
          (.exit script .initial)).2.routines.Ample a := by
        refine hample.of_grows ?_
        have hgrows := Roster.closed_grows (({ s with routines } : Scheduler C).add .exit
          (.exit script .initial)).2.routines
        exact hgrows.modify _ _ (closed_adoptAll hgrows.steady (.refl _) r.children c.next)
      have hadded := aside_add (s := { s with routines }) (hs.remove hr) (hi.remove hr) .exit
        (.exit script .initial) hinserted
      refine ⟨?_, ?_⟩
      · refine (hremoved.trans hadded).trans ((aside_adoptAll r.children c.next _ hchild).trans ?_)
        have hfilled : ∀ t : Scheduler C,
            Aside a t (t.modify c.next fun w => { w with children := r.children }) :=
          fun t => aside_modify t c.next _ fun _ x => ⟨rfl, fun hnone => hnone⟩
        exact (hfilled _).trans (aside_push _ _)
      · refine Unlisted.modify (Unlisted.adoptAll ?_ r.children c.next) c.next fun _ _ => hchild
        exact hu'.insert (hs.remove hr) hinserted.slots List.not_mem_nil

theorem aside_scheduleExits (cs : List RoutineId) {s : Scheduler C} (hs : s.routines.Sound)
    (hi : s.routines.Issued a) (hu : Unlisted a s.routines) (hne : a ∉ cs)
    (hample : (cs.foldl scheduleExit s).routines.Ample a) :
    Aside a s (cs.foldl scheduleExit s) := by
  induction cs generalizing s with
  | nil => exact .refl a s
  | cons c cs ih =>
    rw [List.mem_cons, not_or] at hne
    have hone : (s.scheduleExit c).routines.Ample a :=
      hample.of_grows (closed_scheduleExits (Roster.closed_grows _).steady (.refl _) cs)
    obtain ⟨haside, hu'⟩ := aside_scheduleExit hs hi hu hne.1 hone
    have hsound : (s.scheduleExit c).routines.Sound := closed_scheduleExit Roster.closed_sound.steady hs c
    have hissued : (s.scheduleExit c).routines.Issued a :=
      closed_scheduleExit (Roster.closed_issued a).steady hi c
    exact haside.trans (ih hsound hissued hu' hne.2 hample)

section Conclude

variable {id : RoutineId} {r : Routine C} {routines : Roster (Routine C)}

theorem aside_takenOut (hr : s.routines.remove id = some (r, routines)) (hne : a ≠ id)
    (script : Script C) (o : Outcome Value) : Aside a s (s.takenOut id r routines script o) := by
  have hremoved : Aside a s { s with routines } := aside_remove hr fun _ => hne
  refine (hremoved.trans ?_).trans (aside_unlink _ r.parent id)
  exact .of_same rfl (fun h => h) fun h => h

/-- What a finished routine that is not `a` leaves behind says nothing of `a`. -/
theorem aside_keptBack (hs : s.routines.Sound) (hi : s.routines.Issued a)
    (hu : Unlisted a s.routines) (hr : s.routines.remove id = some (r, routines)) (hne : a ≠ id)
    (script : Script C) (o : Outcome Value)
    (hample : (s.keptBack id r routines script o).2.routines.Ample a) :
    Aside a s (s.keptBack id r routines script o).2 ∧
      (s.keptBack id r routines script o).2.routines.Sound ∧
      (s.keptBack id r routines script o).2.routines.Issued a ∧
      Unlisted a (s.keptBack id r routines script o).2.routines := by
  obtain ⟨t, ht⟩ : ∃ t : Scheduler C, t = { s.retire script with
    routines, reports := .finished r.origin id o.isSuccess :: s.reports } := ⟨_, rfl⟩
  have hroutines : t.routines = routines := by rw [ht]
  have htaken : s.takenOut id r routines script o = t.unlink r.parent id := by rw [ht]; rfl
  have hsound : (t.unlink r.parent id).routines.Sound :=
    closed_unlink Roster.closed_sound.steady (hroutines ▸ hs.remove hr) _ _
  have hissued : (t.unlink r.parent id).routines.Issued a :=
    closed_unlink (Roster.closed_issued a).steady (hroutines ▸ hi.remove hr) _ _
  have hunlisted : Unlisted a (t.unlink r.parent id).routines :=
    Unlisted.unlink (hroutines ▸ hu.remove hr) _ _
  have haside := aside_takenOut hr hne script o
  rw [htaken] at haside
  unfold keptBack at hample ⊢
  rw [htaken] at hample ⊢
  have hadded : ((t.unlink r.parent id).routines.insert
      ⟨.settled, some (.settled o), none, []⟩).2.Ample a :=
    hample.of_grows ((Roster.closed_grows _).modify _ _ (.refl _))
  refine ⟨?_, (hsound.insert _).modify _ _, (hissued.insert _).modify _ _, ?_⟩
  · have hreported : Aside a (t.unlink r.parent id) ((t.unlink r.parent id).report
        (.forcingExit r.origin id r.children.length)) := .of_same rfl (fun h => h) fun h => h
    refine (haside.trans hreported).trans (aside_addUnder ?_ ?_ .settled (.settled o) none hample)
    · exact hsound
    · exact hissued
  · exact Unlisted.modify (hunlisted.insert hsound hadded.slots List.not_mem_nil) _ fun _ hx => hx

/-- A routine that is nobody's child is none of those that another's end makes
    exit. -/
theorem aside_conclude (hs : s.routines.Sound) (hi : s.routines.Issued a)
    (hu : Unlisted a s.routines) (hne : a ≠ id) (script : Script C) (o : Outcome Value)
    (hample : (s.conclude id script o).routines.Ample a) : Aside a s (s.conclude id script o) := by
  have hpublish : ∀ t : Scheduler C, Aside a t { t with register := o } :=
    fun t => .of_same rfl (fun h => h) fun h => h
  cases hr : s.routines.remove id with
  | none =>
    rw [conclude_of_dead (Roster.remove_eq_none.mp hr)]
    exact .of_same rfl (fun h => h) fun h => h
  | some pair =>
    obtain ⟨r, routines⟩ := pair
    by_cases hnone : r.children = []
    · rw [conclude_of_childless hr hnone]
      exact (aside_takenOut hr hne script o).trans (hpublish _)
    · have hchild : a ∉ r.children := hu id r (Roster.find?_of_remove hr)
      rw [conclude_of_children hr hnone] at hample ⊢
      have hkept : (s.keptBack id r routines script o).2.routines.Ample a :=
        hample.of_grows (closed_scheduleExits (Roster.closed_grows _).steady
          (s := (s.keptBack id r routines script o).2.push _) (.refl _) r.children)
      obtain ⟨haside, hsound, hissued, hunlisted⟩ := aside_keptBack hs hi hu hr hne script o hkept
      have hexits := aside_scheduleExits r.children
        (s := (s.keptBack id r routines script o).2.push
          (.routine (s.keptBack id r routines script o).1)) hsound hissued hunlisted hchild hample
      exact (haside.trans (aside_push _ _)).trans (hexits.trans (hpublish _))

end Conclude

/-! ### Picking and lifting others -/

/-- Whoever is not picked is left alone. -/
theorem pickFrom_others {stack : List StackEntry} {out : Option (RoutineId × Script C)}
    (h : pickFrom stack s = (out, t)) : t.running = s.running ∧
      ∀ a, (∀ script, out ≠ some (a, script)) → t.routines.find? a = s.routines.find? a := by
  induction stack generalizing s with
  | nil =>
    cases h
    exact ⟨rfl, fun _ _ => rfl⟩
  | cons work rest ih =>
    cases work with
    | boundary => exact ih (s := s.report .boundaryConsumed) h
    | routine id =>
      unfold pickFrom at h
      split at h
      · exact ih (s := s.report (.skippingStale id)) h
      · split at h
        · exact ih h
        · next script _ =>
          cases h
          refine ⟨rfl, fun a hnot => ?_⟩
          have hne : a ≠ id := by
            rintro rfl
            exact hnot script rfl
          exact (Roster.find?_modify _ _ _ _).trans (if_neg hne)

/-- The script of what is picked is taken out. -/
theorem pickFrom_picked {stack : List StackEntry} {script : Script C}
    (h : pickFrom stack s = (some (a, script), t)) :
    t.routines.find? a = (s.routines.find? a).map fun r => { r with script := none } := by
  induction stack generalizing s with
  | nil => cases h
  | cons work rest ih =>
    cases work with
    | boundary => exact ih (s := s.report .boundaryConsumed) h
    | routine id =>
      unfold pickFrom at h
      split at h
      · exact ih (s := s.report (.skippingStale id)) h
      · split at h
        · exact ih h
        · cases h
          exact (Roster.find?_modify _ _ _ _).trans (if_pos rfl)

/-- A routine on the stack is picked, or another is and it stays there. -/
theorem pickFrom_waiting {stack : List StackEntry} {out : Option (RoutineId × Script C)}
    {x : Routine C} {script : Script C} (h : pickFrom stack s = (out, t))
    (hx : s.routines.find? a = some x) (hscript : x.script = some script)
    (hmem : .routine a ∈ stack) :
    out = some (a, script) ∨ (∃ id script', out = some (id, script') ∧ a ≠ id) ∧
      t.onStack a = true := by
  induction stack generalizing s with
  | nil => cases hmem
  | cons work rest ih =>
    cases work with
    | boundary =>
      have hmem' : .routine a ∈ rest := by simpa using hmem
      exact ih (s := s.report .boundaryConsumed) h hx hmem'
    | routine id =>
      unfold pickFrom at h
      by_cases ha : a = id
      · subst ha
        simp only [hx, hscript] at h
        cases h
        exact Or.inl rfl
      · have hmem' : .routine a ∈ rest := by simpa [ha] using hmem
        split at h
        · exact ih (s := s.report (.skippingStale id)) h hx hmem'
        · split at h
          · exact ih h hx hmem'
          · cases h
            refine Or.inr ⟨⟨_, _, rfl, ha⟩, ?_⟩
            simp only [onStack, List.contains_iff_mem]
            exact hmem'

/-- Whoever is not lifted is left alone, and stays on the stack. -/
theorem liftFrom_others (stack : List StackEntry) (lifted : List (Lifted C)) (s : Scheduler C)
    (hnot : a ∉ (liftFrom stack lifted s).1.map Lifted.id) :
    a ∉ lifted.map Lifted.id ∧ (liftFrom stack lifted s).2.running = s.running ∧
      (liftFrom stack lifted s).2.routines.find? a = s.routines.find? a ∧
      ∀ x script, s.routines.find? a = some x → x.script = some script → .routine a ∈ stack →
        (liftFrom stack lifted s).2.onStack a = true := by
  induction stack generalizing lifted s with
  | nil => exact ⟨hnot, rfl, rfl, fun _ _ _ _ hmem => (List.not_mem_nil hmem).elim⟩
  | cons work rest ih =>
    cases work with
    | boundary =>
      refine ⟨hnot, rfl, rfl, fun _ _ _ _ hmem => ?_⟩
      simp only [onStack, liftFrom, List.contains_iff_mem]
      simpa using hmem
    | routine id =>
      -- an entry without a script at hand is passed over
      have hpassed : (∀ x script, s.routines.find? id = some x → x.script ≠ some script) →
          liftFrom (.routine id :: rest) lifted s = liftFrom rest lifted s := by
        intro hnone
        cases hr : s.routines.find? id with
        | none => simp only [liftFrom, hr]
        | some r =>
          cases hscript : r.script with
          | none => simp only [liftFrom, hr, hscript]
          | some script => exact absurd hscript (hnone r script hr)
      by_cases hlive : ∃ r script, s.routines.find? id = some r ∧ r.script = some script
      · obtain ⟨r, script', hr, hscript'⟩ := hlive
        have hlifts : liftFrom (.routine id :: rest) lifted s =
            liftFrom rest (⟨id, r.origin, script', r.parent⟩ :: lifted)
              (s.modify id fun r => { r with script := none }) := by
          simp only [liftFrom, hr, hscript']
        rw [hlifts] at hnot ⊢
        obtain ⟨hlifted, hrunning, hfind, hstack⟩ := ih _ _ hnot
        rw [List.map_cons, List.mem_cons, not_or] at hlifted
        have hsame : (s.modify id fun r => { r with script := none }).routines.find? a =
            s.routines.find? a :=
          (Roster.find?_modify _ _ _ _).trans (if_neg hlifted.1)
        refine ⟨hlifted.2, hrunning, hfind.trans hsame, fun x script hx hscript hmem => ?_⟩
        refine hstack x script (hsame.trans hx) hscript ?_
        simpa [hlifted.1] using hmem
      · have hnone : ∀ x script, s.routines.find? id = some x → x.script ≠ some script :=
          fun x script hx hscript => hlive ⟨x, script, hx, hscript⟩
        rw [hpassed hnone] at hnot ⊢
        obtain ⟨hlifted, hrunning, hfind, hstack⟩ := ih lifted s hnot
        refine ⟨hlifted, hrunning, hfind, fun x script hx hscript hmem => ?_⟩
        refine hstack x script hx hscript ?_
        have hne : a ≠ id := by
          rintro rfl
          exact hnone x script hx hscript
        simpa [hne] using hmem

theorem lift_others {frames : List (Lifted C)} (h : s.lift = (frames, t))
    (hnot : a ∉ frames.map Lifted.id) :
    t.running = s.running ∧ t.routines.find? a = s.routines.find? a ∧
      ∀ x script, s.routines.find? a = some x → x.script = some script → s.onStack a = true →
        t.onStack a = true := by
  have hfst : (liftFrom s.stack [] s).1 = frames := congrArg Prod.fst h
  have hsnd : (liftFrom s.stack [] s).2.report (.captured (liftFrom s.stack [] s).1.length) = t :=
    congrArg Prod.snd h
  obtain ⟨-, hrunning, hfind, hstack⟩ := liftFrom_others (a := a) s.stack [] s (hfst ▸ hnot)
  subst hsnd
  refine ⟨hrunning, hfind, fun x script hx hscript hon => hstack x script hx hscript ?_⟩
  simpa only [onStack, List.contains_iff_mem] using hon

/-! ### Waiting and spent routines -/

/-- A re-entry with value `v` for continuation `k` waits for its turn. -/
structure Waits (a : RoutineId) (k : Nat) (v : Value) (s : Scheduler C) : Prop where
  entry : ∃ x, s.routines.find? a = some x ∧ x.script = some (.reentry k (some v)) ∧
    x.parent = none
  stack : s.onStack a = true
  running : s.running = true

/-- A routine is never going to be fed: its script is out, or it is gone. -/
def Spent (a : RoutineId) (s : Scheduler C) : Prop :=
  ∀ x, s.routines.find? a = some x → x.script = none ∧ x.parent = none

theorem Waits.aside {k : Nat} {v : Value} (h : Waits a k v s) (haside : Aside a s t) :
    Waits a k v t := by
  obtain ⟨x, hx, hscript, hparent⟩ := h.entry
  obtain ⟨y, hy⟩ := haside.live h.stack x hx
  obtain ⟨x', hx', hscript', hparent'⟩ := haside.entry y hy
  rw [hx, Option.some.injEq] at hx'
  subst hx'
  exact ⟨⟨y, hy, hscript'.trans hscript, hparent' hparent⟩, haside.stack h.stack,
    haside.running h.running⟩

theorem Spent.aside (h : Spent a s) (haside : Aside a s t) : Spent a t := by
  intro y hy
  obtain ⟨x, hx, hscript, hparent⟩ := haside.entry y hy
  obtain ⟨hout, hnone⟩ := h x hx
  exact ⟨hscript.trans hout, hparent hnone⟩

theorem find?_free_self (s : Scheduler C) (a : RoutineId) : (s.free a).routines.find? a = none := by
  have hdead : ∀ (fuel : Nat) (pending : List RoutineId) (t : Scheduler C),
      t.routines.find? a = none → (s.onStack a = true → a ∉ pending) → t.stack = s.stack →
      (freeAll fuel pending t).routines.find? a = none := by
    intro fuel pending t ht hne hstack
    have haside : Aside a t (freeAll fuel pending t) := by
      refine aside_freeAll fuel t fun hon => hne ?_
      rw [onStack, ← hstack]
      exact hon
    cases hy : (freeAll fuel pending t).routines.find? a with
    | none => rfl
    | some y =>
      obtain ⟨x, hx, -⟩ := haside.entry y hy
      rw [ht] at hx
      cases hx
  unfold free
  rw [Nat.add_comm]
  cases hr : s.routines.remove a with
  | none =>
    have hnone := Roster.remove_eq_none.mp hr
    rw [freeAll_of_dead hnone]
    exact hdead _ _ s hnone (fun _ => List.not_mem_nil) rfl
  | some pair =>
    obtain ⟨r, routines⟩ := pair
    rw [freeAll_of_remove hr]
    refine hdead _ _ _ ?_ ?_ (shrunk_severed hr).work.stack
    · rw [find?_severed hr, if_pos rfl]
    · intro hon hmem
      simp [hon] at hmem

/-- A routine without a parent is freed when it is suspended. -/
theorem Spent.find?_suspend (h : Spent a s) (script : Script C) :
    (s.suspend a script).routines.find? a = none := by
  unfold suspend
  split
  · next r hr =>
    split
    · next q hq =>
      rw [(h r hr).2] at hq
      cases hq
    · exact find?_free_self _ a
  · exact find?_free_self _ a

/-- A routine that has finished is gone. -/
theorem find?_conclude_self (hs : s.routines.Sound) (script : Script C) (o : Outcome Value)
    (hample : (s.conclude a script o).routines.Ample a) :
    (s.conclude a script o).routines.find? a = none := by
  have hroom : s.routines.slots.size ≤ 2 ^ 32 :=
    (hample.of_grows (closed_conclude (Roster.closed_grows _).steady (.refl _) a script o)).slots
  cases hr : s.routines.find? a with
  | none =>
    rw [conclude_of_dead hr]
    exact hr
  | some r =>
    have hless : s.routines.vacated a < (s.conclude a script o).routines.vacated a := by
      by_cases hnone : r.children = []
      · exact (conclude_childless_spec hs hr hnone script o).2.2.2.1
      · obtain ⟨t, heq, -, -, -, hless, -⟩ := conclude_children_spec hs hroom hr hnone script o
        rw [heq]
        have hgrows : Roster.Grows t.routines (r.children.foldl scheduleExit t).routines :=
          closed_scheduleExits (Roster.closed_grows _).steady (.refl _) r.children
        exact Nat.lt_of_lt_of_le hless (hgrows.vacated a)
    exact Roster.find?_of_vacated hr hless (Nat.lt_of_lt_of_le hample.vacated (Nat.le_add_left ..))

/-- What a panic frees is not on the stack any more. -/
theorem Spent.abandon (h : Spent a s) : Spent a s.abandon := by
  have hfree : ∀ (ids : List RoutineId) (t : Scheduler C), t.stack = [] → Spent a t →
      Spent a (ids.foldl free t) := by
    intro ids
    induction ids with
    | nil => exact fun t _ ht => ht
    | cons id ids ih =>
      intro t hempty ht
      refine ih (t.free id) ((shrunk_free t id).work.stack.trans hempty) (ht.aside ?_)
      refine aside_free t fun hon => ?_
      simp [onStack, hempty] at hon
  unfold Scheduler.abandon
  dsimp only
  intro x hx
  refine hfree _ _ ?_ ?_ x hx
  · rfl
  · exact h

end Scheduler

/-! ### What acts leave aside -/

section Act

variable {C R : Type} {p : Nat} {panicked : Prop} {a : RoutineId}

open Scheduler in
/-- A parentless routine that no frame names is left aside, unless the pass goes
    down its stack: to pick a routine, to leave, or to lift frames. -/
theorem Act.aside {o o' : Option (Scheduler C)} {top top' : List (Frame C R)}
    {captures captures' : Nat → Option (Snapshot C)}
    (h : Act p panicked ⟨o, top, captures⟩ ⟨o', top', captures'⟩) {s s' : Scheduler C}
    (hs : o = some s) (hs' : o' = some s') (hsound : s.routines.Sound)
    (hissued : s.routines.Issued a) (hunlisted : Unlisted a s.routines)
    (hample : s'.routines.Ample a) (hnames : ∀ f ∈ top, a ∉ f.names) (hcalm : ¬ panicked) :
    (Aside a s s' ∧ ∀ f ∈ top', a ∉ f.names) ∨
    (∃ id script s₁, s.pick = (some (id, script), s₁) ∧ top = [.pass p] ∧
      top' = [.stepping p id, .pass p] ∧ s' = { s₁ with register := .unit }.told) ∨
    (∃ s₁ unwinding, s.pick = (none, s₁) ∧ top' = [] ∧
      s' = ({ s₁ with register := .unit }.leave unwinding).told) ∨
    ∃ id script frames s₁, a ≠ id ∧ (s.shelve id script).lift = (frames, s₁) ∧ s' = s₁.told ∧
      (∀ f ∈ top', a ∈ f.names → a ∈ frames.map Lifted.id) ∧
      (frames ≠ [] → ∃ handler left, top' = [.capturing p id handler frames [] left]) := by
  have htold : ∀ t : Scheduler C, Aside a t t.told :=
    fun t => .of_same rfl (fun hon => hon) fun hrun => hrun
  have hnone : ∀ f ∈ ([] : List (Frame C R)), a ∉ f.names := List.forall_mem_nil _
  cases h with
  | still o t =>
    rw [hs, Option.some.injEq] at hs'
    exact Or.inl ⟨hs' ▸ .refl a s, hnone⟩
  | note s₀ t unhandled =>
    cases hs
    cases hs'
    exact Or.inl ⟨.of_same rfl (fun hon => hon) fun hrun => hrun, hnone⟩
  | create settings t => cases hs
  | vanish s₀ t => cases hs'
  | @pick s₀ s₁ id script hpick t =>
    cases hs
    cases hs'
    exact Or.inr (Or.inl ⟨id, script, s₁, hpick, rfl, rfl, rfl⟩)
  | @leave s₀ s₁ hpick unwinding t =>
    cases hs
    cases hs'
    exact Or.inr (Or.inr (Or.inl ⟨s₁, unwinding, hpick, rfl, rfl⟩))
  | abandon hp => exact absurd hp hcalm
  | sweep s₀ t =>
    cases hs
    cases hs'
    refine Or.inl ⟨(aside_freeUnclaimed s).trans ?_, hnone⟩
    exact .of_same rfl (fun hon => hon) fun hrun => hrun
  | drop o f t =>
    rw [hs, Option.some.injEq] at hs'
    exact Or.inl ⟨hs' ▸ .refl a s, hnone⟩
  | conclude o id script outcome t =>
    subst hs
    cases hs'
    have hne : a ≠ id := by simpa [Frame.names] using hnames
    exact Or.inl ⟨(aside_conclude hsound hissued hunlisted hne script outcome hample).trans
      (htold _), hnone⟩
  | suspend o id script t =>
    subst hs
    cases hs'
    have hne : a ≠ id := by simpa [Frame.names] using hnames
    exact Or.inl ⟨(aside_suspend s hne script).trans (htold _), hnone⟩
  | reset o id script t =>
    subst hs
    cases hs'
    have hne : a ≠ id := by simpa [Frame.names] using hnames
    refine Or.inl ⟨((aside_shelve s hne script).trans (aside_push _ _)).trans (htold _), ?_⟩
    simpa [Frame.names] using hne
  | splice o id script nested t =>
    subst hs
    cases hs'
    have hne : a ≠ id := by simpa [Frame.names] using hnames
    have hshelved : Aside a s (s.shelve id script).told := (aside_shelve s hne script).trans (htold _)
    refine Or.inl ⟨(hshelved.trans ?_).trans (htold _), hnone⟩
    exact aside_scheduleChild (s := (s.shelve id script).told)
      ((edits_shelve s id script).closed Roster.closed_sound hsound)
      ((edits_shelve s id script).closed (Roster.closed_issued a) hissued) .splice nested id hample
  | build o id origin script t =>
    subst hs
    cases hs'
    exact Or.inl ⟨(aside_scheduleChild hsound hissued origin script id hample).trans (htold _), hnone⟩
  | @lift s₀ s₁ id script frames hlift handler left t =>
    cases hs
    cases hs'
    have hne : a ≠ id := by simpa [Frame.names] using hnames
    refine Or.inr (Or.inr (Or.inr ⟨id, script, frames, s₁, hne, hlift, rfl, ?_,
      fun _ => ⟨handler, left, rfl⟩⟩))
    simp [Frame.names, hne]
  | @liftNothing s₀ s₁ id script k t hlift hk =>
    cases hs
    cases hs'
    have hne : a ≠ id := by simpa [Frame.names] using hnames
    refine Or.inr (Or.inr (Or.inr ⟨id, script, [], s₁, hne, hlift, rfl, ?_, fun h => absurd rfl h⟩))
    simp [Frame.names, hne]
  | copied o id handler frames copies copies' left left' t =>
    rw [hs, Option.some.injEq] at hs'
    refine Or.inl ⟨hs' ▸ .refl a s, ?_⟩
    simpa [Frame.names] using hnames
  | @capture o id handler frames copies copies' left k t hk =>
    subst hs
    cases hs'
    have hne : a ≠ id ∧ a ∉ frames.map Lifted.id := by
      simpa [Frame.names, not_or] using hnames
    refine Or.inl ⟨(aside_giveBackAll frames s hne.2).trans (htold _), ?_⟩
    simpa [Frame.names] using hne.1
  | root o script t =>
    subst hs
    cases hs'
    refine Or.inl ⟨(aside_scheduleRoot hsound hissued script hample).trans ?_, by simp [Frame.names]⟩
    exact .of_same rfl (fun hon => hon) fun _ => rfl
  | queue hrun k v t =>
    cases hs
    cases hs'
    exact Or.inl ⟨(aside_queue hsound hissued k v hample).trans (htold _), hnone⟩
  | reenter hidle k v t =>
    cases hs
    cases hs'
    refine Or.inl ⟨(aside_queue hsound hissued k v hample).trans ?_, by simp [Frame.names]⟩
    exact .of_same rfl (fun hon => hon) fun _ => rfl
  | @reinstate s₀ k snapshot ids t hk hids hlive v =>
    cases hs
    cases hs'
    exact Or.inl ⟨(aside_reinstate s ids v).trans (htold _), hnone⟩
  | claim hk hgone =>
    cases hs
    cases hs'
    exact Or.inl ⟨.refl a s, hnone⟩
  | @plant s₀ s₁ k snapshot copies ids t hk hplant v =>
    cases hs
    cases hs'
    have hplanted : Aside a s s₁ := by
      have hs₁ : (s.plant snapshot.frames copies).2 = s₁ := congrArg Prod.snd hplant
      rw [← hs₁]
      exact aside_plant hsound hissued _ _ (hs₁ ▸ hample)
    have hreinstated : Aside a s₁.told (s₁.told.reinstate ids v).told :=
      (aside_reinstate s₁.told ids v).trans (htold _)
    exact Or.inl ⟨(hplanted.trans (htold s₁)).trans hreinstated, hnone⟩
  | plantNothing hk hempty hgone v =>
    cases hs
    cases hs'
    have hreinstated : Aside a s.told (s.told.reinstate [] v).told :=
      (aside_reinstate s.told [] v).trans (htold _)
    exact Or.inl ⟨(htold s).trans hreinstated, hnone⟩
  | unclaim o hk hids =>
    subst hs
    cases hs'
    exact Or.inl ⟨.of_same rfl (fun hon => hon) fun hrun => hrun, hnone⟩
  | forget o hk hclaimed =>
    rw [hs, Option.some.injEq] at hs'
    exact Or.inl ⟨hs' ▸ .refl a s, hnone⟩

open Scheduler in
/-- A re-entry waits on, unless it is picked or lifted. -/
theorem Act.waits {o o' : Option (Scheduler C)} {top top' : List (Frame C R)}
    {captures captures' : Nat → Option (Snapshot C)}
    (h : Act p panicked ⟨o, top, captures⟩ ⟨o', top', captures'⟩) {s s' : Scheduler C}
    (hs : o = some s) (hs' : o' = some s') (hl : Linked s.routines) {k : Nat} {v : Value}
    (hw : Waits a k v s) (hample : s'.routines.Ample a) (hnames : ∀ f ∈ top, a ∉ f.names)
    (hcalm : ¬ panicked) :
    (Waits a k v s' ∧ ∀ f ∈ top', a ∉ f.names) ∨
    (∃ s₁, s.pick = (some (a, .reentry k (some v)), s₁) ∧ top = [.pass p] ∧
      top' = [.stepping p a, .pass p] ∧ s' = { s₁ with register := .unit }.told) ∨
    ∃ id handler frames left, top' = [.capturing p id handler frames [] left] ∧
      a ∈ frames.map Lifted.id := by
  obtain ⟨x, hx, hscript, hparent⟩ := hw.entry
  have hon : .routine a ∈ s.stack := by
    have hstack := hw.stack
    simpa only [onStack, List.contains_iff_mem] using hstack
  have hunlisted : Unlisted a s.routines := fun b y hy => hl.not_mem_children hx hparent hy
  rcases h.aside hs hs' hl.sound (Roster.issued_of_find? hx) hunlisted hample hnames hcalm with
    ⟨haside, hnames'⟩ | ⟨id, script, s₁, hpick, htop, htop', rfl⟩ | ⟨s₁, unwinding, hpick, -, -⟩ |
    ⟨id, script, frames, s₁, hne, hlift, rfl, hnamed, hframes⟩
  · exact Or.inl ⟨hw.aside haside, hnames'⟩
  · obtain ⟨hrunning, hothers⟩ := pickFrom_others hpick
    rcases pickFrom_waiting hpick hx hscript hon with hout | ⟨⟨id', script', hout, hne⟩, hstack⟩
    · cases hout
      exact Or.inr (Or.inl ⟨s₁, hpick, htop, htop', rfl⟩)
    · cases hout
      refine Or.inl ⟨⟨⟨x, ?_, hscript, hparent⟩, hstack, hrunning.trans hw.running⟩, ?_⟩
      · refine (hothers a fun script'' heq => ?_).trans hx
        cases heq
        exact hne rfl
      · rw [htop']
        simpa [Frame.names] using hne
  · -- a pass does not end while somebody waits
    rcases pickFrom_waiting hpick hx hscript hon with hout | ⟨⟨_, _, hout, -⟩, -⟩
    · cases hout
    · cases hout
  · by_cases hmem : a ∈ frames.map Lifted.id
    · have hsome : frames ≠ [] := by
        rintro rfl
        cases hmem
      obtain ⟨handler, left, htop'⟩ := hframes hsome
      exact Or.inr (Or.inr ⟨id, handler, frames, left, htop', hmem⟩)
    · have hshelved : Waits a k v (s.shelve id script) := hw.aside (aside_shelve s hne script)
      obtain ⟨y, hy, hscript', hparent'⟩ := hshelved.entry
      obtain ⟨hrunning, hfind, hstack⟩ := lift_others hlift hmem
      refine Or.inl ⟨⟨⟨y, hfind.trans hy, hscript', hparent'⟩, hstack y _ hy hscript' hshelved.stack,
        hrunning.trans hshelved.running⟩, ?_⟩
      exact fun f hf hmem' => hmem (hnamed f hf hmem')

open Scheduler in
/-- A routine that is spent stays so. -/
theorem Act.spent {o o' : Option (Scheduler C)} {top top' : List (Frame C R)}
    {captures captures' : Nat → Option (Snapshot C)}
    (h : Act p panicked ⟨o, top, captures⟩ ⟨o', top', captures'⟩) {s s' : Scheduler C}
    (hs : o = some s) (hs' : o' = some s') (hl : Linked s.routines)
    (hissued : s.routines.Issued a) (hspent : Spent a s) (hample : s'.routines.Ample a)
    (hnames : ∀ f ∈ top, a ∉ f.names) (hcalm : ¬ panicked) :
    Spent a s' ∧ ∀ f ∈ top', a ∉ f.names := by
  have hunlisted : Unlisted a s.routines := by
    intro b y hy hmem
    obtain ⟨x, hx, hparent⟩ := hl.child hy hmem
    rw [(hspent x hx).2] at hparent
    cases hparent
  rcases h.aside hs hs' hl.sound hissued hunlisted hample hnames hcalm with
    ⟨haside, hnames'⟩ | ⟨id, script, s₁, hpick, htop, htop', rfl⟩ |
    ⟨s₁, unwinding, hpick, rfl, rfl⟩ | ⟨id, script, frames, s₁, hne, hlift, rfl, hnamed, -⟩
  · exact ⟨hspent.aside haside, hnames'⟩
  · -- what is picked has a script
    obtain ⟨r, hr, hscript⟩ := Machine.live_of_pickFrom hpick
    have hne : a ≠ id := by
      rintro rfl
      rw [(hspent r hr).1] at hscript
      cases hscript
    obtain ⟨-, hothers⟩ := pickFrom_others hpick
    have hsame : s₁.routines.find? a = s.routines.find? a := by
      refine hothers a fun script' heq => ?_
      cases heq
      exact hne rfl
    refine ⟨fun x hx => hspent x (hsame ▸ hx), ?_⟩
    rw [htop']
    simpa [Frame.names] using hne
  · obtain ⟨-, hothers⟩ := pickFrom_others hpick
    have hsame : s₁.routines.find? a = s.routines.find? a := by
      refine hothers a fun script heq => ?_
      cases heq
    have hleft : Spent a { s₁ with register := .unit } := fun x hx => hspent x (hsame ▸ hx)
    refine ⟨?_, List.forall_mem_nil _⟩
    cases unwinding with
    | false => exact hleft
    | true => exact Spent.abandon (s := { s₁ with register := .unit, running := false }) hleft
  · have hshelved : Spent a (s.shelve id script) := hspent.aside (aside_shelve s hne script)
    -- what is lifted has a script
    have hnot : a ∉ frames.map Lifted.id := by
      intro hmem
      obtain ⟨frame, hframe, rfl⟩ := List.mem_map.mp hmem
      obtain ⟨x, hx, hscript, -⟩ := live_of_lift hlift frame hframe
      rw [(hshelved x hx).1] at hscript
      cases hscript
    obtain ⟨-, hfind, -⟩ := lift_others hlift hnot
    exact ⟨fun x hx => hshelved x (hfind ▸ hx), fun f hf hmem => hnot (hnamed f hf hmem)⟩

end Act

end Strand
