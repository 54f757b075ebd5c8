import Strand.Machine.Step
import Strand.Proofs.Conclude
import Strand.Proofs.Table

/-! # Edits — everything that can happen to a scheduler's routines

    Whatever the machine does, the routines of a scheduler change by a handful
    of edits only: a script is put in or taken out, routines are added, freed
    or concluded. So what every edit preserves holds throughout every run:

    * slots are never given up (`Edits.grows`);
    * parents and children agree (`Edits.linked`), as long as the slots can be
      told apart by their 32-bit index. -/

namespace Strand.Scheduler

variable {C : Type}

/-- One change of a scheduler's routines. -/
inductive Edit : Scheduler C → Scheduler C → Prop where
  /-- Something else changed. -/
  | idle {s s' : Scheduler C} (h : s'.routines = s.routines) : Edit s s'
  /-- What a routine carries besides its links changed. -/
  | carry {s s' : Scheduler C} (id : RoutineId) (f : Routine C → Routine C)
      (hparent : ∀ x, (f x).parent = x.parent) (hchildren : ∀ x, (f x).children = x.children)
      (h : s'.routines = s.routines.modify id f) : Edit s s'
  /-- A routine was added without a parent. -/
  | add {s s' : Scheduler C} (origin : Origin) (script : Script C)
      (h : s'.routines = (s.add origin script).2.routines) : Edit s s'
  /-- A routine was added under a parent. -/
  | addUnder {s s' : Scheduler C} (origin : Origin) (script : Script C)
      (parent : Option RoutineId)
      (h : s'.routines = (s.addUnder origin script parent).2.routines) : Edit s s'
  /-- Copies of captured frames were planted. -/
  | plant {s s' : Scheduler C} (frames : List (FrameCopy C)) (copies : List (Script C))
      (h : s'.routines = (s.plant frames copies).2.routines) : Edit s s'
  /-- A routine was freed. -/
  | free {s s' : Scheduler C} (id : RoutineId)
      (h : s'.routines = (s.free id).routines) : Edit s s'
  /-- A routine finished. -/
  | conclude {s s' : Scheduler C} (id : RoutineId) (script : Script C) (o : Outcome Value)
      (h : s'.routines = (s.conclude id script o).routines) : Edit s s'

/-- Changes of a scheduler's routines, one after the other. -/
inductive Edits : Scheduler C → Scheduler C → Prop where
  | refl (s : Scheduler C) : Edits s s
  | tail {s t u : Scheduler C} (h : Edits s t) (e : Edit t u) : Edits s u

theorem Edits.trans {s t u : Scheduler C} (h : Edits s t) (h' : Edits t u) : Edits s u := by
  induction h' with
  | refl => exact h
  | tail _ e ih => exact ih.tail e

theorem Edit.once {s s' : Scheduler C} (e : Edit s s') : Edits s s' := (Edits.refl s).tail e

theorem Edits.idle {s s' : Scheduler C} (h : s'.routines = s.routines) : Edits s s' :=
  (Edit.idle h).once

/-- The first change may have been to something else. -/
theorem Edits.after {s t u : Scheduler C} (h : Edits t u) (heq : t.routines = s.routines) :
    Edits s u :=
  (Edits.idle heq).trans h

/-! ### What changing, inserting and removing entries keeps true -/

section Steady

variable {P : Roster (Routine C) → Prop} (hP : Roster.Steady P) {s : Scheduler C}

include hP

theorem closed_link (h : P s.routines) (c : RoutineId) (parent : Option RoutineId) :
    P (s.link c parent).routines := by
  unfold link
  cases s.liveParent parent with
  | none => exact hP.modify _ _ (fun _ => rfl) h
  | some q => exact hP.modify _ _ (fun _ => rfl) (hP.modify _ _ (fun _ => rfl) h)

theorem closed_addCopies (h : P s.routines) (frames : List (FrameCopy C × Script C)) :
    P (addCopies frames s).2.routines := by
  induction frames generalizing s with
  | nil => exact h
  | cons pair frames ih => exact ih (s := (s.add pair.1.origin pair.2).2) (hP.insert _ h)

theorem closed_links (h : P s.routines) (ids : List RoutineId)
    (pairs : List (FrameCopy C × RoutineId)) :
    P (pairs.foldl (fun s (frame, id) => s.link id (frame.parent.resolve ids)) s).routines := by
  induction pairs generalizing s with
  | nil => exact h
  | cons pair pairs ih => exact ih (closed_link hP h pair.2 (pair.1.parent.resolve ids))

theorem closed_freeAll (h : P s.routines) (fuel : Nat) (pending : List RoutineId) :
    P (freeAll fuel pending s).routines := by
  induction fuel generalizing pending s with
  | zero => exact h
  | succ fuel ih =>
    cases pending with
    | nil => exact h
    | cons id pending =>
      cases hr : s.routines.remove id with
      | none =>
        rw [freeAll_of_dead (Roster.remove_eq_none.mp hr)]
        exact ih h pending
      | some pair =>
        obtain ⟨r, routines⟩ := pair
        have hremoved : P routines := hP.remove hr h
        rw [freeAll_of_remove hr]
        refine ih (closed_cutAll hP (closed_unlink hP ?_ _ _) _) _
        cases r.script <;> exact hremoved

end Steady

section Closed

variable {P : Roster (Routine C) → Prop} (hP : Roster.Closed P) {s s' : Scheduler C}

include hP

theorem Edit.closed (e : Edit s s') (h : P s.routines) : P s'.routines := by
  cases e with
  | idle heq => exact heq ▸ h
  | carry id f _ _ heq => exact heq ▸ hP.modify id f h
  | add origin script heq => exact heq ▸ hP.insert _ h
  | addUnder origin script parent heq =>
    have hadd : P (s.add origin script).2.routines := hP.insert _ h
    exact heq ▸ closed_link hP.steady hadd _ parent
  | plant frames copies heq =>
    exact heq ▸ closed_links hP.steady (closed_addCopies hP.steady h (frames.zip copies)) _ _
  | free id heq => exact heq ▸ closed_freeAll hP.steady h _ _
  | conclude id script o heq => exact heq ▸ closed_conclude hP.steady h id script o

theorem Edits.closed (h : Edits s s') (hs : P s.routines) : P s'.routines := by
  induction h with
  | refl => exact hs
  | tail _ e ih => exact e.closed hP ih

end Closed

/-- Slots are never given up. -/
theorem Edits.grows {s s' : Scheduler C} (h : Edits s s') :
    Roster.Grows s.routines s'.routines :=
  h.closed (Roster.closed_grows _) (.refl _)

theorem Edit.grows {s s' : Scheduler C} (e : Edit s s') : Roster.Grows s.routines s'.routines :=
  e.once.grows

/-! ### Links agree -/

/-- Linking changes neither the parents of other routines nor any script. -/
theorem find?_link_of_ne (s : Scheduler C) {c a : RoutineId} (hne : a ≠ c)
    (parent : Option RoutineId) {y : Routine C} (h : s.routines.find? a = some y) :
    ∃ y', (s.link c parent).routines.find? a = some y' ∧ y'.parent = y.parent := by
  unfold link
  cases s.liveParent parent with
  | none =>
    refine ⟨y, ?_, rfl⟩
    show (Roster.modify _ _ _).find? a = _
    rw [Roster.find?_modify, if_neg hne, h]
  | some q =>
    show ∃ y', (Roster.modify (Roster.modify _ _ _) _ _).find? a = some y' ∧ _
    rw [Roster.find?_modify, if_neg hne, Roster.find?_modify, h]
    split
    · exact ⟨_, rfl, rfl⟩
    · exact ⟨y, rfl, rfl⟩

theorem length_addCopies (frames : List (FrameCopy C × Script C)) (s : Scheduler C) :
    (addCopies frames s).1.length = frames.length := by
  induction frames generalizing s with
  | nil => rfl
  | cons pair frames ih => exact congrArg Nat.succ (ih (s.add pair.1.origin pair.2).2)

/-- Copies of frames are new routines without parents. -/
theorem Linked.addCopies {s : Scheduler C} (h : Linked s.routines)
    (frames : List (FrameCopy C × Script C))
    (hroom : (addCopies frames s).2.routines.slots.size ≤ 2 ^ 32) :
    Linked (addCopies frames s).2.routines ∧ (addCopies frames s).1.Nodup ∧
      (∀ a x, s.routines.find? a = some x →
        (addCopies frames s).2.routines.find? a = some x ∧ a ∉ (addCopies frames s).1) ∧
      ∀ a ∈ (addCopies frames s).1, ∃ origin copy,
        (addCopies frames s).2.routines.find? a = some ⟨origin, some copy, none, []⟩ := by
  induction frames generalizing s with
  | nil => exact ⟨h, List.nodup_nil, fun a x hx => ⟨hx, List.not_mem_nil⟩, nofun⟩
  | cons pair frames ih =>
    obtain ⟨frame, copy⟩ := pair
    have hone : (s.add frame.origin copy).2.routines.slots.size ≤ 2 ^ 32 :=
      Nat.le_trans (closed_addCopies (Roster.closed_grows _).steady (.refl _) frames).slots hroom
    have hadd : Linked (s.add frame.origin copy).2.routines :=
      LinkedBut.insert h frame.origin (some copy) hone nofun
    have hfind := h.sound.find?_insert ⟨frame.origin, some copy, none, []⟩ hone
    have hfresh := h.sound.find?_insert_fst ⟨frame.origin, some copy, none, []⟩ hone
    obtain ⟨hlinked, hnodup, hold, hnew⟩ := ih hadd hroom
    have hself : (s.add frame.origin copy).2.routines.find? (s.add frame.origin copy).1 =
        some ⟨frame.origin, some copy, none, []⟩ := (hfind _).trans (if_pos rfl)
    obtain ⟨hself', hnotin⟩ := hold _ _ hself
    refine ⟨hlinked, List.nodup_cons.mpr ⟨hnotin, hnodup⟩, ?_, ?_⟩
    · intro a x hx
      have hne : a ≠ (s.add frame.origin copy).1 := by
        rintro rfl
        cases hfresh.symm.trans hx
      obtain ⟨hx', hnot⟩ := hold a x ((hfind a).trans ((if_neg hne).trans hx))
      refine ⟨hx', ?_⟩
      intro hmem
      rcases List.mem_cons.mp hmem with heq | hmem
      · exact hne heq
      · exact hnot hmem
    · intro a ha
      rcases List.mem_cons.mp ha with rfl | ha
      · exact ⟨_, _, hself'⟩
      · exact hnew a ha

/-- Each copy is linked once, while it has no parent yet. -/
theorem Linked.plant {s : Scheduler C} (h : Linked s.routines) (frames : List (FrameCopy C))
    (copies : List (Script C)) (hroom : (s.plant frames copies).2.routines.slots.size ≤ 2 ^ 32) :
    Linked (s.plant frames copies).2.routines := by
  have hfold : ∀ (ids : List RoutineId) (pairs : List (FrameCopy C × RoutineId))
      (t : Scheduler C), Linked t.routines → (pairs.map Prod.snd).Nodup →
      (∀ a ∈ pairs.map Prod.snd, ∃ x, t.routines.find? a = some x ∧ x.parent = none) →
      Linked (pairs.foldl (fun s (frame, id) => s.link id (frame.parent.resolve ids))
        t).routines := by
    intro ids pairs
    induction pairs with
    | nil => exact fun t ht _ _ => ht
    | cons pair pairs ih =>
      obtain ⟨frame, id⟩ := pair
      intro t ht hnodup hroots
      rw [List.map_cons, List.nodup_cons] at hnodup
      obtain ⟨x, hx, hnone⟩ := hroots id (List.mem_cons_self ..)
      refine ih _ (LinkedBut.link ht hx hnone _) hnodup.2 ?_
      intro a ha
      obtain ⟨y, hy, hpar⟩ := hroots a (List.mem_cons_of_mem _ ha)
      have hne : a ≠ id := by
        rintro rfl
        exact hnodup.1 ha
      obtain ⟨y', hy', hpar'⟩ := find?_link_of_ne t hne (frame.parent.resolve ids) hy
      exact ⟨y', hy', hpar'.trans hpar⟩
  have hcopies : (Scheduler.addCopies (frames.zip copies) s).2.routines.slots.size ≤ 2 ^ 32 := by
    refine Nat.le_trans (Roster.Grows.slots ?_) hroom
    exact closed_links (Roster.closed_grows _).steady (.refl _) _ _
  obtain ⟨hlinked, hnodup, -, hroots⟩ := Linked.addCopies h (frames.zip copies) hcopies
  have hids : ((frames.zip (Scheduler.addCopies (frames.zip copies) s).1).map Prod.snd) =
      (Scheduler.addCopies (frames.zip copies) s).1 := by
    apply List.map_snd_zip
    rw [length_addCopies, List.length_zip]
    exact Nat.min_le_left _ _
  refine hfold _ _ _ hlinked ?_ ?_
  · rw [hids]
    exact hnodup
  · rw [hids]
    intro a ha
    obtain ⟨_, _, hx⟩ := hroots a ha
    exact ⟨_, hx, rfl⟩

theorem Linked.addUnder {s : Scheduler C} (h : Linked s.routines) (origin : Origin)
    (script : Script C) (parent : Option RoutineId)
    (hroom : (s.addUnder origin script parent).2.routines.slots.size ≤ 2 ^ 32) :
    Linked (s.addUnder origin script parent).2.routines := by
  have hone : (s.add origin script).2.routines.slots.size ≤ 2 ^ 32 :=
    Nat.le_trans (closed_link (Roster.closed_grows _).steady (.refl _) _ parent).slots hroom
  have hadd : Linked (s.add origin script).2.routines :=
    LinkedBut.insert h origin (some script) hone nofun
  have hself : (s.add origin script).2.routines.find? (s.add origin script).1 =
      some ⟨origin, some script, none, []⟩ :=
    (h.sound.find?_insert ⟨origin, some script, none, []⟩ hone _).trans (if_pos rfl)
  exact LinkedBut.link hadd hself rfl parent

theorem Edit.linked {s s' : Scheduler C} (e : Edit s s') (h : Linked s.routines)
    (hroom : s'.routines.slots.size ≤ 2 ^ 32) : Linked s'.routines := by
  have hslots := Nat.le_trans e.grows.slots hroom
  cases e with
  | idle heq => exact heq ▸ h
  | carry id f hparent hchildren heq => exact heq ▸ h.modify id hparent hchildren
  | add origin script heq =>
    rw [heq] at hroom ⊢
    exact LinkedBut.insert h origin (some script) hroom nofun
  | addUnder origin script parent heq =>
    rw [heq] at hroom ⊢
    exact Linked.addUnder h origin script parent hroom
  | plant frames copies heq =>
    rw [heq] at hroom ⊢
    exact Linked.plant h frames copies hroom
  | free id heq => exact heq ▸ h.free id
  | conclude id script o heq => exact heq ▸ Linked.conclude h hslots id script o

theorem Edits.linked {s s' : Scheduler C} (h : Edits s s') (hl : Linked s.routines)
    (hroom : s'.routines.slots.size ≤ 2 ^ 32) : Linked s'.routines := by
  induction h with
  | refl => exact hl
  | tail _ e ih => exact e.linked (ih (Nat.le_trans e.grows.slots hroom)) hroom

/-! ### What the operations of a scheduler edit -/

/-- Putting a script in or taking it out, and whatever else but the routines. -/
theorem Edits.script {s s' : Scheduler C} (id : RoutineId) (script : Option (Script C))
    (h : s'.routines = s.routines.modify id fun r => { r with script }) : Edits s s' :=
  (Edit.carry id (fun r => { r with script }) (fun _ => rfl) (fun _ => rfl) h).once

theorem edits_pickFrom (stack : List StackEntry) (s : Scheduler C) :
    Edits s (pickFrom stack s).2 := by
  induction stack generalizing s with
  | nil => exact .idle rfl
  | cons entry rest ih =>
    cases entry with
    | boundary => exact (ih (s.report .boundaryConsumed)).after rfl
    | routine id =>
      unfold pickFrom
      split
      · exact (ih (s.report (.skippingStale id))).after rfl
      · split
        · exact ih s
        · exact .script id none rfl

theorem edits_giveBack (s : Scheduler C) (id : RoutineId) (script : Script C) :
    Edits s (s.giveBack id script) := by
  unfold giveBack
  split
  · exact .script id (some script) rfl
  · exact .idle rfl

theorem edits_shelve (s : Scheduler C) (id : RoutineId) (script : Script C) :
    Edits s (s.shelve id script) := by
  unfold shelve
  split
  · exact (edits_giveBack s id script).trans (.idle rfl)
  · exact .idle rfl

theorem edits_scheduleChild (s : Scheduler C) (origin : Origin) (script : Script C)
    (parent : RoutineId) : Edits s (s.scheduleChild origin script parent) := by
  have hedit : Edit s (s.scheduleChild origin script parent) :=
    .addUnder origin script (some parent) rfl
  exact hedit.once

theorem edits_scheduleRoot (s : Scheduler C) (script : Script C) :
    Edits s (s.scheduleRoot script) := by
  have hedit : Edit s (s.scheduleRoot script) := .addUnder .root script none rfl
  exact hedit.once

theorem edits_liftFrom (stack : List StackEntry) (lifted : List (Lifted C)) (s : Scheduler C) :
    Edits s (liftFrom stack lifted s).2 := by
  induction stack generalizing lifted s with
  | nil => exact .idle rfl
  | cons entry rest ih =>
    cases entry with
    | boundary => exact .idle rfl
    | routine id =>
      unfold liftFrom
      split
      · exact ih lifted s
      · split
        · exact ih lifted s
        · exact (Edits.script id none rfl).trans (ih _ _)

theorem edits_lift (s : Scheduler C) : Edits s s.lift.2 :=
  (edits_liftFrom s.stack [] s).trans (.idle rfl)

theorem edits_giveBackAll (s : Scheduler C) (frames : List (Lifted C)) :
    Edits s (s.giveBackAll frames) := by
  unfold giveBackAll
  induction frames generalizing s with
  | nil => exact .refl s
  | cons frame frames ih => exact (edits_giveBack s frame.id frame.script).trans (ih _)

theorem edits_free (s : Scheduler C) (id : RoutineId) : Edits s (s.free id) :=
  (Edit.free id rfl).once

theorem edits_suspend (s : Scheduler C) (id : RoutineId) (script : Script C) :
    Edits s (s.suspend id script) := by
  have hgone : Edits s ((s.retire script).free id) :=
    (edits_free (s.retire script) id).after rfl
  unfold suspend
  split
  · split
    · exact edits_giveBack s id script
    · exact hgone
  · exact hgone

theorem edits_leave (s : Scheduler C) (panicking : Bool) : Edits s (s.leave panicking) := by
  have hfold : ∀ (ids : List RoutineId) (t : Scheduler C), Edits t (ids.foldl free t) := by
    intro ids
    induction ids with
    | nil => exact .refl
    | cons id ids ih => exact fun t => (edits_free t id).trans (ih _)
  unfold leave
  split
  · refine Edits.trans (Edits.after (hfold _ _) ?_) (.idle rfl)
    rfl
  · exact .idle rfl

theorem edits_freeUnclaimed (s : Scheduler C) : Edits s s.freeUnclaimed.2 := by
  have hfold : ∀ (ids : List RoutineId) (n : Nat) (t : Scheduler C),
      Edits t (ids.foldl freeIfLost (n, t)).2 := by
    intro ids
    induction ids with
    | nil => exact fun _ t => .refl t
    | cons id ids ih =>
      intro n t
      rw [List.foldl_cons]
      by_cases hlost : t.isLost id = true
      · simp only [freeIfLost, hlost, if_true]
        exact (edits_free t id).trans (ih _ _)
      · simp only [freeIfLost, hlost]
        exact ih n t
  have hstart : Edits s { s with unclaimed := [] } := .idle rfl
  exact hstart.trans (hfold _ _ _)

theorem edits_conclude (s : Scheduler C) (id : RoutineId) (script : Script C)
    (o : Outcome Value) : Edits s (s.conclude id script o) :=
  (Edit.conclude id script o rfl).once

theorem edits_plant (s : Scheduler C) (frames : List (FrameCopy C)) (copies : List (Script C)) :
    Edits s (s.plant frames copies).2 :=
  (Edit.plant frames copies rfl).once

end Strand.Scheduler

namespace Strand.Store

variable {C : Type}

/-! ### Stores -/

/-- The schedulers of a store have been edited; new ones have new numbers. -/
structure Edited (st st' : Store C) : Prop where
  size : st.schedulers.cells.size ≤ st'.schedulers.cells.size
  edits : ∀ {p s'}, st'.schedulers.find? p = some s' →
    (∃ s, st.schedulers.find? p = some s ∧ Scheduler.Edits s s') ∨
    (st.schedulers.cells.size ≤ p ∧ ∃ settings, Scheduler.Edits (.new settings) s')

theorem Edited.refl (st : Store C) : Edited st st :=
  ⟨Nat.le_refl _, fun {_ s'} h => Or.inl ⟨s', h, .refl s'⟩⟩

theorem Edited.trans {st st' st'' : Store C} (h : Edited st st') (h' : Edited st' st'') :
    Edited st st'' := by
  refine ⟨Nat.le_trans h.size h'.size, ?_⟩
  intro p s'' hs''
  rcases h'.edits hs'' with ⟨s', hs', he'⟩ | ⟨hle, hnew⟩
  · rcases h.edits hs' with ⟨s, hs, he⟩ | ⟨hle, settings, he⟩
    · exact Or.inl ⟨s, hs, he.trans he'⟩
    · exact Or.inr ⟨hle, settings, he.trans he'⟩
  · exact Or.inr ⟨Nat.le_trans h.size hle, hnew⟩

/-- Every scheduler that is found is found as it was. -/
theorem Edited.of_find? {st st' : Store C}
    (hsize : st'.schedulers.cells.size = st.schedulers.cells.size)
    (hfind : ∀ p s', st'.schedulers.find? p = some s' → st.schedulers.find? p = some s') :
    Edited st st' :=
  ⟨Nat.le_of_eq hsize.symm, fun {p s'} h => Or.inl ⟨s', hfind p s' h, .refl s'⟩⟩

theorem Edited.of_eq {st st' : Store C} (h : st'.schedulers = st.schedulers) : Edited st st' :=
  .of_find? (by rw [h]) fun p s' hs => h ▸ hs

theorem edited_log (st : Store C) (r : Record) : Edited st (st.log r) := .of_eq rfl

/-- Counting holders changes no scheduler. -/
theorem find?_retainAll (st : Store C) (hs : List Handle) (p : Nat) :
    (st.retainAll hs).schedulers.find? p = st.schedulers.find? p := by
  have hone : ∀ (t : Store C) (h : Handle),
      (t.retain h).schedulers.find? p = t.schedulers.find? p := by
    intro t h
    cases h with
    | scheduler q => exact Table.find?_retain t.schedulers q p
    | _ => rfl
  unfold retainAll
  induction hs generalizing st with
  | nil => rfl
  | cons h hs ih => exact (ih (st.retain h)).trans (hone st h)

/-- Nor does it change any snapshot. -/
theorem find?_snapshots_retainAll (st : Store C) (hs : List Handle) (k : Nat) :
    (st.retainAll hs).snapshots.find? k = st.snapshots.find? k := by
  have hone : ∀ (t : Store C) (h : Handle),
      (t.retain h).snapshots.find? k = t.snapshots.find? k := by
    intro t h
    cases h with
    | continuation q => exact Table.find?_retain t.snapshots q k
    | _ => rfl
  unfold retainAll
  induction hs generalizing st with
  | nil => rfl
  | cons h hs ih => exact (ih (st.retain h)).trans (hone st h)

theorem size_retainAll (st : Store C) (hs : List Handle) :
    (st.retainAll hs).schedulers.cells.size = st.schedulers.cells.size := by
  have hone : ∀ (t : Store C) (h : Handle),
      (t.retain h).schedulers.cells.size = t.schedulers.cells.size := by
    intro t h
    cases h with
    | scheduler q => exact Table.size_cells_retain t.schedulers q
    | _ => rfl
  unfold retainAll
  induction hs generalizing st with
  | nil => rfl
  | cons h hs ih => exact (ih (st.retain h)).trans (hone st h)

/-- Counting a holder does not undo or bring about that a completion has
    settled. -/
theorem progress_retain (st : Store C) (h : Handle) (c : Nat) :
    ((st.retain h).completions.find? c).map Completion.progress =
      (st.completions.find? c).map Completion.progress := by
  cases h with
  | completion d =>
    show ((st.completions.retain d).find? c).map _ = _
    rw [Table.find?_retain]
  | settler d =>
    show (((st.completions.retain d).modify d _).find? c).map _ = _
    rw [Table.find?_modify, Table.find?_retain]
    split
    · rw [Option.map_map]
      rfl
    · rfl
  | _ => rfl

theorem progress_retainAll (st : Store C) (hs : List Handle) (c : Nat) :
    ((st.retainAll hs).completions.find? c).map Completion.progress =
      (st.completions.find? c).map Completion.progress := by
  unfold retainAll
  induction hs generalizing st with
  | nil => rfl
  | cons h hs ih => exact (ih (st.retain h)).trans (progress_retain st h c)

theorem edited_retainAll (st : Store C) (hs : List Handle) : Edited st (st.retainAll hs) :=
  .of_find? (size_retainAll st hs) fun p _ h => (find?_retainAll st hs p).symm.trans h

theorem edited_onScheduler (st : Store C) (p : Nat) {f : Scheduler C → Scheduler C}
    (hf : ∀ s, st.schedulers.find? p = some s → Scheduler.Edits s (f s)) :
    Edited st (st.onScheduler p f) := by
  unfold onScheduler
  split
  · next s hs =>
    refine ⟨Nat.le_of_eq (Table.size_cells_set _ _ _).symm, ?_⟩
    intro q s' hs'
    have hfind := Table.find?_set st.schedulers p { f s with reports := [] } q
    rw [show st.schedulers.set p { f s with reports := [] } = _ from rfl] at hfind
    by_cases hq : q = p
    · subst hq
      rw [if_pos rfl, hs] at hfind
      have heq : { f s with reports := [] } = s' := Option.some.inj (hfind.symm.trans hs')
      exact Or.inl ⟨s, hs, heq ▸ (hf s hs).trans (.idle rfl)⟩
    · rw [if_neg hq] at hfind
      exact Or.inl ⟨s', hfind.symm.trans hs', .refl s'⟩
  · exact .refl st

theorem edited_letGo (held : C → List Handle) (st : Store C) (h : Handle) :
    Edited st (st.letGo held h).2 := by
  unfold letGo
  cases h with
  | completion c => exact .of_eq rfl
  | settler c =>
    dsimp only
    split
    · exact .refl st
    · split
      · split <;> exact .of_eq rfl
      · exact .of_eq rfl
  | queue q => exact .of_eq rfl
  | continuation k =>
    dsimp only
    split
    · exact .of_eq rfl
    · next snapshot _ =>
      dsimp only
      split
      · next ids _ =>
        have hstart : Edited st { st with snapshots := (st.snapshots.letGo k).2 } := .of_eq rfl
        exact hstart.trans (edited_onScheduler _ snapshot.home fun s _ => .idle rfl)
      · exact .of_eq rfl
  | reenter p => exact .refl st
  | scheduler p =>
    refine .of_find? (Table.size_cells_letGo _ _) ?_
    intro q s hs
    rcases Table.find?_letGo st.schedulers p q with heq | ⟨-, hnone⟩
    · exact heq.symm.trans hs
    · cases hnone.symm.trans hs
  | bridge b => exact .of_eq rfl
  | coroutine x => exact .of_eq rfl

end Strand.Store

namespace Strand.Machine

open Store

variable {C R : Type} (m : Machine C R)

/-! ### Moves of the machine -/

theorem edited_retain (hs : List Handle) : Edited m.store (m.retain hs).store :=
  edited_retainAll m.store hs

theorem edited_onScheduler (p : Nat) {f : Scheduler C → Scheduler C}
    (hf : ∀ s, m.scheduler? p = some s → Scheduler.Edits s (f s)) :
    Edited m.store (m.onScheduler p f).store :=
  Store.edited_onScheduler m.store p hf

theorem edited_settle (c : Nat) (o : Outcome Value) :
    Edited m.store (m.settle c o).store := by
  unfold settle
  split
  · exact (edited_retain m o.handles).trans (.of_eq rfl)
  · exact .refl _

theorem edited_wakeTask (b : Nat) (task : Task C) (o : Outcome Value) :
    Edited m.store (m.wakeTask b task o).store := by
  unfold wakeTask
  dsimp only
  split
  · exact .of_eq rfl
  · refine .of_eq ?_
    show (Store.bridgeReport _ _ _).schedulers = _
    unfold Store.bridgeReport
    split <;> rfl

theorem edited_tellListener (w : Listener C) (o : Outcome Value) :
    Edited m.store (m.tellListener w o).store := by
  cases w with
  | call code => exact .refl _
  | resume b task => exact edited_wakeTask m b task o

theorem edited_notify (listeners : List (Listener C)) (o : Outcome Value) :
    Edited m.store (m.notify listeners o).store := by
  cases listeners with
  | nil => exact .refl _
  | cons w rest =>
    exact (edited_retain m o.handles).trans
      (edited_tellListener ((m.retain o.handles).push (.notifying rest o)) w o)

theorem edited_await (held : C → List Handle) (c : Nat) (w : Listener C) :
    Edited m.store (m.await held c w).store := by
  unfold await
  split
  · exact .of_eq rfl
  · next o _ _ =>
    exact (edited_retain m o.handles).trans
      (edited_tellListener ((m.retain o.handles).push (.replying .unit)) w o)
  · exact .refl _

theorem edited_runJob (job : Job C) : Edited m.store (m.runJob job).store := by
  cases job with
  | call code => exact .refl _
  | settle c o => exact edited_settle (m.push (.holding [.settler c])) c o

theorem edited_drainNext (q ran : Nat) : Edited m.store (m.drainNext q ran).store := by
  unfold drainNext
  split
  · next job rest _ =>
    have htaken : Edited m.store (m.withStore fun s =>
        { s with queues := s.queues.set q rest }).store := .of_eq rfl
    exact htaken.trans (edited_runJob ((m.withStore fun s =>
      { s with queues := s.queues.set q rest }).push (.draining q (ran + 1))) job)
  · exact .refl _

/-! ### Moves of bridges -/

theorem edited_bridgeReport (st : Store C) (b : Nat) (r : Report) :
    Edited st (st.bridgeReport b r) := by
  unfold Store.bridgeReport
  split
  · exact .of_eq rfl
  · exact .refl st

theorem edited_bridgeHead (b : Nat) : Edited m.store (m.bridgeHead b).store := by
  unfold bridgeHead
  split
  · exact .refl _
  · split
    · exact .of_eq rfl
    · next action rest _ => cases action <;> exact .of_eq rfl

theorem edited_taskBuilt (b settler : Nat) (script : Script C) :
    Edited m.store (m.taskBuilt b settler script).store := by
  unfold taskBuilt
  split
  · exact .refl _
  · next bridge _ =>
    have hcounted : Edited m.store
        (m.onBridge b fun x => { x with nextId := bridge.nextId + 1 }).store := .of_eq rfl
    exact (hcounted.trans (edited_bridgeReport _ b (.taskStarted bridge.nextId))).trans
      (.of_eq rfl)

theorem edited_taskNotBuilt (b settler : Nat) (error : Error) :
    Edited m.store (m.taskNotBuilt b settler error).store :=
  (edited_bridgeReport m.store b (.taskNotStarted error)).trans
    (edited_settle ((m.withStore (·.bridgeReport b (.taskNotStarted error))).push
      (.holding [.settler settler])) settler (.failure error))

theorem edited_taskStepped (held : C → List Handle) (b : Nat) (id : UInt64) (settler : Nat)
    (script : Script C) (step : Step C) :
    Edited m.store (m.taskStepped held b id settler script step).store := by
  cases step with
  | done o =>
    exact (edited_bridgeReport m.store b (.taskFinished id o.isSuccess)).trans
      (edited_settle ((m.withStore (·.bridgeReport b (.taskFinished id o.isSuccess))).push
        (.holding (.settler settler :: script.handles held))) settler o)
  | yield i =>
    cases i with
    | await c =>
      have hreport := edited_bridgeReport m.store b (.taskAwaiting id)
      have hretain := edited_retain (m.withStore (·.bridgeReport b (.taskAwaiting id))) [.bridge b]
      exact (hreport.trans hretain).trans
        (edited_await (((m.withStore (·.bridgeReport b (.taskAwaiting id))).retain
          [.bridge b]).push (.holding [.completion c])) held c (.resume b ⟨id, script, settler⟩))
    | _ => exact .refl _

theorem edited_runTask (b : Nat) (code : C) : Edited m.store (m.runTask b code).store := by
  unfold runTask
  dsimp only
  split <;> exact .of_eq rfl

/-! ### Moves of passes -/

theorem edited_enterPass (p : Nat) (dropped : List Handle) :
    Edited m.store (m.enterPass p dropped).store :=
  edited_onScheduler m p fun _ _ => .idle rfl

theorem edited_passHead (p : Nat) : Edited m.store (m.passHead p).store := by
  unfold passHead
  split
  · exact .refl _
  · next s hs =>
    have hpick : Scheduler.Edits s s.pick.2 := Scheduler.edits_pickFrom s.stack s
    split
    · next id script s' heq =>
      refine edited_onScheduler m p fun s₀ hs₀ => ?_
      rw [hs, Option.some.injEq] at hs₀
      subst hs₀
      rw [heq] at hpick
      exact hpick.trans (.idle rfl)
    · next s' heq =>
      refine edited_onScheduler m p fun s₀ hs₀ => ?_
      rw [hs, Option.some.injEq] at hs₀
      subst hs₀
      rw [heq] at hpick
      have hreset : Scheduler.Edits s' { s' with register := .unit } := .idle rfl
      exact (hpick.trans hreset).trans (Scheduler.edits_leave _ _)

theorem edited_sweep (held : C → List Handle) (p : Nat) :
    Edited m.store (m.sweep held p).store := by
  unfold sweep
  split
  · exact .refl _
  · next s hs =>
    have hswept : Edited m.store (m.onScheduler p fun _ =>
        { s.freeUnclaimed.2 with current := none, retired := [] }).store := by
      refine edited_onScheduler m p fun s₀ hs₀ => ?_
      rw [hs, Option.some.injEq] at hs₀
      subst hs₀
      exact (Scheduler.edits_freeUnclaimed s).trans (.idle rfl)
    dsimp only
    split
    · exact hswept
    · exact hswept

theorem edited_concludeStep (p : Nat) (id : RoutineId) (script : Script C) (o : Outcome Value) :
    Edited m.store (m.concludeStep p id script o).store := by
  unfold concludeStep
  exact (edited_retain m _).trans (edited_onScheduler (m.retain _) p
    fun s _ => Scheduler.edits_conclude s id script o)

theorem edited_startChild (p : Nat) (id : RoutineId) (origin : Origin) (script : Script C) :
    Edited m.store (m.startChild p id origin script).store :=
  edited_onScheduler m p fun s _ => Scheduler.edits_scheduleChild s origin script id

theorem edited_captureNext (p : Nat) (id : RoutineId) (handler : C) (frames : List (Lifted C))
    (copies : List (Script C)) (left : List (Lifted C)) :
    Edited m.store (m.captureNext p id handler frames copies left).store := by
  cases left with
  | nil =>
    have hgiven := edited_onScheduler m p fun s _ => Scheduler.edits_giveBackAll s frames
    exact hgiven.trans (.of_eq rfl)
  | cons frame left => exact .refl _

theorem edited_obey (p : Nat) (id : RoutineId) (script : Script C) (i : Instruction C) :
    Edited m.store (m.obey p id script i).store := by
  cases i with
  | reset block =>
    exact edited_onScheduler m p fun s _ => (Scheduler.edits_shelve s id script).trans (.idle rfl)
  | shift handler =>
    cases hs : m.scheduler? p with
    | none =>
      simp only [obey, hs]
      exact .refl _
    | some s =>
      simp only [obey, hs]
      have hlifted : Edited m.store
          (m.onScheduler p fun _ => (s.shelve id script).lift.2).store := by
        refine edited_onScheduler m p fun s₀ hs₀ => ?_
        rw [hs, Option.some.injEq] at hs₀
        subst hs₀
        exact (Scheduler.edits_shelve s id script).trans (Scheduler.edits_lift _)
      exact hlifted.trans (edited_captureNext _ p id handler _ [] _)
  | suspend => exact edited_onScheduler m p fun s _ => Scheduler.edits_suspend s id script
  | splice nested =>
    have hshelved := edited_onScheduler m p fun s _ => Scheduler.edits_shelve s id script
    exact hshelved.trans (edited_startChild _ p id .splice nested)
  | await c => exact edited_onScheduler m p fun s _ => Scheduler.edits_suspend s id script

theorem edited_routineStepped (p : Nat) (id : RoutineId) (script : Script C) (step : Step C) :
    Edited m.store (m.routineStepped p id script step).store := by
  cases step with
  | done o => exact edited_concludeStep m p id script o
  | yield i => exact edited_obey m p id script i

theorem edited_openRoot (p : Nat) (settler : Option Nat) (script : Script C) :
    Edited m.store (m.openRoot p settler script).store := by
  cases settler with
  | none =>
    have hroot := edited_onScheduler m p fun s _ => Scheduler.edits_scheduleRoot s script
    exact hroot.trans (edited_enterPass (m.onScheduler p _) p _)
  | some c =>
    have hroot := edited_onScheduler m p fun s _ => Scheduler.edits_scheduleRoot s (.root script c)
    exact hroot.trans (edited_enterPass ((m.onScheduler p _).push (.firstPass p)) p _)

/-! ### Moves of continuations -/

theorem edited_reinstate (p : Nat) (frames : List RoutineId) (v : Value) :
    Edited m.store (m.reinstate p frames v).store :=
  edited_onScheduler m p fun _ _ => .idle rfl

theorem edited_reinstateNext (k : Nat) (v : Value) (copies : List (Script C))
    (left : List (FrameCopy C)) : Edited m.store (m.reinstateNext k v copies left).store := by
  cases left with
  | cons frame left => exact .refl _
  | nil =>
    unfold reinstateNext
    dsimp only
    split
    · exact .refl _
    · next snapshot _ =>
      split
      · exact .refl _
      · next s hs =>
        have hplanted : Edited m.store
            (m.onScheduler snapshot.home fun _ => (s.plant snapshot.frames copies).2).store := by
          refine edited_onScheduler m snapshot.home fun s₀ hs₀ => ?_
          rw [hs, Option.some.injEq] at hs₀
          subst hs₀
          exact Scheduler.edits_plant s snapshot.frames copies
        exact hplanted.trans (edited_reinstate _ _ _ _)

theorem edited_invoke (k : Nat) (v : Value) : Edited m.store (m.invoke k v).store := by
  unfold invoke
  split
  · exact .refl _
  · next snapshot _ =>
    split
    · exact .of_eq rfl
    · next s _ =>
      have hheld : Edited m.store (((m.retain [.scheduler snapshot.home]).push
          (.holding [.scheduler snapshot.home])).withStore fun t =>
            { t with
              snapshots := t.snapshots.set k { snapshot with routines := none } }).store :=
        (edited_retain m [.scheduler snapshot.home]).trans (.of_eq rfl)
      dsimp only
      split
      · exact hheld.trans (edited_reinstateNext _ k v [] snapshot.frames)
      · next ids _ =>
        split
        · exact hheld.trans (edited_reinstate _ snapshot.home ids v)
        · exact (hheld.trans (edited_log _ .replayingSnapshot)).trans (edited_reinstateNext
            ((((m.retain [.scheduler snapshot.home]).push
              (.holding [.scheduler snapshot.home])).withStore fun t =>
                { t with
                  snapshots := t.snapshots.set k { snapshot with routines := none } }).withStore
                (·.log .replayingSnapshot)) k v [] snapshot.frames)

theorem edited_reenter (p k : Nat) (v : Value) : Edited m.store (m.reenter p k v).store := by
  unfold reenter
  split
  · exact .of_eq rfl
  · next s hs =>
    have hretain := edited_retain m (.scheduler p :: .continuation k :: v.handles)
    have hfound : ∀ s₀, (m.retain (.scheduler p :: .continuation k :: v.handles)).scheduler? p =
        some s₀ → s₀ = s := by
      intro s₀ hs₀
      have hs₁ := (find?_retainAll m.store _ p).symm.trans hs₀
      exact Option.some.inj (hs₁.symm.trans hs)
    have hadd : ∀ t : Scheduler C,
        t.routines = (s.add .reenter (.reentry k (some v))).2.routines → Scheduler.Edits s t :=
      fun t ht => (Scheduler.Edit.add .reenter (.reentry k (some v)) ht).once
    dsimp only
    split
    · refine hretain.trans (edited_onScheduler
        ((m.retain (.scheduler p :: .continuation k :: v.handles)).push
          (.holding [.scheduler p])) p fun s₀ hs₀ => ?_)
      rw [hfound s₀ hs₀]
      exact hadd _ rfl
    · have hscheduled := edited_onScheduler
        ((m.retain (.scheduler p :: .continuation k :: v.handles)).push (.holding [.scheduler p])) p
        (f := fun _ => { ((s.add .reenter (.reentry k (some v))).2.push
          (.routine (s.add .reenter (.reentry k (some v))).1)) with
            register := .success v }.report .reentering) (by
          intro s₀ hs₀
          rw [hfound s₀ hs₀]
          exact hadd _ rfl)
      exact (hretain.trans hscheduled).trans (edited_enterPass ((Machine.onScheduler _ p _).push
        (.reentered p)) p _)

/-! ### Scripts and requests -/

theorem edited_enterStage (held : C → List Handle) (s : Staged C) (input : Outcome Value) :
    Edited m.store (m.enterStage held s input).store := by
  unfold enterStage
  split
  · exact .refl _
  · next o _ _ => exact edited_retain m o.handles
  · next code _ _ => exact edited_retain m (held code)

theorem edited_moveOwn (B : Behavior C R) (state : C) (exiting : Bool) (input : Outcome Value) :
    Edited m.store (m.moveOwn B state exiting input).store :=
  edited_retain m _

theorem edited_advanceScript (B : Behavior C R) (script : Script C) (input : Outcome Value) :
    Edited m.store (m.advanceScript B script input).store := by
  cases script with
  | staged s => exact edited_enterStage m B.held s input
  | own state => exact edited_moveOwn m B state false input
  | exit inner progress =>
    unfold advanceScript
    dsimp only
    split <;> exact .refl _
  | settled stored =>
    cases input with
    | failure e => exact .refl _
    | success v => exact edited_retain m stored.handles
  | reentry k value =>
    cases value with
    | none => exact .refl _
    | some v => exact edited_invoke ((m.push (.inReentry k)).push (.holding input.handles)) k v
  | root inner settler => exact .refl _

theorem edited_exitScript (B : Behavior C R) (script : Script C) :
    Edited m.store (m.exitScript B script).store := by
  cases script with
  | staged s =>
    show Edited m.store (m.exitStages B.held s).store
    unfold exitStages
    split
    · next code _ _ => exact edited_retain m (B.held code)
    · exact .refl _
  | own state => exact edited_moveOwn m B state true .unit
  | _ => exact .refl _

theorem edited_copyScript (B : Behavior C R) (script : Script C) :
    Edited m.store (m.copyScript B script).store := by
  unfold copyScript
  split
  · next code _ => exact edited_retain m (B.held code)
  · exact edited_retain m (script.handles B.held)

theorem edited_record (note : Note) : Edited m.store (m.record note).store := .of_eq rfl

theorem edited_evaluate (held : C → List Handle) (p : Nat) (code : C) :
    Edited m.store (m.evaluate held p code).store := by
  unfold evaluate
  dsimp only
  split <;> exact .refl _

theorem edited_start (held : C → List Handle) (p : Nat) (code : C) :
    Edited m.store (m.start held p code).store := by
  unfold start
  dsimp only
  split <;> exact .of_eq rfl

theorem edited_countRoutines (p : Nat) : Edited m.store (m.countRoutines p).store := by
  unfold countRoutines
  dsimp only
  split <;> exact .refl _

theorem edited_advanceKept (x : Nat) (input : Option (Outcome Value)) :
    Edited m.store (m.advanceKept x input).store := by
  unfold advanceKept takeKept
  split
  · cases input <;> exact .of_eq rfl
  · exact .refl _

theorem edited_positionKept (x : Nat) : Edited m.store (m.positionKept x).store := by
  unfold positionKept
  split <;> exact .refl _

/-- A new scheduler has a number that none has had before. -/
theorem edited_newScheduler (settings : Settings) (st : Store C) :
    Edited st { st with schedulers := (st.schedulers.alloc 1 (.new settings)).2 } := by
  refine ⟨?_, ?_⟩
  · rw [Table.size_cells_alloc]
    exact Nat.le_succ _
  · intro p s' hs'
    have hfind := Table.find?_alloc st.schedulers 1 (.new settings) p
    rw [show (st.schedulers.alloc 1 (.new settings)).2.find? p = some s' from hs'] at hfind
    split at hfind
    · next hp =>
      refine Or.inr ⟨Nat.le_of_eq hp.symm, settings, ?_⟩
      rw [Option.some.inj hfind]
      exact .refl _
    · exact Or.inl ⟨s', hfind.symm, .refl s'⟩

theorem edited_perform (B : Behavior C R) (request : Request C) :
    Edited m.store (m.perform B request).store := by
  cases request with
  | record note => exact edited_record m note
  | readVariable name =>
    show Edited m.store (m.readVariable name).store
    unfold readVariable
    split
    · exact edited_retain m _
    · exact .refl _
  | writeVariable name v => exact .of_eq rfl
  | removeVariable name => exact .of_eq rfl
  | attempt code => exact .refl _
  | newCompletion => exact .of_eq rfl
  | settledCompletion o => exact .of_eq rfl
  | settle c o => exact edited_settle (m.push (.holding [.settler c])) c o
  | isSettled side => exact .refl _
  | outcome c =>
    unfold perform
    dsimp only
    split
    · exact edited_retain m _
    · exact .refl _
  | onSettle c code =>
    exact edited_await (m.push (.holding [.completion c])) B.held c (.call code)
  | newQueue => exact .of_eq rfl
  | defer q job => exact .of_eq rfl
  | settleLater q o => exact .of_eq rfl
  | queueLength q => exact .refl _
  | drain q => exact .refl _
  | newScheduler settings => exact edited_newScheduler settings m.store
  | evaluate p code => exact edited_evaluate m B.held p code
  | start p code => exact edited_start m B.held p code
  | countRoutines p => exact edited_countRoutines m p
  | isRunning runner => exact .refl _
  | takeFailures p => exact edited_onScheduler m p fun _ _ => .idle rfl
  | depth k => exact .refl _
  | invoke k v => exact edited_invoke (m.push (.holding [.continuation k])) k v
  | reenter p k v => exact edited_reenter (m.push (.holding [.continuation k])) p k v
  | newBridge settings => exact .of_eq rfl
  | run b code => exact edited_runTask m b code
  | countActions b => exact .refl _
  | keep script positioned => exact .of_eq rfl
  | advance x input => exact edited_advanceKept m x input
  | copy x =>
    show Edited m.store (m.takeKept x [] fun script m =>
      (m.push (.keepingCopy x script)).copy script).store
    unfold takeKept
    split <;> exact .of_eq rfl
  | position x => exact edited_positionKept m x

/-! ### Answers, panics and steps -/

theorem edited_exitStepped (progress : ForcedReturn) (inner : Script C) (step : Step C) :
    Edited m.store (m.exitStepped progress inner step).store := by
  unfold exitStepped
  split
  · exact edited_retain m _
  · exact .refl _

theorem edited_rootStepped (settler : Nat) (inner : Script C) (step : Step C) :
    Edited m.store (m.rootStepped settler inner step).store := by
  cases step with
  | done o =>
    exact (edited_retain m o.handles).trans (edited_settle
      ((m.retain o.handles).push (.reporting inner settler o)) settler o)
  | yield i => exact .refl _

theorem edited_deliver (B : Behavior C R) (a : Answer C) (f : Frame C R) :
    Edited m.store (m.deliver B a f).store := by
  cases f with
  | code next =>
    unfold deliver
    dsimp only
    split <;> exact .refl _
  | inExit progress =>
    cases a with
    | stepped step inner => exact edited_exitStepped m progress inner step
    | _ => exact .refl _
  | inRoot settler =>
    cases a with
    | stepped step inner => exact edited_rootStepped m settler inner step
    | _ => exact .refl _
  | copying script => exact edited_retain m _
  | notifying listeners o => exact edited_notify m listeners o
  | draining q ran => exact edited_drainNext m q ran
  | pass p => exact edited_passHead m p
  | stepping p id =>
    cases a with
    | stepped step script => exact edited_routineStepped m p id script step
    | _ => exact .refl _
  | building p id origin => exact edited_startChild m p id origin a.script
  | capturing p id handler frames copies left =>
    exact edited_captureNext m p id handler frames (copies ++ [a.script]) left
  | sweeping p => exact edited_sweep m B.held p
  | opening p settler => exact edited_openRoot m p settler a.script
  | firstPass p =>
    unfold deliver
    dsimp only
    split
    · exact edited_onScheduler m p fun _ _ => .idle rfl
    · exact .refl _
  | reentered p =>
    unfold deliver
    dsimp only
    split
    · exact edited_onScheduler m p fun _ _ => .idle rfl
    · exact .refl _
  | reinstating k v copies left => exact edited_reinstateNext m k v (copies ++ [a.script]) left
  | driving b => exact edited_bridgeHead m b
  | starting b settler =>
    unfold deliver
    dsimp only
    split
    · exact edited_taskNotBuilt m b settler _
    · exact edited_taskBuilt m b settler _
  | resuming b id settler =>
    cases a with
    | stepped step script => exact edited_taskStepped m B.held b id settler script step
    | _ => exact .refl _
  | advancing x => cases a <;> exact .of_eq rfl
  | keepingCopy x script => exact .of_eq rfl
  | _ => exact .refl _

theorem edited_unwindFrame (B : Behavior C R) (payload : Payload) (salvage : Option (Script C))
    (f : Frame C R) : Edited m.store (m.unwindFrame B payload salvage f).store := by
  cases f with
  | releasing rest onward => cases onward <;> exact .refl _
  | pass p => exact edited_onScheduler m p fun s _ => Scheduler.edits_leave s true
  | stepping p id =>
    unfold unwindFrame
    dsimp only
    split
    · exact edited_routineStepped m p id _ _
    · exact .refl _
  | building p id origin =>
    unfold unwindFrame
    dsimp only
    split
    · exact edited_startChild m p id origin _
    · exact .refl _
  | opening p settler =>
    unfold unwindFrame
    dsimp only
    split
    · exact edited_openRoot m p settler _
    · exact .refl _
  | starting b settler =>
    unfold unwindFrame
    dsimp only
    split
    · exact edited_taskNotBuilt m b settler _
    · exact .refl _
  | resuming b id settler =>
    unfold unwindFrame
    dsimp only
    split
    · exact edited_taskStepped m B.held b id settler _ _
    · exact .refl _
  | advancing x =>
    unfold unwindFrame
    dsimp only
    split <;> exact .of_eq rfl
  | driving b => exact .of_eq rfl
  | keepingCopy x script => exact .of_eq rfl
  | _ => exact .refl _

theorem edited_letGo (B : Behavior C R) (h : Handle) (rest : List Handle) (onward : Onward C R) :
    Edited m.store (m.letGo B h rest onward).store := by
  have hletGo := Store.edited_letGo B.held m.store h
  unfold letGo
  split
  · next hs store heq =>
    rw [heq] at hletGo
    exact hletGo
  · next c store heq =>
    rw [heq] at hletGo
    exact hletGo.trans (edited_settle (({ m with store } : Machine C R).push
      (.releasing (.completion c :: rest) onward)) c (.failure .abandoned))

theorem edited_act (B : Behavior C R) (reaction : Reaction C R) :
    Edited m.store (m.act B reaction).store := by
  cases reaction with
  | ask request next => exact edited_perform (m.push (.code next)) B request
  | _ => exact .refl _

theorem edited_tell (B : Behavior C R) (state : R) (signal : Signal C) :
    Edited m.store (m.tell B state signal).store := by
  unfold tell
  dsimp only [recount]
  split <;> exact edited_retain m _

theorem edited_goOn (B : Behavior C R) (onward : Onward C R) :
    Edited m.store (m.goOn B onward).store := by
  cases onward with
  | begin code entry => exact edited_retain m _
  | tell state signal => exact edited_tell m B state signal
  | act reaction => exact edited_act m B reaction
  | give a =>
    unfold goOn
    dsimp only
    split
    · exact .refl _
    · next f control _ => exact edited_deliver { m with control } B a f
  | unwind payload salvage =>
    unfold goOn
    dsimp only
    split
    · exact .refl _
    · next f control _ => exact edited_unwindFrame { m with control } B payload salvage f

/-- One move of the machine edits the schedulers, and does nothing else to
    them. -/
theorem edited_step (B : Behavior C R) : Edited m.store (m.step B).store := by
  unfold step
  split
  · exact edited_advanceScript m B _ _
  · exact edited_exitScript m B _
  · exact edited_copyScript m B _
  · exact edited_letGo m B _ _ _
  · exact edited_goOn m B _
  · exact .refl _

/-! ### Runs -/

/-- What a machine comes to: by its own moves, and by further operations once
    it has halted. -/
inductive Later (B : Behavior C R) (m : Machine C R) : Machine C R → Prop where
  | refl : Later B m m
  | step {n : Machine C R} (h : Later B m n) : Later B m (n.step B)
  /-- The next operation; the events so far may have been read. -/
  | anew {n : Machine C R} (h : Later B m n) (halted : n.control = []) (events : List Event)
      (focus : Focus C R) : Later B m ⟨{ n.store with events }, [], focus⟩

/-- What a machine with an empty store can come to. -/
def Reachable (B : Behavior C R) (m : Machine C R) : Prop :=
  ∃ focus, Later B ⟨.empty, [], focus⟩ m

variable {m}

theorem Later.trans {B : Behavior C R} {n o : Machine C R} (h : Later B m n)
    (h' : Later B n o) : Later B m o := by
  induction h' with
  | refl => exact h
  | step _ ih => exact ih.step
  | anew _ halted events focus ih => exact ih.anew halted events focus

theorem Later.edited {B : Behavior C R} {n : Machine C R} (h : Later B m n) :
    Edited m.store n.store := by
  induction h with
  | refl => exact .refl _
  | step _ ih => exact ih.trans (edited_step _ B)
  | anew _ _ _ _ ih => exact ih.trans (.of_eq rfl)

/-- What is reachable stays so. -/
theorem Reachable.later {B : Behavior C R} {n : Machine C R} (h : Reachable B m)
    (h' : Later B m n) : Reachable B n := by
  obtain ⟨focus, hm⟩ := h
  exact ⟨focus, hm.trans h'⟩

/-- In a reachable machine the parents and children of every scheduler agree,
    as long as 32 bits are enough to number its slots. -/
theorem Reachable.linked {B : Behavior C R} (h : Reachable B m) {p : Nat} {s : Scheduler C}
    (hs : m.scheduler? p = some s) (hroom : s.routines.slots.size ≤ 2 ^ 32) :
    Scheduler.Linked s.routines := by
  obtain ⟨focus, hm⟩ := h
  rcases hm.edited.edits hs with ⟨s₀, hs₀, -⟩ | ⟨-, settings, hedits⟩
  · have hnone : (Store.empty : Store C).schedulers.find? p = none := by
      simp [Store.empty, Table.empty, Table.find?, Table.cell?]
    cases hnone.symm.trans hs₀
  · exact hedits.linked Scheduler.linked_empty hroom

/-- A scheduler that is there has only been edited since. -/
theorem Later.edits {B : Behavior C R} {n : Machine C R} (h : Later B m n) {p : Nat}
    {s s' : Scheduler C} (hs : m.scheduler? p = some s) (hs' : n.scheduler? p = some s') :
    Scheduler.Edits s s' := by
  rcases h.edited.edits hs' with ⟨s₀, hs₀, hedits⟩ | ⟨hle, -⟩
  · have heq : s₀ = s := Option.some.inj (hs₀.symm.trans hs)
    exact heq ▸ hedits
  · exact absurd (Table.lt_size_of_find? hs) (Nat.not_lt_of_le hle)

/-- A scheduler that is there before and afterwards is there in between. -/
theorem Later.scheduler_between {B : Behavior C R} {n o : Machine C R} (h : Later B m n)
    (h' : Later B n o) {p : Nat} {s s' : Scheduler C} (hs : m.scheduler? p = some s)
    (hs' : o.scheduler? p = some s') : ∃ t, n.scheduler? p = some t := by
  rcases h'.edited.edits hs' with ⟨t, ht, -⟩ | ⟨hle, -⟩
  · exact ⟨t, ht⟩
  · exact absurd (Table.lt_size_of_find? hs) (Nat.not_lt_of_le (h.edited.size.trans hle))

/-- A slot that was there before is still there, in the same generation or a
    later one. -/
theorem Later.grows {B : Behavior C R} {n : Machine C R} (h : Later B m n) {p : Nat}
    {s s' : Scheduler C} (hs : m.scheduler? p = some s) (hs' : n.scheduler? p = some s') :
    Roster.Grows s.routines s'.routines :=
  (h.edits hs hs').grows

end Strand.Machine

