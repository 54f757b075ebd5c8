import Strand.Program
import Strand.Proofs.Publication

/-! # Panics — a panic that is caught ends a step as a failure does

    A panic that has left the code of a step passes the wrappers of the script
    in the same moves in which a failure would be handed through them. What it
    leaves behind differs in one respect: a list of stages has not finished. Its
    script is disposed of at once, so all that counts is what it holds.

    * `Alike`, `DiffersAt`: two schedulers, and two stores, that differ in
      nothing but the scripts that a scheduler is about to dispose of. The next
      sweep makes them equal (`sweep_alike`).
    * `Sheds`: handles are let go of, and nobody is woken by it. A callback that
      runs on the way of a panic could tell that from a failure.
    * `panic_meets_failure`: the machine in which the code panics and the
      one in which it returns come to the same machine.
    * `panics_end_as_failures`: so do the runs of two programs, of which one
      panics wherever the other one fails, over and over again.

    The wrapper of a started root is none of those that a panic may pass: the
    root does not report then, and its completion is abandoned
    (`started_panic_abandoned`). -/

namespace Strand

/-! ### Tables that differ in one cell -/

namespace Table

variable {α : Type} {rel : α → α → Prop} {i : Nat} {t u : Table α}

/-- The tables differ in the content of one cell at most, by `rel`. -/
structure DiffersAt (rel : α → α → Prop) (i : Nat) (t u : Table α) : Prop where
  size : u.cells.size = t.cells.size
  others : ∀ j, j ≠ i → u.cell? j = t.cell? j
  cell : (t.cell? i = none ∧ u.cell? i = none) ∨
    ∃ holders a b, t.cell? i = some ⟨holders, a⟩ ∧ u.cell? i = some ⟨holders, b⟩ ∧ rel a b

theorem DiffersAt.refl (hrefl : ∀ a, rel a a) (t : Table α) : DiffersAt rel i t t := by
  refine ⟨rfl, fun _ _ => rfl, ?_⟩
  cases t.cell? i with
  | none => exact Or.inl ⟨rfl, rfl⟩
  | some c => exact Or.inr ⟨c.holders, c.content, c.content, rfl, rfl, hrefl _⟩

theorem DiffersAt.eq (h : DiffersAt Eq i t u) : u = t := by
  have hcells : ∀ j, u.cell? j = t.cell? j := by
    intro j
    by_cases hj : j = i
    · subst hj
      rcases h.cell with ⟨ht, hu⟩ | ⟨holders, a, b, ht, hu, rfl⟩
      · rw [ht, hu]
      · rw [ht, hu]
    · exact h.others j hj
  obtain ⟨a⟩ := t
  obtain ⟨b⟩ := u
  congr
  refine Array.ext h.size fun j hb ha => ?_
  have hj := hcells j
  simpa [cell?, hb, ha] using hj

theorem DiffersAt.find?_of_ne (h : DiffersAt rel i t u) {j : Nat} (hj : j ≠ i) :
    u.find? j = t.find? j :=
  congrArg (Option.map Cell.content) (h.others j hj)

theorem DiffersAt.find? (h : DiffersAt rel i t u) :
    (t.find? i = none ∧ u.find? i = none) ∨
      ∃ a b, t.find? i = some a ∧ u.find? i = some b ∧ rel a b := by
  rcases h.cell with ⟨ht, hu⟩ | ⟨holders, a, b, ht, hu, hab⟩
  · exact Or.inl ⟨by rw [Table.find?, ht]; rfl, by rw [Table.find?, hu]; rfl⟩
  · exact Or.inr ⟨a, b, by rw [Table.find?, ht]; rfl, by rw [Table.find?, hu]; rfl, hab⟩

/-- Something is put into the cell in which they differ. -/
theorem DiffersAt.set {rel' : α → α → Prop} {a b : α} (h : DiffersAt rel i t u) (hab : rel' a b) :
    DiffersAt rel' i (t.set i a) (u.set i b) := by
  refine ⟨by rw [size_cells_set, size_cells_set, h.size], ?_, ?_⟩
  · intro j hj
    rw [cell?_replaced, cell?_replaced, if_neg hj, if_neg hj, h.others j hj]
  · rw [cell?_replaced, cell?_replaced, if_pos rfl, if_pos rfl]
    rcases h.cell with ⟨ht, hu⟩ | ⟨holders, a', b', ht, hu, -⟩
    · exact Or.inl ⟨by rw [ht]; rfl, by rw [hu]; rfl⟩
    · exact Or.inr ⟨holders, a, b, by rw [ht]; rfl, by rw [hu]; rfl, hab⟩

/-- The same is put into another cell. -/
theorem DiffersAt.set_of_ne (h : DiffersAt rel i t u) {k : Nat} (hk : k ≠ i) (a : α) :
    DiffersAt rel i (t.set k a) (u.set k a) := by
  refine ⟨by rw [size_cells_set, size_cells_set, h.size], ?_, ?_⟩
  · intro j hj
    rw [cell?_replaced, cell?_replaced, h.others k hk, h.others j hj]
  · rw [cell?_replaced, cell?_replaced, if_neg hk.symm, if_neg hk.symm]
    exact h.cell

/-- A holder lets go of the cell in which they differ. -/
theorem DiffersAt.letGo (h : DiffersAt rel i t u) (j : Nat) :
    ((u.letGo j).1 = (t.letGo j).1 ∨
      ∃ a b, (t.letGo j).1 = some a ∧ (u.letGo j).1 = some b ∧ rel a b) ∧
      DiffersAt rel i (t.letGo j).2 (u.letGo j).2 := by
  by_cases hj : j = i
  · subst hj
    rw [fst_letGo, fst_letGo]
    have hothers : ∀ k, k ≠ j → (u.letGo j).2.cell? k = (t.letGo j).2.cell? k := by
      intro k hk
      rw [cell?_letGo, cell?_letGo, if_neg hk, if_neg hk, h.others k hk]
    have hsize : (u.letGo j).2.cells.size = (t.letGo j).2.cells.size := by
      rw [size_cells_letGo, size_cells_letGo, h.size]
    rcases h.cell with ⟨ht, hu⟩ | ⟨holders, a, b, ht, hu, hab⟩
    · refine ⟨Or.inl (by rw [ht, hu]), hsize, hothers, Or.inl ?_⟩
      rw [cell?_letGo, cell?_letGo, if_pos rfl, if_pos rfl, ht, hu]
      exact ⟨rfl, rfl⟩
    · rw [ht, hu, Option.bind_some, Option.bind_some]
      by_cases hlast : holders ≤ 1
      · refine ⟨Or.inr ⟨a, b, if_pos hlast, if_pos hlast, hab⟩, hsize, hothers, Or.inl ?_⟩
        rw [cell?_letGo, cell?_letGo, if_pos rfl, if_pos rfl, ht, hu]
        exact ⟨if_pos hlast, if_pos hlast⟩
      · refine ⟨Or.inl ?_, hsize, hothers, Or.inr ⟨holders - 1, a, b, ?_, ?_, hab⟩⟩
        · rw [if_neg hlast, if_neg hlast]
        · rw [cell?_letGo, if_pos rfl, ht, Option.bind_some, if_neg hlast]
        · rw [cell?_letGo, if_pos rfl, hu, Option.bind_some, if_neg hlast]
  · refine ⟨Or.inl ?_, ?_, ?_, ?_⟩
    · rw [fst_letGo, fst_letGo, h.others j hj]
    · rw [size_cells_letGo, size_cells_letGo, h.size]
    · intro k hk
      rw [cell?_letGo, cell?_letGo, h.others j hj, h.others k hk]
    · rw [cell?_letGo, cell?_letGo, if_neg (Ne.symm hj), if_neg (Ne.symm hj)]
      exact h.cell

end Table

/-! ### Schedulers that differ in what they dispose of -/

namespace Scheduler

variable {C : Type} {held : C → List Handle} {s t : Scheduler C}

/-- The scheduler with other scripts to be disposed of. -/
def disposing (s : Scheduler C) (scripts : List (Script C)) : Scheduler C :=
  { s with retired := scripts }

/-- A change that neither looks at what is to be disposed of nor touches it. -/
def Blind (f : Scheduler C → Scheduler C) : Prop :=
  ∀ s scripts, f (s.disposing scripts) = (f s).disposing scripts

theorem Blind.comp {f g : Scheduler C → Scheduler C} (hg : Blind g) (hf : Blind f) :
    Blind fun s => g (f s) := by
  intro s scripts
  show g (f _) = _
  rw [hf, hg]

theorem Blind.foldl {α : Type} {f : Scheduler C → α → Scheduler C} (h : ∀ a, Blind (f · a))
    (as : List α) : Blind fun s => as.foldl f s := by
  induction as with
  | nil => exact fun _ _ => rfl
  | cons a as ih => exact ih.comp (h a)

theorem blind_cutAll (cs : List RoutineId) : Blind (C := C) (cutAll cs) :=
  Blind.foldl (fun _ _ _ => rfl) cs

theorem blind_adoptAll (cs : List RoutineId) (w : RoutineId) : Blind (C := C) (adoptAll cs w) :=
  Blind.foldl (fun _ _ _ => rfl) cs

theorem blind_unlink (parent : Option RoutineId) (c : RoutineId) :
    Blind (C := C) (unlink · parent c) := by
  cases parent <;> exact fun _ _ => rfl

theorem blind_addUnder (origin : Origin) (script : Script C) (parent : Option RoutineId) :
    Blind fun s => (s.addUnder origin script parent).2 := by
  intro s scripts
  show Scheduler.link ((s.add origin script).2.disposing scripts) _ parent =
    ((s.add origin script).2.link _ parent).disposing scripts
  unfold link
  dsimp only
  have hlive : ((s.add origin script).2.disposing scripts).liveParent parent =
      (s.add origin script).2.liveParent parent := rfl
  rw [hlive]
  cases (s.add origin script).2.liveParent parent <;> rfl

theorem blind_scheduleExit (c : RoutineId) : Blind (C := C) (scheduleExit · c) := by
  intro s scripts
  show (s.disposing scripts).scheduleExit c = (s.scheduleExit c).disposing scripts
  cases hr : s.routines.remove c with
  | none =>
    have hdead := Roster.remove_eq_none.mp hr
    rw [scheduleExit_of_dead hdead, scheduleExit_of_dead (s := s.disposing scripts) hdead]
  | some taken =>
    obtain ⟨r, routines⟩ := taken
    cases hscript : r.script with
    | none =>
      rw [scheduleExit_of_out hr hscript, scheduleExit_of_out (s := s.disposing scripts) hr hscript]
      exact blind_cutAll r.children { s with routines } scripts
    | some script =>
      rw [scheduleExit_eq hr hscript, scheduleExit_eq (s := s.disposing scripts) hr hscript]
      have hadopt := blind_adoptAll r.children c.next
        { s with
          routines := (routines.insert ⟨.exit, some (.exit script .initial), none, []⟩).2 } scripts
      exact congrArg (fun t => (modify t c.next _).push _) hadopt

/-- The schedulers differ in nothing but the scripts that are to be disposed of,
    and these hold the same handles. -/
def Alike (held : C → List Handle) (s t : Scheduler C) : Prop :=
  ∃ scripts, t = s.disposing scripts ∧
    scripts.flatMap (Script.handles held) = s.retired.flatMap (Script.handles held) ∧
    scripts.isEmpty = s.retired.isEmpty

theorem Alike.refl (s : Scheduler C) : Alike held s s := ⟨s.retired, rfl, rfl, rfl⟩

theorem Blind.alike {f : Scheduler C → Scheduler C} (hf : Blind f) (h : Alike held s t) :
    Alike held (f s) (f t) := by
  obtain ⟨scripts, rfl, hhandles, hempty⟩ := h
  have hsame : (f s).retired = s.retired := congrArg (·.retired) (hf s s.retired)
  exact ⟨scripts, hf s scripts, by rw [hhandles, hsame], by rw [hempty, hsame]⟩

theorem Alike.retire {script script' : Script C} (h : Alike held s t)
    (hsame : script'.handles held = script.handles held) :
    Alike held (s.retire script) (t.retire script') := by
  obtain ⟨scripts, rfl, hhandles, -⟩ := h
  refine ⟨scripts ++ [script'], rfl, ?_, ?_⟩
  · simp only [Scheduler.retire, List.flatMap_append, hhandles, List.flatMap_singleton, hsame]
  · rw [Bool.eq_iff_iff]
    simp [Scheduler.retire]

/-- How the script of a finished routine looks does not matter to the rest. -/
theorem Alike.conclude {script script' : Script C} (h : Alike held s t) (id : RoutineId)
    (hsame : script'.handles held = script.handles held) (o : Outcome Value) :
    Alike held (s.conclude id script o) (t.conclude id script' o) := by
  have hretired := h.retire hsame
  obtain ⟨scripts, rfl, -, -⟩ := h
  have hregister : Blind (C := C) ({ · with register := o }) := fun _ _ => rfl
  cases hr : s.routines.remove id with
  | none =>
    have hdead := Roster.remove_eq_none.mp hr
    rw [conclude_of_dead hdead, conclude_of_dead (s := s.disposing scripts) hdead]
    exact hregister.alike hretired
  | some taken =>
    obtain ⟨r, routines⟩ := taken
    have htaken : Alike held (s.takenOut id r routines script o)
        ((s.disposing scripts).takenOut id r routines script' o) := by
      have hreport : Blind (C := C) fun t =>
          ({ t with routines } : Scheduler C).report (.finished r.origin id o.isSuccess) :=
        fun _ _ => rfl
      exact ((blind_unlink r.parent id).comp hreport).alike hretired
    by_cases hnone : r.children = []
    · rw [conclude_of_childless hr hnone,
        conclude_of_childless (s := s.disposing scripts) hr hnone]
      exact hregister.alike htaken
    · rw [conclude_of_children hr hnone, conclude_of_children (s := s.disposing scripts) hr hnone]
      have hreport : Blind (C := C) (report · (.forcingExit r.origin id r.children.length)) :=
        fun _ _ => rfl
      have hkept := ((blind_addUnder .settled (.settled o) none).comp hreport).alike htaken
      have hnext : ((s.disposing scripts).keptBack id r routines script' o).1 =
          (s.keptBack id r routines script o).1 := by
        obtain ⟨scripts', heq, -, -⟩ := htaken
        unfold keptBack
        rw [heq]
        rfl
      rw [hnext]
      have hpush : Blind (C := C) (push · (.routine (s.keptBack id r routines script o).1)) :=
        fun _ _ => rfl
      have hexits := (Blind.foldl blind_scheduleExit r.children).comp hpush
      exact (hregister.comp hexits).alike hkept

theorem Alike.severed (h : Alike held s t) (id : RoutineId) (r : Routine C)
    (routines : Roster (Routine C)) :
    Alike held (s.severed id r routines) (t.severed id r routines) := by
  have hreport : Blind (C := C) fun t =>
      ({ t with routines } : Scheduler C).report (.freed r.origin id) := fun _ _ => rfl
  have hcut := (blind_cutAll (r.children.filter s.onStack)).comp
    (blind_unlink (C := C) r.parent id)
  have htaken := hreport.alike h
  obtain ⟨scripts, rfl, -, -⟩ := h
  unfold Scheduler.severed
  dsimp only
  cases r.script with
  | none => exact hcut.alike htaken
  | some script => exact hcut.alike (htaken.retire rfl)

theorem Alike.freeAll (h : Alike held s t) (fuel : Nat) (pending : List RoutineId) :
    Alike held (freeAll fuel pending s) (freeAll fuel pending t) := by
  induction fuel generalizing s t pending with
  | zero => exact h
  | succ fuel ih =>
    cases pending with
    | nil => exact h
    | cons id pending =>
      have hroutines : t.routines = s.routines := by
        obtain ⟨scripts, rfl, -, -⟩ := h
        rfl
      have hon : t.onStack = s.onStack := by
        obtain ⟨scripts, rfl, -, -⟩ := h
        rfl
      cases hr : s.routines.remove id with
      | none =>
        have hdead := Roster.remove_eq_none.mp hr
        rw [freeAll_of_dead hdead, freeAll_of_dead (s := t) (hroutines ▸ hdead)]
        exact ih h pending
      | some taken =>
        obtain ⟨r, routines⟩ := taken
        rw [freeAll_of_remove hr, freeAll_of_remove (s := t) (hroutines ▸ hr), hon]
        exact ih (h.severed id r routines) _

theorem Alike.free (h : Alike held s t) (id : RoutineId) : Alike held (s.free id) (t.free id) := by
  have hcount : t.childCount = s.childCount := by
    obtain ⟨scripts, rfl, -, -⟩ := h
    rfl
  unfold Scheduler.free
  rw [hcount]
  exact h.freeAll _ _

theorem Alike.freeUnclaimed (h : Alike held s t) :
    t.freeUnclaimed.1 = s.freeUnclaimed.1 ∧ Alike held s.freeUnclaimed.2 t.freeUnclaimed.2 := by
  have hfold : ∀ (ids : List RoutineId) (n : Nat) (s t : Scheduler C), Alike held s t →
      (ids.foldl freeIfLost (n, t)).1 = (ids.foldl freeIfLost (n, s)).1 ∧
        Alike held (ids.foldl freeIfLost (n, s)).2 (ids.foldl freeIfLost (n, t)).2 := by
    intro ids
    induction ids with
    | nil => exact fun n s t h => ⟨rfl, h⟩
    | cons id ids ih =>
      intro n s t h
      have hlost : t.isLost id = s.isLost id := by
        obtain ⟨scripts, rfl, -, -⟩ := h
        rfl
      rw [List.foldl_cons, List.foldl_cons]
      simp only [freeIfLost, hlost]
      split
      · exact ih (n + 1) _ _ (h.free id)
      · exact ih n _ _ h
  have hunclaimed : t.unclaimed = s.unclaimed := by
    obtain ⟨scripts, rfl, -, -⟩ := h
    rfl
  have hclear : Blind (C := C) ({ · with unclaimed := [] }) := fun _ _ => rfl
  rw [freeUnclaimed_eq, freeUnclaimed_eq, hunclaimed]
  exact hfold s.unclaimed 0 _ _ (hclear.alike h)

end Scheduler

/-! ### Stores that differ in one scheduler -/

namespace Store

variable {C : Type} {held : C → List Handle} {p : Nat} {st st' st₁ st₂ : Store C}
  {rel : Scheduler C → Scheduler C → Prop}

/-- The stores differ in one scheduler at most, by `rel`. -/
def DiffersAt (rel : Scheduler C → Scheduler C → Prop) (p : Nat) (st st' : Store C) : Prop :=
  ∃ schedulers, st' = { st with schedulers } ∧ st.schedulers.DiffersAt rel p schedulers

theorem DiffersAt.refl (hrel : ∀ s, rel s s) (st : Store C) : DiffersAt rel p st st :=
  ⟨st.schedulers, rfl, .refl hrel _⟩

theorem DiffersAt.eq (h : DiffersAt Eq p st st') : st' = st := by
  obtain ⟨schedulers, rfl, hsched⟩ := h
  rw [hsched.eq]

/-- Each of them changes the scheduler in which they differ, and reports the
    same. -/
theorem DiffersAt.onScheduler {rel' : Scheduler C → Scheduler C → Prop}
    {f g : Scheduler C → Scheduler C} (h : DiffersAt rel p st st')
    (hreports : ∀ s t, rel s t →
      (g t).reports = (f s).reports ∧ (g t).settings.name = (f s).settings.name)
    (hrel : ∀ s t, rel s t → rel' { f s with reports := [] } { g t with reports := [] }) :
    DiffersAt rel' p (st.onScheduler p f) (st'.onScheduler p g) := by
  obtain ⟨schedulers, rfl, hsched⟩ := h
  rcases hsched.find? with ⟨hs, ht⟩ | ⟨s, t, hs, ht, hst⟩
  · unfold Store.onScheduler
    simp only [hs, ht]
    refine ⟨schedulers, rfl, hsched.size, hsched.others, ?_⟩
    rcases hsched.cell with hnone | ⟨holders, a, b, ha, -, -⟩
    · exact Or.inl hnone
    · rw [Table.find?, ha] at hs
      cases hs
  · obtain ⟨hsame, hname⟩ := hreports s t hst
    unfold Store.onScheduler
    simp only [hs, ht, hsame, hname]
    exact ⟨_, rfl, hsched.set (hrel s t hst)⟩

/-- A change that does not look at what is to be disposed of keeps schedulers
    alike, wherever it is made. -/
theorem DiffersAt.blindly {f : Scheduler C → Scheduler C} (hf : Scheduler.Blind f)
    (h : DiffersAt (Scheduler.Alike held) p st st') (q : Nat) :
    DiffersAt (Scheduler.Alike held) p (st.onScheduler q f) (st'.onScheduler q f) := by
  have hnone : Scheduler.Blind (C := C) ({ · with reports := [] }) := fun _ _ => rfl
  have hclear := hnone.comp hf
  by_cases hq : q = p
  · subst hq
    refine h.onScheduler ?_ fun s t hst => hclear.alike hst
    rintro s _ ⟨scripts, rfl, -, -⟩
    rw [hf]
    exact ⟨rfl, rfl⟩
  · obtain ⟨schedulers, rfl, hsched⟩ := h
    have hsame := hsched.find?_of_ne hq
    unfold Store.onScheduler
    simp only [hsame]
    cases st.schedulers.find? q with
    | none => exact ⟨schedulers, rfl, hsched⟩
    | some s => exact ⟨_, rfl, hsched.set_of_ne hq _⟩

theorem handles_of_alike {s t : Scheduler C} (h : Scheduler.Alike held s t) :
    t.handles held = s.handles held := by
  obtain ⟨scripts, rfl, hhandles, -⟩ := h
  unfold Scheduler.handles
  rw [← hhandles]
  rfl

/-- Letting go of a handle has the same aftermath in both. -/
theorem DiffersAt.letGo (h : DiffersAt (Scheduler.Alike held) p st st') (handle : Handle) :
    (st'.letGo held handle).1 = (st.letGo held handle).1 ∧
      DiffersAt (Scheduler.Alike held) p (st.letGo held handle).2 (st'.letGo held handle).2 := by
  have hall := h
  obtain ⟨schedulers, rfl, hsched⟩ := h
  cases handle with
  | settler c =>
    unfold Store.letGo
    dsimp only
    split
    · exact ⟨rfl, hall⟩
    · split
      · split <;> exact ⟨rfl, schedulers, rfl, hsched⟩
      · exact ⟨rfl, schedulers, rfl, hsched⟩
  | continuation k =>
    unfold Store.letGo
    dsimp only
    cases (st.snapshots.letGo k).1 with
    | none => exact ⟨rfl, schedulers, rfl, hsched⟩
    | some snapshot =>
      dsimp only
      cases snapshot.routines with
      | none => exact ⟨rfl, schedulers, rfl, hsched⟩
      | some ids =>
        have hfewer : DiffersAt (Scheduler.Alike held) p
            { st with snapshots := (st.snapshots.letGo k).2 }
            { st with snapshots := (st.snapshots.letGo k).2, schedulers } :=
          ⟨schedulers, rfl, hsched⟩
        refine ⟨rfl, hfewer.blindly ?_ snapshot.home⟩
        exact fun _ _ => rfl
  | scheduler q =>
    obtain ⟨hgone, hsched'⟩ := hsched.letGo q
    refine ⟨?_, _, rfl, hsched'⟩
    unfold Store.letGo
    dsimp only
    rcases hgone with hsame | ⟨s, t, hs, ht, hst⟩
    · rw [hsame]
    · rw [hs, ht, Option.map_some, Option.map_some, handles_of_alike hst]
  | completion | queue | reenter | bridge | coroutine => exact ⟨rfl, schedulers, rfl, hsched⟩

/-! ### Letting go without waking anybody -/

/-- All handles are let go of, and what they alone kept as well; no completion
    is abandoned by it. -/
inductive Sheds (held : C → List Handle) : List Handle → Store C → Store C → Prop where
  | nil (st : Store C) : Sheds held [] st st
  | cons {h : Handle} {hs more : List Handle} {st st' st'' : Store C}
      (hgo : st.letGo held h = (.release more, st')) (hrest : Sheds held (more ++ hs) st' st'') :
      Sheds held (h :: hs) st st''

theorem Sheds.split {hs hs' : List Handle} (h : Sheds held (hs ++ hs') st st₂) :
    ∃ st₁, Sheds held hs st st₁ ∧ Sheds held hs' st₁ st₂ := by
  generalize hall : hs ++ hs' = all at h
  induction h generalizing hs with
  | nil st =>
    obtain ⟨rfl, rfl⟩ := List.append_eq_nil_iff.mp hall
    exact ⟨st, .nil st, .nil st⟩
  | cons hgo hrest ih =>
    cases hs with
    | nil =>
      rw [List.nil_append] at hall
      subst hall
      exact ⟨_, .nil _, .cons hgo hrest⟩
    | cons h hs =>
      rw [List.cons_append, List.cons.injEq] at hall
      obtain ⟨rfl, rfl⟩ := hall
      obtain ⟨st₁, hfirst, hlast⟩ := ih (List.append_assoc ..)
      exact ⟨st₁, .cons hgo hfirst, hlast⟩

theorem DiffersAt.sheds {hs : List Handle} (h : DiffersAt (Scheduler.Alike held) p st st')
    (hsheds : Sheds held hs st st₁) :
    ∃ st₁', Sheds held hs st' st₁' ∧ DiffersAt (Scheduler.Alike held) p st₁ st₁' := by
  induction hsheds generalizing st' with
  | nil => exact ⟨st', .nil st', h⟩
  | @cons handle hs more st₀ st₁ st₂ hgo hrest ih =>
    obtain ⟨hsame, hdiffers⟩ := h.letGo handle
    rw [hgo] at hsame hdiffers
    obtain ⟨st₂', hsheds, hafter⟩ := ih hdiffers
    have hgo' : st'.letGo held handle = (.release more, (st'.letGo held handle).2) :=
      Prod.ext hsame rfl
    exact ⟨st₂', .cons hgo' hsheds, hafter⟩

end Store

/-! ### Steps and the wrappers around them -/

namespace Frame

variable {C R : Type}

/-- The script whose step the code above the frame performs. -/
def script? : Frame C R → Option (Script C)
  | .inStaged s => some (.staged s)
  | .inOwn state => some (.own state)
  | _ => none

/-- Whether the frame belongs to a forced return in the middle of a step. -/
def wraps : Frame C R → Bool
  | .inExit _ | .holding _ => true
  | _ => false

/-- The handles that a wrapper keeps during the step. -/
def kept : Frame C R → List Handle
  | .holding hs => hs
  | _ => []

/-- A script with the wrapper around it. -/
def around (script : Script C) : Frame C R → Script C
  | .inExit progress => .exit script progress
  | _ => script

end Frame

namespace Machine

variable {C R : Type} {B : Behavior C R} {m n o : Machine C R} {K ws : List (Frame C R)}
  {st st' : Store C} {hs : List Handle} {payload : Payload} {script script' : Script C}

/-- `m` comes to `n` by its own moves. -/
def Becomes (B : Behavior C R) (m n : Machine C R) : Prop := ∃ j, after B j m = n

theorem Becomes.refl (m : Machine C R) : Becomes B m m := ⟨0, rfl⟩

theorem Becomes.trans (h : Becomes B m n) (h' : Becomes B n o) : Becomes B m o := by
  obtain ⟨i, rfl⟩ := h
  obtain ⟨j, rfl⟩ := h'
  exact ⟨i + j, after_add B i j m⟩

/-- One move, and what comes of it. -/
theorem Becomes.head (h : Becomes B (m.step B) n) : Becomes B m n := by
  obtain ⟨j, rfl⟩ := h
  exact ⟨j + 1, rfl⟩

theorem Becomes.cases_head (h : Becomes B m n) : n = m ∨ Becomes B (m.step B) n := by
  obtain ⟨j, rfl⟩ := h
  cases j with
  | zero => exact Or.inl rfl
  | succ j => exact Or.inr ⟨j, rfl⟩

theorem becomes_of_sheds (h : Store.Sheds B.held hs st st') (onward : Onward C R) :
    Becomes B ⟨st, K, .release hs onward⟩ ⟨st', K, .release [] onward⟩ := by
  induction h with
  | nil => exact .refl _
  | @cons handle hs more st st₁ st' hgo hrest ih =>
    have hstep : step B ⟨st, K, .release (handle :: hs) onward⟩ =
        ⟨st₁, K, .release (more ++ hs) onward⟩ := by
      simp only [step, letGo, hgo]
    exact Becomes.head (hstep ▸ ih)

/-- A panic passes the wrappers of a script, and takes along the script as it
    has come to be. -/
theorem unwinds_wrappers (hws : ∀ f ∈ ws, f.wraps = true)
    (h : Store.Sheds B.held (hs ++ ws.flatMap Frame.kept) st st') :
    Becomes B ⟨st, ws ++ K, .release hs (.unwind payload (some script))⟩
      ⟨st', K, .release [] (.unwind payload (some (ws.foldl Frame.around script)))⟩ := by
  induction ws generalizing hs st script with
  | nil =>
    rw [List.flatMap_nil, List.append_nil] at h
    exact becomes_of_sheds h _
  | cons f ws ih =>
    rw [List.flatMap_cons] at h
    obtain ⟨st₁, hfirst, hlast⟩ := h.split
    refine (becomes_of_sheds hfirst _).trans (Becomes.head ?_)
    have hws' : ∀ f ∈ ws, f.wraps = true := fun f hf => hws f (List.mem_cons_of_mem _ hf)
    cases f with
    | holding kept => exact ih hws' hlast
    | inExit progress => exact ih hws' hlast
    | _ => cases hws _ List.mem_cons_self

/-- A failure is handed through the wrappers of a script. -/
theorem fails_wrappers (hws : ∀ f ∈ ws, f.wraps = true)
    (h : Store.Sheds B.held (hs ++ ws.flatMap Frame.kept) st st') :
    Becomes B ⟨st, ws ++ K, .release hs (.give (.stepped (failed payload) script))⟩
      ⟨st', K, .release [] (.give (.stepped (failed payload) (ws.foldl Frame.around script)))⟩ := by
  induction ws generalizing hs st script with
  | nil =>
    rw [List.flatMap_nil, List.append_nil] at h
    exact becomes_of_sheds h _
  | cons f ws ih =>
    rw [List.flatMap_cons] at h
    obtain ⟨st₁, hfirst, hlast⟩ := h.split
    refine (becomes_of_sheds hfirst _).trans (Becomes.head ?_)
    have hws' : ∀ f ∈ ws, f.wraps = true := fun f hf => hws f (List.mem_cons_of_mem _ hf)
    cases f with
    | holding kept => exact ih hws' hlast
    | inExit progress => exact ih hws' hlast
    | _ => cases hws _ List.mem_cons_self

theorem handles_around (hsame : script'.handles B.held = script.handles B.held) :
    (ws.foldl Frame.around script').handles B.held =
      (ws.foldl Frame.around script).handles B.held := by
  induction ws generalizing script script' with
  | nil => exact hsame
  | cons f ws ih =>
    refine ih ?_
    cases f with
    | inExit progress => exact congrArg (· ++ progress.output.handles) hsame
    | _ => exact hsame

/-! ### Where panics are caught -/

/-- The frame catches a panic out of a step. What the step has left in the
    register can be let go of. -/
inductive Catches (B : Behavior C R) (st : Store C) (K : List (Frame C R)) (script : Script C)
    (payload : Payload) : Frame C R → Prop where
  | stepping {p : Nat} {id : RoutineId} {st' : Store C} {focus : Focus C R}
      (hcatches : catches ⟨st, K, focus⟩ p = true)
      (hregister : Store.Sheds B.held (registerHandles ⟨st, K, focus⟩ p)
        (routineStepped ⟨st, K, focus⟩ p id script (failed payload)).store st') :
      Catches B st K script payload (.stepping p id)
  | resuming {b settler : Nat} {id : UInt64} {focus : Focus C R}
      (hcatches : bridgeCatches ⟨st, K, focus⟩ b = true) :
      Catches B st K script payload (.resuming b id settler)

/-- Once the scheduler is swept, what it has disposed of is forgotten. -/
theorem sweep_alike {p : Nat} {focus : Focus C R}
    (h : st.DiffersAt (Scheduler.Alike B.held) p st') :
    sweep ⟨st', K, focus⟩ B.held p = sweep (⟨st, K, focus⟩ : Machine C R) B.held p := by
  have hall := h
  obtain ⟨schedulers, rfl, hsched⟩ := h
  rcases hsched.find? with ⟨hs, ht⟩ | ⟨s, t, hs, ht, hst⟩
  · have heq : st.schedulers.DiffersAt Eq p schedulers := by
      refine ⟨hsched.size, hsched.others, ?_⟩
      rcases hsched.cell with hnone | ⟨holders, a, b, ha, -, -⟩
      · exact Or.inl hnone
      · rw [Table.find?, ha] at hs
        cases hs
    rw [heq.eq]
  · obtain ⟨hfreed, scripts, hunclaimed, hhandles, hempty⟩ := hst.freeUnclaimed
    have hstore : (st.onScheduler p fun _ =>
        { s.freeUnclaimed.2 with current := none, retired := [] }) =
        ({ st with schedulers } : Store C).onScheduler p fun _ =>
          { t.freeUnclaimed.2 with current := none, retired := [] } := by
      refine (Store.DiffersAt.eq (hall.onScheduler ?_ ?_)).symm
      · intro _ _ _
        rw [hunclaimed]
        exact ⟨rfl, rfl⟩
      · intro _ _ _
        rw [hunclaimed]
        rfl
    have hs' : scheduler? (⟨st, K, focus⟩ : Machine C R) p = some s := hs
    have ht' : scheduler? (⟨{ st with schedulers }, K, focus⟩ : Machine C R) p = some t := ht
    have hempty' : t.freeUnclaimed.2.retired.isEmpty = s.freeUnclaimed.2.retired.isEmpty := by
      rw [hunclaimed]
      exact hempty
    have hhandles' : t.freeUnclaimed.2.retired.flatMap (Script.handles B.held) =
        s.freeUnclaimed.2.retired.flatMap (Script.handles B.held) := by
      rw [hunclaimed]
      exact hhandles
    unfold sweep
    simp only [hs', ht', hfreed, hempty', hhandles', onScheduler, withStore, hstore]

/-- Where a panic is caught, it comes to the same as a failure of the step, even
    if the failure leaves another script with the same handles. -/
theorem catches_meets (react : R → Signal C → Reaction C R) {site : Frame C R}
    (h : Catches B st K script payload site)
    (hsame : script'.handles B.held = script.handles B.held) :
    ∃ n, Becomes B ⟨st, site :: K, .release [] (.unwind payload (some script))⟩ n ∧
      Becomes { B with react }
        ⟨st, site :: K, .release [] (.give (.stepped (failed payload) script'))⟩ n := by
  cases h with
  | @stepping p id st₁ focus hcatches hregister =>
    have hpanic : step B ⟨st, .stepping p id :: K, .release [] (.unwind payload (some script))⟩ =
        routineStepped ⟨st, K, focus⟩ p id script (failed payload) := by
      have hcatches' : catches (⟨st, K, .release [] (.unwind payload (some script))⟩ :
          Machine C R) p = true := hcatches
      simp only [step, goOn, unwindFrame, hcatches', if_true, Option.getD_some]
      rfl
    have hdiffers : (routineStepped (⟨st, K, focus⟩ : Machine C R) p id script
        (failed payload)).store.DiffersAt (Scheduler.Alike B.held) p
        (routineStepped ⟨st, K, focus⟩ p id script' (failed payload)).store := by
      have hconclude := fun s : Scheduler C =>
        (Scheduler.Alike.refl s).conclude id hsame (.failure (.panicked payload.message))
      refine (Store.DiffersAt.refl Eq.refl _).onScheduler ?_ ?_
      · rintro s _ rfl
        obtain ⟨scripts, heq, -, -⟩ := hconclude s
        rw [heq]
        exact ⟨rfl, rfl⟩
      · rintro s _ rfl
        have hclear : Scheduler.Blind (C := C) ({ · with reports := [] }) := fun _ _ => rfl
        exact hclear.alike (hconclude s)
    obtain ⟨st₁', hregister', hlater⟩ := hdiffers.sheds hregister
    refine ⟨sweep ⟨st₁, K, .release [] (.give .nothing)⟩ B.held p, Becomes.head ?_, Becomes.head ?_⟩
    · rw [hpanic]
      exact (becomes_of_sheds hregister _).trans (Becomes.head (.refl _))
    · rw [← sweep_alike hlater]
      exact (becomes_of_sheds (B := { B with react }) hregister' _).trans
        (Becomes.head (.refl _))
  | @resuming b settler id focus hcatches =>
    have hcatches' : bridgeCatches (⟨st, K, .release [] (.unwind payload (some script))⟩ :
        Machine C R) b = true := hcatches
    -- the task settles its completion, whatever has been in focus before
    have hfocus : ∀ (focus : Focus C R) (script' : Script C),
        script'.handles B.held = script.handles B.held →
        taskStepped ⟨st, K, focus⟩ B.held b id settler script' (failed payload) =
          taskStepped ⟨st, K, .aborted⟩ B.held b id settler script (failed payload) := by
      intro focus script' hsame
      simp only [taskStepped, failed, hsame, push, withStore, settle]
      split <;> rfl
    refine ⟨taskStepped ⟨st, K, .aborted⟩ B.held b id settler script (failed payload),
      Becomes.head ?_, Becomes.head ?_⟩
    · simp only [step, goOn, unwindFrame, hcatches', if_true, Option.getD_some]
      rw [hfocus _ script rfl]
      exact .refl _
    · rw [← hfocus (.release [] (.give (.stepped (failed payload) script'))) script' hsame]
      exact .refl _

/-! ### A panic beside a failure -/

/-- A panic in the code of a step is caught where the step was taken: between
    the code and that place there are forced returns at most, and letting go of
    what the code and they hold wakes nobody. -/
def PanicsCaught (B : Behavior C R) (hs : List Handle) (payload : Payload) (m : Machine C R) :
    Prop :=
  ∃ leaf ws site K script st, m.control = leaf :: (ws ++ site :: K) ∧
    leaf.script? = some script ∧ (∀ f ∈ ws, f.wraps = true) ∧
    Store.Sheds B.held (hs ++ ws.flatMap Frame.kept) m.store st ∧
    Catches B st K (ws.foldl Frame.around script) payload site

/-- The machine in which the code panics and the one in which it returns the
    failure come to the same. -/
theorem panic_meets_failure (react : R → Signal C → Reaction C R)
    (h : PanicsCaught B hs payload m) :
    ∃ n, Becomes B (m.unwind hs payload none) n ∧
      Becomes { B with react } { m with
        focus := .release hs (.act (.finish (.failure (.panicked payload.message)))) } n := by
  obtain ⟨leaf, ws, site, K, script, st, hcontrol, hleaf, hws, hsheds, hcatches⟩ := h
  obtain ⟨st₁, hcode, hrest⟩ := hsheds.split
  obtain ⟨store, control, focus⟩ := m
  subst hcontrol
  -- the code has finished its list of stages, or has not
  obtain ⟨script', hsame, hpanic, hfailure⟩ : ∃ script' : Script C,
      script'.handles B.held = script.handles B.held ∧
      step B ⟨st₁, leaf :: (ws ++ site :: K), .release [] (.unwind payload none)⟩ =
        ⟨st₁, ws ++ site :: K, .release [] (.unwind payload (some script))⟩ ∧
      step { B with react } ⟨st₁, leaf :: (ws ++ site :: K),
          .release [] (.give (.outcome (.failure (.panicked payload.message))))⟩ =
        ⟨st₁, ws ++ site :: K, .release [] (.give (.stepped (failed payload) script'))⟩ := by
    cases leaf with
    | inStaged s =>
      cases hleaf
      exact ⟨.staged s.finish, rfl, rfl, rfl⟩
    | inOwn state =>
      cases hleaf
      exact ⟨.own state, rfl, rfl, rfl⟩
    | _ => cases hleaf
  obtain ⟨n, hn, hn'⟩ := catches_meets react hcatches (handles_around hsame)
  refine ⟨n, ?_, ?_⟩
  · refine (becomes_of_sheds hcode _).trans (Becomes.head ?_)
    rw [hpanic]
    exact (unwinds_wrappers hws (by simpa using hrest)).trans hn
  · refine (becomes_of_sheds (B := { B with react }) hcode _).trans (Becomes.head ?_)
    refine Becomes.head ?_
    show Becomes _ (step { B with react } ⟨st₁, leaf :: (ws ++ site :: K),
      .release [] (.give (.outcome (.failure (.panicked payload.message))))⟩) n
    rw [hfailure]
    exact (fails_wrappers (B := { B with react }) hws (by simpa using hrest)).trans hn'

/-- Some steps of a program panic, and in another program they return the
    failure of the panic instead. -/
def FailsInstead (B : Behavior C R) (react : R → Signal C → Reaction C R) : Prop :=
  ∀ state signal, react state signal = B.react state signal ∨
    ∃ payload, B.react state signal = .panic payload ∧
      react state signal = .finish (.failure (.panicked payload.message))

/-- Where no such step is under way, the programs make the same move. -/
theorem step_of_same {react : R → Signal C → Reaction C R}
    (h : ∀ state signal, m.focus = .release [] (.tell state signal) →
      react state signal = B.react state signal) :
    m.step { B with react } = m.step B := by
  obtain ⟨store, control, focus⟩ := m
  cases focus with
  | release hs onward =>
    cases hs with
    | cons => rfl
    | nil =>
      cases onward with
      | tell state signal =>
        have hsame := h state signal rfl
        simp only [step, goOn, tell, hsame]
        rfl
      | _ => rfl
  | _ => rfl

theorem withoutHandles_nil (taken : List Handle) : withoutHandles [] taken = [] := by
  unfold withoutHandles
  induction taken with
  | nil => rfl
  | cons _ _ ih => exact ih

/-- Where it is under way, the one program panics and the other one returns. -/
theorem step_of_panic {react : R → Signal C → Reaction C R} {state : R} {signal : Signal C}
    (hfocus : m.focus = .release [] (.tell state signal))
    (hpanic : B.react state signal = .panic payload)
    (hreturn : react state signal = .finish (.failure (.panicked payload.message))) :
    m.step B = m.unwind (B.heldRunning state ++ signal.handles B.held) payload none ∧
      m.step { B with react } = { m with
        focus := .release (B.heldRunning state ++ signal.handles B.held)
          (.act (.finish (.failure (.panicked payload.message)))) } := by
  have hnothing := withoutHandles_nil (B.heldRunning state ++ signal.handles B.held)
  constructor
  · simp only [step, hfocus, goOn, tell, hpanic, recount, Reaction.handles, hnothing]
    rfl
  · simp only [step, hfocus, goOn, tell, hreturn, recount, Reaction.handles, Outcome.handles,
      hnothing]
    rfl

/-- A machine that has halted stays what it is. -/
theorem Becomes.of_halted (h : Becomes B m n) (hm : m.halted = true) : n = m := by
  have hstep : m.step B = m := by
    unfold halted at hm
    split at hm
    · next hf => simp only [step, hf]
    · next a hf => exact step_of_ended (List.isEmpty_iff.mp hm) (by simp [popping, hf])
    · next payload salvage hf =>
      exact step_of_ended (List.isEmpty_iff.mp hm) (by simp [popping, hf])
    · cases hm
  obtain ⟨j, rfl⟩ := h
  induction j with
  | zero => rfl
  | succ j ih =>
    rw [after, hstep]
    exact ih

/-- Some steps of a program panic, and all of these panics are caught, on the way
    from `m` on. In another program the same steps return the failure of the
    panic. Whatever the one program comes to, it goes on to a machine that the
    other one comes to as well; and where the one halts, the other one halts in
    the same machine. -/
theorem panics_end_as_failures {react : R → Signal C → Reaction C R}
    (hreact : FailsInstead B react)
    (hcaught : ∀ n state signal payload, Becomes B m n →
      n.focus = .release [] (.tell state signal) → B.react state signal = .panic payload →
      react state signal ≠ B.react state signal →
      PanicsCaught B (B.heldRunning state ++ signal.handles B.held) payload n)
    (hn : Becomes B m n) :
    (∃ o, Becomes B n o ∧ Becomes { B with react } m o) ∧
      (n.halted = true → Becomes { B with react } m n) := by
  have hmeet : ∃ o, Becomes B n o ∧ Becomes { B with react } m o := by
    obtain ⟨i, rfl⟩ := hn
    induction i with
    | zero => exact ⟨m, .refl m, .refl m⟩
    | succ i ih =>
      have hmove : after B (i + 1) m = (after B i m).step B := after_add B i 1 m
      obtain ⟨o, ho, ho'⟩ := ih
      rw [hmove]
      rcases ho.cases_head with rfl | hlater
      · by_cases hsame : ∀ state signal, (after B i m).focus = .release [] (.tell state signal) →
            react state signal = B.react state signal
        · refine ⟨_, .refl _, ho'.trans (Becomes.head ?_)⟩
          rw [step_of_same hsame]
          exact .refl _
        · -- the one program panics here
          simp only [not_forall] at hsame
          obtain ⟨state, signal, hfocus, hother⟩ := hsame
          rcases hreact state signal with hsame | ⟨payload, hpanic, hreturn⟩
          · exact absurd hsame hother
          obtain ⟨hunwind, hfinish⟩ := step_of_panic hfocus hpanic hreturn
          have hmeet := hcaught _ state signal payload ⟨i, rfl⟩ hfocus hpanic hother
          obtain ⟨o, ho, hreturned⟩ := panic_meets_failure react hmeet
          refine ⟨o, hunwind ▸ ho, ho'.trans (Becomes.head ?_)⟩
          rw [hfinish]
          exact hreturned
      · exact ⟨o, hlater, ho'⟩
  refine ⟨hmeet, fun hhalted => ?_⟩
  obtain ⟨o, ho, ho'⟩ := hmeet
  rw [ho.of_halted hhalted] at ho'
  exact ho'

/-! ### Computing what is assumed -/

/-- Let go of handles within so many rounds, if that wakes nobody. -/
def shed? (held : C → List Handle) : (fuel : Nat) → List Handle → Store C → Option (Store C)
  | _, [], st => some st
  | 0, _ :: _, _ => none
  | fuel + 1, h :: hs, st =>
    match st.letGo held h with
    | (.release more, st') => shed? held fuel (more ++ hs) st'
    | (.abandoned _, _) => none

theorem sheds_of_shed? {held : C → List Handle} {fuel : Nat}
    (h : shed? held fuel hs st = some st') : Store.Sheds held hs st st' := by
  induction fuel generalizing hs st with
  | zero =>
    cases hs with
    | nil =>
      cases h
      exact .nil _
    | cons handle hs => cases h
  | succ fuel ih =>
    cases hs with
    | nil =>
      cases h
      exact .nil _
    | cons handle hs =>
      rw [shed?] at h
      split at h
      · next more st₁ hgo => exact .cons hgo (ih h)
      · cases h

/-- Whether the frame catches a panic, and what is in the register can be let go
    of within so many rounds. -/
def catches? (B : Behavior C R) (fuel : Nat) (st : Store C) (K : List (Frame C R))
    (script : Script C) (payload : Payload) : Frame C R → Bool
  | .stepping p id =>
    catches (⟨st, K, .aborted⟩ : Machine C R) p &&
      (shed? B.held fuel (registerHandles (⟨st, K, .aborted⟩ : Machine C R) p)
        (routineStepped (⟨st, K, .aborted⟩ : Machine C R) p id script
          (failed payload)).store).isSome
  | .resuming b _ _ => bridgeCatches (⟨st, K, .aborted⟩ : Machine C R) b
  | _ => false

theorem catches_of_catches? {fuel : Nat} {site : Frame C R}
    (h : catches? B fuel st K script payload site = true) : Catches B st K script payload site := by
  cases site with
  | stepping p id =>
    rw [catches?, Bool.and_eq_true, Option.isSome_iff_exists] at h
    obtain ⟨hcatches, st', hshed⟩ := h
    exact .stepping hcatches (sheds_of_shed? hshed)
  | resuming b id settler => exact .resuming h
  | _ => cases h

/-- If a panic is next, it is caught. -/
def caught (B : Behavior C R) (fuel : Nat) (m : Machine C R) : Bool :=
  match m.focus with
  | .release [] (.tell state signal) =>
    match B.react state signal with
    | .panic payload =>
      match m.control with
      | [] => false
      | leaf :: rest =>
        match leaf.script?, rest.dropWhile Frame.wraps with
        | some script, site :: K =>
          let ws := rest.takeWhile Frame.wraps
          let hs := B.heldRunning state ++ signal.handles B.held
          match shed? B.held fuel (hs ++ ws.flatMap Frame.kept) m.store with
          | some st => catches? B fuel st K (ws.foldl Frame.around script) payload site
          | none => false
        | _, _ => false
    | _ => true
  | _ => true

theorem panicsCaught_of_caught {fuel : Nat} {state : R} {signal : Signal C}
    (h : caught B fuel m = true) (hfocus : m.focus = .release [] (.tell state signal))
    (hpanic : B.react state signal = .panic payload) :
    PanicsCaught B (B.heldRunning state ++ signal.handles B.held) payload m := by
  simp only [caught, hfocus, hpanic] at h
  split at h
  · cases h
  · next leaf rest hcontrol =>
    split at h
    · next script site K hleaf hdrop =>
      split at h
      · next st hshed =>
        refine ⟨leaf, rest.takeWhile Frame.wraps, site, K, script, st, ?_, hleaf, ?_,
          sheds_of_shed? hshed, catches_of_catches? h⟩
        · rw [hcontrol, ← hdrop, List.takeWhile_append_dropWhile]
        · exact fun f hf => List.mem_takeWhile_imp hf
      · cases h
    · cases h

/-- The behavior of a program whose panics are all turned into failures. -/
def failing (B : Behavior C R) (state : R) (signal : Signal C) : Reaction C R :=
  match B.react state signal with
  | .panic payload => .finish (.failure (.panicked payload.message))
  | reaction => reaction

theorem failsInstead_failing (B : Behavior C R) : FailsInstead B (failing B) := by
  intro state signal
  unfold failing
  cases hreact : B.react state signal with
  | panic payload => exact Or.inr ⟨payload, rfl, rfl⟩
  | _ => exact Or.inl rfl

/-- What a machine that has halted has come to. -/
def result? (m : Machine C R) : Option (Outcome Value) :=
  match m.focus with
  | .release [] (.give (.outcome o)) => if m.control.isEmpty then some o else none
  | _ => none

end Machine

/-- The error in which an outcome fails. -/
def Outcome.error? : Outcome Value → Option Error
  | .failure e => some e
  | _ => none

open Machine Strand.Language in
/-- A root that is done, and leaves a sleeper behind whose cleanup panics. -/
def restless : Machine Code Running :=
  let script stages onExit := Term.apply (.staged (stages.map .onSuccess) onExit) []
  let sleeping := script [.apply .suspend []] (some (.apply (.panic (.text "boom")) []))
  let root := script [.apply (.reset sleeping) [], .apply .done [.mk .outcome (.literal (.int 5))]]
    none
  Program.machine [] .empty
    (.apply (.evaluate root) [.mk (.type .scheduler) (.apply (.newScheduler {}) [])])

open Machine Strand.Language in
/-- The panic in `restless` is caught inside a forced return. The program that
    fails instead halts in the same machine, with the panic for its failure. -/
theorem panics_end_as_failures_restless :
    ∃ n : Machine Code Running, n = after behavior 93 restless ∧ n.halted = true ∧
      n.result?.bind Outcome.error? = some (.panicked "boom") ∧
      Becomes { behavior with react := failing behavior } restless n := by
  have hcaught : throughout behavior (fun _ => false) (caught behavior 20) 100 restless = true := by
    decide +kernel
  have hhalted : (after behavior 93 restless).halted = true := by decide +kernel
  have hresult : (after behavior 93 restless).result?.bind Outcome.error? =
      some (.panicked "boom") := by decide +kernel
  have hmeets := panics_end_as_failures (B := behavior) (m := restless)
    (failsInstead_failing behavior)
    (by
      rintro _ state signal payload ⟨j, rfl⟩ hfocus hpanic -
      exact panicsCaught_of_caught (check_after hcaught j fun _ _ => rfl) hfocus hpanic)
    ⟨93, rfl⟩
  exact ⟨_, rfl, hhalted, hresult, hmeets.2 hhalted⟩

open Machine Strand.Language in
/-- A started root that panics. -/
def rooted : Machine Code Running :=
  let root := Term.apply (.staged [.onSuccess (.apply (.panic (.text "boom")) [])] none) []
  Program.machine [] .empty
    (.apply (.start root) [.mk (.type .scheduler) (.apply (.newScheduler {}) [])])

open Machine Strand.Language in
/-- The completion of a started root is abandoned where the root panics. It
    settles with the panic where the root fails instead. -/
theorem started_panic_abandoned :
    (after behavior 44 rooted).halted = true ∧
      ((after behavior 44 rooted).settled? 0).bind Outcome.error? = some .abandoned ∧
      (after { behavior with react := failing behavior } 44 rooted).halted = true ∧
      ((after { behavior with react := failing behavior } 44 rooted).settled? 0).bind
        Outcome.error? = some (.panicked "boom") := by
  decide +kernel

end Strand
