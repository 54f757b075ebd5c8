import Strand.Proofs.Custody

/-! # Lanes — forced returns above a result that is kept back

    When a routine finishes, its result goes on the stack as a routine of its
    own, and the forced returns of its children go on top of it. They stay
    together: whoever comes in between is one that such a forced return has left
    behind in its turn. `Lane` says so.

    * What a routine leaves on the stack when it finishes: `conclude_leaves`.
    * Picking goes down to the lane only when nothing above it is left
      (`Lane.pick`).
    * No move beside it touches it (`Lane.beside`). -/

namespace Strand

variable {C R : Type}

open Scheduler

namespace Script

/-- Such a script ends in the failures that it is fed: it is a forced return, or
    a result that is kept back. -/
def passesOn : Script C → Bool
  | .exit _ _ => true
  | .settled _ => true
  | _ => false

/-- A failure that the script was fed, or that it keeps back, is its result in
    the end. -/
def fails : Script C → Bool
  | .exit _ progress => !progress.output.isSuccess
  | .settled stored => !stored.isSuccess
  | _ => false

end Script

namespace Scheduler

/-- A routine with its script. -/
abbrev Item (C : Type) := RoutineId × Script C

/-- The place of an item on the stack. -/
def Item.entry (i : Item C) : StackEntry := .routine i.1

variable {s t : Scheduler C} {i : Item C} {id c : RoutineId}

/-- The routine has this script at hand, and no parent. -/
def Rests (s : Scheduler C) (i : Item C) : Prop :=
  ∃ r, s.routines.find? i.1 = some r ∧ r.script = some i.2 ∧ r.parent = none

theorem Rests.congr (h : s.Rests i) (hsame : t.routines = s.routines) : t.Rests i := by
  obtain ⟨r, hr, hscript, hparent⟩ := h
  exact ⟨r, hsame ▸ hr, hscript, hparent⟩

theorem Rests.aside (h : s.Rests i) (hon : s.onStack i.1 = true) (haside : Aside i.1 s t) :
    t.Rests i := by
  obtain ⟨r, hr, hscript, hparent⟩ := h
  obtain ⟨y, hy⟩ := haside.live hon r hr
  obtain ⟨r', hr', hscript', hparent'⟩ := haside.entry y hy
  obtain rfl := Option.some.inj (hr.symm.trans hr')
  exact ⟨y, hy, hscript'.trans hscript, hparent' hparent⟩

theorem Rests.unlisted (h : s.Rests i) (hl : Linked s.routines) : Unlisted i.1 s.routines := by
  obtain ⟨r, hr, -, hparent⟩ := h
  exact fun b y hy => hl.not_mem_children hr hparent hy

theorem Rests.issued (h : s.Rests i) : s.routines.Issued i.1 := by
  obtain ⟨r, hr, -⟩ := h
  exact Roster.issued_of_find? hr

/-! ### What a routine leaves on the stack -/

/-- The routine is there, and it has a script that can be made to return. -/
def Exits (s : Scheduler C) (c : RoutineId) : Prop :=
  ∃ y, s.routines.find? c = some y ∧ y.script ≠ none

/-- When routine `id` finishes now, it leaves routine `a` on the stack: its
    result, which is kept back, or the forced return of a child. -/
def Leaves (s : Scheduler C) (id a : RoutineId) : Prop :=
  ∃ r, s.routines.find? id = some r ∧ r.children ≠ [] ∧
    (a = id.next ∨ ∃ c ∈ r.children, s.Exits c ∧ a = c.next)

/-- What making a child exit does to the entries of others. -/
theorem find?_scheduleExit_of_ne {loose : List RoutineId} (hl : LinkedBut loose s.routines)
    (hroom : s.routines.slots.size ≤ 2 ^ 32) {a : RoutineId} (hne : a ≠ c) (hnext : a ≠ c.next) :
    ∃ f : Routine C → Routine C,
      (s.scheduleExit c).routines.find? a = (s.routines.find? a).map f ∧
      ∀ x, s.routines.find? a = some x →
        (f x).script = x.script ∧ (x.parent = none → (f x).parent = none) := by
  cases hr : s.routines.remove c with
  | none =>
    rw [scheduleExit_of_dead (Roster.remove_eq_none.mp hr)]
    exact ⟨id, Option.map_id'.symm ▸ rfl, fun x _ => ⟨rfl, fun h => h⟩⟩
  | some pair =>
    obtain ⟨r, routines⟩ := pair
    have hc := Roster.find?_of_remove hr
    have hnot : ∀ {x}, s.routines.find? a = some x → x.parent = none → a ∉ r.children :=
      fun hx hparent => hl.not_mem_children hx hparent hc
    cases hout : r.script with
    | none =>
      rw [scheduleExit_of_out hr hout]
      refine ⟨_, (find?_cutAll ..).trans (congrArg _ ((Roster.find?_remove hr a).trans
        (if_neg hne))), fun x hx => ⟨rfl, fun hparent => ?_⟩⟩
      exact (if_neg (hnot hx hparent)).trans hparent
    | some script =>
      have hfind := find?_scheduleExit hl.sound hroom hc hout
        (fun d hd => (hl.child hc hd).imp fun _ => And.left) a
      rw [if_neg hnext, if_neg hne] at hfind
      refine ⟨_, hfind, fun x hx => ⟨rfl, fun hparent => ?_⟩⟩
      exact (if_neg (hnot hx hparent)).trans hparent

/-- Another child is made to exit. -/
theorem Rests.scheduleExit {loose : List RoutineId} (h : s.Rests i)
    (hl : LinkedBut loose s.routines) (hroom : s.routines.slots.size ≤ 2 ^ 32) (hne : i.1 ≠ c) :
    (s.scheduleExit c).Rests i := by
  obtain ⟨x, hx, hscript, hparent⟩ := h
  by_cases hnext : i.1 = c.next
  · -- then there is no such child
    rw [hnext] at hx
    rw [scheduleExit_of_dead (Roster.find?_of_next hx)]
    exact ⟨x, hnext ▸ hx, hscript, hparent⟩
  · obtain ⟨f, hfind, hf⟩ := find?_scheduleExit_of_ne hl hroom hne hnext
    obtain ⟨hsame, hroot⟩ := hf x hx
    exact ⟨f x, hfind.trans (congrArg _ hx), hsame.trans hscript, hroot hparent⟩

/-- The other children are as they were, when one has been made to exit. -/
theorem exits_scheduleExit {kept : Routine C} {loose : List RoutineId} {d : RoutineId}
    (hl : LinkedBut (c :: loose) s.routines) (hroom : s.routines.slots.size ≤ 2 ^ 32)
    (hkept : s.routines.find? id.next = some kept) (hroot : kept.parent = none)
    (hparents : ∀ d ∈ c :: loose, d = id ∨ ∃ y, s.routines.find? d = some y ∧ y.parent = some id)
    (hd : d ∈ loose) (hne : d ≠ c) : (s.scheduleExit c).Exits d ↔ s.Exits d := by
  have hdead : s.routines.find? id = none := Roster.find?_of_next hkept
  by_cases hnext : d = c.next
  · have hgone : s.routines.find? c = none := by
      cases hc : s.routines.find? c with
      | none => rfl
      | some y =>
        have hnone : s.routines.find? d = none := hnext ▸ Roster.find?_next hc
        rcases hparents d (List.mem_cons_of_mem c hd) with rfl | ⟨z, hz, -⟩
        · -- `c` is in the slot of the result that is kept back, and not that result
          have hcid : c = d.next := Roster.eq_of_index_eq hc hkept (congrArg RoutineId.index hnext).symm
          rcases hparents c (List.mem_cons_self ..) with hself | ⟨z, hz, hparent⟩
          · exact absurd hself.symm hne
          · rw [hcid, hkept, Option.some.injEq] at hz
            rw [← hz, hroot] at hparent
            cases hparent
        · exact absurd (hnone.symm.trans hz) (by simp)
    rw [scheduleExit_of_dead hgone]
  · obtain ⟨f, hfind, hf⟩ := find?_scheduleExit_of_ne hl hroom hne hnext
    simp only [Exits, hfind]
    constructor
    · rintro ⟨y, hy, hscript⟩
      obtain ⟨x, hx, rfl⟩ := Option.map_eq_some_iff.mp hy
      exact ⟨x, hx, (hf x hx).1 ▸ hscript⟩
    · rintro ⟨x, hx, hscript⟩
      exact ⟨f x, congrArg _ hx, (hf x hx).1.symm ▸ hscript⟩

/-- A child without a script leaves the stack as it is. -/
theorem stack_scheduleExit_of_not_exits (h : ¬ s.Exits c) : (s.scheduleExit c).stack = s.stack := by
  cases hr : s.routines.remove c with
  | none => rw [scheduleExit_of_dead (Roster.remove_eq_none.mp hr)]
  | some pair =>
    obtain ⟨r, routines⟩ := pair
    have hc := Roster.find?_of_remove hr
    cases hout : r.script with
    | none => rw [scheduleExit_of_out hr hout, (shrunk_cutAll _ _).work.stack]
    | some script => exact absurd ⟨r, hc, by simp [hout]⟩ h

/-- The forced returns of children go on top of the stack. -/
theorem scheduleExits_leave {kept : Routine C} (hroot : kept.parent = none) (cs : List RoutineId)
    (hl : LinkedBut cs s.routines) (hroom : s.routines.slots.size ≤ 2 ^ 32) (hnodup : cs.Nodup)
    (hkept : s.routines.find? id.next = some kept)
    (hparents : ∀ d ∈ cs, d = id ∨ ∃ y, s.routines.find? d = some y ∧ y.parent = some id) :
    ∃ new : List (Item C),
      (cs.foldl Scheduler.scheduleExit s).stack = new.map Item.entry ++ s.stack ∧
      (∀ i ∈ new, (cs.foldl Scheduler.scheduleExit s).Rests i ∧ i.2.passesOn = true) ∧
      (∀ a, a ∈ new.map Prod.fst ↔ ∃ c ∈ cs, s.Exits c ∧ a = c.next) ∧
      (new.map Prod.fst).Nodup ∧
      ∀ i, s.Rests i → i.1 ∉ cs → (cs.foldl Scheduler.scheduleExit s).Rests i := by
  induction cs generalizing s with
  | nil =>
    refine ⟨[], rfl, by rintro _ ⟨⟩, fun a => ?_, List.nodup_nil, fun i hi _ => hi⟩
    simp
  | cons c cs ih =>
    rw [List.nodup_cons] at hnodup
    obtain ⟨hlinked, hslots, hkept', hparents'⟩ :=
      hl.scheduleExit hroom hnodup.1 hkept hroot hparents
    obtain ⟨new, hstack, hnew, hids, hdistinct, hothers⟩ :=
      ih hlinked (hslots ▸ hroom) hnodup.2 hkept' hparents'
    have hne : ∀ d ∈ cs, d ≠ c := fun d hd heq => hnodup.1 (heq ▸ hd)
    have hkeeps : ∀ i, s.Rests i → i.1 ∉ c :: cs →
        (cs.foldl Scheduler.scheduleExit (s.scheduleExit c)).Rests i := by
      intro i hi hnot
      rw [List.mem_cons, not_or] at hnot
      exact hothers i (hi.scheduleExit hl hroom hnot.1) hnot.2
    have hsame : ∀ d ∈ cs, (s.scheduleExit c).Exits d ↔ s.Exits d := fun d hd =>
      exits_scheduleExit hl hroom hkept hroot hparents hd (hne d hd)
    have hids' : ∀ a, a ∈ new.map Prod.fst ↔ ∃ d ∈ cs, s.Exits d ∧ a = d.next := by
      intro a
      rw [hids]
      constructor
      · rintro ⟨d, hd, hexits, ha⟩
        exact ⟨d, hd, (hsame d hd).mp hexits, ha⟩
      · rintro ⟨d, hd, hexits, ha⟩
        exact ⟨d, hd, (hsame d hd).mpr hexits, ha⟩
    by_cases hexits : s.Exits c
    · obtain ⟨r, hc, hsome⟩ := hexits
      obtain ⟨script, hscript⟩ := Option.ne_none_iff_exists'.mp hsome
      have hpushed := (scheduleExit_spec hl.sound hc hscript).2.2.2.2
      have hself : (s.scheduleExit c).Rests (c.next, .exit script .initial) :=
        ⟨_, (find?_scheduleExit hl.sound hroom hc hscript
          (fun d hd => (hl.child hc hd).imp fun _ => And.left) c.next).trans (if_pos rfl), rfl, rfl⟩
      have hfresh : c.next ∉ cs := by
        intro hmem
        have hlive := (hsame _ hmem).mp (hself.imp fun y hy => ⟨hy.1, by simp [hy.2.1]⟩)
        obtain ⟨y, hy, -⟩ := hlive
        rw [Roster.find?_next hc] at hy
        cases hy
      refine ⟨new ++ [(c.next, .exit script .initial)], ?_, ?_, ?_, ?_, hkeeps⟩
      · rw [List.foldl_cons, hstack, hpushed, List.map_append, List.append_assoc]
        rfl
      · intro i hi
        rcases List.mem_append.mp hi with hi | hi
        · exact hnew i hi
        · obtain rfl := List.mem_singleton.mp hi
          exact ⟨hothers _ hself hfresh, rfl⟩
      · intro a
        rw [List.map_append, List.mem_append, hids', List.map_singleton, List.mem_singleton]
        constructor
        · rintro (⟨d, hd, hexits, ha⟩ | ha)
          · exact ⟨d, List.mem_cons_of_mem c hd, hexits, ha⟩
          · exact ⟨c, List.mem_cons_self .., ⟨r, hc, hsome⟩, ha⟩
        · rintro ⟨d, hd, hexits, ha⟩
          rcases List.mem_cons.mp hd with rfl | hd
          · exact Or.inr ha
          · exact Or.inl ⟨d, hd, hexits, ha⟩
      · rw [List.map_append, List.nodup_append]
        refine ⟨hdistinct, List.nodup_singleton _, ?_⟩
        intro a ha b hb heq
        obtain ⟨d, hd, -, had⟩ := (hids' a).mp ha
        have hb' : b = c.next := List.mem_singleton.mp hb
        exact hne d hd (RoutineId.next_injective (had.symm.trans (heq.trans hb')))
    · refine ⟨new, hstack.trans (congrArg _ (stack_scheduleExit_of_not_exits hexits)), hnew, ?_,
        hdistinct, hkeeps⟩
      intro a
      rw [hids']
      constructor
      · rintro ⟨d, hd, hlive, ha⟩
        exact ⟨d, List.mem_cons_of_mem c hd, hlive, ha⟩
      · rintro ⟨d, hd, hlive, ha⟩
        rcases List.mem_cons.mp hd with rfl | hd
        · exact absurd hlive hexits
        · exact ⟨d, hd, hlive, ha⟩

/-- What a routine leaves on the stack when it finishes: the forced returns of its
    children on top of its result. -/
theorem conclude_leaves {r : Routine C} (hl : Linked s.routines)
    (hroom : s.routines.slots.size ≤ 2 ^ 32) (h : s.routines.find? id = some r)
    (script : Script C) (o : Outcome Value) :
    ∃ new : List (Item C),
      (s.conclude id script o).stack = new.map Item.entry ++ s.stack ∧
      (s.conclude id script o).register = o ∧
      (∀ i ∈ new, (s.conclude id script o).Rests i ∧ i.2.passesOn = true) ∧
      (∀ a, a ∈ new.map Prod.fst ↔ s.Leaves id a) ∧
      (new.map Prod.fst).Nodup ∧
      (r.children ≠ [] → ∃ above, new = above ++ [(id.next, .settled o)]) := by
  by_cases hnone : r.children = []
  · obtain ⟨hstack, hregister, -⟩ := conclude_childless_spec hl.sound h hnone script o
    refine ⟨[], hstack, hregister, by rintro _ ⟨⟩, fun a => ?_, List.nodup_nil,
      fun hsome => absurd hnone hsome⟩
    constructor
    · rintro ⟨⟩
    · rintro ⟨r', hr', hsome, -⟩
      rw [h, Option.some.injEq] at hr'
      exact absurd (hr' ▸ hnone) hsome
  · obtain ⟨routines, hr⟩ := Roster.remove_of_find? h
    obtain ⟨hfirst, hstack, -, -, -, -, hfind⟩ := keptBack_spec hl.sound hroom hr script o
    obtain ⟨hloose, hslots, hkept, hparents⟩ := hl.keptBack hroom hr script o
    rw [conclude_of_children hr hnone, hfirst]
    generalize hu : (s.keptBack id r routines script o).2 = u at *
    obtain ⟨new, hstack', hnew, hids, hdistinct, hothers⟩ :=
      scheduleExits_leave (s := u.push (.routine id.next)) rfl r.children hloose hslots
        (hl.nodup h) hkept hparents
    have hfresh : ∀ c ∈ r.children, c ≠ id.next := by
      intro c hc heq
      obtain ⟨y, hy, -⟩ := hl.child h hc
      rw [heq, Roster.find?_next h] at hy
      cases hy
    have hexits : ∀ c ∈ r.children, c ≠ id → ((u.push (.routine id.next)).Exits c ↔ s.Exits c) := by
      intro c hc hne
      have hc' := hfind c
      rw [if_neg (hfresh c hc), if_neg hne] at hc'
      have hsame : (u.push (.routine id.next)).routines.find? c = _ := hc'
      simp only [Exits, hsame]
      constructor
      · rintro ⟨y, hy, hscript⟩
        obtain ⟨x, hx, rfl⟩ := Option.map_eq_some_iff.mp hy
        exact ⟨x, hx, hscript⟩
      · rintro ⟨x, hx, hscript⟩
        exact ⟨_, congrArg _ hx, hscript⟩
    have hdead : ¬ (u.push (.routine id.next)).Exits id := by
      rintro ⟨y, hy, -⟩
      have hid := hfind id
      rw [if_neg (RoutineId.next_ne id).symm, if_pos rfl] at hid
      exact absurd (hid.symm.trans hy) (by simp)
    refine ⟨new ++ [(id.next, .settled o)], ?_, rfl, ?_, ?_, ?_, fun _ => ⟨new, rfl⟩⟩
    · show (r.children.foldl Scheduler.scheduleExit (u.push (.routine id.next))).stack = _
      rw [hstack', List.map_append, List.append_assoc, ← hstack]
      rfl
    · intro i hi
      rcases List.mem_append.mp hi with hi | hi
      · exact ⟨(hnew i hi).1.congr rfl, (hnew i hi).2⟩
      · obtain rfl := List.mem_singleton.mp hi
        refine ⟨Rests.congr (hothers (id.next, .settled o) ⟨_, hkept, rfl, rfl⟩ ?_) rfl, rfl⟩
        exact fun hmem => hfresh _ hmem rfl
    · intro a
      rw [List.map_append, List.mem_append, hids, List.map_singleton, List.mem_singleton]
      constructor
      · rintro (⟨c, hc, hlive, ha⟩ | ha)
        · have hne : c ≠ id := fun heq => hdead (heq ▸ hlive)
          exact ⟨r, h, hnone, Or.inr ⟨c, hc, (hexits c hc hne).mp hlive, ha⟩⟩
        · exact ⟨r, h, hnone, Or.inl ha⟩
      · rintro ⟨r', hr', -, ha | ⟨c, hc, hlive, ha⟩⟩
        · exact Or.inr ha
        · rw [h, Option.some.injEq] at hr'
          subst hr'
          by_cases hne : c = id
          · exact Or.inr (hne ▸ ha)
          · exact Or.inl ⟨c, hc, (hexits c hc hne).mpr hlive, ha⟩
    · rw [List.map_append, List.nodup_append]
      refine ⟨hdistinct, List.nodup_singleton _, ?_⟩
      intro a ha b hb heq
      obtain ⟨c, hc, hlive, hac⟩ := (hids a).mp ha
      have hb' : b = id.next := List.mem_singleton.mp hb
      have hcid : c = id := RoutineId.next_injective (hac.symm.trans (heq.trans hb'))
      exact hdead (hcid ▸ hlive)

/-! ### Moves that stay above the stack -/

/-- Work is put on the stack. Of the routines that have been there before, only
    `mine` are put there. -/
def Piles (mine : RoutineId → Prop) (s t : Scheduler C) : Prop :=
  ∃ work, t.stack = work ++ s.stack ∧
    ∀ a, .routine a ∈ work → s.routines.Issued a → t.routines.Ample a → mine a

section Piles

variable {mine : RoutineId → Prop} {u : Scheduler C}

theorem Piles.of_stack (h : t.stack = s.stack) : Piles mine s t :=
  ⟨[], h, by rintro _ ⟨⟩⟩

theorem Piles.congr (h : Piles mine s t) (hstack : u.stack = t.stack)
    (hroutines : u.routines = t.routines) : Piles mine s u := by
  obtain ⟨work, hwork, hmine⟩ := h
  exact ⟨work, hstack.trans hwork, fun a ha hissued hample => hmine a ha hissued (hroutines ▸ hample)⟩

theorem Piles.trans (h : Piles mine s t) (h' : Piles mine t u)
    (hissued : ∀ a, s.routines.Issued a → t.routines.Issued a)
    (hgrows : Roster.Grows t.routines u.routines) : Piles mine s u := by
  obtain ⟨work, hwork, hmine⟩ := h
  obtain ⟨work', hwork', hmine'⟩ := h'
  refine ⟨work' ++ work, by rw [hwork', hwork, List.append_assoc], fun a ha hold hample => ?_⟩
  rcases List.mem_append.mp ha with ha | ha
  · exact hmine' a ha (hissued a hold) hample
  · exact hmine a ha hold (hample.of_grows hgrows)

theorem piles_boundary (s : Scheduler C) : Piles mine s (s.push .boundary) :=
  ⟨[.boundary], rfl, by simp⟩

theorem stack_giveBack (s : Scheduler C) (id : RoutineId) (script : Script C) :
    (s.giveBack id script).stack = s.stack := by
  unfold giveBack
  split <;> rfl

theorem piles_shelve (s : Scheduler C) (script : Script C) (h : mine id) :
    Piles mine s (s.shelve id script) := by
  unfold shelve
  split
  · exact ⟨[.routine id], congrArg _ (stack_giveBack s id script), by simp [h]⟩
  · exact .of_stack rfl

theorem piles_add (hs : s.routines.Sound) (origin : Origin) (script : Script C)
    (ht : t.stack = .routine (s.add origin script).1 :: s.stack)
    (hgrows : Roster.Grows (s.add origin script).2.routines t.routines) : Piles mine s t := by
  refine ⟨[.routine (s.add origin script).1], ht, fun a ha hissued hample => ?_⟩
  simp only [List.mem_singleton, StackEntry.routine.injEq] at ha
  exact absurd ha (hs.ne_insert_fst hissued _ (hample.of_grows hgrows))

theorem piles_queue (hs : s.routines.Sound) (k : Nat) (v : Value) : Piles mine s (s.queue k v) :=
  piles_add hs .reenter (.reentry k (some v)) rfl (.refl _)

theorem stack_link (s : Scheduler C) (c : RoutineId) (parent : Option RoutineId) :
    (s.link c parent).stack = s.stack := by
  unfold link
  dsimp only
  split <;> rfl

theorem piles_scheduleChild (hs : s.routines.Sound) (origin : Origin) (script : Script C)
    (parent : RoutineId) : Piles mine s (s.scheduleChild origin script parent) :=
  piles_add hs origin script (congrArg _ (stack_link _ _ _))
    (closed_link (Roster.closed_grows _).steady (.refl _) _ (some parent))

theorem piles_scheduleRoot (hs : s.routines.Sound) (script : Script C) :
    Piles mine s (s.scheduleRoot script) :=
  piles_add hs .root script
    (congrArg (StackEntry.routine (s.add .root script).1 :: ·)
      (stack_link (s.add .root script).2 (s.add .root script).1 none))
    (closed_link (Roster.closed_grows _).steady (.refl _) _ none)

theorem piles_reinstate (s : Scheduler C) (ids : List RoutineId) (v : Value)
    (h : ∀ a ∈ ids, s.routines.Issued a → s.routines.Ample a → mine a) :
    Piles mine s (s.reinstate ids v) := by
  refine ⟨(ids.map StackEntry.routine).reverse ++ [.boundary], ?_, ?_⟩
  · rw [List.append_assoc]
    rfl
  · intro a ha hissued hample
    simp only [List.mem_append, List.mem_reverse, List.mem_map, StackEntry.routine.injEq,
      exists_eq_right, List.mem_singleton, reduceCtorEq, or_false] at ha
    exact h a ha hissued hample

theorem not_mem_plant (hs : s.routines.Sound) {frames : List (FrameCopy C)}
    {copies : List (Script C)} {a : RoutineId} (hissued : s.routines.Issued a)
    (hample : (s.plant frames copies).2.routines.Ample a) : a ∉ (s.plant frames copies).1 :=
  (aside_addCopies (frames.zip copies) hs hissued
    (hample.of_grows (closed_links (Roster.closed_grows _).steady (.refl _) _ _))).2

theorem piles_plant (hs : s.routines.Sound) (frames : List (FrameCopy C))
    (copies : List (Script C)) (v : Value) :
    Piles mine s ((s.plant frames copies).2.told.reinstate (s.plant frames copies).1 v) := by
  have hpiles : Piles (· ∈ (s.plant frames copies).1) (s.plant frames copies).2.told
      ((s.plant frames copies).2.told.reinstate (s.plant frames copies).1 v) :=
    piles_reinstate _ _ v fun a ha _ _ => ha
  obtain ⟨work, hwork, hmem⟩ := hpiles
  have hstack : (s.plant frames copies).2.told.stack = s.stack := stack_plant s frames copies
  refine ⟨work, hwork.trans (congrArg _ hstack), fun a ha hissued hample => ?_⟩
  have hold : (s.plant frames copies).2.told.routines.Issued a := (edits_plant s _ _).issued hissued
  exact absurd (hmem a ha hold hample) (not_mem_plant hs hissued hample)

theorem stack_suspend (s : Scheduler C) (id : RoutineId) (script : Script C) :
    (s.suspend id script).stack = s.stack := by
  unfold suspend
  split
  · split
    · exact stack_giveBack s id script
    · exact (shrunk_free _ _).work.stack
  · exact (shrunk_free _ _).work.stack

theorem stack_giveBackAll (frames : List (Lifted C)) (s : Scheduler C) :
    (s.giveBackAll frames).stack = s.stack := by
  unfold giveBackAll
  induction frames generalizing s with
  | nil => rfl
  | cons frame frames ih => exact (ih _).trans (stack_giveBack s frame.id frame.script)

/-- What takes the slot of a live routine is new. -/
theorem not_issued_next {r : Routine C} (h : s.routines.find? c = some r)
    (hless : s.routines.vacated c < t.routines.vacated c) (hample : t.routines.Ample c.next) :
    ¬ s.routines.Issued c.next := by
  rintro (hlive | hgone)
  · obtain ⟨y, hy⟩ := Roster.contains_iff.mp hlive
    rw [Roster.find?_next h] at hy
    cases hy
  · have hwrap : t.routines.vacated c < 2 ^ 32 := hample.vacated
    have hgeneration : c.generation.toNat = s.routines.vacated c := by
      obtain ⟨v, hv, hgen⟩ := Roster.find?_eq_some.mp h
      have hvacated : s.routines.vacated c = v := by simp [Roster.vacated, hv]
      rw [hvacated, ← hgen, UInt32.toNat_ofNat', Nat.mod_eq_of_lt (by omega)]
    have hnext : c.next.generation.toNat = c.generation.toNat + 1 := by
      show (c.generation + 1).toNat = _
      rw [UInt32.toNat_add, Nat.mod_eq_of_lt (by simp; omega)]
      rfl
    have hsame : s.routines.vacated c.next = s.routines.vacated c := rfl
    omega

/-- What a routine leaves on the stack when it finishes has not been there before. -/
theorem Leaves.not_issued {a : RoutineId} (h : s.Leaves id a) (hl : Linked s.routines)
    (hroom : s.routines.slots.size ≤ 2 ^ 32) (script : Script C) (o : Outcome Value)
    (hample : (s.conclude id script o).routines.Ample a) : ¬ s.routines.Issued a := by
  obtain ⟨r, hr, hsome, hleft⟩ := h
  obtain ⟨t, ht, -, -, -, hless, -⟩ := conclude_children_spec hl.sound hroom hr hsome script o
  -- the slots of the routine and of its children are vacated
  have hself : s.routines.vacated id < (s.conclude id script o).routines.vacated id := by
    rw [ht]
    exact Nat.lt_of_lt_of_le hless
      ((closed_scheduleExits (Roster.closed_grows _).steady (.refl _) r.children).vacated id)
  rcases hleft with rfl | ⟨c, hc, ⟨y, hy, -⟩, rfl⟩
  · exact not_issued_next hr hself hample
  · by_cases hne : c = id
    · subst hne
      exact not_issued_next hr hself hample
    · exact not_issued_next hy (hl.vacated_conclude hroom hr hc hne script o) hample

theorem piles_conclude (hl : Linked s.routines) (hroom : s.routines.slots.size ≤ 2 ^ 32)
    (script : Script C) (o : Outcome Value) : Piles mine s (s.conclude id script o) := by
  cases h : s.routines.find? id with
  | none =>
    refine .of_stack ?_
    rw [conclude_of_dead h]
    rfl
  | some r =>
    obtain ⟨new, hstack, -, -, hids, -, -⟩ := conclude_leaves hl hroom h script o
    refine ⟨new.map Item.entry, hstack, fun a ha hissued hample => ?_⟩
    obtain ⟨i, hi, heq⟩ := List.mem_map.mp ha
    obtain rfl : i.1 = a := StackEntry.routine.inj heq
    exact absurd hissued
      (((hids i.1).mp (List.mem_map_of_mem hi)).not_issued hl hroom script o hample)

end Piles

/-! ### Going down the stack -/

/-- Going down the stack, a routine above is picked, or nothing above is left and
    the routine beneath is. -/
theorem pickFrom_above {above rest : List StackEntry} {script : Script C} (hi : s.Rests i)
    (h : pickFrom (above ++ i.entry :: rest) s = (some (id, script), t)) :
    (∃ above', t.stack = above' ++ i.entry :: rest ∧ .routine id ∈ above ∧
      ∀ e ∈ above', e ∈ above) ∨ ((id, script) = i ∧ t.stack = rest) := by
  induction above generalizing s with
  | nil =>
    obtain ⟨r, hr, hscript, -⟩ := hi
    simp only [List.nil_append, Item.entry, pickFrom, hr, hscript] at h
    cases h
    exact Or.inr ⟨rfl, rfl⟩
  | cons work above ih =>
    have hskip : ∀ {u : Scheduler C}, u.Rests i →
        pickFrom (above ++ i.entry :: rest) u = (some (id, script), t) →
        (∃ above', t.stack = above' ++ i.entry :: rest ∧ .routine id ∈ work :: above ∧
          ∀ e ∈ above', e ∈ work :: above) ∨ ((id, script) = i ∧ t.stack = rest) := by
      intro u hu h
      rcases ih hu h with ⟨above', hstack, hmem, hsub⟩ | hhead
      · exact Or.inl ⟨above', hstack, List.mem_cons_of_mem _ hmem,
          fun e he => List.mem_cons_of_mem _ (hsub e he)⟩
      · exact Or.inr hhead
    cases work with
    | boundary => exact hskip (u := s.report .boundaryConsumed) (hi.congr rfl) h
    | routine top =>
      rw [List.cons_append, pickFrom] at h
      split at h
      · exact hskip (u := s.report (.skippingStale top)) (hi.congr rfl) h
      · split at h
        · exact hskip hi h
        · cases h
          exact Or.inl ⟨above, rfl, List.mem_cons_self .., fun e he => List.mem_cons_of_mem _ he⟩

/-- A routine on top is lifted or passed over. -/
theorem liftFrom_routine (rest : List StackEntry) (lifted : List (Lifted C)) (s : Scheduler C)
    (id : RoutineId) :
    ∃ lifted' s', liftFrom (.routine id :: rest) lifted s = liftFrom rest lifted' s' ∧
      ∀ f ∈ lifted', f ∈ lifted ∨ f.id = id := by
  rw [liftFrom]
  split
  · exact ⟨lifted, s, rfl, fun f hf => Or.inl hf⟩
  · split
    · exact ⟨lifted, s, rfl, fun f hf => Or.inl hf⟩
    · refine ⟨_, _, rfl, fun f hf => ?_⟩
      rcases List.mem_cons.mp hf with rfl | hf
      · exact Or.inr rfl
      · exact Or.inl hf

/-- Lifting takes a part of the stack from its top. -/
theorem liftFrom_suffix (stack : List StackEntry) (lifted : List (Lifted C)) (s : Scheduler C) :
    (liftFrom stack lifted s).2.stack <:+ stack := by
  induction stack generalizing lifted s with
  | nil => exact List.suffix_refl _
  | cons work rest ih =>
    cases work with
    | boundary => exact List.suffix_cons _ _
    | routine id =>
      obtain ⟨lifted', s', heq, -⟩ := liftFrom_routine rest lifted s id
      rw [heq]
      exact (ih lifted' s').trans (List.suffix_cons _ _)

/-- Without a boundary above, everything above is lifted. -/
theorem liftFrom_through {top : List StackEntry} (rest : List StackEntry)
    (lifted : List (Lifted C)) (s : Scheduler C) (h : .boundary ∉ top) :
    (liftFrom (top ++ rest) lifted s).2.stack <:+ rest := by
  induction top generalizing lifted s with
  | nil => exact liftFrom_suffix rest lifted s
  | cons work top ih =>
    cases work with
    | boundary => exact absurd (List.mem_cons_self ..) h
    | routine id =>
      obtain ⟨lifted', s', heq, -⟩ := liftFrom_routine (top ++ rest) lifted s id
      rw [List.cons_append, heq]
      exact ih lifted' s' fun hmem => h (List.mem_cons_of_mem _ hmem)

/-- With a boundary above, nothing beneath it is lifted. -/
theorem liftFrom_above {top : List StackEntry} (rest : List StackEntry)
    (lifted : List (Lifted C)) (s : Scheduler C) (h : .boundary ∈ top) :
    ∃ top', (liftFrom (top ++ rest) lifted s).2.stack = top' ++ rest ∧ (∀ e ∈ top', e ∈ top) ∧
      ∀ f ∈ (liftFrom (top ++ rest) lifted s).1, f ∈ lifted ∨ .routine f.id ∈ top := by
  induction top generalizing lifted s with
  | nil => cases h
  | cons work top ih =>
    cases work with
    | boundary =>
      exact ⟨top, rfl, fun e he => List.mem_cons_of_mem _ he, fun f hf => Or.inl hf⟩
    | routine id =>
      obtain ⟨lifted', s', heq, hlifted⟩ := liftFrom_routine (top ++ rest) lifted s id
      obtain ⟨top', hstack, hsub, hframes⟩ := ih lifted' s' (by simpa using h)
      rw [List.cons_append, heq]
      refine ⟨top', hstack, fun e he => List.mem_cons_of_mem _ (hsub e he), fun f hf => ?_⟩
      rcases hframes f hf with hf | hf
      · rcases hlifted f hf with hf | rfl
        · exact Or.inl hf
        · exact Or.inr (List.mem_cons_self ..)
      · exact Or.inr (List.mem_cons_of_mem _ hf)

end Scheduler

section Stride

variable {p : Nat} {x y : Status C} {σ σ' : PassStage C} {s s' : Scheduler C}
  {t : Nat → Option (Snapshot C)}

theorem PassStage.inHand_congr (h : σ ≠ .leaving) {a : RoutineId} (hin : σ.InHand s a) :
    σ.InHand s' a := by
  cases σ with
  | leaving => exact absurd rfl h
  | _ => exact hin

/-- Whoever is remembered when one snapshot has been changed was remembered
    before, or belongs to that snapshot. -/
theorem Status.original_of_update {k : Nat} {after : Option (Snapshot C)} {a : RoutineId}
    (h : (⟨σ', s', Function.update t k after⟩ : Status C).Original a) :
    (⟨σ, s, t⟩ : Status C).Original a ∨
      ∃ snapshot ids, after = some snapshot ∧ snapshot.routines = some ids ∧ a ∈ ids := by
  obtain ⟨k', snapshot, ids, hk, hids, ha⟩ := h
  by_cases heq : k' = k
  · have hafter : Function.update t k after k' = some snapshot := hk
    rw [heq, Function.update_self] at hafter
    exact Or.inr ⟨snapshot, ids, hafter, hids, ha⟩
  · have hsame : Function.update t k after k' = some snapshot := hk
    rw [Function.update_of_ne heq] at hsame
    exact Or.inl ⟨k', snapshot, ids, hsame, hids, ha⟩

/-- Nobody is added when a snapshot forgets its routines. -/
theorem Status.original_of_forgetful {k : Nat} {after : Option (Snapshot C)} {a : RoutineId}
    (hafter : ∀ snapshot, after = some snapshot → snapshot.routines = none)
    (h : (⟨σ', s', Function.update t k after⟩ : Status C).Original a) :
    (⟨σ, s, t⟩ : Status C).Original a := by
  rcases Status.original_of_update h with h | ⟨snapshot, ids, hsome, hids, -⟩
  · exact h
  · rw [hafter snapshot hsome] at hids
    cases hids

/-- A move that does not go down the stack: it may put work there, and leaves
    aside whoever is not in hand. -/
structure Beside (x y : Status C) : Prop where
  piles : Piles (fun a => x.stage.InHand x.scheduler a ∨ x.Original a) x.scheduler y.scheduler
  aside : ∀ a, x.scheduler.routines.Issued a → Unlisted a x.scheduler.routines →
    y.scheduler.routines.Ample a → ¬ x.stage.InHand x.scheduler a → Aside a x.scheduler y.scheduler
  hand : ∀ a, y.stage.InHand y.scheduler a → x.stage.InHand x.scheduler a
  original : ∀ a, y.Original a → x.Original a ∨ x.stage.InHand x.scheduler a

/-- Nothing is done to the routines. -/
theorem Beside.of_same {t' : Nat → Option (Snapshot C)} (hσ : σ ≠ .leaving)
    (hroutines : s'.routines = s.routines) (hstack : s'.stack = s.stack)
    (hrunning : s.running = true → s'.running = true)
    (horiginal : ∀ a, (⟨σ, s', t'⟩ : Status C).Original a → (⟨σ, s, t⟩ : Status C).Original a) :
    Beside ⟨σ, s, t⟩ ⟨σ, s', t'⟩ := by
  refine ⟨.of_stack hstack, fun a _ _ _ _ => .of_same hroutines ?_ hrunning,
    fun a => PassStage.inHand_congr hσ, fun a h => Or.inl (horiginal a h)⟩
  intro hon
  rwa [onStack, hstack]

/-- Work is put on the stack from outside. -/
theorem Beside.of_piles {t' : Nat → Option (Snapshot C)} (hσ : σ ≠ .leaving)
    (hpiles : Piles (fun a => (⟨σ, s, t⟩ : Status C).Original a) s s')
    (haside : ∀ a, s.routines.Issued a → s'.routines.Ample a → Aside a s s')
    (horiginal : ∀ a, (⟨σ, s', t'⟩ : Status C).Original a → (⟨σ, s, t⟩ : Status C).Original a) :
    Beside ⟨σ, s, t⟩ ⟨σ, s', t'⟩ := by
  refine ⟨?_, fun a hissued _ hample _ => haside a hissued hample,
    fun a => PassStage.inHand_congr hσ, fun a h => Or.inl (horiginal a h)⟩
  obtain ⟨work, hwork, hmine⟩ := hpiles
  exact ⟨work, hwork, fun a ha hissued hample => Or.inr (hmine a ha hissued hample)⟩

/-- A routine is done with its step. -/
theorem Beside.of_step {id : RoutineId} (hσ' : ∀ a, ¬ σ'.InHand s' a)
    (hpiles : Piles (fun a => a = id ∨ (⟨.stepping id, s, t⟩ : Status C).Original a) s s')
    (haside : ∀ a, s.routines.Issued a → Unlisted a s.routines → s'.routines.Ample a → a ≠ id →
      Aside a s s') : Beside ⟨.stepping id, s, t⟩ ⟨σ', s', t⟩ :=
  ⟨hpiles, haside, fun a h => absurd h (hσ' a), fun _ h => Or.inl h⟩

/-- Everything that a move can do to a scheduler, as far as its stack goes. -/
theorem Stride.kinds (h : Stride p x y) (hl : Linked x.scheduler.routines)
    (hroom : y.scheduler.routines.slots.size ≤ 2 ^ 32) :
    Beside x y ∨
    (∃ id script s', x.stage = .head ∧ x.scheduler.pick = (some (id, script), s') ∧
      y = ⟨.stepping id, { s' with register := .unit }.told, x.captures⟩) ∨
    (∃ id script frames s', x.stage = .stepping id ∧
      (x.scheduler.shelve id script).lift = (frames, s') ∧ y.scheduler = s'.told ∧
      (∀ a, y.stage.InHand y.scheduler a → a ∈ frames.map Lifted.id) ∧
      ∀ a, y.Original a → x.Original a) ∨
    y.stage = .leaving ∨ y.stage = .idle := by
  have htold : ∀ (a : RoutineId) (s : Scheduler C), Aside a s s.told :=
    fun a s => .of_same rfl (fun h => h) fun h => h
  have hsound := hl.sound
  -- what does not change the stage is settled at once when a panic is on its way
  by_cases hleaving : y.stage = .leaving
  · exact Or.inr (Or.inr (Or.inr (Or.inl hleaving)))
  by_cases hidle : y.stage = .idle
  · exact Or.inr (Or.inr (Or.inr (Or.inr hidle)))
  cases h with
  | still => exact Or.inl (.of_same hleaving rfl rfl (fun h => h) fun _ h => h)
  | note σ s t unhandled => exact Or.inl (.of_same hleaving rfl rfl (fun h => h) fun _ h => h)
  | pick h t => exact Or.inr (Or.inl ⟨_, _, _, rfl, h, rfl⟩)
  | leave => exact absurd rfl hidle
  | fail => exact absurd rfl hleaving
  | abandon => exact absurd rfl hidle
  | @sweep σ σ' s h h' t =>
    have haside : ∀ a, Aside a s
        ({ s.freeUnclaimed.2 with current := none, retired := [] } : Scheduler C).told :=
      fun a => (aside_freeUnclaimed s).trans (.of_same rfl (fun h => h) fun h => h)
    refine Or.inl ⟨.of_stack (freeUnclaimed_spec hl).1.shrunk.work.stack, fun a _ _ _ _ => haside a,
      fun a hin => ?_, fun a h => Or.inl h⟩
    rcases h' with rfl | ⟨rfl, rfl⟩
    · exact PassStage.inHand_congr hleaving hin
    · exact hin
  | conclude s id script o t =>
    have hroom' := Nat.le_trans
      (closed_conclude (Roster.closed_grows s.routines).steady (.refl _) id script o).slots hroom
    exact Or.inl (.of_step (fun _ h => h) ((piles_conclude hl hroom' script o).congr rfl rfl)
      fun a hissued hunlisted hample hne =>
        (aside_conclude hsound hissued hunlisted hne script o hample).trans (htold a _))
  | suspend s id script t =>
    exact Or.inl (.of_step (fun _ h => h) (.of_stack (stack_suspend s id script))
      fun a _ _ _ hne => (aside_suspend s hne script).trans (htold a _))
  | reset s id script t =>
    have hpiles : Piles (fun a => a = id ∨ (⟨.stepping id, s, t⟩ : Status C).Original a) s
        ((s.shelve id script).push .boundary) :=
      (piles_shelve s script (Or.inl rfl)).trans (piles_boundary _)
        (fun a => (edits_shelve s id script).issued) (.refl _)
    exact Or.inl (.of_step (fun _ h => h) (hpiles.congr rfl rfl) fun a _ _ _ hne =>
      ((aside_shelve s hne script).trans (aside_push _ _)).trans (htold a _))
  | splice s id script nested t =>
    have hissued : ∀ a, s.routines.Issued a → (s.shelve id script).told.routines.Issued a :=
      fun a => (edits_shelve s id script).issued
    have hsound' : (s.shelve id script).told.routines.Sound :=
      (edits_shelve s id script).closed Roster.closed_sound hsound
    have hshelved : Piles (fun a => a = id ∨ (⟨.stepping id, s, t⟩ : Status C).Original a) s
        (s.shelve id script).told := (piles_shelve s script (Or.inl rfl)).congr rfl rfl
    have hchild := hshelved.trans (piles_scheduleChild hsound' .splice nested id) hissued
      (edits_scheduleChild _ .splice nested id).grows
    refine Or.inl (.of_step (fun _ h => h) (hchild.congr rfl rfl) fun a hold _ hample hne => ?_)
    exact (((aside_shelve s hne script).trans (htold a _)).trans
      (aside_scheduleChild hsound' (hissued a hold) .splice nested id hample)).trans (htold a _)
  | build s id origin script t =>
    refine Or.inl ⟨(piles_scheduleChild hsound origin script id).congr rfl rfl, ?_,
      fun _ h => h, fun _ h => Or.inl h⟩
    exact fun a hissued _ hample _ =>
      (aside_scheduleChild hsound hissued origin script id hample).trans (htold a _)
  | @lift s s' id script frames h t =>
    exact Or.inr (Or.inr (Or.inl ⟨id, script, frames, s', rfl, h, rfl, fun _ h => h, fun _ h => h⟩))
  | @liftNothing s s' id script k t h hk =>
    refine Or.inr (Or.inr (Or.inl ⟨id, script, [], s', rfl, h, rfl, fun _ h => False.elim h, ?_⟩))
    intro a ha
    rcases Status.original_of_update ha with ha | ⟨snapshot, ids, hsnapshot, hids, hmem⟩
    · exact ha
    · cases hsnapshot
      cases hids
      cases hmem
  | @capture s id frames copies k t hk =>
    refine Or.inl ⟨.of_stack ?_, fun a _ _ _ hnot =>
      (aside_giveBackAll frames s hnot).trans (htold a _), fun _ h => False.elim h, ?_⟩
    · exact stack_giveBackAll frames s
    · intro a ha
      rcases Status.original_of_update ha with ha | ⟨snapshot, ids, hsnapshot, hids, hmem⟩
      · exact Or.inl ha
      · cases hsnapshot
        cases hids
        exact Or.inr hmem
  | root s script t =>
    refine Or.inl ⟨(piles_scheduleRoot hsound script).congr rfl rfl, ?_, fun _ h => h,
      fun _ h => Or.inl h⟩
    exact fun a hissued _ hample _ => (aside_scheduleRoot hsound hissued script hample).trans
      (.of_same rfl (fun h => h) fun _ => rfl)
  | @queue σ s h k v t =>
    exact Or.inl (.of_piles hleaving ((piles_queue hsound k v).congr rfl rfl)
      (fun a hissued hample => (aside_queue hsound hissued k v hample).trans (htold a _))
      fun _ h => h)
  | @reenter s h k v t =>
    refine Or.inl ⟨(piles_queue hsound k v).congr rfl rfl, ?_, fun _ h => h, fun _ h => Or.inl h⟩
    exact fun a hissued _ hample _ => (aside_queue hsound hissued k v hample).trans
      (.of_same rfl (fun h => h) fun _ => rfl)
  | @reinstate σ s k snapshot ids t hk hids hlive v =>
    refine Or.inl (.of_piles hleaving ((piles_reinstate s _ v fun a ha _ _ =>
      ⟨k, snapshot, ids, hk, hids, ha⟩).congr rfl rfl)
      (fun a _ _ => (aside_reinstate s ids v).trans (htold a _)) fun a ha => ?_)
    refine Status.original_of_forgetful (fun after h => ?_) ha
    cases h
    rfl
  | @claim σ s k snapshot t hk hgone =>
    refine Or.inl (.of_same hleaving rfl rfl (fun h => h) fun a ha => ?_)
    refine Status.original_of_forgetful (fun after h => ?_) ha
    cases h
    rfl
  | @plant σ s s' k snapshot copies ids t hk h v =>
    have hs' : (s.plant snapshot.frames copies).2 = s' := congrArg Prod.snd h
    have hids : (s.plant snapshot.frames copies).1 = ids := congrArg Prod.fst h
    subst hs' hids
    exact Or.inl (.of_piles hleaving ((piles_plant hsound snapshot.frames copies v).congr rfl rfl)
      (fun a hissued hample => ((aside_plant hsound hissued _ _ hample).trans (htold a _)).trans
        ((aside_reinstate _ _ v).trans (htold a _))) fun _ h => h)
  | @plantNothing σ s k snapshot t hk hnone hgone v =>
    refine Or.inl (.of_piles hleaving ((piles_reinstate s.told [] v
      (by rintro _ ⟨⟩)).congr rfl rfl)
      (fun a _ _ => ((htold a s).trans (aside_reinstate s.told [] v)).trans (htold a _)) fun a ha => ?_)
    refine Status.original_of_forgetful (fun after h => ?_) ha
    cases h
    rfl
  | @unclaim σ s k snapshot ids t hk hids =>
    exact Or.inl (.of_same hleaving rfl rfl (fun h => h) fun a ha =>
      Status.original_of_forgetful (fun after h => by cases h) ha)
  | @forget σ s k snapshot t hk hnone =>
    exact Or.inl (.of_same hleaving rfl rfl (fun h => h) fun a ha =>
      Status.original_of_forgetful (fun after h => by cases h) ha)

/-! ### Lanes -/

/-- Forced returns that rest on the stack, one directly on top of the other. -/
structure Lane (above : List StackEntry) (lane : List (Item C)) (rest : List StackEntry)
    (x : Status C) : Prop where
  stack : x.scheduler.stack = above ++ (lane.map Item.entry ++ rest)
  rests : ∀ i ∈ lane, x.scheduler.Rests i
  passesOn : ∀ i ∈ lane, i.2.passesOn = true
  apart : ∀ i ∈ lane, i.entry ∉ above
  nodup : (lane.map Prod.fst).Nodup
  offHand : ∀ i ∈ lane, ¬ x.stage.InHand x.scheduler i.1
  /-- No continuation can put them on the stack again. -/
  unremembered : ∀ i ∈ lane, ¬ x.Original i.1

/-- The routine is neither there nor in hand. -/
def Status.Gone (x : Status C) (a : RoutineId) : Prop :=
  x.scheduler.routines.find? a = none ∧ ¬ x.stage.InHand x.scheduler a

section Lane

variable {above rest : List StackEntry} {lane : List (Item C)} {i : Item C}

theorem Lane.onStack (h : Lane above lane rest x) (hi : i ∈ lane) :
    x.scheduler.onStack i.1 = true := by
  simp only [Scheduler.onStack, List.contains_iff_mem, h.stack]
  exact List.mem_append_right _ (List.mem_append_left _ (List.mem_map_of_mem hi))

/-- A move that does not go down the stack leaves the lane where it is. -/
theorem Lane.beside (h : Lane above lane rest x) (hb : Beside x y)
    (hl : Linked x.scheduler.routines) (hample : ∀ a, y.scheduler.routines.Ample a) :
    ∃ work, y.scheduler.stack = work ++ x.scheduler.stack ∧ Lane (work ++ above) lane rest y := by
  obtain ⟨work, hwork, hmine⟩ := hb.piles
  have haside : ∀ i ∈ lane, Aside i.1 x.scheduler y.scheduler := fun i hi =>
    hb.aside i.1 (h.rests i hi).issued ((h.rests i hi).unlisted hl) (hample i.1) (h.offHand i hi)
  refine ⟨work, hwork, ?_, ?_, h.passesOn, ?_, h.nodup, ?_, ?_⟩
  · rw [hwork, h.stack, List.append_assoc]
  · exact fun i hi => (h.rests i hi).aside (h.onStack hi) (haside i hi)
  · intro i hi hmem
    rcases List.mem_append.mp hmem with hmem | hmem
    · rcases hmine i.1 hmem (h.rests i hi).issued (hample i.1) with hin | horiginal
      · exact h.offHand i hi hin
      · exact h.unremembered i hi horiginal
    · exact h.apart i hi hmem
  · exact fun i hi hin => h.offHand i hi (hb.hand i.1 hin)
  · intro i hi horiginal
    rcases hb.original i.1 horiginal with horiginal | hin
    · exact h.unremembered i hi horiginal
    · exact h.offHand i hi hin

/-- A routine is picked: one above the lane, or the first of the lane if nothing
    above it is left. -/
theorem Lane.pick {id : RoutineId} {script : Script C} (h : Lane above lane rest x)
    (hsome : lane ≠ []) (hpick : x.scheduler.pick = (some (id, script), s')) :
    (∃ above', (∀ e ∈ above', e ∈ above) ∧ .routine id ∈ above ∧ id ∉ lane.map Prod.fst ∧
      Lane above' lane rest ⟨.stepping id, { s' with register := .unit }.told, x.captures⟩) ∨
    ∃ lane', lane = (id, script) :: lane' ∧
      Lane [] lane' rest ⟨.stepping id, { s' with register := .unit }.told, x.captures⟩ := by
  obtain ⟨first, lane, rfl⟩ := List.exists_cons_of_ne_nil hsome
  have hothers := (pickFrom_others hpick).2
  have hrests : ∀ j ∈ first :: lane, j.1 ≠ id →
      ({ s' with register := .unit }.told : Scheduler C).Rests j := by
    intro j hj hne
    obtain ⟨r, hr, hscript, hparent⟩ := h.rests j hj
    refine ⟨r, (hothers j.1 fun script' heq => ?_).trans hr, hscript, hparent⟩
    cases heq
    exact hne rfl
  have hpick' : pickFrom (above ++ first.entry :: (lane.map Item.entry ++ rest)) x.scheduler =
      (some (id, script), s') := by
    rw [← hpick, Scheduler.pick, h.stack]
    rfl
  have hdistinct := List.nodup_cons.mp h.nodup
  rcases pickFrom_above (h.rests first (List.mem_cons_self ..)) hpick' with
    ⟨above', hstack, hmem, hsub⟩ | ⟨rfl, hstack⟩
  · have hid : ∀ j ∈ first :: lane, j.1 ≠ id := by
      rintro j hj rfl
      exact h.apart j hj hmem
    refine Or.inl ⟨above', hsub, hmem, ?_, hstack, fun j hj => hrests j hj (hid j hj), h.passesOn,
      fun j hj hin => h.apart j hj (hsub _ hin), h.nodup, fun j hj => hid j hj, h.unremembered⟩
    intro hin
    obtain ⟨j, hj, hjid⟩ := List.mem_map.mp hin
    exact hid j hj hjid
  · have hid : ∀ j ∈ lane, j.1 ≠ id := by
      rintro j hj rfl
      exact hdistinct.1 (List.mem_map.mpr ⟨j, hj, rfl⟩)
    have hmem : ∀ {j}, j ∈ lane → j ∈ (id, script) :: lane := fun hj => List.mem_cons_of_mem _ hj
    refine Or.inr ⟨lane, rfl, hstack, fun j hj => hrests j (hmem hj) (hid j hj),
      fun j hj => h.passesOn j (hmem hj), fun j _ => List.not_mem_nil, hdistinct.2,
      fun j hj => hid j hj, fun j hj => h.unremembered j (hmem hj)⟩

end Lane

end Stride

end Strand
