import Strand.Scheduler
import Strand.Snapshot
import Strand.Proofs.Roster

/-! # Kinship — parents and children agree

    A routine names its parent and a parent lists its children. `Linked` says
    that both sides tell the same story:

    * whoever is listed as a child is live and names the parent that lists it;
    * whoever names a parent is listed by it, and that parent is live.

    Removing a routine cuts its children loose for a moment, until they have
    been removed or made to exit themselves. `LinkedBut loose` is the state in
    between: the parents of the `loose` routines may be gone. -/

namespace Strand.Scheduler

variable {C : Type}

/-- The family links of a roster agree, except that the parents of the `loose`
    routines may be gone. -/
structure LinkedBut (loose : List RoutineId) (r : Roster (Routine C)) : Prop where
  sound : r.Sound
  /-- No child is listed twice. -/
  nodup : ∀ {a x}, r.find? a = some x → x.children.Nodup
  /-- A child is live and names its parent. -/
  child : ∀ {a x c}, r.find? a = some x → c ∈ x.children →
    ∃ y, r.find? c = some y ∧ y.parent = some a
  /-- A parent is live and lists its child. -/
  parent : ∀ {c y q}, r.find? c = some y → y.parent = some q →
    (∃ x, r.find? q = some x ∧ c ∈ x.children) ∨ (r.find? q = none ∧ c ∈ loose)

/-- Parents and children agree. -/
abbrev Linked (r : Roster (Routine C)) : Prop := LinkedBut [] r

theorem Linked.parent_live {r : Roster (Routine C)} (h : Linked r) {c : RoutineId}
    {y : Routine C} {q : RoutineId} (hc : r.find? c = some y) (hq : y.parent = some q) :
    ∃ x, r.find? q = some x ∧ c ∈ x.children := by
  rcases h.parent hc hq with hx | ⟨-, hmem⟩
  · exact hx
  · cases hmem

theorem linked_empty : Linked (.empty : Roster (Routine C)) := by
  have hnone : ∀ a, (.empty : Roster (Routine C)).find? a = none := by
    intro a
    apply Roster.find?_of_no_slot
    simp [Roster.empty]
  refine ⟨Roster.sound_empty, ?_, ?_, ?_⟩ <;> simp [hnone]

/-- Fewer routines may be called loose if the parents of the others are live. -/
theorem LinkedBut.weaken {loose loose' : List RoutineId} {r : Roster (Routine C)}
    (h : LinkedBut loose r) (hsub : ∀ c ∈ loose, c ∈ loose') : LinkedBut loose' r := by
  refine ⟨h.sound, h.nodup, h.child, ?_⟩
  intro c y q hc hq
  rcases h.parent hc hq with hx | ⟨hdead, hmem⟩
  · exact Or.inl hx
  · exact Or.inr ⟨hdead, hsub c hmem⟩

/-! ### Changes that leave the links alone -/

/-- Changing what a routine carries besides its links. -/
theorem LinkedBut.modify {loose : List RoutineId} {r : Roster (Routine C)}
    (h : LinkedBut loose r) (id : RoutineId) {f : Routine C → Routine C}
    (hparent : ∀ x, (f x).parent = x.parent) (hchildren : ∀ x, (f x).children = x.children) :
    LinkedBut loose (r.modify id f) := by
  -- every entry keeps its links, whether it is the changed one or not
  have hfind : ∀ a x, (r.modify id f).find? a = some x →
      ∃ x₀, r.find? a = some x₀ ∧ x.parent = x₀.parent ∧ x.children = x₀.children := by
    intro a x hx
    rw [Roster.find?_modify] at hx
    split at hx
    · obtain ⟨x₀, hx₀, rfl⟩ := Option.map_eq_some_iff.mp hx
      exact ⟨x₀, hx₀, hparent x₀, hchildren x₀⟩
    · exact ⟨x, hx, rfl, rfl⟩
  have hback : ∀ a x₀, r.find? a = some x₀ →
      ∃ x, (r.modify id f).find? a = some x ∧ x.parent = x₀.parent ∧
        x.children = x₀.children := by
    intro a x₀ hx₀
    rw [Roster.find?_modify]
    split
    · exact ⟨f x₀, by rw [hx₀]; rfl, hparent x₀, hchildren x₀⟩
    · exact ⟨x₀, hx₀, rfl, rfl⟩
  have hnone : ∀ a, r.find? a = none → (r.modify id f).find? a = none := by
    intro a ha
    rw [Roster.find?_modify, ha]
    split <;> rfl
  refine ⟨h.sound.modify id f, ?_, ?_, ?_⟩
  · intro a x hx
    obtain ⟨x₀, hx₀, -, hch⟩ := hfind a x hx
    rw [hch]
    exact h.nodup hx₀
  · intro a x c hx hc
    obtain ⟨x₀, hx₀, -, hch⟩ := hfind a x hx
    obtain ⟨y₀, hy₀, hpar⟩ := h.child hx₀ (hch ▸ hc)
    obtain ⟨y, hy, hpar', -⟩ := hback c y₀ hy₀
    exact ⟨y, hy, hpar'.trans hpar⟩
  · intro c y q hy hq
    obtain ⟨y₀, hy₀, hpar, -⟩ := hfind c y hy
    rcases h.parent hy₀ (hpar ▸ hq) with ⟨x₀, hx₀, hc⟩ | ⟨hdead, hmem⟩
    · obtain ⟨x, hx, -, hch⟩ := hback q x₀ hx₀
      exact Or.inl ⟨x, hx, hch ▸ hc⟩
    · exact Or.inr ⟨hnone q hdead, hmem⟩

/-- A new routine without family, under a name that no loose routine takes for
    its parent's. -/
theorem LinkedBut.insert {loose : List RoutineId} {r : Roster (Routine C)}
    (h : LinkedBut loose r) (origin : Origin) (script : Option (Script C))
    (hroom : (r.insert ⟨origin, script, none, []⟩).2.slots.size ≤ 2 ^ 32)
    (hnew : ∀ c ∈ loose, ∀ y, r.find? c = some y →
      y.parent ≠ some (r.insert ⟨origin, script, none, []⟩).1) :
    LinkedBut loose (r.insert ⟨origin, script, none, []⟩).2 := by
  have hfind := h.sound.find?_insert _ hroom
  have hfresh := h.sound.find?_insert_fst _ hroom
  -- the new name found nothing, so it is nobody's child and nobody's parent
  have hold : ∀ {a x}, r.find? a = some x →
      (r.insert ⟨origin, script, none, []⟩).2.find? a = some x := by
    intro a x hx
    rw [hfind, if_neg]
    · exact hx
    · rintro rfl
      rw [hfresh] at hx
      cases hx
  refine ⟨h.sound.insert _, ?_, ?_, ?_⟩
  · intro a x hx
    rw [hfind] at hx
    split at hx
    · cases hx
      exact List.nodup_nil
    · exact h.nodup hx
  · intro a x c hx hc
    rw [hfind] at hx
    split at hx
    · cases hx
      cases hc
    · obtain ⟨y, hy, hpar⟩ := h.child hx hc
      exact ⟨y, hold hy, hpar⟩
  · intro c y q hy hq
    rw [hfind] at hy
    split at hy
    · cases hy
      cases hq
    · rcases h.parent hy hq with ⟨x, hx, hc⟩ | ⟨hdead, hmem⟩
      · exact Or.inl ⟨x, hold hx, hc⟩
      · refine Or.inr ⟨?_, hmem⟩
        rw [hfind, if_neg]
        · exact hdead
        · rintro rfl
          exact hnew c hmem y hy hq

/-! ### Linking and unlinking -/

theorem routines_link_none (s : Scheduler C) (c : RoutineId) :
    (s.link c none).routines = s.routines.modify c fun r => { r with parent := none } :=
  rfl

theorem liveParent_of_live {s : Scheduler C} {q : RoutineId} {x : Routine C}
    (h : s.routines.find? q = some x) : s.liveParent (some q) = some q := by
  have hq : s.routines.contains q = true := Roster.contains_iff.mpr ⟨x, h⟩
  simp [liveParent, hq]

theorem liveParent_of_dead {s : Scheduler C} {q : RoutineId}
    (h : s.routines.find? q = none) : s.liveParent (some q) = none := by
  simp [liveParent, Roster.contains, h]

theorem liveParent_eq_some {s : Scheduler C} {parent : Option RoutineId} {q : RoutineId} :
    s.liveParent parent = some q ↔ parent = some q ∧ ∃ x, s.routines.find? q = some x := by
  rw [liveParent, Option.filter_eq_some_iff, Roster.contains_iff]

theorem routines_link_some {s : Scheduler C} {q : RoutineId} {x : Routine C}
    (h : s.routines.find? q = some x) (c : RoutineId) :
    (s.link c (some q)).routines =
      (s.routines.modify q fun r => { r with children := addChild r.children c }).modify c
        fun r => { r with parent := some q } := by
  rw [link, liveParent_of_live h]
  rfl

theorem routines_link_dead {s : Scheduler C} {q : RoutineId}
    (h : s.routines.find? q = none) (c : RoutineId) :
    (s.link c (some q)).routines = (s.link c none).routines := by
  rw [link, liveParent_of_dead h]
  rfl

/-- The entries once a routine has been linked. -/
theorem find?_link (s : Scheduler C) (c : RoutineId) (parent : Option RoutineId) (a : RoutineId) :
    (s.link c parent).routines.find? a = (s.routines.find? a).map fun x =>
      { x with
        parent := if a = c then s.liveParent parent else x.parent
        children := if s.liveParent parent = some a then addChild x.children c else x.children } := by
  unfold link
  cases hlive : s.liveParent parent with
  | none =>
    show (Roster.modify _ _ _).find? a = _
    rw [Roster.find?_modify]
    cases s.routines.find? a with
    | none => simp
    | some x => by_cases ha : a = c <;> simp [ha]
  | some q =>
    show (Roster.modify (Roster.modify _ _ _) _ _).find? a = _
    rw [Roster.find?_modify, Roster.find?_modify]
    cases s.routines.find? a with
    | none => simp
    | some x =>
      by_cases haq : a = q
      · by_cases ha : a = c <;> simp [haq]
        · subst ha haq
          simp
        · subst haq
          simp [ha]
      · have : ¬ (some q = some a) := fun heq => haq (Option.some.inj heq).symm
        by_cases ha : a = c
        · subst ha
          simp [haq, this]
        · simp [haq, ha, this]

theorem addChild_of_notMem {children : List RoutineId} {c : RoutineId} (h : c ∉ children) :
    addChild children c = children ++ [c] :=
  if_neg h

/-- A routine without parent is nobody's child. -/
theorem LinkedBut.not_mem_children {loose : List RoutineId} {r : Roster (Routine C)}
    (h : LinkedBut loose r) {c : RoutineId} {y : Routine C} (hc : r.find? c = some y)
    (hnone : y.parent = none) {a : RoutineId} {x : Routine C} (hx : r.find? a = some x) :
    c ∉ x.children := by
  intro hmem
  obtain ⟨y', hy', hpar⟩ := h.child hx hmem
  rw [hc, Option.some.injEq] at hy'
  rw [← hy', hnone] at hpar
  cases hpar

/-- Putting a routine without parent under a live one. -/
theorem LinkedBut.link_some {loose : List RoutineId} {s : Scheduler C}
    (h : LinkedBut loose s.routines) {c q : RoutineId} {y x : Routine C}
    (hc : s.routines.find? c = some y) (hnone : y.parent = none)
    (hq : s.routines.find? q = some x) : LinkedBut loose (s.link c (some q)).routines := by
  have hfind : ∀ a, (s.link c (some q)).routines.find? a = (s.routines.find? a).map fun r =>
      { r with
        parent := if a = c then some q else r.parent
        children := if a = q then r.children ++ [c] else r.children } := by
    intro a
    rw [routines_link_some hq, Roster.find?_modify, Roster.find?_modify]
    cases ha : s.routines.find? a with
    | none => simp
    | some r =>
      have hadd := addChild_of_notMem (h.not_mem_children hc hnone ha)
      by_cases hac : a = c <;> by_cases haq : a = q <;> simp [hac, haq] <;> simp_all
  have hdead : ∀ a, s.routines.find? a = none → (s.link c (some q)).routines.find? a = none := by
    intro a ha
    rw [hfind, ha]
    rfl
  refine ⟨?_, ?_, ?_, ?_⟩
  · rw [routines_link_some hq]
    exact (h.sound.modify q _).modify c _
  · intro a r hr
    rw [hfind] at hr
    obtain ⟨r₀, hr₀, rfl⟩ := Option.map_eq_some_iff.mp hr
    have hnot := h.not_mem_children hc hnone hr₀
    dsimp only
    split
    · exact List.nodup_append.mpr ⟨h.nodup hr₀, List.nodup_singleton c, by
        intro d hd e he hde
        rw [List.mem_singleton] at he
        exact hnot (he ▸ hde ▸ hd)⟩
    · exact h.nodup hr₀
  · intro a r d hr hd
    rw [hfind] at hr
    obtain ⟨r₀, hr₀, rfl⟩ := Option.map_eq_some_iff.mp hr
    have hold : d ∈ r₀.children → ∃ z, (s.link c (some q)).routines.find? d = some z ∧
        z.parent = some a := by
      intro hd₀
      obtain ⟨z, hz, hpar⟩ := h.child hr₀ hd₀
      have hne : d ≠ c := by
        rintro rfl
        exact h.not_mem_children hc hnone hr₀ hd₀
      refine ⟨_, by rw [hfind, hz]; rfl, ?_⟩
      simp [hne, hpar]
    dsimp only at hd
    split at hd
    · next haq =>
      rcases List.mem_append.mp hd with hd₀ | hd₁
      · exact hold hd₀
      · rw [List.mem_singleton] at hd₁
        subst hd₁
        refine ⟨_, by rw [hfind, hc]; rfl, ?_⟩
        simp [haq]
    · exact hold hd
  · intro d z p hz hp
    rw [hfind] at hz
    obtain ⟨z₀, hz₀, rfl⟩ := Option.map_eq_some_iff.mp hz
    dsimp only at hp
    split at hp
    · next hdc =>
      rw [Option.some.injEq] at hp
      refine Or.inl ⟨_, by rw [hfind, ← hp, hq]; rfl, ?_⟩
      simp [hdc]
    · rcases h.parent hz₀ hp with ⟨r, hr, hmem⟩ | ⟨hgone, hmem⟩
      · refine Or.inl ⟨_, by rw [hfind, hr]; rfl, ?_⟩
        dsimp only
        split
        · exact List.mem_append_left _ hmem
        · exact hmem
      · exact Or.inr ⟨hdead p hgone, hmem⟩

/-- Linking a routine without parent, to whatever is left of a parent. -/
theorem LinkedBut.link {loose : List RoutineId} {s : Scheduler C}
    (h : LinkedBut loose s.routines) {c : RoutineId} {y : Routine C}
    (hc : s.routines.find? c = some y) (hnone : y.parent = none) (parent : Option RoutineId) :
    LinkedBut loose (s.link c parent).routines := by
  have hcut : LinkedBut loose (s.link c none).routines := by
    -- the parent link is none already
    have hfind : ∀ a, (s.link c none).routines.find? a = s.routines.find? a := by
      intro a
      rw [routines_link_none, Roster.find?_modify]
      split
      · next hac =>
        rw [hac, hc, Option.map_some, ← hnone]
      · rfl
    refine ⟨h.sound.modify c _, ?_, ?_, ?_⟩
    · intro a x hx
      exact h.nodup (hfind a ▸ hx)
    · intro a x d hx hd
      rw [hfind d]
      exact h.child (hfind a ▸ hx) hd
    · intro d z p hz hp
      rw [hfind p]
      exact h.parent (hfind d ▸ hz) hp
  cases parent with
  | none => exact hcut
  | some q =>
    cases hq : s.routines.find? q with
    | none =>
      rw [routines_link_dead hq]
      exact hcut
    | some x => exact h.link_some hc hnone hq

/-- What striking a child from its parent's list does to the entries. -/
theorem find?_unlink (s : Scheduler C) (parent : Option RoutineId) (c a : RoutineId) :
    (s.unlink parent c).routines.find? a =
      if parent = some a then
        (s.routines.find? a).map fun r => { r with children := r.children.erase c }
      else s.routines.find? a := by
  cases parent with
  | none => simp [unlink]
  | some q =>
    show (s.routines.modify q _).find? a = _
    rw [Roster.find?_modify]
    by_cases h : a = q
    · simp [h]
    · have : ¬ (some q = some a) := by
        intro heq
        exact h (Option.some.inj heq).symm
      rw [if_neg h, if_neg this]

/-! ### What removals leave alone -/

/-- The work of a scheduler and its result so far are the same. -/
structure SameWork (s s' : Scheduler C) : Prop where
  stack : s'.stack = s.stack
  register : s'.register = s.register
  running : s'.running = s.running
  settings : s'.settings = s.settings

theorem SameWork.refl (s : Scheduler C) : SameWork s s := ⟨rfl, rfl, rfl, rfl⟩

theorem SameWork.trans {s t u : Scheduler C} (h : SameWork s t) (h' : SameWork t u) :
    SameWork s u :=
  ⟨h'.stack.trans h.stack, h'.register.trans h.register, h'.running.trans h.running,
    h'.settings.trans h.settings⟩

/-- How many routines are live. -/
def liveCount (s : Scheduler C) : Nat := s.routines.total fun _ => 1

/-- Nothing was added: no slot is new, none has gone back to an earlier
    generation, and there are not more routines than before. -/
structure Shrunk (s s' : Scheduler C) : Prop where
  work : SameWork s s'
  slots : s'.routines.slots.size = s.routines.slots.size
  vacated : ∀ a, s.routines.vacated a ≤ s'.routines.vacated a
  count : s'.liveCount ≤ s.liveCount

theorem Shrunk.refl (s : Scheduler C) : Shrunk s s :=
  ⟨.refl s, rfl, fun _ => Nat.le_refl _, Nat.le_refl _⟩

theorem Shrunk.trans {s t u : Scheduler C} (h : Shrunk s t) (h' : Shrunk t u) : Shrunk s u :=
  ⟨h.work.trans h'.work, h'.slots.trans h.slots,
    fun a => Nat.le_trans (h.vacated a) (h'.vacated a), Nat.le_trans h'.count h.count⟩

/-! ### Cutting routines loose -/

/-- The routines of `cs` have no parents any more. -/
def cutAll (cs : List RoutineId) (s : Scheduler C) : Scheduler C :=
  cs.foldl (fun s c => s.link c none) s

theorem find?_cutAll (cs : List RoutineId) (s : Scheduler C) (a : RoutineId) :
    (cutAll cs s).routines.find? a =
      (s.routines.find? a).map fun x =>
        { x with parent := if a ∈ cs then none else x.parent } := by
  induction cs generalizing s with
  | nil =>
    show s.routines.find? a = _
    cases s.routines.find? a <;> simp
  | cons c cs ih =>
    show (cutAll cs (s.link c none)).routines.find? a = _
    rw [ih, routines_link_none, Roster.find?_modify]
    cases ha : s.routines.find? a with
    | none => simp
    | some x =>
      by_cases hac : a = c <;> simp [hac]

theorem cutAll_sound {cs : List RoutineId} {s : Scheduler C} (h : s.routines.Sound) :
    (cutAll cs s).routines.Sound := by
  induction cs generalizing s with
  | nil => exact h
  | cons c cs ih => exact ih (h.modify c _)

theorem total_cutAll (cs : List RoutineId) (s : Scheduler C) {g : Routine C → Nat}
    (hg : ∀ x : Routine C, g { x with parent := none } = g x) :
    (cutAll cs s).routines.total g = s.routines.total g := by
  induction cs generalizing s with
  | nil => rfl
  | cons c cs ih =>
    show (cutAll cs (s.link c none)).routines.total g = _
    rw [ih, routines_link_none]
    cases hc : s.routines.find? c with
    | none => exact Roster.modify_of_find?_eq_none hc _ g
    | some x =>
      have := Roster.total_modify hc (fun r => { r with parent := none }) g
      rw [hg x] at this
      omega

theorem shrunk_cutAll (cs : List RoutineId) (s : Scheduler C) : Shrunk s (cutAll cs s) := by
  induction cs generalizing s with
  | nil => exact .refl s
  | cons c cs ih =>
    have hone : Shrunk s (s.link c none) := by
      refine ⟨⟨rfl, rfl, rfl, rfl⟩, ?_, ?_, ?_⟩
      · rw [routines_link_none, Roster.size_slots_modify]
      · intro a
        rw [routines_link_none]
        exact Nat.le_of_eq (Roster.vacated_modify s.routines c _ a).symm
      · exact Nat.le_of_eq (total_cutAll [c] s (g := fun _ => 1) fun _ => rfl)
    exact hone.trans (ih (s.link c none))

/-! ### Freeing routines -/

/-- A scheduler after the routine `id`, which was `r`, has been taken out: the
    children that are on the stack have no parent any more. -/
def severed (s : Scheduler C) (id : RoutineId) (r : Routine C)
    (routines : Roster (Routine C)) : Scheduler C :=
  let t := { s with routines }.report (.freed r.origin id)
  let t := match r.script with
    | some script => t.retire script
    | none => t
  cutAll (r.children.filter s.onStack) (t.unlink r.parent id)

/-- One round of freeing: what is live is severed, and those of its children
    that are not on the stack are next. -/
theorem freeAll_of_remove {s : Scheduler C} {id : RoutineId} {r : Routine C}
    {routines : Roster (Routine C)} (h : s.routines.remove id = some (r, routines))
    (fuel : Nat) (pending : List RoutineId) :
    freeAll (fuel + 1) (id :: pending) s =
      freeAll fuel ((r.children.filter fun c => !s.onStack c).reverse ++ pending)
        (s.severed id r routines) := by
  have hon : ∀ t : Scheduler C, t.stack = s.stack →
      (t.unlink r.parent id).onStack = s.onStack := by
    intro t ht
    funext c
    have hunlink : (t.unlink r.parent id).stack = t.stack := by
      unfold unlink
      split <;> rfl
    rw [onStack, onStack, hunlink, ht]
  rw [freeAll]
  simp only [h, List.partition_eq_filter_filter]
  rw [hon]
  · rfl
  · cases r.script <;> rfl

theorem freeAll_of_dead {s : Scheduler C} {id : RoutineId} (h : s.routines.find? id = none)
    (fuel : Nat) (pending : List RoutineId) :
    freeAll (fuel + 1) (id :: pending) s = freeAll fuel pending s := by
  rw [freeAll]
  simp only [Roster.remove_eq_none.mpr h]

section Severed

variable {s : Scheduler C} {id : RoutineId} {r : Routine C} {routines : Roster (Routine C)}

/-- The entries once `id` has been taken out, struck from its parent's list, and
    the children in `kept` have been told that they have no parent. -/
theorem find?_takenOut (h : s.routines.remove id = some (r, routines)) {t : Scheduler C}
    (ht : t.routines = routines) (kept : List RoutineId) (a : RoutineId) :
    (cutAll kept (t.unlink r.parent id)).routines.find? a =
      if a = id then none
      else (s.routines.find? a).map fun x =>
        { x with
          parent := if a ∈ kept then none else x.parent
          children := if r.parent = some a then x.children.erase id else x.children } := by
  rw [find?_cutAll, find?_unlink, ht, Roster.find?_remove h]
  by_cases ha : a = id
  · simp [ha]
  · rw [if_neg ha, if_neg ha]
    cases s.routines.find? a with
    | none => simp
    | some x => by_cases hp : r.parent = some a <;> simp [hp]

theorem sound_takenOut (hs : s.routines.Sound) (h : s.routines.remove id = some (r, routines))
    {t : Scheduler C} (ht : t.routines = routines) (kept : List RoutineId) :
    (cutAll kept (t.unlink r.parent id)).routines.Sound := by
  apply cutAll_sound
  unfold unlink
  split
  · exact (ht ▸ hs.remove h).modify _ _
  · exact ht ▸ hs.remove h

/-- A routine that is taken out cuts loose those of its children that are not
    kept. -/
theorem LinkedBut.takenOut {pending : List RoutineId} (hl : LinkedBut (id :: pending) s.routines)
    (h : s.routines.remove id = some (r, routines)) {t : Scheduler C} (ht : t.routines = routines)
    (kept lost : List RoutineId) (hsub : ∀ c ∈ kept, c ∈ r.children)
    (hlost : ∀ c ∈ r.children, c ∉ kept → c ∈ lost) :
    LinkedBut (lost ++ pending) (cutAll kept (t.unlink r.parent id)).routines := by
  have hfind := find?_takenOut h ht kept
  have hid := Roster.find?_of_remove h
  -- whoever is found afterwards was found before
  have hback : ∀ {a x}, (cutAll kept (t.unlink r.parent id)).routines.find? a = some x →
      a ≠ id ∧ ∃ x₀, s.routines.find? a = some x₀ ∧
        x.parent = (if a ∈ kept then none else x₀.parent) ∧
        x.children = (if r.parent = some a then x₀.children.erase id else x₀.children) := by
    intro a x hx
    rw [hfind] at hx
    split at hx
    · cases hx
    · next ha =>
      obtain ⟨x₀, hx₀, rfl⟩ := Option.map_eq_some_iff.mp hx
      exact ⟨ha, x₀, hx₀, rfl, rfl⟩
  have hforth : ∀ {a x₀}, a ≠ id → s.routines.find? a = some x₀ →
      ∃ x, (cutAll kept (t.unlink r.parent id)).routines.find? a = some x ∧
        x.parent = (if a ∈ kept then none else x₀.parent) ∧
        x.children = (if r.parent = some a then x₀.children.erase id else x₀.children) := by
    intro a x₀ ha hx₀
    exact ⟨_, by rw [hfind, if_neg ha, hx₀]; rfl, rfl, rfl⟩
  refine ⟨sound_takenOut hl.sound h ht kept, ?_, ?_, ?_⟩
  · intro a x hx
    obtain ⟨-, x₀, hx₀, -, hch⟩ := hback hx
    rw [hch]
    split
    · exact (hl.nodup hx₀).erase id
    · exact hl.nodup hx₀
  · intro a x c hx hc
    obtain ⟨ha, x₀, hx₀, -, hch⟩ := hback hx
    rw [hch] at hc
    have hmem : c ∈ x₀.children := by
      split at hc
      · exact List.mem_of_mem_erase hc
      · exact hc
    obtain ⟨y₀, hy₀, hpar⟩ := hl.child hx₀ hmem
    have hcid : c ≠ id := by
      rintro rfl
      rw [hid, Option.some.injEq] at hy₀
      subst hy₀
      rw [if_pos hpar] at hc
      exact (hl.nodup hx₀).not_mem_erase hc
    have hkept : c ∉ kept := by
      intro hk
      obtain ⟨y₁, hy₁, hpar'⟩ := hl.child hid (hsub c hk)
      rw [hy₀, Option.some.injEq] at hy₁
      rw [← hy₁, hpar, Option.some.injEq] at hpar'
      exact ha hpar'
    obtain ⟨y, hy, hp, -⟩ := hforth hcid hy₀
    rw [if_neg hkept] at hp
    exact ⟨y, hy, hp.trans hpar⟩
  · intro c y q hy hq
    obtain ⟨hcid, y₀, hy₀, hp, -⟩ := hback hy
    rw [hp] at hq
    split at hq
    · cases hq
    · next hkept =>
      rcases hl.parent hy₀ hq with ⟨x₀, hx₀, hmem⟩ | ⟨hdead, hmem⟩
      · by_cases hqid : q = id
        · subst hqid
          rw [hid, Option.some.injEq] at hx₀
          subst hx₀
          exact Or.inr ⟨by rw [hfind, if_pos rfl], List.mem_append_left _ (hlost c hmem hkept)⟩
        · obtain ⟨x, hx, -, hch⟩ := hforth hqid hx₀
          refine Or.inl ⟨x, hx, ?_⟩
          rw [hch]
          split
          · exact (List.mem_erase_of_ne hcid).mpr hmem
          · exact hmem
      · refine Or.inr ⟨?_, ?_⟩
        · rw [hfind, hdead]
          split <;> rfl
        · rcases List.mem_cons.mp hmem with rfl | hmem
          · exact absurd rfl hcid
          · exact List.mem_append_right _ hmem

/-- Reporting a removal and retiring a script leave the roster alone. -/
private theorem routines_noted (s : Scheduler C) (id : RoutineId) (r : Routine C)
    (routines : Roster (Routine C)) :
    (match r.script with
      | some script => ({ s with routines }.report (.freed r.origin id)).retire script
      | none => { s with routines }.report (.freed r.origin id)).routines = routines := by
  cases r.script <;> rfl

theorem find?_severed (h : s.routines.remove id = some (r, routines)) (a : RoutineId) :
    (s.severed id r routines).routines.find? a =
      if a = id then none
      else (s.routines.find? a).map fun x =>
        { x with
          parent := if a ∈ r.children.filter s.onStack then none else x.parent
          children := if r.parent = some a then x.children.erase id else x.children } :=
  find?_takenOut h (routines_noted s id r routines) _ a

/-- A severed routine cuts those of its children loose that are not on the
    stack. -/
theorem LinkedBut.severed {pending : List RoutineId} (hl : LinkedBut (id :: pending) s.routines)
    (h : s.routines.remove id = some (r, routines)) :
    LinkedBut ((r.children.filter fun c => !s.onStack c).reverse ++ pending)
      (s.severed id r routines).routines := by
  refine hl.takenOut h (routines_noted s id r routines) _ _
    (fun c hc => List.mem_of_mem_filter hc) ?_
  intro c hc hkept
  rw [List.mem_reverse, List.mem_filter]
  rw [List.mem_filter, not_and] at hkept
  exact ⟨hc, by simpa using hkept hc⟩

/-- Striking a child from its parent's list makes no total grow that does not
    grow with shorter lists. -/
private theorem total_unlink (t : Scheduler C) (parent : Option RoutineId) (c : RoutineId)
    {g : Routine C → Nat} (hg : ∀ x : Routine C, g { x with children := x.children.erase c } ≤ g x) :
    (t.unlink parent c).routines.total g ≤ t.routines.total g := by
  unfold unlink
  split
  · next q =>
    show (t.routines.modify q _).total g ≤ _
    cases hq : t.routines.find? q with
    | none => exact Nat.le_of_eq (Roster.modify_of_find?_eq_none hq _ g)
    | some x =>
      have htotal := Roster.total_modify hq (fun y => { y with children := y.children.erase c }) g
      have hle := hg x
      omega
  · exact Nat.le_refl _

/-- What a total loses when a routine is severed. -/
private theorem total_severed (h : s.routines.remove id = some (r, routines))
    {g : Routine C → Nat} (hparent : ∀ x : Routine C, g { x with parent := none } = g x)
    (hchildren : ∀ x : Routine C, g { x with children := x.children.erase id } ≤ g x) :
    (s.severed id r routines).routines.total g + g r ≤ s.routines.total g := by
  rw [severed, total_cutAll _ _ hparent, ← Roster.total_remove h g]
  refine Nat.add_le_add_right (Nat.le_trans (total_unlink _ _ _ hchildren) ?_) _
  apply Nat.le_of_eq
  cases r.script <;> rfl

/-- Severing a routine takes at least its own children off the count. -/
theorem childCount_severed (h : s.routines.remove id = some (r, routines)) :
    (s.severed id r routines).childCount + r.children.length ≤ s.childCount :=
  total_severed h (fun _ => rfl) fun _ => List.length_erase_le

theorem liveCount_severed (h : s.routines.remove id = some (r, routines)) :
    (s.severed id r routines).liveCount + 1 ≤ s.liveCount :=
  total_severed h (g := fun _ => 1) (fun _ => rfl) fun _ => Nat.le_refl _

theorem shrunk_severed (h : s.routines.remove id = some (r, routines)) :
    Shrunk s (s.severed id r routines) := by
  have hunlink : ∀ t : Scheduler C, t.routines = routines → SameWork s t → t.liveCount ≤ s.liveCount →
      Shrunk s (t.unlink r.parent id) := by
    intro t ht hwork hcount
    have hbase : t.routines.slots.size = s.routines.slots.size := by
      rw [ht, Roster.size_slots_remove h]
    have hvacated : ∀ a, s.routines.vacated a ≤ t.routines.vacated a := by
      intro a
      rw [ht, Roster.vacated_remove h]
      split <;> omega
    unfold unlink
    split
    · next q _ =>
      refine ⟨⟨hwork.stack, hwork.register, hwork.running, hwork.settings⟩, ?_, ?_, ?_⟩
      · show (t.routines.modify q _).slots.size = _
        rw [Roster.size_slots_modify, hbase]
      · intro a
        show _ ≤ (t.routines.modify q _).vacated a
        rw [Roster.vacated_modify]
        exact hvacated a
      · have := total_unlink t (some q) id (g := fun _ => 1) fun _ => Nat.le_refl _
        exact Nat.le_trans this hcount
    · exact ⟨hwork, hbase, hvacated, hcount⟩
  refine Shrunk.trans (hunlink _ ?_ ?_ ?_) (shrunk_cutAll _ _)
  · cases r.script <;> rfl
  · cases r.script <;> exact ⟨rfl, rfl, rfl, rfl⟩
  · have hremove := Roster.total_remove h fun _ => 1
    have hle : routines.total (fun _ => 1) ≤ s.routines.total fun _ => 1 := by omega
    cases r.script <;> exact hle

end Severed

theorem shrunk_freeAll (fuel : Nat) (pending : List RoutineId) (s : Scheduler C) :
    Shrunk s (freeAll fuel pending s) := by
  induction fuel generalizing pending s with
  | zero => exact .refl s
  | succ fuel ih =>
    cases pending with
    | nil => exact .refl s
    | cons id pending =>
      cases h : s.routines.remove id with
      | none =>
        rw [freeAll_of_dead (Roster.remove_eq_none.mp h)]
        exact ih pending s
      | some pair =>
        obtain ⟨r, routines⟩ := pair
        rw [freeAll_of_remove h]
        exact (shrunk_severed h).trans (ih _ _)

/-- The fuel is enough: nothing is pending in the end. Every round takes one
    identifier off the pending ones, and what it adds it takes off the
    children. -/
theorem LinkedBut.freeAll {fuel : Nat} {pending : List RoutineId} {s : Scheduler C}
    (h : LinkedBut pending s.routines) (hfuel : pending.length + s.childCount ≤ fuel) :
    Linked (freeAll fuel pending s).routines := by
  induction fuel generalizing pending s with
  | zero =>
    have hnil : pending = [] := List.eq_nil_of_length_eq_zero (by omega)
    subst hnil
    exact h
  | succ fuel ih =>
    cases pending with
    | nil => exact h
    | cons id pending =>
      rw [List.length_cons] at hfuel
      cases hr : s.routines.remove id with
      | none =>
        have hdead := Roster.remove_eq_none.mp hr
        rw [freeAll_of_dead hdead]
        refine ih ⟨h.sound, h.nodup, h.child, ?_⟩ (by omega)
        intro c y q hc hq
        rcases h.parent hc hq with hx | ⟨hgone, hmem⟩
        · exact Or.inl hx
        · rcases List.mem_cons.mp hmem with rfl | hmem
          · rw [hdead] at hc
            cases hc
          · exact Or.inr ⟨hgone, hmem⟩
      | some pair =>
        obtain ⟨r, routines⟩ := pair
        rw [freeAll_of_remove hr]
        have hcount := childCount_severed hr
        have hlost := List.length_filter_le (fun c => !s.onStack c) r.children
        refine ih (h.severed hr) ?_
        rw [List.length_append, List.length_reverse]
        omega

theorem shrunk_free (s : Scheduler C) (id : RoutineId) : Shrunk s (s.free id) :=
  shrunk_freeAll _ _ s

theorem LinkedBut.free {s : Scheduler C} (h : Linked s.routines) (id : RoutineId) :
    Linked (s.free id).routines := by
  refine (h.weaken ?_ : LinkedBut [id] s.routines).freeAll (Nat.le_refl _)
  intro c hc
  cases hc

/-- Freeing a live routine makes the routines fewer. -/
theorem liveCount_free {s : Scheduler C} {id : RoutineId} {r : Routine C}
    (h : s.routines.find? id = some r) : (s.free id).liveCount + 1 ≤ s.liveCount := by
  obtain ⟨routines, hr⟩ := Roster.remove_of_find? h
  rw [free, Nat.add_comm 1, freeAll_of_remove hr]
  exact Nat.le_trans (Nat.add_le_add_right (shrunk_freeAll _ _ _).count 1) (liveCount_severed hr)

/-! ### Anchored routines -/

/-- A routine that is on the stack, or whose parent is anchored. -/
inductive Anchored (s : Scheduler C) : RoutineId → Prop where
  | onStack {a : RoutineId} {x : Routine C} (live : s.routines.find? a = some x)
      (there : s.onStack a = true) : Anchored s a
  | under {a q : RoutineId} {x : Routine C} (live : s.routines.find? a = some x)
      (parent : x.parent = some q) (above : Anchored s q) : Anchored s a

theorem Anchored.live {s : Scheduler C} {a : RoutineId} (h : Anchored s a) :
    ∃ x, s.routines.find? a = some x := by
  cases h with
  | onStack live _ => exact ⟨_, live⟩
  | under live _ _ => exact ⟨_, live⟩

/-- Anchored routines have stayed, with their script and their children; the
    ones that have lost their parent had one that was not anchored. -/
def Keeps (s s' : Scheduler C) : Prop :=
  ∀ a x, Anchored s a → s.routines.find? a = some x →
    s'.routines.find? a = some x ∨
      (s'.routines.find? a = some { x with parent := none } ∧
        ∀ q, x.parent = some q → ¬ Anchored s q)

theorem Keeps.refl (s : Scheduler C) : Keeps s s := fun _ _ _ h => Or.inl h

theorem Keeps.anchored {s s' : Scheduler C} (h : Keeps s s') (hstack : s'.stack = s.stack)
    {a : RoutineId} (ha : Anchored s a) : Anchored s' a := by
  induction ha with
  | @onStack a x live there =>
    have hon : s'.onStack a = true := by
      rw [onStack, hstack]
      exact there
    rcases h a x (.onStack live there) live with hl | ⟨hl, -⟩
    · exact .onStack hl hon
    · exact .onStack hl hon
  | @under a q x live parent above ih =>
    rcases h a x (.under live parent above) live with hl | ⟨-, hnot⟩
    · exact .under hl parent ih
    · exact absurd above (hnot _ parent)

theorem Keeps.trans {s t u : Scheduler C} (h : Keeps s t) (hstack : t.stack = s.stack)
    (h' : Keeps t u) : Keeps s u := by
  intro a x ha hx
  have hta := h.anchored hstack ha
  rcases h a x ha hx with hx' | ⟨hx', hnot⟩
  · rcases h' a _ hta hx' with hx'' | ⟨hx'', hnot'⟩
    · exact Or.inl hx''
    · refine Or.inr ⟨hx'', ?_⟩
      intro q hq hanch
      exact hnot' q hq (h.anchored hstack hanch)
  · rcases h' a _ hta hx' with hx'' | ⟨hx'', -⟩
    · exact Or.inr ⟨hx'', hnot⟩
    · exact Or.inr ⟨hx'', hnot⟩

/-- Severing a routine off the stack whose parent is gone touches nothing that
    is anchored. -/
theorem keeps_severed {pending : List RoutineId} {s : Scheduler C} {id : RoutineId}
    {r : Routine C} {routines : Roster (Routine C)} (hl : LinkedBut pending s.routines)
    (h : s.routines.remove id = some (r, routines)) (hoff : s.onStack id = false)
    (horphan : ∀ q, r.parent = some q → s.routines.find? q = none) :
    Keeps s (s.severed id r routines) := by
  have hid := Roster.find?_of_remove h
  have hnot : ¬ Anchored s id := by
    intro hanch
    cases hanch with
    | onStack live there =>
      rw [hoff] at there
      cases there
    | under live parent above =>
      rw [hid, Option.some.injEq] at live
      obtain ⟨x, hx⟩ := above.live
      rw [horphan _ (live ▸ parent)] at hx
      cases hx
  intro a x ha hx
  have hne : a ≠ id := by
    rintro rfl
    exact hnot ha
  have hparent : r.parent ≠ some a := by
    intro hp
    rw [horphan a hp] at hx
    cases hx
  rw [find?_severed h, if_neg hne, hx, Option.map_some]
  by_cases hkept : a ∈ r.children.filter s.onStack
  · refine Or.inr ⟨by simp only [if_pos hkept, if_neg hparent], ?_⟩
    obtain ⟨y, hy, hpar⟩ := hl.child hid (List.mem_of_mem_filter hkept)
    rw [hx, Option.some.injEq] at hy
    intro q hq
    rw [hy, hpar, Option.some.injEq] at hq
    exact hq ▸ hnot
  · exact Or.inl (by simp only [if_neg hkept, if_neg hparent])

/-- Freeing touches nothing that is anchored, as long as what is pending is off
    the stack and has no parent left. Lost children are, because their parent
    has just been removed. -/
theorem keeps_freeAll {fuel : Nat} {pending : List RoutineId} {s : Scheduler C}
    (hl : LinkedBut pending s.routines) (hoff : ∀ c ∈ pending, s.onStack c = false)
    (horphan : ∀ c ∈ pending, ∀ y, s.routines.find? c = some y →
      ∀ q, y.parent = some q → s.routines.find? q = none) :
    Keeps s (freeAll fuel pending s) := by
  induction fuel generalizing pending s with
  | zero => exact .refl s
  | succ fuel ih =>
    cases pending with
    | nil => exact .refl s
    | cons id pending =>
      cases hr : s.routines.remove id with
      | none =>
        have hdead := Roster.remove_eq_none.mp hr
        rw [freeAll_of_dead hdead]
        refine ih ⟨hl.sound, hl.nodup, hl.child, ?_⟩ (fun c hc => hoff c (List.mem_cons_of_mem _ hc))
          fun c hc => horphan c (List.mem_cons_of_mem _ hc)
        intro c y q hc hq
        rcases hl.parent hc hq with hx | ⟨hgone, hmem⟩
        · exact Or.inl hx
        · rcases List.mem_cons.mp hmem with rfl | hmem
          · rw [hdead] at hc
            cases hc
          · exact Or.inr ⟨hgone, hmem⟩
      | some pair =>
        obtain ⟨r, routines⟩ := pair
        have hid := Roster.find?_of_remove hr
        have hstack := (shrunk_severed hr).work.stack
        rw [freeAll_of_remove hr]
        refine Keeps.trans (keeps_severed hl hr (hoff id (List.mem_cons_self ..))
          (horphan id (List.mem_cons_self ..) r hid)) hstack (ih (hl.severed hr) ?_ ?_)
        · intro c hc
          rw [onStack, hstack]
          rcases List.mem_append.mp hc with hc | hc
          · rw [List.mem_reverse, List.mem_filter] at hc
            exact Bool.not_eq_true' _ ▸ hc.2
          · exact hoff c (List.mem_cons_of_mem _ hc)
        · intro c hc y hy q hq
          rw [find?_severed hr] at hy
          split at hy
          · cases hy
          · obtain ⟨y₀, hy₀, rfl⟩ := Option.map_eq_some_iff.mp hy
            dsimp only at hq
            split at hq
            · cases hq
            · rw [find?_severed hr]
              rcases List.mem_append.mp hc with hc | hc
              · rw [List.mem_reverse, List.mem_filter] at hc
                obtain ⟨y₁, hy₁, hpar⟩ := hl.child hid hc.1
                rw [hy₀, Option.some.injEq] at hy₁
                rw [hy₁, hpar, Option.some.injEq] at hq
                rw [if_pos hq.symm]
              · rw [horphan c (List.mem_cons_of_mem _ hc) y₀ hy₀ q hq]
                split <;> rfl

/-! ### Sweeping up what was lost -/

/-- What a sweep does to a scheduler whose links agree. -/
structure Pruned (s s' : Scheduler C) : Prop where
  shrunk : Shrunk s s'
  keeps : Keeps s s'

theorem Pruned.refl (s : Scheduler C) : Pruned s s := ⟨.refl s, .refl s⟩

theorem Pruned.trans {s t u : Scheduler C} (h : Pruned s t) (h' : Pruned t u) : Pruned s u :=
  ⟨h.shrunk.trans h'.shrunk, h.keeps.trans h.shrunk.work.stack h'.keeps⟩

theorem isLost_eq_true {s : Scheduler C} {id : RoutineId} (h : s.isLost id = true) :
    ∃ r, s.routines.find? id = some r ∧ s.onStack id = false ∧
      ∀ q, r.parent = some q → s.routines.find? q = none := by
  unfold isLost at h
  split at h
  · next r hr =>
    simp only [Bool.and_eq_true, Option.isNone_iff_eq_none, Bool.not_eq_true'] at h
    refine ⟨r, hr, h.2, ?_⟩
    intro q hq
    cases hfind : s.routines.find? q with
    | none => rfl
    | some x =>
      rw [hq, liveParent_of_live hfind] at h
      cases h.1
  · cases h

theorem pruned_free {s : Scheduler C} {id : RoutineId} (hl : Linked s.routines)
    (h : s.isLost id = true) : Pruned s (s.free id) := by
  obtain ⟨r, hr, hoff, horphan⟩ := isLost_eq_true h
  refine ⟨shrunk_free s id, keeps_freeAll (hl.weaken ?_ : LinkedBut [id] s.routines) ?_ ?_⟩
  · intro c hc
    cases hc
  · intro c hc
    rw [List.mem_singleton] at hc
    exact hc ▸ hoff
  · intro c hc y hy q hq
    rw [List.mem_singleton] at hc
    subst hc
    rw [hr, Option.some.injEq] at hy
    exact horphan q (hy ▸ hq)

/-- What freeing the unclaimed routines does with each of them. -/
def freeIfLost (freed : Nat × Scheduler C) (id : RoutineId) : Nat × Scheduler C :=
  if freed.2.isLost id then (freed.1 + 1, freed.2.free id) else freed

theorem freeUnclaimed_eq (s : Scheduler C) :
    s.freeUnclaimed = s.unclaimed.foldl freeIfLost (0, { s with unclaimed := [] }) := rfl

/-- Freeing the unclaimed routines frees only what was lost; the count says
    whether there was any. -/
theorem freeUnclaimed_spec {s : Scheduler C} (hl : Linked s.routines) :
    Pruned s s.freeUnclaimed.2 ∧ Linked s.freeUnclaimed.2.routines ∧
      s.freeUnclaimed.2.liveCount + s.freeUnclaimed.1 ≤ s.liveCount := by
  have hfold : ∀ (ids : List RoutineId) (n : Nat) (t : Scheduler C), Pruned s t →
      Linked t.routines → t.liveCount + n ≤ s.liveCount →
      let out := ids.foldl freeIfLost (n, t)
      Pruned s out.2 ∧ Linked out.2.routines ∧ out.2.liveCount + out.1 ≤ s.liveCount := by
    intro ids
    induction ids with
    | nil => exact fun n t hp hlt hc => ⟨hp, hlt, hc⟩
    | cons id ids ih =>
      intro n t hp hlt hc
      rw [List.foldl_cons]
      by_cases hlost : t.isLost id = true
      · obtain ⟨r, hr, -, -⟩ := isLost_eq_true hlost
        have hcount := liveCount_free hr
        simp only [freeIfLost, hlost, if_true]
        exact ih (n + 1) (t.free id) (hp.trans (pruned_free hlt hlost)) (hlt.free id) (by omega)
      · simp only [freeIfLost, hlost]
        exact ih n t hp hlt hc
  exact hfold s.unclaimed 0 { s with unclaimed := [] } ⟨⟨⟨rfl, rfl, rfl, rfl⟩, rfl,
    fun _ => Nat.le_refl _, Nat.le_refl _⟩, fun _ _ _ h => Or.inl h⟩ hl (Nat.le_refl _)

theorem freeUnclaimed_of_nil {s : Scheduler C} (h : s.unclaimed = []) :
    s.freeUnclaimed.2 = { s with unclaimed := [] } := by
  rw [freeUnclaimed_eq, h]
  rfl

/-- Nothing is left to sweep, and no routine is being stepped. -/
structure Tidy (s : Scheduler C) : Prop where
  current : s.current = none
  retired : s.retired = []
  unclaimed : s.unclaimed = []

/-- Where nothing was freed, nothing was lost. -/
theorem freeUnclaimed_of_none {s : Scheduler C} (h : s.freeUnclaimed.1 = 0) :
    s.freeUnclaimed.2 = { s with unclaimed := [] } := by
  have hfold : ∀ (ids : List RoutineId) (n : Nat) (t : Scheduler C),
      let out := ids.foldl freeIfLost (n, t)
      n ≤ out.1 ∧ (out.1 = n → out.2 = t) := by
    intro ids
    induction ids with
    | nil => exact fun n t => ⟨Nat.le_refl _, fun _ => rfl⟩
    | cons id ids ih =>
      intro n t
      rw [List.foldl_cons]
      by_cases hlost : t.isLost id = true
      · simp only [freeIfLost, hlost, if_true]
        obtain ⟨hle, -⟩ := ih (n + 1) (t.free id)
        refine ⟨Nat.le_trans (Nat.le_succ n) hle, fun heq => ?_⟩
        exact absurd (Nat.le_trans hle (Nat.le_of_eq heq)) (Nat.not_succ_le_self n)
      · simp only [freeIfLost, hlost]
        exact ih n t
  exact (hfold s.unclaimed 0 { s with unclaimed := [] }).2 h

/-- A change of anything but routines and work frees nothing. -/
theorem Pruned.of_same {s s' : Scheduler C} (hwork : SameWork s s')
    (hroutines : s'.routines = s.routines) : Pruned s s' := by
  refine ⟨⟨hwork, by rw [hroutines], fun a => Nat.le_of_eq (by rw [hroutines]), ?_⟩, ?_⟩
  · rw [liveCount, hroutines]
    exact Nat.le_refl _
  · intro a x _ hx
    exact Or.inl (hroutines ▸ hx)

end Strand.Scheduler
