import Strand.Proofs.Aside
import Strand.Proofs.Kinship

/-! # Book — the routines as a map from names that are never given out twice

    Slots are used again, but identifiers are not. A `Book` says so without
    slots: it is a map from identifiers to routines, and it remembers which
    identifiers it has given out and which of them it has struck off.

    * `Book.Allows` is what each use of the routines does to a book: inserting
      and spawning give out a new identifier, all that is looked up or taken out
      is what the map has.
    * `Book.KeptBy` ties a book to a roster. Each use keeps the tie
      (`Book.KeptBy.perform`), so every sequence of uses does
      (`Book.KeptBy.performAll`).

    The books are true as long as 32 bits number the slots and tell the
    generations of each slot apart. -/

namespace Strand

/-! ### Counting entries, and listing slots that have none -/

namespace Roster

variable {α : Type} {r r' : Roster α}

theorem Sound.size_insert (h : r.Sound) (e : α) : (r.insert e).2.size = r.size + 1 := by
  unfold Roster.insert
  split
  · next index vacant hvacant =>
    obtain ⟨v, hv⟩ := h.vacant index (by simp [hvacant])
    simp only [hv]
  · rfl

/-- Counting down never goes below zero. -/
theorem Sound.size_remove (h : r.Sound) {id : RoutineId} {e : α}
    (hr : r.remove id = some (e, r')) : r'.size + 1 = r.size := by
  have htotal := total_remove hr fun _ => 1
  rw [h.counted, (h.remove hr).counted, length_entries, length_entries]
  exact htotal

/-- Every slot without an entry is on the list of vacant slots. -/
def Listed (r : Roster α) : Prop :=
  ∀ n v, r.slots[n]? = some ⟨v, none⟩ → ∃ i ∈ r.vacant, i.toNat = n

theorem listed_empty : (empty : Roster α).Listed := by
  intro n v h
  simp [empty] at h

theorem Listed.modify (h : r.Listed) (id : RoutineId) (f : α → α) : (r.modify id f).Listed := by
  intro n v hn
  rw [vacant_modify]
  unfold Roster.modify at hn
  split at hn
  · next slot hslot =>
    rw [slot?_eq_some] at hslot
    simp only [Array.getElem?_setIfInBounds] at hn
    split at hn
    · next hidx =>
      -- the changed slot is vacant if it was before
      subst hidx
      rw [if_pos (index_lt_of_slot hslot.1), Option.some.injEq, Slot.mk.injEq,
        Option.map_eq_none_iff] at hn
      refine h _ slot.vacated ?_
      rw [hslot.1, ← hn.2]
    · exact h n v hn
  · exact h n v hn

theorem Listed.insert (h : r.Listed) (e : α) : (r.insert e).2.Listed := by
  intro n v hn
  unfold Roster.insert at hn ⊢
  split at hn
  · next index vacant hvacant =>
    -- the slot that is taken is the only one that leaves the list
    have hrest : ∀ w, r.slots[n]? = some ⟨w, none⟩ → index.toNat ≠ n →
        ∃ i ∈ vacant, i.toNat = n := by
      intro w hw hne
      obtain ⟨i, hi, hin⟩ := h n w hw
      rw [hvacant, List.mem_cons] at hi
      rcases hi with rfl | hi
      · exact absurd hin hne
      · exact ⟨i, hi, hin⟩
    split at hn
    · next slot hslot =>
      simp only [Array.getElem?_setIfInBounds] at hn
      split at hn
      · next hidx =>
        subst hidx
        rw [if_pos (index_lt_of_slot hslot)] at hn
        simp at hn
      · next hidx => exact hrest v hn hidx
    · next hslot =>
      refine hrest v hn fun hidx => ?_
      rw [hidx, show r.slots[n]? = some ⟨v, none⟩ from hn] at hslot
      cases hslot
  · next hvacant =>
    have hn' : (r.slots.push ⟨0, some e⟩)[n]? = some ⟨v, none⟩ := hn
    rw [Array.getElem?_push] at hn'
    split at hn'
    · simp at hn'
    · obtain ⟨i, hi, -⟩ := h n v hn'
      rw [hvacant] at hi
      cases hi

theorem Listed.remove (h : r.Listed) {id : RoutineId} {e : α} (hr : r.remove id = some (e, r')) :
    r'.Listed := by
  obtain ⟨w, hslot, -, rfl⟩ := remove_eq_some hr
  intro n v hn
  by_cases hidx : id.index.toNat = n
  · exact ⟨id.index, List.mem_cons_self .., hidx⟩
  · simp only [Array.getElem?_setIfInBounds, if_neg hidx] at hn
    obtain ⟨i, hi, hin⟩ := h n v hn
    exact ⟨i, List.mem_cons_of_mem _ hi, hin⟩

theorem closed_listed : Closed (Listed : Roster α → Prop) :=
  ⟨fun id f h => h.modify id f, fun e h => h.insert e, fun hr h => h.remove hr⟩

end Roster

/-! ### What can be done with the routines -/

variable {C : Type}

/-- One use of the routines of a scheduler. -/
inductive RoutineUse (C : Type) where
  /-- Put a routine in. -/
  | insert (routine : Routine C)
  /-- Put a new routine in, under a parent. -/
  | spawn (origin : Origin) (script : Script C) (parent : Option RoutineId)
  /-- Put a routine under a parent. -/
  | adopt (child : RoutineId) (parent : Option RoutineId)
  /-- Look a routine up. -/
  | get (id : RoutineId)
  /-- Take a routine out. -/
  | remove (id : RoutineId)

/-- What a use of the routines answers. -/
inductive RoutineAnswer (C : Type) where
  | named (id : RoutineId)
  | found (routine? : Option (Routine C))
  | done

namespace Scheduler

/-- One use of the routines. -/
def perform (s : Scheduler C) : RoutineUse C → RoutineAnswer C × Scheduler C
  | .insert routine =>
    let (id, routines) := s.routines.insert routine
    (.named id, { s with routines })
  | .spawn origin script parent =>
    let (id, s) := s.addUnder origin script parent
    (.named id, s)
  | .adopt child parent => (.done, s.link child parent)
  | .get id => (.found (s.routines.find? id), s)
  | .remove id =>
    match s.routines.remove id with
    | some (routine, routines) => (.found (some routine), { s with routines })
    | none => (.found none, s)

/-- One use after the other, with the answers. -/
def performAll (s : Scheduler C) : List (RoutineUse C) → List (RoutineAnswer C) × Scheduler C
  | [] => ([], s)
  | use :: uses =>
    let (answer, s) := s.perform use
    let (answers, s) := s.performAll uses
    (answer :: answers, s)

theorem closed_perform {P : Roster (Routine C) → Prop} (hP : Roster.Closed P) (s : Scheduler C)
    (use : RoutineUse C) (h : P s.routines) : P (s.perform use).2.routines := by
  cases use with
  | insert routine => exact hP.insert _ h
  | spawn origin script parent => exact closed_link hP.steady (hP.insert _ h) _ parent
  | adopt child parent => exact closed_link hP.steady h child parent
  | get id => exact h
  | remove id =>
    simp only [perform]
    split
    · next hremove => exact hP.remove hremove h
    · exact h

theorem size_link (s : Scheduler C) (c : RoutineId) (parent : Option RoutineId) :
    (s.link c parent).routines.size = s.routines.size := by
  unfold link
  cases s.liveParent parent with
  | none => exact Roster.size_modify _ _ _
  | some q => exact (Roster.size_modify _ _ _).trans (Roster.size_modify _ _ _)

theorem grows_performAll (uses : List (RoutineUse C)) (s : Scheduler C) :
    Roster.Grows s.routines (s.performAll uses).2.routines := by
  induction uses generalizing s with
  | nil => exact .refl _
  | cons use uses ih =>
    exact (closed_perform (Roster.closed_grows _) s use (.refl _)).trans (ih (s.perform use).2)

end Scheduler

/-! ### Books -/

/-- A map from identifiers to routines. -/
structure Book (C : Type) where
  /-- The identifiers given out, latest first. -/
  issued : List RoutineId
  /-- The identifiers whose routine has been taken out. -/
  removed : List RoutineId
  entry : RoutineId → Option (Routine C)

namespace Book

/-- The book before anything is in it. -/
def blank : Book C := ⟨[], [], fun _ => none⟩

/-- Give out an identifier for a routine. -/
def enter (b : Book C) (id : RoutineId) (x : Routine C) : Book C where
  issued := id :: b.issued
  removed := b.removed
  entry := fun a => if a = id then some x else b.entry a

/-- Take the routine of an identifier out. -/
def strike (b : Book C) (id : RoutineId) : Book C where
  issued := b.issued
  removed := id :: b.removed
  entry := fun a => if a = id then none else b.entry a

/-- Put one routine under another, which lists it among its children; it has no
    parent if that one is not in the book. -/
def adopt (b : Book C) (child : RoutineId) (parent : Option RoutineId) : Book C where
  issued := b.issued
  removed := b.removed
  entry := fun a => (b.entry a).map fun x =>
    let parent := parent.filter fun p => (b.entry p).isSome
    { x with
      parent := if a = child then parent else x.parent
      children := if parent = some a then Scheduler.addChild x.children child else x.children }

/-- What a use of the routines may answer, and the book after it. -/
inductive Allows (b : Book C) : RoutineUse C → RoutineAnswer C → Book C → Prop
  | insert {id : RoutineId} (x : Routine C) (new : id ∉ b.issued) :
    Allows b (.insert x) (.named id) (b.enter id x)
  | spawn {id : RoutineId} (origin : Origin) (script : Script C) (parent : Option RoutineId)
    (new : id ∉ b.issued) :
    Allows b (.spawn origin script parent) (.named id)
      ((b.enter id ⟨origin, some script, none, []⟩).adopt id parent)
  | adopt (child : RoutineId) (parent : Option RoutineId) :
    Allows b (.adopt child parent) .done (b.adopt child parent)
  | get (id : RoutineId) : Allows b (.get id) (.found (b.entry id)) b
  | remove {id : RoutineId} {x : Routine C} (live : b.entry id = some x) :
    Allows b (.remove id) (.found (some x)) (b.strike id)
  | miss {id : RoutineId} (dead : b.entry id = none) : Allows b (.remove id) (.found none) b

/-- A sequence of uses with its answers, and the book after it. -/
inductive AllowsAll : Book C → List (RoutineUse C) → List (RoutineAnswer C) → Book C → Prop
  | nil (b : Book C) : AllowsAll b [] [] b
  | cons {b b' b'' : Book C} {use : RoutineUse C} {uses : List (RoutineUse C)}
    {answer : RoutineAnswer C} {answers : List (RoutineAnswer C)} (first : Allows b use answer b')
    (rest : AllowsAll b' uses answers b'') : AllowsAll b (use :: uses) (answer :: answers) b''

/-- The identifiers given out and not struck off. -/
def names (b : Book C) : List RoutineId := b.issued.filter (· ∉ b.removed)

/-! ### The book that a roster keeps -/

/-- A roster has exactly what the book has. -/
structure KeptBy (b : Book C) (r : Roster (Routine C)) : Prop where
  sound : r.Sound
  listed : r.Listed
  /-- No identifier is given out twice. -/
  nodup : b.issued.Nodup
  issued : ∀ a ∈ b.issued, r.Issued a
  removed : ∀ a ∈ b.removed, a ∈ b.issued
  /-- What is found is what the book has. -/
  entry : ∀ a, r.find? a = b.entry a
  /-- In the book is what has been given out and not struck off. -/
  live : ∀ a, (b.entry a).isSome ↔ a ∈ b.names
  size : r.size = b.names.length

theorem keptBy_empty : (blank : Book C).KeptBy .empty where
  sound := Roster.sound_empty
  listed := Roster.listed_empty
  nodup := List.nodup_nil
  issued := by simp [blank]
  removed := by simp [blank]
  entry := fun a => Roster.find?_of_no_slot rfl
  live := by simp [blank, names]
  size := rfl

variable {b b' : Book C} {s : Scheduler C} {r r' : Roster (Routine C)}

theorem KeptBy.nodup_names (h : b.KeptBy r) : b.names.Nodup := h.nodup.filter _

/-- A new entry of the roster gets a new identifier in the book. -/
theorem KeptBy.enter (h : b.KeptBy r) (x : Routine C) (hample : ∀ a, (r.insert x).2.Ample a) :
    (r.insert x).1 ∉ b.issued ∧ (b.enter (r.insert x).1 x).KeptBy (r.insert x).2 := by
  have hroom := (hample (r.insert x).1).slots
  have hnew : (r.insert x).1 ∉ b.issued := by
    intro hmem
    exact h.sound.ne_insert_fst (h.issued _ hmem) x (hample _) rfl
  have hkept : (r.insert x).1 ∉ b.removed := fun hmem => hnew (h.removed _ hmem)
  have hfind := h.sound.find?_insert x hroom
  have hnames : (b.enter (r.insert x).1 x).names = (r.insert x).1 :: b.names :=
    List.filter_cons_of_pos (decide_eq_true hkept)
  refine ⟨hnew, ?_⟩
  refine { sound := h.sound.insert x, listed := h.listed.insert x, nodup := ?_, issued := ?_,
           removed := ?_, entry := ?_, live := ?_, size := ?_ }
  · exact List.nodup_cons.mpr ⟨hnew, h.nodup⟩
  · intro a ha
    rcases List.mem_cons.mp ha with rfl | ha
    · exact Roster.issued_of_find? ((hfind _).trans (if_pos rfl))
    · exact (h.issued a ha).insert x
  · exact fun a ha => List.mem_cons_of_mem _ (h.removed a ha)
  · intro a
    rw [hfind, h.entry]
    rfl
  · intro a
    rw [hnames, List.mem_cons, ← h.live]
    by_cases ha : a = (r.insert x).1 <;> simp [Book.enter, ha]
  · rw [hnames, List.length_cons, ← h.size]
    exact h.sound.size_insert x

/-- Taking an entry out of the roster strikes its identifier off. -/
theorem KeptBy.strike (h : b.KeptBy r) {id : RoutineId} {x : Routine C}
    (hr : r.remove id = some (x, r')) : (b.strike id).KeptBy r' := by
  have hlive : id ∈ b.names := by
    rw [← h.live, ← h.entry, Roster.find?_of_remove hr]
    rfl
  have hnames : (b.strike id).names = b.names.erase id := by
    rw [h.nodup_names.erase_eq_filter, names, names, List.filter_filter]
    refine List.filter_congr fun a _ => ?_
    by_cases ha : a = id <;> simp [Book.strike, ha]
  refine { sound := h.sound.remove hr, listed := h.listed.remove hr, nodup := h.nodup, issued := ?_,
           removed := ?_, entry := ?_, live := ?_, size := ?_ }
  · exact fun a ha => (h.issued a ha).remove hr
  · intro a ha
    rcases List.mem_cons.mp ha with rfl | ha
    · exact (List.mem_filter.mp hlive).1
    · exact h.removed a ha
  · intro a
    rw [Roster.find?_remove hr, h.entry]
    rfl
  · intro a
    rw [hnames, h.nodup_names.mem_erase_iff]
    by_cases ha : a = id <;> simp [Book.strike, ha, h.live]
  · have hsize := h.sound.size_remove hr
    rw [hnames, List.length_erase_of_mem hlive, ← h.size]
    omega

/-- Linking two routines is adopting in the book. -/
theorem KeptBy.adopt (h : b.KeptBy s.routines) (child : RoutineId) (parent : Option RoutineId) :
    (b.adopt child parent).KeptBy (s.link child parent).routines := by
  have hparent : s.liveParent parent = parent.filter fun p => (b.entry p).isSome := by
    refine congrArg (Option.filter · parent) (funext fun p => ?_)
    rw [Roster.contains, h.entry]
  refine { sound := Scheduler.closed_link Roster.closed_sound.steady h.sound child parent
           listed := Scheduler.closed_link Roster.closed_listed.steady h.listed child parent
           nodup := h.nodup, issued := ?_, removed := h.removed, entry := ?_, live := ?_, size := ?_ }
  · exact fun a ha => Scheduler.closed_link (Roster.closed_issued a).steady (h.issued a ha) child parent
  · intro a
    rw [Scheduler.find?_link, h.entry, hparent]
    rfl
  · intro a
    simp only [Book.adopt, Option.isSome_map]
    exact h.live a
  · exact (Scheduler.size_link s child parent).trans h.size

/-- Each use of the routines answers as the book has it. -/
theorem KeptBy.perform (h : b.KeptBy s.routines) (use : RoutineUse C)
    (hample : ∀ a, (s.perform use).2.routines.Ample a) :
    ∃ b', b.Allows use (s.perform use).1 b' ∧ b'.KeptBy (s.perform use).2.routines := by
  cases use with
  | insert x =>
    obtain ⟨hnew, hkept⟩ := h.enter x hample
    exact ⟨_, .insert x hnew, hkept⟩
  | spawn origin script parent =>
    have hadded : ∀ a, (s.add origin script).2.routines.Ample a := fun a =>
      (hample a).of_grows (Scheduler.closed_link (Roster.closed_grows _).steady (.refl _) _ parent)
    obtain ⟨hnew, hkept⟩ := h.enter ⟨origin, some script, none, []⟩ hadded
    exact ⟨_, .spawn origin script parent hnew, hkept.adopt (s := (s.add origin script).2) _ parent⟩
  | adopt child parent => exact ⟨_, .adopt child parent, h.adopt child parent⟩
  | get id =>
    refine ⟨b, ?_, h⟩
    simp only [Scheduler.perform, h.entry]
    exact .get id
  | remove id =>
    simp only [Scheduler.perform]
    split
    · next x routines hremove =>
      have hfound := Roster.find?_of_remove hremove
      rw [h.entry] at hfound
      exact ⟨_, .remove hfound, h.strike hremove⟩
    · next hremove =>
      rw [Roster.remove_eq_none, h.entry] at hremove
      exact ⟨b, .miss hremove, h⟩

/-- Every sequence of uses answers as the book has it. -/
theorem KeptBy.performAll (uses : List (RoutineUse C)) (h : b.KeptBy s.routines)
    (hample : ∀ a, (s.performAll uses).2.routines.Ample a) :
    ∃ b', AllowsAll b uses (s.performAll uses).1 b' ∧
      b'.KeptBy (s.performAll uses).2.routines := by
  induction uses generalizing s b with
  | nil => exact ⟨b, .nil b, h⟩
  | cons use uses ih =>
    have hafter : ∀ a, (s.perform use).2.routines.Ample a := fun a =>
      (hample a).of_grows (Scheduler.grows_performAll uses (s.perform use).2)
    obtain ⟨b', hfirst, hkept⟩ := h.perform use hafter
    obtain ⟨b'', hrest, hkept'⟩ := ih hkept hample
    exact ⟨b'', .cons hfirst hrest, hkept'⟩

/-- The vacant list names each slot without an entry once, and no other. -/
theorem KeptBy.vacant (h : b.KeptBy r) :
    (r.vacant.map UInt32.toNat).Nodup ∧
    ∀ n, n ∈ r.vacant.map UInt32.toNat ↔ ∃ v, r.slots[n]? = some ⟨v, none⟩ := by
  refine ⟨h.sound.nodup.map fun i j hij => UInt32.toNat_inj.mp hij, fun n => ⟨fun hn => ?_, ?_⟩⟩
  · obtain ⟨i, hi, rfl⟩ := List.mem_map.mp hn
    exact h.sound.vacant i hi
  · rintro ⟨v, hv⟩
    obtain ⟨i, hi, hin⟩ := h.listed n v hv
    exact List.mem_map.mpr ⟨i, hi, hin⟩

end Book

/-! ### The routines refine a book -/

/-- **The routines are a map from identifiers that are never given out twice.**
    Whatever is put in, adopted, looked up and taken out of a roster that was
    empty, with any identifiers: the answers are those of a book, in which every
    identifier is new when it is given out. What is found in the end is what the
    book has: what has been given out and not struck off. Taking out anything
    else changes nothing, the routines are counted without the count ever
    running below zero, and the vacant list names each slot without an entry
    once and no other.

    This holds while fewer than 2 ^ 32 slots are made, none of them vacated
    2 ^ 32 times. -/
theorem routines_refine_book (s : Scheduler C) (hempty : s.routines = .empty)
    (uses : List (RoutineUse C))
    (hslots : (s.performAll uses).2.routines.slots.size < 2 ^ 32)
    (hvacated : ∀ slot ∈ (s.performAll uses).2.routines.slots, slot.vacated < 2 ^ 32) :
    let t := (s.performAll uses).2
    ∃ b : Book C, Book.AllowsAll .blank uses (s.performAll uses).1 b ∧ b.issued.Nodup ∧
      (∀ a, t.routines.find? a = b.entry a) ∧
      (∀ a, (t.routines.find? a).isSome ↔ a ∈ b.issued ∧ a ∉ b.removed) ∧
      (∀ a, ¬ (a ∈ b.issued ∧ a ∉ b.removed) → t.perform (.remove a) = (.found none, t)) ∧
      t.routines.size = (b.issued.filter (· ∉ b.removed)).length ∧
      (∀ a x r, t.routines.remove a = some (x, r) → r.size + 1 = t.routines.size) ∧
      (t.routines.vacant.map UInt32.toNat).Nodup ∧
      ∀ n, n ∈ t.routines.vacant.map UInt32.toNat ↔
        ∃ v, t.routines.slots[n]? = some ⟨v, none⟩ := by
  intro t
  have hample : ∀ a, t.routines.Ample a := by
    intro a
    refine ⟨Nat.le_of_lt hslots, ?_⟩
    show ((t.routines.slots[a.index.toNat]?).map Slot.vacated).getD 0 < 2 ^ 32
    cases hslot : t.routines.slots[a.index.toNat]? with
    | none => simp
    | some slot => exact hvacated slot (Array.mem_of_getElem? hslot)
  have hblank : (Book.blank : Book C).KeptBy s.routines := by
    rw [hempty]
    exact Book.keptBy_empty
  obtain ⟨b, hallows, hkept⟩ := hblank.performAll uses hample
  have hlive : ∀ a, (t.routines.find? a).isSome ↔ a ∈ b.issued ∧ a ∉ b.removed := by
    intro a
    rw [hkept.entry, hkept.live, Book.names, List.mem_filter, decide_eq_true_iff]
  obtain ⟨hnodup, hvacant⟩ := hkept.vacant
  refine ⟨b, hallows, hkept.nodup, hkept.entry, hlive, ?_, hkept.size, ?_, hnodup, hvacant⟩
  · intro a ha
    rw [← hlive, Option.not_isSome_iff_eq_none, ← Roster.remove_eq_none] at ha
    simp only [Scheduler.perform, ha]
  · intro a x r hr
    exact hkept.sound.size_remove hr

/-- It holds of a routine that is taken out twice, and whose slot is then used
    again. -/
theorem routines_refine_book_reuse :
    let s : Scheduler Unit := .new {}
    let a : RoutineId := ⟨0, 0⟩
    let x : Routine Unit := ⟨.settled, none, none, []⟩
    let uses := [.insert x, .remove a, .remove a, .insert x]
    s.routines = .empty ∧
    (s.performAll uses).2.routines.slots.size < 2 ^ 32 ∧
    (∀ slot ∈ (s.performAll uses).2.routines.slots, slot.vacated < 2 ^ 32) ∧
    ∃ b : Book Unit, Book.AllowsAll .blank uses
        [.named ⟨0, 0⟩, .found (some x), .found none, .named ⟨0, 1⟩] b ∧
      b.issued.Nodup ∧ (∀ c, (s.performAll uses).2.routines.find? c = b.entry c) := by
  intro s a x uses
  have hslots : (s.performAll uses).2.routines.slots.size < 2 ^ 32 := by decide
  have hvacated : ∀ slot ∈ (s.performAll uses).2.routines.slots, slot.vacated < 2 ^ 32 := by
    intro slot hslot
    have hall : (s.performAll uses).2.routines.slots = #[⟨1, some x⟩] := rfl
    rw [hall, Array.mem_singleton] at hslot
    rw [hslot]
    decide
  obtain ⟨b, hallows, hnodup, hentry, -⟩ := routines_refine_book s rfl uses hslots hvacated
  exact ⟨rfl, hslots, hvacated, b, hallows, hnodup, hentry⟩

end Strand
