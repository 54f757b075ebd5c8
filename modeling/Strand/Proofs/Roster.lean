import Mathlib
import Strand.Roster

/-! # Rosters — what the operations do to the entries that are found

    `find?` is the only view that the rest of the library has of a roster.
    Each operation is described by what it does to that view:

    * `modify` changes one entry and keeps the others;
    * `remove` takes one entry away and keeps the others;
    * `insert` adds one entry under a name that found nothing, as long as the
      32-bit index of a slot is enough to tell the slots apart.

    `Sound` is what makes the last one true: a vacant slot is listed once and
    has no entry. -/

namespace Strand.Roster

variable {α : Type}

/-! ### Slots behind identifiers -/

theorem slot?_eq_some {r : Roster α} {id : RoutineId} {slot : Slot α} :
    r.slot? id = some slot ↔
      r.slots[id.index.toNat]? = some slot ∧ slot.generation = id.generation := by
  simp only [slot?, Option.filter_eq_some_iff, decide_eq_true_eq]

theorem find?_eq_some {r : Roster α} {id : RoutineId} {e : α} :
    r.find? id = some e ↔
      ∃ v, r.slots[id.index.toNat]? = some ⟨v, some e⟩ ∧ UInt32.ofNat v = id.generation := by
  simp only [find?, Option.bind_eq_some_iff, slot?_eq_some]
  constructor
  · rintro ⟨⟨v, entry⟩, ⟨hslot, hgen⟩, rfl⟩
    exact ⟨v, hslot, hgen⟩
  · rintro ⟨v, hslot, hgen⟩
    exact ⟨⟨v, some e⟩, ⟨hslot, hgen⟩, rfl⟩

/-- What is found behind an identifier is decided by its slot alone. -/
theorem find?_of_slot {r : Roster α} {id : RoutineId} {slot : Slot α}
    (h : r.slots[id.index.toNat]? = some slot) :
    r.find? id = if UInt32.ofNat slot.vacated = id.generation then slot.entry else none := by
  by_cases hgen : UInt32.ofNat slot.vacated = id.generation
  · have hslot : r.slot? id = some slot := slot?_eq_some.mpr ⟨h, hgen⟩
    rw [find?, hslot, if_pos hgen]
    rfl
  · have hslot : r.slot? id = none := by
      simp only [slot?, h, Option.filter_some, decide_eq_true_eq]
      exact if_neg hgen
    rw [find?, hslot, if_neg hgen]
    rfl

theorem find?_of_no_slot {r : Roster α} {id : RoutineId}
    (h : r.slots[id.index.toNat]? = none) : r.find? id = none := by
  simp [find?, slot?, h]

theorem index_lt_of_slot {r : Roster α} {i : Nat} {slot : Slot α} (h : r.slots[i]? = some slot) :
    i < r.slots.size :=
  (Array.getElem?_eq_some_iff.mp h).1

theorem contains_iff {r : Roster α} {id : RoutineId} :
    r.contains id = true ↔ ∃ e, r.find? id = some e := by
  simp [contains, Option.isSome_iff_exists]

/-- The view of a roster with one slot replaced. -/
theorem find?_put {r : Roster α} {i : Nat} {slot : Slot α} {vacant : List UInt32} {size : Nat}
    (hlt : i < r.slots.size) (a : RoutineId) :
    find? ⟨r.slots.setIfInBounds i slot, vacant, size⟩ a =
      if a.index.toNat = i then
        if UInt32.ofNat slot.vacated = a.generation then slot.entry else none
      else r.find? a := by
  split
  · next hidx =>
    apply find?_of_slot
    rw [Array.getElem?_setIfInBounds, if_pos hidx.symm, if_pos hlt]
  · next hidx =>
    have hne : i ≠ a.index.toNat := fun h => hidx h.symm
    simp only [find?, slot?, Array.getElem?_setIfInBounds, if_neg hne]

/-- Two identifiers of one slot that both find an entry are the same. -/
theorem eq_of_index_eq {r : Roster α} {a b : RoutineId} {x y : α}
    (ha : r.find? a = some x) (hb : r.find? b = some y) (h : a.index = b.index) : a = b := by
  obtain ⟨v, hv, hga⟩ := find?_eq_some.mp ha
  obtain ⟨w, hw, hgb⟩ := find?_eq_some.mp hb
  rw [h, hw] at hv
  simp only [Option.some.injEq, Slot.mk.injEq] at hv
  obtain ⟨rfl, -⟩ := hv
  cases a
  cases b
  simp_all

/-- How often the slot of an identifier has been vacated. -/
def vacated (r : Roster α) (id : RoutineId) : Nat :=
  ((r.slots[id.index.toNat]?).map Slot.vacated).getD 0

/-- An identifier is stale once its slot has been vacated, until 32 bits are
    not enough to tell the generations apart. -/
theorem find?_of_vacated {r r' : Roster α} {a : RoutineId} {e : α} (h : r.find? a = some e)
    (hlt : r.vacated a < r'.vacated a) (hwrap : r'.vacated a < r.vacated a + 2 ^ 32) :
    r'.find? a = none := by
  obtain ⟨v, hv, hgen⟩ := find?_eq_some.mp h
  cases hslot : r'.slots[a.index.toNat]? with
  | none => exact find?_of_no_slot hslot
  | some slot =>
    rw [find?_of_slot hslot, if_neg]
    rw [← hgen]
    intro hsame
    have hmod := congrArg UInt32.toNat hsame
    simp only [vacated, hv, hslot, Option.map_some, Option.getD_some] at hlt hwrap
    simp only [UInt32.toNat_ofNat'] at hmod
    omega

/-! ### Changing an entry -/

theorem find?_modify (r : Roster α) (id : RoutineId) (f : α → α) (a : RoutineId) :
    (r.modify id f).find? a = if a = id then (r.find? a).map f else r.find? a := by
  unfold modify
  split
  · next slot hslot =>
    obtain ⟨hget, hgen⟩ := slot?_eq_some.mp hslot
    rw [find?_put (index_lt_of_slot hget)]
    by_cases hidx : a.index.toNat = id.index.toNat
    · have ha : a = id ↔ UInt32.ofNat slot.vacated = a.generation := by
        have hidx' := UInt32.toNat_inj.mp hidx
        rw [show UInt32.ofNat slot.vacated = id.generation from hgen]
        cases a
        cases id
        simp_all [eq_comm]
      rw [if_pos hidx, find?_of_slot (hidx ▸ hget)]
      by_cases hv : UInt32.ofNat slot.vacated = a.generation
      · rw [if_pos (ha.mpr hv), if_pos hv, if_pos hv]
      · rw [if_neg (fun h => hv (ha.mp h)), if_neg hv, if_neg hv]
    · have ha : a ≠ id := by
        rintro rfl
        exact hidx rfl
      rw [if_neg hidx, if_neg ha]
  · next hslot =>
    split
    · next ha => simp [find?, ha, hslot]
    · rfl

theorem contains_modify (r : Roster α) (id : RoutineId) (f : α → α) (a : RoutineId) :
    (r.modify id f).contains a = r.contains a := by
  simp only [contains, find?_modify]
  split <;> simp

@[simp] theorem size_slots_modify (r : Roster α) (id : RoutineId) (f : α → α) :
    (r.modify id f).slots.size = r.slots.size := by
  unfold modify
  split <;> simp

@[simp] theorem vacant_modify (r : Roster α) (id : RoutineId) (f : α → α) :
    (r.modify id f).vacant = r.vacant := by
  unfold modify
  split <;> rfl

@[simp] theorem size_modify (r : Roster α) (id : RoutineId) (f : α → α) :
    (r.modify id f).size = r.size := by
  unfold modify
  split <;> rfl

@[simp] theorem vacated_modify (r : Roster α) (id : RoutineId) (f : α → α) (a : RoutineId) :
    (r.modify id f).vacated a = r.vacated a := by
  unfold modify
  split
  · next slot hslot =>
    obtain ⟨hget, -⟩ := slot?_eq_some.mp hslot
    have hlt := index_lt_of_slot hget
    simp only [vacated, Array.getElem?_setIfInBounds, if_pos hlt]
    split
    · next hidx =>
      rw [← hidx, hget]
      rfl
    · rfl
  · rfl

/-! ### Removing an entry -/

theorem remove_eq_none {r : Roster α} {id : RoutineId} :
    r.remove id = none ↔ r.find? id = none := by
  simp only [remove, find?]
  split
  · next v e h => simp [h]
  · next h =>
    cases hs : r.slot? id with
    | none => simp
    | some slot =>
      obtain ⟨v, entry⟩ := slot
      cases entry with
      | none => simp
      | some e => exact absurd hs (h v e)

theorem find?_of_remove {r r' : Roster α} {id : RoutineId} {e : α}
    (h : r.remove id = some (e, r')) : r.find? id = some e := by
  unfold remove at h
  split at h
  · next v e' hslot =>
    simp only [Option.some.injEq, Prod.mk.injEq] at h
    simp [find?, hslot, h.1]
  · cases h

theorem remove_of_find? {r : Roster α} {id : RoutineId} {e : α} (h : r.find? id = some e) :
    ∃ r', r.remove id = some (e, r') := by
  cases hr : r.remove id with
  | none => simp [remove_eq_none.mp hr] at h
  | some pair =>
    obtain ⟨e', r'⟩ := pair
    have := find?_of_remove hr
    rw [h] at this
    cases this
    exact ⟨r', rfl⟩

/-- The slot that a removal vacates, and what becomes of the roster. -/
theorem remove_eq_some {r r' : Roster α} {id : RoutineId} {e : α}
    (h : r.remove id = some (e, r')) :
    ∃ v, r.slots[id.index.toNat]? = some ⟨v, some e⟩ ∧ UInt32.ofNat v = id.generation ∧
      r' = ⟨r.slots.setIfInBounds id.index.toNat ⟨v + 1, none⟩, id.index :: r.vacant,
        r.size - 1⟩ := by
  unfold remove at h
  split at h
  · next v e' hslot =>
    obtain ⟨hget, hgen⟩ := slot?_eq_some.mp hslot
    simp only [Option.some.injEq, Prod.mk.injEq] at h
    obtain ⟨rfl, rfl⟩ := h
    exact ⟨v, hget, hgen, rfl⟩
  · cases h

theorem find?_remove {r r' : Roster α} {id : RoutineId} {e : α}
    (h : r.remove id = some (e, r')) (a : RoutineId) :
    r'.find? a = if a = id then none else r.find? a := by
  obtain ⟨v, hget, hgen, rfl⟩ := remove_eq_some h
  rw [find?_put (index_lt_of_slot hget)]
  by_cases hidx : a.index.toNat = id.index.toNat
  · have ha : a = id ↔ UInt32.ofNat v = a.generation := by
      have hidx' := UInt32.toNat_inj.mp hidx
      cases a
      cases id
      simp_all [eq_comm]
    rw [if_pos hidx, find?_of_slot (hidx ▸ hget)]
    by_cases hv : UInt32.ofNat v = a.generation
    · rw [if_pos (ha.mpr hv), ite_self]
    · rw [if_neg (fun h => hv (ha.mp h)), if_neg hv, ite_self]
  · have ha : a ≠ id := by
      rintro rfl
      exact hidx rfl
    rw [if_neg hidx, if_neg ha]

@[simp] theorem size_slots_remove {r r' : Roster α} {id : RoutineId} {e : α}
    (h : r.remove id = some (e, r')) : r'.slots.size = r.slots.size := by
  obtain ⟨v, -, -, rfl⟩ := remove_eq_some h
  simp

theorem vacated_remove {r r' : Roster α} {id : RoutineId} {e : α}
    (h : r.remove id = some (e, r')) (a : RoutineId) :
    r'.vacated a = if a.index = id.index then r.vacated a + 1 else r.vacated a := by
  obtain ⟨v, hget, -, rfl⟩ := remove_eq_some h
  have hlt := index_lt_of_slot hget
  simp only [vacated, Array.getElem?_setIfInBounds]
  by_cases hidx : id.index.toNat = a.index.toNat
  · rw [if_pos (UInt32.toNat_inj.mp hidx).symm, if_pos hidx, if_pos hlt, ← hidx, hget]
    rfl
  · have hne : a.index ≠ id.index := fun h => hidx (by rw [h])
    rw [if_neg hidx, if_neg hne]

/-! ### Weighing the entries -/

/-- The sum of `g` over all entries. -/
def total (r : Roster α) (g : α → Nat) : Nat := (r.entries.map g).sum

/-- What a slot adds to a total. -/
def weight (g : α → Nat) (slot : Slot α) : Nat := (slot.entry.map g).getD 0

theorem total_eq (r : Roster α) (g : α → Nat) :
    r.total g = (r.slots.toList.map (weight g)).sum := by
  simp only [total, entries]
  induction r.slots.toList with
  | nil => rfl
  | cons slot slots ih =>
    cases h : slot.entry with
    | none => simp [h, weight, ih]
    | some e => simp [h, weight, ih]

private theorem sum_set {l : List Nat} {i n : Nat} (h : i < l.length) :
    (l.set i n).sum + l[i] = l.sum + n := by
  induction l generalizing i with
  | nil => simp at h
  | cons a l ih =>
    cases i with
    | zero => simp; omega
    | succ i =>
      have := ih (i := i) (by simpa using h)
      simp
      omega

/-- A total with one slot replaced. -/
theorem total_put {r : Roster α} {i : Nat} {old : Slot α} (slot : Slot α)
    (vacant : List UInt32) (size : Nat) (h : r.slots[i]? = some old) (g : α → Nat) :
    total ⟨r.slots.setIfInBounds i slot, vacant, size⟩ g + weight g old =
      r.total g + weight g slot := by
  obtain ⟨hlt, hget⟩ := Array.getElem?_eq_some_iff.mp h
  rw [total_eq, total_eq]
  simp only [Array.toList_setIfInBounds, List.map_set]
  have hlt' : i < (r.slots.toList.map (weight g)).length := by simpa using hlt
  have := sum_set (n := weight g slot) hlt'
  simp only [List.getElem_map, Array.getElem_toList, hget] at this
  exact this

theorem total_remove {r r' : Roster α} {id : RoutineId} {e : α}
    (h : r.remove id = some (e, r')) (g : α → Nat) : r'.total g + g e = r.total g := by
  obtain ⟨v, hget, -, rfl⟩ := remove_eq_some h
  simpa [weight] using total_put ⟨v + 1, none⟩ (id.index :: r.vacant) (r.size - 1) hget g

/-- A change of one entry changes the total by what that entry weighs. -/
theorem total_modify {r : Roster α} {id : RoutineId} {e : α} (h : r.find? id = some e)
    (f : α → α) (g : α → Nat) : (r.modify id f).total g + g e = r.total g + g (f e) := by
  obtain ⟨v, hget, hgen⟩ := find?_eq_some.mp h
  have hslot : r.slot? id = some ⟨v, some e⟩ := slot?_eq_some.mpr ⟨hget, hgen⟩
  simp only [modify, hslot]
  simpa [weight] using total_put ⟨v, some (f e)⟩ r.vacant r.size hget g

theorem modify_of_find?_eq_none {r : Roster α} {id : RoutineId} (h : r.find? id = none)
    (f : α → α) (g : α → Nat) : (r.modify id f).total g = r.total g := by
  unfold modify
  split
  · next slot hslot =>
    have hget := (slot?_eq_some.mp hslot).1
    have hentry : slot.entry = none := by simpa [find?, hslot] using h
    have := total_put { slot with entry := slot.entry.map f } r.vacant r.size hget g
    simpa [weight, hentry] using this
  · rfl

/-! ### Inserting an entry -/

/-- What every operation keeps true of a roster. -/
structure Sound (r : Roster α) : Prop where
  /-- A vacant slot is listed once. -/
  nodup : r.vacant.Nodup
  /-- A vacant slot has no entry. -/
  vacant : ∀ i ∈ r.vacant, ∃ v, r.slots[i.toNat]? = some ⟨v, none⟩
  /-- The entries are counted. -/
  counted : r.size = r.entries.length

theorem length_entries (r : Roster α) : r.entries.length = r.total fun _ => 1 := by
  simp [total]

theorem sound_empty : (empty : Roster α).Sound :=
  ⟨List.nodup_nil, by simp [empty], rfl⟩

theorem Sound.modify {r : Roster α} (h : r.Sound) (id : RoutineId) (f : α → α) :
    (r.modify id f).Sound := by
  refine ⟨by simpa using h.nodup, ?_, ?_⟩
  · intro i hi
    rw [vacant_modify] at hi
    obtain ⟨v, hv⟩ := h.vacant i hi
    unfold Roster.modify
    split
    · next slot hslot =>
      obtain ⟨hget, -⟩ := slot?_eq_some.mp hslot
      simp only [Array.getElem?_setIfInBounds, if_pos (index_lt_of_slot hget)]
      split
      · next hidx =>
        rw [hidx, hv, Option.some.injEq] at hget
        exact ⟨v, by simp [← hget]⟩
      · exact ⟨v, hv⟩
    · exact ⟨v, hv⟩
  · rw [size_modify, h.counted, length_entries, length_entries]
    cases hfind : r.find? id with
    | none => rw [modify_of_find?_eq_none hfind]
    | some e =>
      have := total_modify hfind f fun _ => 1
      omega

theorem Sound.remove {r r' : Roster α} (h : r.Sound) {id : RoutineId} {e : α}
    (hr : r.remove id = some (e, r')) : r'.Sound := by
  have htotal := total_remove hr fun _ => 1
  obtain ⟨v, hget, hgen, rfl⟩ := remove_eq_some hr
  refine ⟨?_, ?_, ?_⟩
  · refine List.nodup_cons.mpr ⟨?_, h.nodup⟩
    intro hmem
    obtain ⟨w, hw⟩ := h.vacant _ hmem
    rw [hget] at hw
    simp at hw
  · intro i hi
    simp only [Array.getElem?_setIfInBounds, if_pos (index_lt_of_slot hget)]
    split
    · exact ⟨v + 1, rfl⟩
    · next hidx =>
      rcases List.mem_cons.mp hi with rfl | hi
      · exact absurd rfl hidx
      · exact h.vacant i hi
  · have hcounted := h.counted
    simp only [length_entries] at hcounted ⊢
    omega

/-- Nothing was found in the slot of a new entry before. -/
theorem Sound.find?_insert_slot {r : Roster α} (h : r.Sound) (e : α)
    (hroom : (r.insert e).2.slots.size ≤ 2 ^ 32) {a : RoutineId}
    (ha : a.index = (r.insert e).1.index) : r.find? a = none := by
  unfold insert at hroom ha
  split at hroom
  · next index vacant hvacant =>
    obtain ⟨v, hv⟩ := h.vacant index (by simp [hvacant])
    simp only [hvacant, hv] at ha
    rw [find?_of_slot (ha ▸ hv)]
    simp
  · next hvacant =>
    apply find?_of_no_slot
    simp only [hvacant, Array.size_push] at hroom ha
    have hidx : (UInt32.ofNat r.slots.size).toNat = r.slots.size := by
      rw [UInt32.toNat_ofNat', Nat.mod_eq_of_lt (by omega)]
    rw [ha]
    exact Array.getElem?_eq_none (Nat.le_of_eq hidx.symm)

/-- The name of a new entry found nothing before. -/
theorem Sound.find?_insert_fst {r : Roster α} (h : r.Sound) (e : α)
    (hroom : (r.insert e).2.slots.size ≤ 2 ^ 32) : r.find? (r.insert e).1 = none :=
  h.find?_insert_slot e hroom rfl

/-- A new entry is found under its name, and all others as before. -/
theorem Sound.find?_insert {r : Roster α} (h : r.Sound) (e : α)
    (hroom : (r.insert e).2.slots.size ≤ 2 ^ 32) (a : RoutineId) :
    (r.insert e).2.find? a = if a = (r.insert e).1 then some e else r.find? a := by
  unfold insert at hroom ⊢
  split
  · next index vacant hvacant =>
    obtain ⟨v, hv⟩ := h.vacant index (by simp [hvacant])
    simp only [hv]
    rw [find?_put (index_lt_of_slot hv)]
    by_cases hidx : a.index.toNat = index.toNat
    · have ha : a = ⟨index, UInt32.ofNat v⟩ ↔ UInt32.ofNat v = a.generation := by
        have hidx' := UInt32.toNat_inj.mp hidx
        cases a
        simp_all [eq_comm]
      rw [if_pos hidx, find?_of_slot (hidx ▸ hv)]
      by_cases hgen : UInt32.ofNat v = a.generation
      · rw [if_pos hgen]
        exact (if_pos (ha.mpr hgen)).symm
      · rw [if_neg hgen, if_neg hgen]
        exact (if_neg fun h => hgen (ha.mp h)).symm
    · have ha : a ≠ ⟨index, Slot.generation (⟨v, none⟩ : Slot α)⟩ := by
        rintro rfl
        exact hidx rfl
      rw [if_neg hidx, if_neg ha]
  · next hvacant =>
    simp only [hvacant, Array.size_push] at hroom
    have hidx : (UInt32.ofNat r.slots.size).toNat = r.slots.size := by
      rw [UInt32.toNat_ofNat', Nat.mod_eq_of_lt (by omega)]
    by_cases ha : a.index.toNat = r.slots.size
    · have hslot : (r.slots.push ⟨0, some e⟩)[a.index.toNat]? = some ⟨0, some e⟩ := by
        rw [ha, Array.getElem?_push_size]
      have hnone : r.find? a = none :=
        find?_of_no_slot (by rw [ha, Array.getElem?_eq_none (Nat.le_refl _)])
      have hid : a = ⟨UInt32.ofNat r.slots.size, 0⟩ ↔ UInt32.ofNat 0 = a.generation := by
        have hidx' : a.index = UInt32.ofNat r.slots.size :=
          UInt32.toNat_inj.mp (by rw [ha, hidx])
        constructor
        · rintro rfl
          rfl
        · intro hgen
          cases a
          exact congrArg₂ RoutineId.mk hidx' hgen.symm
      rw [find?_of_slot hslot, hnone]
      by_cases hv : UInt32.ofNat 0 = a.generation
      · rw [if_pos hv, if_pos (hid.mpr hv)]
      · rw [if_neg hv, if_neg (fun h => hv (hid.mp h))]
    · have hne : a ≠ ⟨UInt32.ofNat r.slots.size, 0⟩ := by
        rintro rfl
        exact ha hidx
      rw [if_neg hne]
      simp only [find?, slot?, Array.getElem?_push, if_neg ha]

/-- A vacant slot is taken before a new one is made. -/
theorem Sound.size_slots_insert {r : Roster α} (h : r.Sound) (e : α) :
    (r.insert e).2.slots.size = if r.vacant = [] then r.slots.size + 1 else r.slots.size := by
  unfold insert
  split
  · next index vacant hvacant =>
    obtain ⟨v, hv⟩ := h.vacant index (by simp [hvacant])
    simp [hv, hvacant]
  · next hvacant => simp [hvacant]

theorem size_slots_le_insert (r : Roster α) (e : α) :
    r.slots.size ≤ (r.insert e).2.slots.size := by
  unfold insert
  split
  · split <;> simp
  · simp

theorem vacated_insert (r : Roster α) (e : α) (a : RoutineId) :
    r.vacated a ≤ (r.insert e).2.vacated a := by
  unfold insert
  split
  · next index vacant hvacant =>
    split
    · next slot hslot =>
      simp only [vacated, Array.getElem?_setIfInBounds, if_pos (index_lt_of_slot hslot)]
      split
      · next hidx => simp [← hidx, hslot]
      · exact Nat.le_refl _
    · exact Nat.le_refl _
  · simp only [vacated, Array.getElem?_push]
    split
    · next ha => simp [ha]
    · exact Nat.le_refl _

theorem Sound.insert {r : Roster α} (h : r.Sound) (e : α) : (r.insert e).2.Sound := by
  have hcounted := h.counted
  rw [length_entries] at hcounted
  unfold Roster.insert
  split
  · next index vacant hvacant =>
    obtain ⟨v, hv⟩ := h.vacant index (by simp [hvacant])
    have hnodup := h.nodup
    rw [hvacant, List.nodup_cons] at hnodup
    simp only [hv]
    refine ⟨hnodup.2, ?_, ?_⟩
    · intro i hi
      have hne : index.toNat ≠ i.toNat := by
        intro heq
        exact hnodup.1 (UInt32.toNat_inj.mp heq ▸ hi)
      simp only [Array.getElem?_setIfInBounds, if_neg hne]
      exact h.vacant i (by simp [hvacant, hi])
    · have := total_put ⟨v, some e⟩ vacant (r.size + 1) hv fun _ => 1
      simp only [weight, Option.map_none, Option.map_some, Option.getD_none,
        Option.getD_some] at this
      rw [length_entries]
      show r.size + 1 = _
      omega
  · next hvacant =>
    refine ⟨List.nodup_nil, by simp, ?_⟩
    simp [entries, h.counted]

end Strand.Roster

/-! ### The identifier that a vacated slot is known by next -/

namespace Strand.RoutineId

/-- The same slot, vacated once more. -/
def next (id : RoutineId) : RoutineId := ⟨id.index, id.generation + 1⟩

theorem next_ne (id : RoutineId) : id.next ≠ id := by
  intro h
  have hgen : id.generation + 1 = id.generation := congrArg RoutineId.generation h
  have := congrArg UInt32.toNat hgen
  rw [UInt32.toNat_add] at this
  have hlt := id.generation.toNat_lt
  simp only [UInt32.toNat_one] at this
  omega

theorem next_injective {a b : RoutineId} (h : a.next = b.next) : a = b := by
  have hidx : a.next.index = b.next.index := congrArg RoutineId.index h
  have hgen : a.next.generation = b.next.generation := congrArg RoutineId.generation h
  simp only [next] at hidx hgen
  cases a
  cases b
  simp_all

end Strand.RoutineId

namespace Strand.Roster

variable {α : Type}

theorem find?_next {r : Roster α} {id : RoutineId} {e : α} (h : r.find? id = some e) :
    r.find? id.next = none := by
  cases hnext : r.find? id.next with
  | none => rfl
  | some x => exact absurd (eq_of_index_eq hnext h rfl) (RoutineId.next_ne id)

theorem find?_of_next {r : Roster α} {id : RoutineId} {e : α} (h : r.find? id.next = some e) :
    r.find? id = none := by
  cases hid : r.find? id with
  | none => rfl
  | some x => exact absurd (eq_of_index_eq h hid rfl) (RoutineId.next_ne id)

/-- A slot that was vacated just now is the next to be taken. -/
theorem insert_fst_of_remove {r r' : Roster α} {id : RoutineId} {e : α}
    (h : r.remove id = some (e, r')) (x : α) : (r'.insert x).1 = id.next := by
  obtain ⟨v, hget, hgen, rfl⟩ := remove_eq_some h
  have hlt := index_lt_of_slot hget
  simp only [insert, Array.getElem?_setIfInBounds, if_pos hlt, if_true]
  refine congrArg (RoutineId.mk id.index) ?_
  show UInt32.ofNat (v + 1) = id.generation + 1
  rw [← hgen, UInt32.ofNat_add]
  rfl

theorem size_slots_insert_of_remove {r r' : Roster α} {id : RoutineId} {e : α} (hs : r.Sound)
    (h : r.remove id = some (e, r')) (x : α) : (r'.insert x).2.slots.size = r.slots.size := by
  rw [(hs.remove h).size_slots_insert, size_slots_remove h, if_neg]
  obtain ⟨v, -, -, rfl⟩ := remove_eq_some h
  exact List.cons_ne_nil _ _

theorem map_vacated_modify (r : Roster α) (id : RoutineId) (f : α → α) (i : Nat) :
    ((r.modify id f).slots[i]?).map Slot.vacated = (r.slots[i]?).map Slot.vacated := by
  unfold modify
  split
  · next slot hslot =>
    obtain ⟨hget, -⟩ := slot?_eq_some.mp hslot
    simp only [Array.getElem?_setIfInBounds, if_pos (index_lt_of_slot hget)]
    split
    · next hidx => rw [← hidx, hget]; rfl
    · rfl
  · rfl

/-- The identifier of a new entry does not depend on the entry. -/
theorem insert_fst_congr (r : Roster α) (x y : α) : (r.insert x).1 = (r.insert y).1 := by
  unfold insert
  split
  · split <;> rfl
  · rfl

/-- Changing an entry does not change which slot is taken next. -/
theorem insert_fst_modify (r : Roster α) (id : RoutineId) (f : α → α) (x : α) :
    ((r.modify id f).insert x).1 = (r.insert x).1 := by
  unfold insert
  rw [vacant_modify]
  split
  · next index vacant _ =>
    have hmap := map_vacated_modify r id f index.toNat
    cases hold : r.slots[index.toNat]? with
    | none =>
      rw [hold, Option.map_none, Option.map_eq_none_iff] at hmap
      rw [hmap]
    | some slot =>
      rw [hold, Option.map_some, Option.map_eq_some_iff] at hmap
      obtain ⟨slot', hslot', hgen⟩ := hmap
      rw [hslot']
      simp only [Slot.generation, hgen]
  · rw [size_slots_modify]

/-! ### Slots are never given up -/

/-- No slot is lost, and none goes back to an earlier generation. -/
structure Grows (r r' : Roster α) : Prop where
  slots : r.slots.size ≤ r'.slots.size
  vacated : ∀ a, r.vacated a ≤ r'.vacated a

theorem Grows.refl (r : Roster α) : Grows r r := ⟨Nat.le_refl _, fun _ => Nat.le_refl _⟩

theorem Grows.trans {r t u : Roster α} (h : Grows r t) (h' : Grows t u) : Grows r u :=
  ⟨Nat.le_trans h.slots h'.slots, fun a => Nat.le_trans (h.vacated a) (h'.vacated a)⟩

theorem grows_modify (r : Roster α) (id : RoutineId) (f : α → α) : Grows r (r.modify id f) := by
  refine ⟨Nat.le_of_eq (size_slots_modify r id f).symm, ?_⟩
  intro a
  exact Nat.le_of_eq (vacated_modify r id f a).symm

theorem grows_insert (r : Roster α) (e : α) : Grows r (r.insert e).2 :=
  ⟨size_slots_le_insert r e, vacated_insert r e⟩

theorem grows_remove {r r' : Roster α} {id : RoutineId} {e : α}
    (h : r.remove id = some (e, r')) : Grows r r' := by
  refine ⟨Nat.le_of_eq (size_slots_remove h).symm, ?_⟩
  intro a
  rw [vacated_remove h]
  split <;> omega

/-! ### What changing, inserting and removing entries keeps true -/

/-- Whatever happens to the entries of a roster leaves `P` true. -/
structure Closed (P : Roster α → Prop) : Prop where
  modify : ∀ {r : Roster α} (id : RoutineId) (f : α → α), P r → P (r.modify id f)
  insert : ∀ {r : Roster α} (e : α), P r → P (r.insert e).2
  remove : ∀ {r r' : Roster α} {id : RoutineId} {e : α}, r.remove id = some (e, r') → P r → P r'

theorem closed_grows (r : Roster α) : Closed (Grows r) :=
  ⟨fun id f h => h.trans (grows_modify _ id f), fun e h => h.trans (grows_insert _ e),
    fun hr h => h.trans (grows_remove hr)⟩

theorem closed_sound : Closed (Sound : Roster α → Prop) :=
  ⟨fun id f h => h.modify id f, fun e h => h.insert e, fun hr h => h.remove hr⟩

end Strand.Roster
