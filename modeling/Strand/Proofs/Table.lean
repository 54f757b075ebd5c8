import Mathlib
import Strand.Table

/-! # Tables — what the operations do to the contents that are found

    As with rosters, `find?` is the view. Counting holders leaves it alone,
    until the last one lets go; a cell that has been emptied stays empty,
    because new cells get new numbers. -/

namespace Strand.Table

variable {α : Type}

theorem cell?_set (t : Table α) (i : Nat) (c : Option (Cell α)) {old : Cell α}
    (h : t.cell? i = some old) (j : Nat) :
    (⟨t.cells.setIfInBounds i c⟩ : Table α).cell? j = if j = i then c else t.cell? j := by
  have hlt : i < t.cells.size := by
    by_contra hge
    rw [cell?, Array.getElem?_eq_none (Nat.le_of_not_lt hge)] at h
    cases h
  simp only [cell?, Array.getElem?_setIfInBounds, if_pos hlt]
  by_cases hj : j = i
  · rw [if_pos hj.symm, if_pos hj]
    rfl
  · rw [if_neg (fun h => hj h.symm), if_neg hj]

theorem find?_modify (t : Table α) (i : Nat) (f : α → α) (j : Nat) :
    (t.modify i f).find? j = if j = i then (t.find? j).map f else t.find? j := by
  unfold modify
  split
  · next c hc =>
    rw [find?, cell?_set t i _ hc]
    split
    · next hj => rw [find?, hj, hc]; rfl
    · rfl
  · next hc =>
    split
    · next hj => rw [find?, hj, hc]; rfl
    · rfl

theorem find?_set (t : Table α) (i : Nat) (a : α) (j : Nat) :
    (t.set i a).find? j = if j = i then (t.find? j).map fun _ => a else t.find? j :=
  find?_modify t i _ j

@[simp] theorem find?_retain (t : Table α) (i j : Nat) : (t.retain i).find? j = t.find? j := by
  unfold retain
  split
  · next c hc =>
    rw [find?, cell?_set t i _ hc]
    split
    · next hj => rw [find?, hj, hc]; rfl
    · rfl
  · rfl

/-- Letting go empties at most the one cell. -/
theorem find?_letGo (t : Table α) (i j : Nat) :
    (t.letGo i).2.find? j = t.find? j ∨ (j = i ∧ (t.letGo i).2.find? j = none) := by
  unfold letGo
  split
  · next c hc =>
    split
    · rw [find?, cell?_set t i _ hc]
      split
      · next hj => exact Or.inr ⟨hj, rfl⟩
      · exact Or.inl rfl
    · rw [find?, cell?_set t i _ hc]
      split
      · next hj => exact Or.inl (by rw [find?, hj, hc]; rfl)
      · exact Or.inl rfl
  · exact Or.inl rfl

theorem cell?_replaced (t : Table α) (i : Nat) (a : α) (j : Nat) :
    (t.set i a).cell? j =
      if j = i then (t.cell? i).map fun c => { c with content := a } else t.cell? j := by
  unfold Table.set modify
  split
  · next c hc => rw [cell?_set t i _ hc, hc, Option.map_some]
  · next hc =>
    split
    · next hj => rw [hj, hc, Option.map_none]
    · rfl

theorem cell?_letGo (t : Table α) (i j : Nat) :
    (t.letGo i).2.cell? j = if j = i then (t.cell? i).bind fun c =>
      if c.holders ≤ 1 then none else some { c with holders := c.holders - 1 }
    else t.cell? j := by
  unfold letGo
  split
  · next c hc =>
    rw [hc, Option.bind_some]
    split
    · rw [cell?_set t i _ hc]
    · rw [cell?_set t i _ hc]
  · next hc =>
    split
    · next hj => rw [hj, hc, Option.bind_none]
    · rfl

theorem fst_letGo (t : Table α) (i : Nat) :
    (t.letGo i).1 = (t.cell? i).bind fun c => if c.holders ≤ 1 then some c.content else none := by
  unfold letGo
  split
  · next c hc =>
    rw [hc, Option.bind_some]
    split <;> rfl
  · next hc => rw [hc, Option.bind_none]

/-- The cell is still there. -/
theorem find?_letGo_of_none {t : Table α} {i : Nat} (h : (t.letGo i).1 = none) (j : Nat) :
    (t.letGo i).2.find? j = t.find? j := by
  rw [fst_letGo] at h
  rw [find?, cell?_letGo]
  split
  · next hj =>
    subst hj
    rw [find?]
    cases hc : t.cell? j with
    | none => rfl
    | some c =>
      rw [hc, Option.bind_some] at h
      by_cases hlast : c.holders ≤ 1
      · rw [if_pos hlast] at h
        cases h
      · rw [Option.bind_some, if_neg hlast]
        rfl
  · rfl

/-- The last holder has let go. -/
theorem find?_letGo_of_some {t : Table α} {i : Nat} {a : α} (h : (t.letGo i).1 = some a) :
    t.find? i = some a ∧ ∀ j, (t.letGo i).2.find? j = if j = i then none else t.find? j := by
  rw [fst_letGo] at h
  obtain ⟨c, hc, hlast⟩ := Option.bind_eq_some_iff.mp h
  split at hlast
  · next hle =>
    cases hlast
    refine ⟨by rw [find?, hc]; rfl, fun j => ?_⟩
    rw [find?, cell?_letGo]
    split
    · rw [hc, Option.bind_some, if_pos hle]
      rfl
    · rfl
  · cases hlast

theorem find?_alloc (t : Table α) (holders : Nat) (a : α) (j : Nat) :
    (t.alloc holders a).2.find? j = if j = t.cells.size then some a else t.find? j := by
  simp only [alloc, find?, cell?, Array.getElem?_push]
  split <;> rfl

theorem lt_size_of_find? {t : Table α} {i : Nat} {a : α} (h : t.find? i = some a) :
    i < t.cells.size := by
  by_contra hge
  rw [find?, cell?, Array.getElem?_eq_none (Nat.le_of_not_lt hge)] at h
  cases h

@[simp] theorem size_cells_modify (t : Table α) (i : Nat) (f : α → α) :
    (t.modify i f).cells.size = t.cells.size := by
  unfold modify
  split <;> simp

@[simp] theorem size_cells_set (t : Table α) (i : Nat) (a : α) :
    (t.set i a).cells.size = t.cells.size :=
  size_cells_modify t i _

@[simp] theorem size_cells_retain (t : Table α) (i : Nat) :
    (t.retain i).cells.size = t.cells.size := by
  unfold retain
  split <;> simp

@[simp] theorem size_cells_letGo (t : Table α) (i : Nat) :
    (t.letGo i).2.cells.size = t.cells.size := by
  unfold letGo
  split
  · split <;> simp
  · rfl

@[simp] theorem size_cells_alloc (t : Table α) (holders : Nat) (a : α) :
    (t.alloc holders a).2.cells.size = t.cells.size + 1 := by
  simp [alloc]

end Strand.Table
