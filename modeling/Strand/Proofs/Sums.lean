import Mathlib
import Strand.Proofs.Table

/-! # Sums — what the cells of a table add up to

    With a weight for each content, a table has a total weight. Changing one
    cell changes the total by as much, counting holders leaves it alone, and the
    last holder takes the weight of the content out. -/

namespace Strand.Table

variable {α : Type} {t t' : Table α}

/-- What a cell weighs; an empty one weighs nothing. -/
def weight (g : α → Nat) (content : Option α) : Nat := (content.map g).getD 0

/-- The weights of all cells, added up. -/
def total (g : α → Nat) (t : Table α) : Nat :=
  ∑ i ∈ Finset.range t.cells.size, weight g (t.find? i)

theorem find?_of_size_le {i : Nat} (h : t.cells.size ≤ i) : t.find? i = none := by
  cases hi : t.find? i with
  | none => rfl
  | some a => exact absurd (lt_size_of_find? hi) (Nat.not_lt.mpr h)

theorem total_congr (hsize : t'.cells.size = t.cells.size) (hsame : ∀ i, t'.find? i = t.find? i)
    (g : α → Nat) : t'.total g = t.total g := by
  rw [total, total, hsize]
  exact Finset.sum_congr rfl fun i _ => by rw [hsame]

/-- Where one cell is changed, the total changes by its weight. -/
theorem total_update (hsize : t'.cells.size = t.cells.size) {i : Nat}
    (hsame : ∀ j, j ≠ i → t'.find? j = t.find? j) (g : α → Nat) :
    t'.total g + weight g (t.find? i) = t.total g + weight g (t'.find? i) := by
  by_cases hi : i < t.cells.size
  · have hmem : i ∈ Finset.range t.cells.size := Finset.mem_range.mpr hi
    have hrest : ∑ j ∈ (Finset.range t.cells.size).erase i, weight g (t'.find? j) =
        ∑ j ∈ (Finset.range t.cells.size).erase i, weight g (t.find? j) :=
      Finset.sum_congr rfl fun j hj => by rw [hsame j (Finset.ne_of_mem_erase hj)]
    rw [total, total, hsize, ← Finset.add_sum_erase _ _ hmem, ← Finset.add_sum_erase _ _ hmem,
      hrest]
    omega
  · have hle := Nat.le_of_not_lt hi
    have hnone : t.find? i = none := find?_of_size_le hle
    have hnone' : t'.find? i = none := find?_of_size_le (hsize ▸ hle)
    rw [hnone, hnone', total_congr hsize fun j => ?_]
    by_cases hj : j = i
    · rw [hj, hnone, hnone']
    · exact hsame j hj

theorem total_modify (t : Table α) (i : Nat) (f : α → α) (g : α → Nat) :
    (t.modify i f).total g + weight g (t.find? i) = t.total g + weight g ((t.find? i).map f) := by
  have hupdate := total_update (size_cells_modify t i f)
    (fun j hj => by rw [find?_modify, if_neg hj]) g
  rwa [find?_modify, if_pos rfl] at hupdate

theorem total_set {i : Nat} {a : α} (h : t.find? i = some a) (b : α) (g : α → Nat) :
    (t.set i b).total g + g a = t.total g + g b := by
  have hmodify := total_modify t i (fun _ => b) g
  rw [h] at hmodify
  exact hmodify

theorem total_retain (t : Table α) (i : Nat) (g : α → Nat) : (t.retain i).total g = t.total g :=
  total_congr (size_cells_retain t i) (find?_retain t i) g

theorem total_alloc (t : Table α) (holders : Nat) (a : α) (g : α → Nat) :
    (t.alloc holders a).2.total g = t.total g + g a := by
  have hsum : ∑ i ∈ Finset.range t.cells.size, weight g ((t.alloc holders a).2.find? i) =
      t.total g := by
    refine Finset.sum_congr rfl fun i hi => ?_
    rw [find?_alloc, if_neg (Nat.ne_of_lt (Finset.mem_range.mp hi))]
  rw [total, size_cells_alloc, Finset.sum_range_succ, hsum, find?_alloc, if_pos rfl]
  rfl

/-- What is let go of for good is handed out. -/
theorem total_letGo (t : Table α) (i : Nat) (g : α → Nat) :
    (t.letGo i).2.total g + weight g (t.letGo i).1 = t.total g := by
  cases hgone : (t.letGo i).1 with
  | none => exact total_congr (size_cells_letGo t i) (find?_letGo_of_none hgone) g
  | some a =>
    obtain ⟨hfound, hafter⟩ := find?_letGo_of_some hgone
    have hupdate := total_update (size_cells_letGo t i)
      (fun j hj => by rw [hafter, if_neg hj]) g
    rwa [hafter, if_pos rfl, hfound] at hupdate

/-- One content is part of the total. -/
theorem le_total {i : Nat} {a : α} (h : t.find? i = some a) (g : α → Nat) : g a ≤ t.total g := by
  have hle := Finset.single_le_sum (f := fun i => weight g (t.find? i)) (fun _ _ => Nat.zero_le _)
    (Finset.mem_range.mpr (lt_size_of_find? h))
  have hweight : weight g (t.find? i) = g a := by
    rw [h]
    rfl
  exact hweight ▸ hle

/-! ### Holders -/

/-- How many holders a cell has; an empty one has none. -/
def holders (t : Table α) (i : Nat) : Nat := ((t.cell? i).map Cell.holders).getD 0

theorem cell?_modify (t : Table α) (i : Nat) (f : α → α) (j : Nat) :
    (t.modify i f).cell? j =
      if j = i then (t.cell? i).map fun c => { c with content := f c.content } else t.cell? j := by
  unfold modify
  split
  · next c hc => rw [cell?_set t i _ hc, hc, Option.map_some]
  · next hc =>
    split
    · next hj => rw [hj, hc, Option.map_none]
    · rfl

theorem cell?_retain (t : Table α) (i j : Nat) :
    (t.retain i).cell? j =
      if j = i then (t.cell? i).map fun c => { c with holders := c.holders + 1 } else t.cell? j := by
  unfold retain
  split
  · next c hc => rw [cell?_set t i _ hc, hc, Option.map_some]
  · next hc =>
    split
    · next hj => rw [hj, hc, Option.map_none]
    · rfl

theorem cell?_alloc (t : Table α) (holders : Nat) (a : α) (j : Nat) :
    (t.alloc holders a).2.cell? j = if j = t.cells.size then some ⟨holders, a⟩ else t.cell? j := by
  simp only [alloc, cell?, Array.getElem?_push]
  split <;> rfl

theorem cell?_of_find? {i : Nat} {a : α} (h : t.find? i = some a) :
    ∃ n, t.cell? i = some ⟨n, a⟩ := by
  rw [find?] at h
  obtain ⟨c, hc, rfl⟩ := Option.map_eq_some_iff.mp h
  exact ⟨c.holders, hc⟩

theorem find?_of_cell? {i : Nat} {c : Cell α} (h : t.cell? i = some c) : t.find? i = some c.content := by
  rw [find?, h]
  rfl

theorem find?_of_holders {i : Nat} (h : 0 < t.holders i) : ∃ a, t.find? i = some a := by
  rw [holders] at h
  cases hc : t.cell? i with
  | none =>
    rw [hc] at h
    exact absurd h (Nat.lt_irrefl 0)
  | some c => exact ⟨c.content, find?_of_cell? hc⟩

@[simp] theorem holders_modify (t : Table α) (i : Nat) (f : α → α) (j : Nat) :
    (t.modify i f).holders j = t.holders j := by
  rw [holders, cell?_modify]
  split
  · next hj =>
    subst hj
    rw [holders]
    cases t.cell? j <;> rfl
  · rfl

@[simp] theorem holders_set (t : Table α) (i : Nat) (a : α) (j : Nat) :
    (t.set i a).holders j = t.holders j :=
  holders_modify t i _ j

theorem holders_retain {i : Nat} {a : α} (h : t.find? i = some a) (j : Nat) :
    (t.retain i).holders j = t.holders j + if j = i then 1 else 0 := by
  obtain ⟨n, hc⟩ := cell?_of_find? h
  rw [holders, cell?_retain]
  split
  · next hj =>
    subst hj
    rw [holders, hc]
    rfl
  · rfl

theorem holders_alloc (t : Table α) (n : Nat) (a : α) (j : Nat) :
    (t.alloc n a).2.holders j = t.holders j + if j = t.cells.size then n else 0 := by
  rw [holders, cell?_alloc]
  split
  · next hj =>
    have hnone : t.cell? j = none := by
      rw [cell?, hj, Array.getElem?_eq_none (Nat.le_refl _)]
      rfl
    rw [holders, hnone]
    simp
  · rfl

/-- One holder less, as long as there was one. -/
theorem holders_letGo (t : Table α) (i j : Nat) :
    (t.letGo i).2.holders j = t.holders j - if j = i then 1 else 0 := by
  rw [holders, cell?_letGo]
  split
  · next hj =>
    subst hj
    rw [holders]
    cases hc : t.cell? j with
    | none => rfl
    | some c =>
      rw [Option.bind_some]
      split
      · next hle => simp; omega
      · rfl
  · rfl

/-- A cell with another holder is not emptied. -/
theorem gone_of_holders {i : Nat} (h : 2 ≤ t.holders i) : (t.letGo i).1 = none := by
  rw [fst_letGo]
  rw [holders] at h
  cases hc : t.cell? i with
  | none => rfl
  | some c =>
    rw [hc] at h
    have hmore : 2 ≤ c.holders := h
    rw [Option.bind_some, if_neg (Nat.not_le.mpr hmore)]

theorem set_of_cell? {i : Nat} {cell : Cell α}
    (h : t.cell? i = some cell) (a : α) :
    t.set i a = ⟨t.cells.setIfInBounds i (some { cell with content := a })⟩ := by
  unfold Table.set modify
  rw [h]

theorem set_set (t : Table α) (i : Nat) (a b : α) :
    (t.set i a).set i b = t.set i b := by
  cases hc : t.cell? i with
  | none =>
    have hsame : ∀ a, t.set i a = t := by
      intro a
      unfold Table.set modify
      rw [hc]
    rw [hsame a, hsame b]
  | some cell =>
    have hafter : (t.set i a).cell? i = some { cell with content := a } := by
      rw [cell?_replaced, if_pos rfl, hc]
      rfl
    rw [set_of_cell? hafter, set_of_cell? hc, set_of_cell? hc]
    simp

end Strand.Table
