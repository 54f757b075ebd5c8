/-! # Tables — counted cells

    Cells that handles refer to by number. Each cell counts its holders and
    is emptied for good when the last one lets go; numbers are never used
    again. -/

namespace Strand

/-- A cell with the number of handles to it. -/
structure Cell (α : Type) where
  holders : Nat
  content : α

/-- Cells by number. -/
structure Table (α : Type) where
  cells : Array (Option (Cell α))

namespace Table

variable {α : Type}

def empty : Table α := ⟨#[]⟩

instance : Inhabited (Table α) := ⟨empty⟩

/-- The cell of a number, unless it has been emptied. -/
def cell? (t : Table α) (i : Nat) : Option (Cell α) := t.cells[i]?.join

/-- The content of a cell. -/
def find? (t : Table α) (i : Nat) : Option α := (t.cell? i).map Cell.content

/-- Whether a cell still has a holder. -/
def contains (t : Table α) (i : Nat) : Bool := (t.cell? i).isSome

/-- A new cell. -/
def alloc (t : Table α) (holders : Nat) (content : α) : Nat × Table α :=
  (t.cells.size, ⟨t.cells.push (some ⟨holders, content⟩)⟩)

/-- Change the content of a cell. -/
def modify (t : Table α) (i : Nat) (f : α → α) : Table α :=
  match t.cell? i with
  | some c => ⟨t.cells.setIfInBounds i (some { c with content := f c.content })⟩
  | none => t

/-- Replace the content of a cell. -/
def set (t : Table α) (i : Nat) (content : α) : Table α := t.modify i fun _ => content

/-- Count one more holder. -/
def retain (t : Table α) (i : Nat) : Table α :=
  match t.cell? i with
  | some c => ⟨t.cells.setIfInBounds i (some { c with holders := c.holders + 1 })⟩
  | none => t

/-- Count one holder less. If it was the last, the cell is emptied and its
    content handed out. -/
def letGo (t : Table α) (i : Nat) : Option α × Table α :=
  match t.cell? i with
  | some c =>
    if c.holders ≤ 1 then (some c.content, ⟨t.cells.setIfInBounds i none⟩)
    else (none, ⟨t.cells.setIfInBounds i (some { c with holders := c.holders - 1 })⟩)
  | none => (none, t)

end Table

end Strand
