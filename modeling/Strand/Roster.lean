/-! # Roster — slots with generations

    A roster keeps entries in numbered slots. A slot that is vacated is used
    again, most recently vacated first, under the next generation, so an
    identifier that outlives its entry finds nothing.

    * `find?` is the view of a roster: the entry behind an identifier.
    * `insert` and `remove` are the only operations that change which
      identifiers find an entry. -/

namespace Strand

/-- Names one entry of a roster for as long as that entry lives. -/
structure RoutineId where
  index : UInt32
  generation : UInt32
deriving DecidableEq, Repr, Inhabited

/-- The written form, `#index.generation`. -/
def RoutineId.text (id : RoutineId) : String :=
  "#" ++ toString id.index ++ "." ++ toString id.generation

/-- One place of a roster. -/
structure Slot (α : Type) where
  /-- How many times the place has been vacated. -/
  vacated : Nat
  entry : Option α

/-- The generation under which a slot's entry is known: the number of times
    it has been vacated, as a word. -/
def Slot.generation {α : Type} (slot : Slot α) : UInt32 := UInt32.ofNat slot.vacated

/-- Entries in reusable slots. -/
structure Roster (α : Type) where
  slots : Array (Slot α)
  /-- The vacant slots, most recently vacated first. -/
  vacant : List UInt32
  /-- How many entries there are. -/
  size : Nat

namespace Roster

variable {α : Type}

def empty : Roster α := ⟨#[], [], 0⟩

instance : Inhabited (Roster α) := ⟨empty⟩

/-- The slot that an identifier belongs to, if its generation is current. -/
def slot? (r : Roster α) (id : RoutineId) : Option (Slot α) :=
  r.slots[id.index.toNat]?.filter fun slot => slot.generation = id.generation

/-- The entry behind an identifier. -/
def find? (r : Roster α) (id : RoutineId) : Option α :=
  (r.slot? id).bind Slot.entry

def contains (r : Roster α) (id : RoutineId) : Bool := (r.find? id).isSome

/-- Change the entry behind an identifier; a stale identifier changes nothing. -/
def modify (r : Roster α) (id : RoutineId) (f : α → α) : Roster α :=
  match r.slot? id with
  | some slot =>
    { r with slots := r.slots.setIfInBounds id.index.toNat { slot with entry := slot.entry.map f } }
  | none => r

/-- Put an entry into the most recently vacated slot, or into a new one. -/
def insert (r : Roster α) (entry : α) : RoutineId × Roster α :=
  match r.vacant with
  | index :: vacant =>
    match r.slots[index.toNat]? with
    | some slot =>
      (⟨index, slot.generation⟩,
        { slots := r.slots.setIfInBounds index.toNat { slot with entry := some entry }
          vacant
          size := r.size + 1 })
    | none => (⟨index, 0⟩, { r with vacant })
  | [] =>
    (⟨UInt32.ofNat r.slots.size, 0⟩,
      { slots := r.slots.push ⟨0, some entry⟩, vacant := [], size := r.size + 1 })

/-- Take the entry behind an identifier out; every copy of the identifier is
    stale from then on. -/
def remove (r : Roster α) (id : RoutineId) : Option (α × Roster α) :=
  match r.slot? id with
  | some ⟨vacated, some entry⟩ =>
    some (entry,
      { slots := r.slots.setIfInBounds id.index.toNat ⟨vacated + 1, none⟩
        vacant := id.index :: r.vacant
        size := r.size - 1 })
  | _ => none

/-- The entries in slot order. -/
def entries (r : Roster α) : List α := r.slots.toList.filterMap Slot.entry

end Roster

end Strand
