import Strand.Store

/-! # Snapshots — captured frames as a value

    A snapshot remembers which routines were lifted and has a copy of each.
    Where a frame's parent was lifted with it, the copy's parent is a copy;
    otherwise the copy goes back under the parent that the frame had, if that
    routine is still there. -/

namespace Strand

/-- Where a frame's parent is, seen from the lifted routines `ids`. -/
def ParentPlace.of (ids : List RoutineId) (parent : Option RoutineId) : ParentPlace :=
  match parent.bind (fun p => ids.idxOf? p) with
  | some position => .inside position
  | none => .outside parent

/-- The routine at a place, once the frames of the snapshot stand at `ids`. -/
def ParentPlace.resolve (ids : List RoutineId) : ParentPlace → Option RoutineId
  | .inside position => ids[position]?
  | .outside parent => parent

/-- The snapshot of lifted frames and a copy of each. -/
def Snapshot.of {C : Type} (home : Nat) (lifted : List (Lifted C)) (copies : List (Script C)) :
    Snapshot C where
  home
  routines := some (lifted.map Lifted.id)
  frames :=
    List.zipWith
      (fun frame copy => ⟨frame.origin, copy, .of (lifted.map Lifted.id) frame.parent⟩)
      lifted copies

namespace Scheduler

variable {C : Type}

/-- Add a fresh routine for every frame, without parents. -/
def addCopies : List (FrameCopy C × Script C) → Scheduler C → List RoutineId × Scheduler C
  | [], s => ([], s)
  | (frame, copy) :: rest, s =>
    let (id, s) := s.add frame.origin copy
    let (ids, s) := addCopies rest s
    (id :: ids, s)

/-- Add a fresh routine for every frame and link them as the captured frames
    were linked. -/
def plant (s : Scheduler C) (frames : List (FrameCopy C)) (copies : List (Script C)) :
    List RoutineId × Scheduler C :=
  let (ids, s) := addCopies (frames.zip copies) s
  (ids, (frames.zip ids).foldl (fun s (frame, id) => s.link id (frame.parent.resolve ids)) s)

end Scheduler

end Strand
