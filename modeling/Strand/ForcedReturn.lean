import Strand.Value

/-! # Forced returns

    A routine whose parent finishes is made to return. The first time it is
    fed, its script is told to exit; after that its script is fed whatever
    the cleanup asked for.

    A failure that is fed in is remembered and replaced by unit, so the
    cleanup never sees it, and it becomes the result in the end: failures
    keep flowing through a sweep. A failure of the cleanup itself wins. -/

namespace Strand

/-- How far a forced return has come. -/
structure ForcedReturn where
  /-- Whether the script has been told to exit. -/
  started : Bool
  /-- The last failure that was fed in, or unit. -/
  output : Outcome Value

namespace ForcedReturn

/-- A forced return that has not begun. -/
def initial : ForcedReturn := ⟨false, .unit⟩

/-- The forced return after it was fed `input`. -/
def next (f : ForcedReturn) : Outcome Value → ForcedReturn
  | .failure e => ⟨true, .failure e⟩
  | .success _ => ⟨true, f.output⟩

/-- What reaches the script instead of `input`. -/
def passOn : Outcome Value → Outcome Value
  | .failure _ => .unit
  | .success v => .success v

/-- What the forced return finishes with when its script finishes with
    `result`. -/
def result (f : ForcedReturn) : Outcome Value → Outcome Value
  | .success _ => f.output
  | .failure e => .failure e

end ForcedReturn

end Strand
