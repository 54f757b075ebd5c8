/-! # Settings of a scheduler or a bridge -/

namespace Strand

/-- What can be chosen when a scheduler or a bridge is made. -/
structure Settings where
  /-- The label in front of the log records. -/
  name : String := "delimit"
  /-- Whether a panic in a step becomes a failure instead of unwinding. -/
  catchPanics : Bool := true
deriving DecidableEq, Repr, Inhabited

end Strand
