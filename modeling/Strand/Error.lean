/-! # Errors and panics — how a routine can fail

    * `Error` is the failure that travels through outcomes: raised by a
      program, made from a panic, or produced by the library itself.
    * `Payload` is what a panic carries while it unwinds.

    Each has one `message`, and every text that mentions a failure is built
    from it. -/

namespace Strand

/-- Why an operation failed. -/
inductive Error where
  /-- Raised by a program with a text of its own. -/
  | raised (text : String)
  /-- A routine panicked while it was being advanced. -/
  | panicked (text : String)
  /-- A value was read back as another type than it has. -/
  | mismatch (expected found : String)
  /-- An evaluation was asked of a scheduler that is already reducing. -/
  | reentrant
  /-- The last settler of a completion went away before it settled. -/
  | abandoned
deriving DecidableEq, Repr, Inhabited

namespace Error

/-- The text shown for a failure. -/
def message : Error → String
  | raised text => text
  | panicked text => "routine panicked: " ++ text
  | mismatch expected found =>
    "expected a value of type `" ++ expected ++ "`, found `" ++ found ++ "`"
  | reentrant => "scheduler is already reducing; use `Reenter` to inject work"
  | abandoned => "completion was abandoned before it settled"

/-- The word that names the cause of a failure. -/
def kind : Error → String
  | raised _ => "Raised"
  | panicked _ => "Panicked"
  | mismatch _ _ => "TypeMismatch"
  | reentrant => "Reentrant"
  | abandoned => "Abandoned"

end Error

/-- What a panic carries: a text, or something that cannot be shown. -/
inductive Payload where
  /-- A panic with a message. -/
  | text (message : String)
  /-- A panic with anything else. -/
  | other
deriving DecidableEq, Repr, Inhabited

/-- The text of a panic. -/
def Payload.message : Payload → String
  | .text message => message
  | .other => "unknown panic"

end Strand
