import Strand.Error

/-! # Values and outcomes — what routines hand to each other

    * A `Handle` refers to something shared that lives in the store. All
      handles are counted there, except `reenter`, which never keeps its
      scheduler alive.
    * A `Value` carries its own type; reading it back as another type is a
      `mismatch`.
    * An `Outcome` is a value or the failure that takes its place.

    `handles` lists what a value or outcome holds, in the order in which it
    lets go of it. -/

namespace Strand

/-- A reference to something shared, by its place in the store. -/
inductive Handle where
  /-- The reading side of a completion. -/
  | completion (cell : Nat)
  /-- The settling side of a completion. -/
  | settler (cell : Nat)
  /-- A queue of deferred jobs. -/
  | queue (cell : Nat)
  /-- Captured frames. -/
  | continuation (cell : Nat)
  /-- The way back into a scheduler from outside. -/
  | reenter (cell : Nat)
  /-- A scheduler. -/
  | scheduler (cell : Nat)
  /-- A completion bridge. -/
  | bridge (cell : Nat)
  /-- A coroutine that is advanced by hand. -/
  | coroutine (cell : Nat)
deriving DecidableEq, Repr, Inhabited

/-- A dynamically typed value. -/
inductive Value where
  | unit
  | int (n : Int64)
  | int32 (n : Int32)
  | byte (n : UInt8)
  | bool (b : Bool)
  /-- A text built at run time. -/
  | text (s : String)
  /-- A text that is part of the program. -/
  | label (s : String)
  | list (items : List Value)
  | handle (h : Handle)
deriving Repr, Inhabited

/-- The types that a value can be read back as. -/
inductive ValueType where
  | unit | int | int32 | byte | bool | text | label | list
  | completion | settler | queue | continuation | reenter | scheduler | bridge | coroutine
deriving DecidableEq, Repr, Inhabited

namespace ValueType

/-- The name under which a type is shown. -/
def name : ValueType → String
  | unit => "()"
  | int => "i64"
  | int32 => "i32"
  | byte => "u8"
  | bool => "bool"
  | text => "alloc::string::String"
  | label => "&str"
  | list => "alloc::vec::Vec<delimit_rt::value::Value>"
  | completion => "delimit_rt::completion::Completion<delimit_rt::value::Value>"
  | settler => "alloc::rc::Rc<delimit_rt::completion::Settler<delimit_rt::value::Value>>"
  | queue => "delimit_rt::completion::JobQueue"
  | continuation => "delimit_rt::dcs::continuation::Continuation"
  | reenter => "delimit_rt::dcs::continuation::Reenter"
  | scheduler => "alloc::rc::Rc<delimit_rt::dcs::scheduler::Scheduler>"
  | bridge => "delimit_rt::bridge::Bridge"
  | coroutine =>
    "alloc::rc::Rc<core::cell::RefCell<core::option::Option<delimit_driver::CoBox>>>"

end ValueType

/-- The type of what a handle refers to. -/
def Handle.type : Handle → ValueType
  | .completion _ => .completion
  | .settler _ => .settler
  | .queue _ => .queue
  | .continuation _ => .continuation
  | .reenter _ => .reenter
  | .scheduler _ => .scheduler
  | .bridge _ => .bridge
  | .coroutine _ => .coroutine

namespace Value

/-- The type that a value carries. -/
def type : Value → ValueType
  | unit => .unit
  | int _ => .int
  | int32 _ => .int32
  | byte _ => .byte
  | bool _ => .bool
  | text _ => .text
  | label _ => .label
  | list _ => .list
  | handle h => h.type

mutual

/-- The handles in a value, first item first. -/
def handles : Value → List Handle
  | list items => listHandles items
  | handle h => [h]
  | _ => []

/-- The handles in a list of values, first item first. -/
def listHandles : List Value → List Handle
  | [] => []
  | v :: vs => v.handles ++ listHandles vs

end

/-- The failure of reading `v` as a value of type `expected`. -/
def mismatch (expected : ValueType) (v : Value) : Error :=
  .mismatch expected.name v.type.name

/-- A value read back as a type: itself if the type is its own. -/
def readAs (expected : ValueType) (v : Value) : Except Error Value :=
  if v.type = expected then .ok v else .error (v.mismatch expected)

end Value

/-- A success with its value, or a failure. -/
inductive Outcome (α : Type) where
  | success (value : α)
  | failure (error : Error)
deriving Repr, DecidableEq, Inhabited

namespace Outcome

/-- Success with no value. -/
def unit : Outcome Value := .success .unit

def isSuccess {α : Type} : Outcome α → Bool
  | success _ => true
  | failure _ => false

/-- Change the value of a success. -/
def map {α β : Type} (f : α → β) : Outcome α → Outcome β
  | success a => success (f a)
  | failure e => failure e

/-- A success is its value, a failure is raised again. -/
def unbox {α : Type} : Outcome α → Except Error α
  | success a => .ok a
  | failure e => .error e

/-- The outcome that unboxes to `r`. -/
def ofExcept {α : Type} : Except Error α → Outcome α
  | .ok a => success a
  | .error e => failure e

@[simp] theorem unbox_ofExcept {α : Type} (r : Except Error α) : (ofExcept r).unbox = r := by
  cases r <;> rfl

/-- The handles that an outcome holds. -/
def handles : Outcome Value → List Handle
  | success v => v.handles
  | failure _ => []

@[simp] theorem handles_unit : unit.handles = [] := by
  simp [unit, handles, Value.handles]

end Outcome

end Strand
