import Strand.ForcedReturn
import Strand.Staged

/-! # Scripts — coroutines as data

    A script is a coroutine: fed an outcome, it yields an instruction or
    finishes with an outcome. `C` stands for the program's own code at rest;
    the scripts here are built from it and from the forms that a scheduler
    makes for itself.

    * `Staged` runs a fixed list of stages, one for each resumption.
    * `Script.own` is a coroutine whose behaviour is the program's.
    * `Script.exit`, `settled`, `reentry` and `root` wrap what a scheduler
      does on its own account.

    What a script does when it is advanced is in `Strand.Machine.Advance`;
    here is what it consists of and which handles it holds. -/

namespace Strand

/-- A coroutine that a scheduler can run and copy. -/
inductive Script (C : Type) where
  /-- A list of stages. -/
  | staged (s : Staged C)
  /-- A coroutine of the program, by its present state. -/
  | own (state : C)
  /-- The forced return of `inner`. -/
  | exit (inner : Script C) (progress : ForcedReturn)
  /-- A result kept back while children are made to exit. -/
  | settled (stored : Outcome Value)
  /-- An invocation of a continuation, made once it is first advanced. -/
  | reentry (continuation : Nat) (value : Option Value)
  /-- A root that reports its result to a completion. -/
  | root (inner : Script C) (settler : Nat)

/-- What a step of a script asks its scheduler for. -/
inductive Instruction (C : Type) where
  /-- Run the script that `block` builds beneath a fresh boundary. -/
  | reset (block : C)
  /-- Snapshot the frames above the nearest boundary and hand them to
      `handler`. -/
  | shift (handler : C)
  /-- End this strand. -/
  | suspend
  /-- Run a script in place, without a boundary. -/
  | splice (script : Script C)
  /-- Wait for a completion (understood by bridges only). -/
  | await (completion : Nat)

/-- The result of advancing a script once. -/
inductive Step (C : Type) where
  /-- Suspended on an instruction. -/
  | yield (instruction : Instruction C)
  /-- Finished. -/
  | done (outcome : Outcome Value)

variable {C : Type}

/-- A script that finishes at once with `outcome`. -/
def Script.returning (outcome : Outcome Value) : Script C := .staged (.returning outcome)

/-! ### What is held -/

/-- The handles of a stage, given those of the program's code. -/
def Stage.handles (held : C → List Handle) : Stage C → List Handle
  | .always code => held code
  | .onSuccess code => held code
  | .constant outcome => outcome.handles

/-- The handles of a staged script: its stages in order, then its cleanup. -/
def Staged.handles (held : C → List Handle) (s : Staged C) : List Handle :=
  s.stages.flatMap (Stage.handles held) ++ (s.onExit.map held).getD []

/-- The handles of a script, in the order in which it lets go of them. -/
def Script.handles (held : C → List Handle) : Script C → List Handle
  | .staged s => s.handles held
  | .own state => held state
  | .exit inner progress => inner.handles held ++ progress.output.handles
  | .settled stored => stored.handles
  | .reentry k value => .continuation k :: (value.map Value.handles).getD []
  | .root inner settler => inner.handles held ++ [.settler settler]

/-- The handles of an instruction. -/
def Instruction.handles (held : C → List Handle) : Instruction C → List Handle
  | .reset block => held block
  | .shift handler => held handler
  | .suspend => []
  | .splice script => script.handles held
  | .await completion => [.completion completion]

/-- The handles of a step's result. -/
def Step.handles (held : C → List Handle) : Step C → List Handle
  | .yield instruction => instruction.handles held
  | .done outcome => outcome.handles

/-- The program's own coroutine inside a script, if there is one: the part
    that notices when the script is copied. -/
def Script.core : Script C → Option C
  | .own state => some state
  | .exit inner _ => inner.core
  | .root inner _ => inner.core
  | _ => none

end Strand
