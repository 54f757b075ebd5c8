import Strand.Value
import Strand.Settings

/-! # Terms — the forms of the script language

    Expressions, steps and scripts share their control forms (`bind`,
    `sequence`, `choose`, `call`), so all are terms; what a term may stand
    for is settled when it is read. Every other form is an operation applied
    to operands, each with what is expected of it.

    Terms are program text: they hold no handles, since there is no literal
    for one. -/

namespace Strand.Language

/-- A value that is written down in a program. -/
inductive Literal where
  | unit
  | int (n : Int64)
  | bool (b : Bool)
  | text (s : String)
  | label (s : String)
deriving DecidableEq, Repr

/-- The value that a literal stands for. -/
def Literal.value : Literal → Value
  | unit => .unit
  | int n => .int n
  | bool b => .bool b
  | text s => .text s
  | label s => .label s

/-- What is expected of an operand. -/
inductive Expect where
  /-- Any value. -/
  | any
  /-- A value of this type. -/
  | type (t : ValueType)
  /-- A completion or a settler. -/
  | side
  /-- A bridge or a scheduler. -/
  | runner
  /-- A value or the failure that took its place. -/
  | outcome
  /-- The same, read back as an integer. -/
  | intOutcome
  /-- An error, not raised. -/
  | error
  /-- A script. -/
  | script
deriving DecidableEq, Repr

/-- What the body of a definition is called as. -/
inductive Role where
  | expression | script | task
deriving DecidableEq, Repr

mutual

/-- A form of the language. -/
inductive Term where
  /-- A malformed form; evaluating it raises the message. -/
  | malformed (message : String)
  | literal (l : Literal)
  /-- An operation on operands, evaluated from left to right. -/
  | apply (op : Operation) (operands : List Operand)
  /-- Bind a name lexically. -/
  | bind (name : String) (value body : Term)
  /-- Evaluate in order; the last one counts. -/
  | sequence (init : List Term) (last : Term)
  | choose (test yes no : Term)
  /-- The value of `body`, or `other` with the failure as its input. -/
  | rescue (body other : Term)
  /-- The value of `body`, with a panic turned into a failure. -/
  | contain (body : Term)
  /-- A definition applied to arguments. -/
  | call (role : Role) (name : String) (arguments : List Term)

/-- An operand and what is expected of it. -/
inductive Operand where
  | mk (expect : Expect) (term : Term)

/-- A stage of a script. -/
inductive StageTerm where
  /-- Runs on whatever is fed in. -/
  | always (step : Term)
  /-- Runs on a success. -/
  | onSuccess (step : Term)

/-- A shift handler: its body, the names under which the body knows the
    continuation and the way back in, and the shared variables that they are
    stored in. -/
inductive HandlerTerm where
  | mk (body : Term) (continuation reenter : Option String)
      (continuationVariable reenterVariable : Option String)

/-- A coroutine with a position, that has steps and cleanup steps of its own
    and may take note of being copied. -/
inductive CustomTerm where
  | mk (steps cleanup : List Term) (tag : Option String) (onCopy : Option Term)

/-- What is done with operands. -/
inductive Operation where
  -- values
  | toInt32 | toByte | listOf | isUnit | typeName | itself | showText
  | add | subtract | multiply | equal | less | concatenate
  -- names and input
  | lookup (name : String) | assign (name : String) | remove (name : String)
  | input | inputKind | inputText
  -- failures and events
  | raise | panic (payload : Payload) | log
  | isSuccess | mapToType | sameOutcome
  | errorRaised | errorPanicked | errorOf (e : Error) | errorOfInput
  -- completions and queues
  | pending (completion settler : String) | resolved | rejected
  | succeed | fail | settle | isSettled | outcomeOf | onSettle (body : Term)
  | newQueue | defer (body : Term) | settleLater | queueLength | queueIsEmpty | drain
  -- schedulers
  | newScheduler (settings : Settings) | evaluate (script : Term) | start (script : Term)
  | countRoutines | isRunning | unhandled | depth | reenter | invoke
  -- bridges
  | newBridge (settings : Settings) | run (task : Term) | runAlone (task : Term)
  | countActions
  -- kept scripts
  | keep (positioned : Bool) | feed | exit | copy | position
  -- steps
  | done | reset (script : Term) | shift (handler : HandlerTerm) | suspend | splice
  | resume | awaitByShift | await
  -- scripts
  | returning | staged (stages : List StageTerm) (onExit : Option Term) | empty
  | counted (steps : List Term) | custom (c : CustomTerm)

end

instance : Inhabited Term := ⟨.literal .unit⟩

/-- A named definition: its parameters and its body, read in every role. -/
structure Definition where
  parameters : List String
  expression : Term
  script : Term
  task : Term

/-- The body in a role. -/
def Definition.body (d : Definition) : Role → Term
  | .expression => d.expression
  | .script => d.script
  | .task => d.task

/-- Definitions by name. -/
abbrev Definitions := List (String × Definition)

end Strand.Language
