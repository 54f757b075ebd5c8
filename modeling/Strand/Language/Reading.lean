import Strand.Language.Datum
import Strand.Language.Term

/-! # Reading — what a datum means

    The same datum means one thing as an expression and another as a step or
    a script. A `Reading` is a datum with its meaning in every position,
    computed once from the readings of its parts, so that a form picks from
    each part the meaning that it needs.

    Parts that are missing count as null. A datum that means nothing in a
    position is malformed there, which shows when it is evaluated. -/

namespace Strand.Language

/-- A datum with its meanings. -/
inductive Reading where
  | mk (datum : Datum) (items : List Reading) (fields : List (String × Reading))
      (expression step taskStep script task error : Term)

namespace Reading

def datum : Reading → Datum
  | mk d .. => d

/-- The readings of a list's items. -/
def items : Reading → List Reading
  | mk _ is .. => is

/-- The readings of an object's fields. -/
def fields : Reading → List (String × Reading)
  | mk _ _ fs .. => fs

/-- The meaning as an expression. -/
def expression : Reading → Term
  | mk _ _ _ e .. => e

/-- The meaning as a step of a script, or of a task. -/
def step (r : Reading) (inTask : Bool) : Term :=
  match r with
  | mk _ _ _ _ s t .. => if inTask then t else s

/-- The meaning as a script, or as a task. -/
def script (r : Reading) (asTask : Bool) : Term :=
  match r with
  | mk _ _ _ _ _ _ s t _ => if asTask then t else s

/-- The meaning as an error. -/
def error : Reading → Term
  | mk _ _ _ _ _ _ _ _ e => e

def text? (r : Reading) : Option String :=
  match r.datum with
  | .text s => some s
  | _ => none

def text (r : Reading) : String := r.text?.getD ""

def isNull (r : Reading) : Bool :=
  match r.datum with
  | .null => true
  | _ => false

/-- The head of a form, as it is named when the form is malformed. -/
def head (r : Reading) : String :=
  match r.datum with
  | .list (.text h :: _) => h
  | .object _ => "object"
  | .number => "number"
  | _ => ""

/-! ### Malformed forms -/

def badForm (head : String) : Term := .malformed ("bad form: " ++ head)

def badStep (head : String) : Term := .malformed ("bad step: " ++ head)

def badScript (head : String) : Term := .malformed ("bad script: " ++ head)

/-- A malformed error form is the error that says so. -/
def badError (head : String) : Term :=
  .apply (.errorOf (.raised ("bad error form: " ++ head))) []

/-- A missing part. -/
def null : Reading :=
  .mk .null [] [] (.literal .unit) (badStep "") (badStep "") (badScript "") (badScript "")
    (badError "")

/-- The `i`-th part of a form, counted from 0 after the head. -/
def part (parts : List Reading) (i : Nat) : Reading := parts.getD i null

/-- A field of an object. -/
def field? (r : Reading) (name : String) : Option Reading := r.fields.lookup name

/-- A field of an object, unless it is null. -/
def given? (r : Reading) (name : String) : Option Reading :=
  (r.field? name).filter fun x => !x.isNull

/-! ### Parts with a meaning of their own -/

/-- An operand that is any value. -/
def anyValue (r : Reading) : Operand := .mk .any r.expression

/-- An operand of a type. -/
def ofType (t : ValueType) (r : Reading) : Operand := .mk (.type t) r.expression

/-- An operand that is an outcome. -/
def anyOutcome (r : Reading) : Operand := .mk .outcome r.expression

/-- An operand that is an error. -/
def anyError (r : Reading) : Operand := .mk .error r.error

/-- The settings that a name and a choice stand for. -/
def settings (parts : List Reading) : Settings :=
  let named : Settings := match (part parts 0).text? with
    | some name => { name }
    | none => {}
  match (part parts 1).datum with
  | .bool catchPanics => { named with catchPanics }
  | _ => named

/-- The type that a word stands for where a value is read back. -/
def typeNamed : String → ValueType
  | "i64" => .int
  | "i32" => .int32
  | "u8" => .byte
  | "bool" => .bool
  | "string" => .text
  | "str" => .label
  | "list" => .list
  | "k" => .continuation
  | _ => .unit

/-- The panic that a payload word and a message stand for. -/
def payload (parts : List Reading) : Payload :=
  match (part parts 0).text with
  | "str" | "string" => .text (part parts 1).text
  | _ => .other

/-- A stage of a script. -/
def stage (inTask : Bool) (r : Reading) : StageTerm :=
  match r.items with
  | h :: parts =>
    match h.text with
    | "and" => .onSuccess ((part parts 0).step inTask)
    | _ => .always ((part parts 0).step inTask)
  | [] => .always (null.step inTask)

/-- A shift handler. -/
def handler (r : Reading) : HandlerTerm :=
  let name (n : String) := (r.field? n).bind text?
  .mk (((r.field? "body").getD null).script false) (name "k") (name "r") (name "K") (name "R")

/-- A coroutine with steps of its own. -/
def customTerm (r : Reading) : CustomTerm :=
  let steps (n : String) := ((r.field? n).getD null).items.map fun x => x.step false
  .mk (steps "steps") (steps "cleanup") ((r.field? "tag").bind text?)
    ((r.given? "onfork").map expression)

/-- All parts but the last as expressions, and the last. -/
def sequenceOf (parts : List Reading) (last : Reading → Term) : Term :=
  .sequence (parts.dropLast.map expression) (last (parts.getLast?.getD null))

/-! ### Forms -/

/-- The forms that stand for expressions. -/
def expressionForm (head : String) (parts : List Reading) : Term :=
  let p := part parts
  let int (i : Nat) := ofType .int (p i)
  let typed (t : ValueType) (i : Nat) := ofType t (p i)
  match head with
  -- values
  | "i32" => .apply .toInt32 [int 0]
  | "u8" => .apply .toByte [int 0]
  | "str" => .literal (.label (p 0).text)
  | "list" => .apply .listOf (parts.map anyValue)
  | "default" => .literal .unit
  | "is_unit" => .apply .isUnit [anyValue (p 0)]
  | "type" => .apply .typeName [anyValue (p 0)]
  | "get" => .apply .itself [ofType (typeNamed (p 0).text) (p 1)]
  | "text" => .apply .showText [anyValue (p 0)]
  | "add" => .apply .add [int 0, int 1]
  | "sub" => .apply .subtract [int 0, int 1]
  | "mul" => .apply .multiply [int 0, int 1]
  | "eq" => .apply .equal [int 0, int 1]
  | "lt" => .apply .less [int 0, int 1]
  | "cat" => .apply .concatenate (parts.map anyValue)
  -- names and control
  | "var" => .apply (.lookup (p 0).text) []
  | "let" => .bind (p 0).text (p 1).expression (p 2).expression
  | "set" => .apply (.assign (p 0).text) [anyValue (p 1)]
  | "drop" => .apply (.remove (p 0).text) []
  | "in" => .apply .input []
  | "inkind" => .apply .inputKind []
  | "inerr" => .apply .inputText []
  | "seq" => if parts.isEmpty then .literal .unit else sequenceOf parts expression
  | "if" => .choose (p 0).expression (p 1).expression (p 2).expression
  | "call" => .call .expression (p 0).text ((parts.drop 1).map expression)
  | "raise" => .apply .raise [anyError (p 0)]
  | "try" => .rescue (p 0).expression (p 1).expression
  | "panic" => .apply (.panic (payload parts)) []
  | "catch" => .contain (p 0).expression
  | "log" => .apply .log [anyOutcome (p 0)]
  -- outcomes
  | "ok?" => .apply .isSuccess [anyOutcome (p 0)]
  | "map" => .apply .mapToType [anyOutcome (p 0)]
  | "oeq" => .apply .sameOutcome [.mk .intOutcome (p 0).expression, .mk .intOutcome (p 1).expression]
  -- completions and queues
  | "pending" => .apply (.pending (p 0).text (p 1).text) []
  | "resolved" => .apply .resolved [anyValue (p 0)]
  | "rejected" => .apply .rejected [anyError (p 0)]
  | "succeed" => .apply .succeed [typed .settler 0, anyValue (p 1)]
  | "fail" => .apply .fail [typed .settler 0, anyError (p 1)]
  | "settle" => .apply .settle [typed .settler 0, anyOutcome (p 1)]
  | "settled" => .apply .isSettled [.mk .side (p 0).expression]
  | "outcome" => .apply .outcomeOf [typed .completion 0]
  | "on_settle" => .apply (.onSettle (p 1).expression) [typed .completion 0]
  | "queue" => .apply .newQueue []
  | "defer" => .apply (.defer (p 1).expression) [typed .queue 0]
  | "later" => .apply .settleLater [typed .queue 0, anyOutcome (p 1)]
  | "qlen" => .apply .queueLength [typed .queue 0]
  | "qempty" => .apply .queueIsEmpty [typed .queue 0]
  | "drain" => .apply .drain [typed .queue 0]
  -- schedulers
  | "sched" => .apply (.newScheduler (settings parts)) []
  | "config" =>
    let s := settings parts
    .apply .listOf [.mk .any (.literal (.text s.name)), .mk .any (.literal (.bool s.catchPanics))]
  | "eval" => .apply (.evaluate ((p 1).script false)) [typed .scheduler 0]
  | "start" => .apply (.start ((p 1).script false)) [typed .scheduler 0]
  | "live" => .apply .countRoutines [typed .scheduler 0]
  | "running" => .apply .isRunning [.mk .runner (p 0).expression]
  | "unhandled" => .apply .unhandled [typed .scheduler 0]
  | "depth" => .apply .depth [typed .continuation 0]
  | "reenter" => .apply .reenter [typed .reenter 0, typed .continuation 1, anyValue (p 2)]
  | "invoke" => .apply .invoke [typed .continuation 0, anyValue (p 1)]
  -- bridges
  | "bridge" => .apply (.newBridge (settings parts)) []
  | "run" => .apply (.run ((p 1).script true)) [typed .bridge 0]
  | "run0" => .apply (.runAlone ((p 0).script true)) []
  | "actions" => .apply .countActions [typed .bridge 0]
  -- kept scripts
  | "co" => .apply (.keep ((p 0).head == "staged")) [.mk .script ((p 0).script false)]
  | "co.resume" => .apply .feed [anyOutcome (p 1), typed .coroutine 0]
  | "co.exit" => .apply .exit [typed .coroutine 0]
  | "co.fork" => .apply .copy [typed .coroutine 0]
  | "co.pos" => .apply .position [typed .coroutine 0]
  | head => badForm head

/-- The forms that stand for errors. -/
def errorForm (head : String) (parts : List Reading) : Term :=
  let p := part parts
  match head with
  | "raised" => .apply .errorRaised [ofType .text (p 0)]
  | "panicked" => .apply .errorPanicked [ofType .text (p 0)]
  | "mismatch" => .apply (.errorOf (.mismatch (p 0).text (p 1).text)) []
  | "reentrant" => .apply (.errorOf .reentrant) []
  | "abandoned" => .apply (.errorOf .abandoned) []
  | "in" => .apply .errorOfInput []
  | head => badError head

/-- The forms that stand for steps; tasks know only some of them. -/
def stepForm (inTask : Bool) (head : String) (parts : List Reading) : Term :=
  let p := part parts
  let scriptOnly (t : Term) : Term := if inTask then badStep head else t
  match head with
  | "done" => .apply .done [anyOutcome (p 0)]
  | "if" => .choose (p 0).expression ((p 1).step inTask) ((p 2).step inTask)
  | "let" => .bind (p 0).text (p 1).expression ((p 2).step inTask)
  | "seq" => sequenceOf parts fun r => r.step inTask
  | "panic" => .apply (.panic (payload parts)) []
  | "reset" => scriptOnly (.apply (.reset ((p 0).script false)) [])
  | "shift" => scriptOnly (.apply (.shift (p 0).handler) [])
  | "suspend" => scriptOnly (.apply .suspend [])
  | "splice" => scriptOnly (.apply .splice [.mk .script ((p 0).script false)])
  | "resume" => scriptOnly (.apply .resume [ofType .continuation (p 0), anyValue (p 1)])
  | "await" =>
    .apply (if inTask then .await else .awaitByShift) [ofType .completion (p 0)]
  | head => badStep head

/-- The forms that stand for scripts, or for tasks. -/
def scriptForm (asTask : Bool) (head : String) (parts : List Reading) : Term :=
  let p := part parts
  match head with
  | "ret" => .apply .returning [anyOutcome (p 0)]
  | "staged" =>
    .apply (.staged ((p 0).items.map (stage asTask))
      (if (p 1).isNull then none else some (p 1).expression)) []
  | "empty" => .apply .empty []
  | "fn" => .apply (.counted (parts.map fun r => r.step asTask)) []
  | "custom" =>
    if asTask then .malformed "custom is not a task" else .apply (.custom (p 0).customTerm) []
  | "let" => .bind (p 0).text (p 1).expression ((p 2).script asTask)
  | "seq" => sequenceOf parts fun r => r.script asTask
  | "if" => .choose (p 0).expression ((p 1).script asTask) ((p 2).script asTask)
  | "call" =>
    .call (if asTask then .task else .script) (p 0).text ((parts.drop 1).map expression)
  | "raise" => .apply .raise [anyError (p 0)]
  | "panic" => .apply (.panic (payload parts)) []
  | head => badScript head

/-- The reading of a datum that is no form, with its meaning as an
    expression. -/
def plain (d : Datum) (fields : List (String × Reading)) (expression : Term) : Reading :=
  let head := head (.mk d [] [] expression expression expression expression expression expression)
  .mk d [] fields expression (badStep head) (badStep head) (badScript head) (badScript head)
    (badError head)

/-- The reading of a list from the readings of its items. -/
def form (d : Datum) (items : List Reading) : Reading :=
  let head := (part items 0).text
  let parts := items.drop 1
  .mk d items [] (expressionForm head parts) (stepForm false head parts)
    (stepForm true head parts) (scriptForm false head parts) (scriptForm true head parts)
    (errorForm head parts)

end Reading

mutual

/-- Read a datum in every position. -/
def read : Datum → Reading
  | .null => .null
  | .bool b => .plain (.bool b) [] (.literal (.bool b))
  | .int n => .plain (.int n) [] (.literal (.int n))
  | .number => .plain .number [] (Reading.badForm "number")
  | .text s => .plain (.text s) [] (.literal (.text s))
  | .list items => .form (.list items) (readItems items)
  | .object fields => .plain (.object fields) (readFields fields) (Reading.badForm "object")

/-- Read the items of a list. -/
def readItems : List Datum → List Reading
  | [] => []
  | d :: ds => read d :: readItems ds

/-- Read the fields of an object. -/
def readFields : List (String × Datum) → List (String × Reading)
  | [] => []
  | (name, d) :: fs => (name, read d) :: readFields fs

end

/-- Read a definition, parameters and body. -/
def readDefinition (d : Datum) : Definition :=
  let r := read d
  let body := Reading.part r.items 1
  { parameters := (Reading.part r.items 0).items.map Reading.text
    expression := body.expression
    script := body.script false
    task := body.script true }

end Strand.Language
