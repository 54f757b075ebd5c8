import Strand.Language.Code

/-! # Operations — what is done with evaluated operands

    An operation gives a product, fails, panics, or has something to ask the
    library. Operands arrive checked against what the operation expects. -/

namespace Strand.Language

/-- The result of an operation. -/
inductive Effect where
  | produce (p : Product)
  | fail (e : Error)
  | panic (payload : Payload)
  /-- Ask the library; the purpose says what the reply is for. -/
  | ask (request : Request Code) (purpose : Purpose)

namespace Effect

def value (v : Value) : Effect := .produce (.value v)

def bool (b : Bool) : Effect := .value (.bool b)

def step (s : Step Code) : Effect := .produce (.step s)

def yield (i : Instruction Code) : Effect := .step (.yield i)

def script (s : Script Code) : Effect := .produce (.script s)

/-- An outcome's value, or its failure raised. -/
def ofOutcome : Outcome Value → Effect
  | .success v => .value v
  | .failure e => .fail e

end Effect

/-- A text value, or the name of the type of any other. -/
def showText : Value → String
  | .int n => toString n.toInt
  | .text s => s
  | v => "Value<" ++ v.type.name ++ ">"

/-- The failure of an input as an error; a success has none. -/
def inputError : Outcome Value → Error
  | .failure e => e
  | .success _ => .raised "input is not a failure"

/-- The values among evaluated operands. -/
def valuesOf (arguments : List Argument) : List Value :=
  arguments.filterMap fun
    | .value v => some v
    | _ => none

/-- Two outcomes of integers are the same: equal integers, or equal errors. -/
def sameOutcome : Outcome Value → Outcome Value → Bool
  | .success (.int a), .success (.int b) => a == b
  | .failure a, .failure b => a = b
  | _, _ => false

/-- A closure over the bindings of a context. -/
def Context.close (ctx : Context) (body : Term) : Code := .closure body ctx.scope

/-- A stage over the bindings of a context. -/
def StageTerm.close (ctx : Context) : StageTerm → Stage Code
  | .always body => .always (ctx.close body)
  | .onSuccess body => .onSuccess (ctx.close body)

/-- Values, texts and integers. -/
def applyToValues (op : Operation) (arguments : List Argument) : Option Effect :=
  match op, arguments with
  | .toInt32, [.value (.int n)] => some (.value (.int32 n.toInt32))
  | .toByte, [.value (.int n)] => some (.value (.byte n.toUInt64.toUInt8))
  | .listOf, vs => some (.value (.list (valuesOf vs)))
  | .isUnit, [.value v] => some (.bool (v.type == .unit))
  | .typeName, [.value v] => some (.value (.text v.type.name))
  | .itself, [.value v] => some (.value v)
  | .showText, [.value v] => some (.value (.text (showText v)))
  | .add, [.value (.int a), .value (.int b)] => some (.value (.int (a + b)))
  | .subtract, [.value (.int a), .value (.int b)] => some (.value (.int (a - b)))
  | .multiply, [.value (.int a), .value (.int b)] => some (.value (.int (a * b)))
  | .equal, [.value (.int a), .value (.int b)] => some (.bool (a == b))
  | .less, [.value (.int a), .value (.int b)] => some (.bool (decide (a < b)))
  | .concatenate, vs => some (.value (.text (String.join ((valuesOf vs).map showText))))
  | .isSuccess, [.outcome o] => some (.bool o.isSuccess)
  | .mapToType, [.outcome o] => some (.ofOutcome (o.map fun v => .text v.type.name))
  | .sameOutcome, [.outcome a, .outcome b] => some (.bool (sameOutcome a b))
  | _, _ => none

/-- Names, input, failures and events. -/
def applyInContext (op : Operation) (arguments : List Argument) (ctx : Context) :
    Option Effect :=
  match op, arguments with
  | .lookup name, [] =>
    match ctx.scope.bindings.lookup name with
    | some v => some (.value v)
    | none => some (.ask (.readVariable name) (.variable name))
  | .assign name, [.value v] => some (.ask (.writeVariable name v) .result)
  | .remove name, [] => some (.ask (.removeVariable name) .result)
  | .input, [] => some (.ofOutcome ctx.input)
  | .inputKind, [] =>
    match ctx.input with
    | .success _ => some (.value (.text "ok"))
    | .failure e => some (.value (.text e.kind))
  | .inputText, [] => some (.value (.text (inputError ctx.input).message))
  | .raise, [.error e] => some (.fail e)
  | .panic payload, [] => some (.panic payload)
  | .log, [.outcome o] => some (.ask (.record (.outcome o)) .result)
  | .errorRaised, [.value (.text s)] => some (.produce (.error (.raised s)))
  | .errorPanicked, [.value (.text s)] => some (.produce (.error (.panicked s)))
  | .errorOf e, [] => some (.produce (.error e))
  | .errorOfInput, [] => some (.produce (.error (inputError ctx.input)))
  | _, _ => none

/-- Completions and queues. -/
def applyToCompletions (op : Operation) (arguments : List Argument) (ctx : Context) :
    Option Effect :=
  match op, arguments with
  | .pending completion settler, [] => some (.ask .newCompletion (.newPair completion settler))
  | .resolved, [.value v] => some (.ask (.settledCompletion (.success v)) .result)
  | .rejected, [.error e] => some (.ask (.settledCompletion (.failure e)) .result)
  | .succeed, [.value (.handle (.settler c)), .value v] =>
    some (.ask (.settle c (.success v)) .result)
  | .fail, [.value (.handle (.settler c)), .error e] =>
    some (.ask (.settle c (.failure e)) .result)
  | .settle, [.value (.handle (.settler c)), .outcome o] => some (.ask (.settle c o) .result)
  | .isSettled, [.value (.handle h)] => some (.ask (.isSettled h) .result)
  | .outcomeOf, [.value (.handle (.completion c))] => some (.ask (.outcome c) .settledOutcome)
  | .onSettle body, [.value (.handle (.completion c))] =>
    some (.ask (.onSettle c (.callback body ctx.scope)) .result)
  | .newQueue, [] => some (.ask .newQueue .result)
  | .defer body, [.value (.handle (.queue q))] =>
    some (.ask (.defer q (.callback body ctx.scope)) .result)
  | .settleLater, [.value (.handle (.queue q)), .outcome o] =>
    some (.ask (.settleLater q o) .result)
  | .queueLength, [.value (.handle (.queue q))] => some (.ask (.queueLength q) .result)
  | .queueIsEmpty, [.value (.handle (.queue q))] => some (.ask (.queueLength q) .emptiness)
  | .drain, [.value (.handle (.queue q))] => some (.ask (.drain q) .result)
  | _, _ => none

/-- Schedulers, bridges and kept scripts. -/
def applyToRunners (op : Operation) (arguments : List Argument) (ctx : Context) :
    Option Effect :=
  match op, arguments with
  | .newScheduler settings, [] => some (.ask (.newScheduler settings) .result)
  | .evaluate script, [.value (.handle (.scheduler p))] =>
    some (.ask (.evaluate p (.block script ctx)) .result)
  | .start script, [.value (.handle (.scheduler p))] =>
    some (.ask (.start p (.block script ctx)) .result)
  | .countRoutines, [.value (.handle (.scheduler p))] => some (.ask (.countRoutines p) .result)
  | .isRunning, [.value (.handle h)] => some (.ask (.isRunning h) .result)
  | .unhandled, [.value (.handle (.scheduler p))] => some (.ask (.takeFailures p) .failures)
  | .depth, [.value (.handle (.continuation k))] => some (.ask (.depth k) .result)
  | .reenter, [.value (.handle (.reenter p)), .value (.handle (.continuation k)), .value v] =>
    some (.ask (.reenter p k v) .result)
  | .invoke, [.value (.handle (.continuation k)), .value v] =>
    some (.ask (.invoke k v) .invoked)
  | .newBridge settings, [] => some (.ask (.newBridge settings) .result)
  | .run task, [.value (.handle (.bridge b))] => some (.ask (.run b (.block task ctx)) .result)
  | .runAlone task, [] => some (.ask (.newBridge {}) (.aloneOn task ctx))
  | .countActions, [.value (.handle (.bridge b))] => some (.ask (.countActions b) .result)
  | .keep positioned, [.script s] => some (.ask (.keep s positioned) .result)
  | .feed, [.outcome o, .value (.handle (.coroutine x))] =>
    some (.ask (.advance x (some o)) .moved)
  | .exit, [.value (.handle (.coroutine x))] => some (.ask (.advance x none) .moved)
  | .copy, [.value (.handle (.coroutine x))] => some (.ask (.copy x) .moved)
  | .position, [.value (.handle (.coroutine x))] => some (.ask (.position x) .position)
  | _, _ => none

/-- Steps and scripts. -/
def applyToScripts (op : Operation) (arguments : List Argument) (ctx : Context) :
    Option Effect :=
  match op, arguments with
  | .done, [.outcome o] => some (.step (.done o))
  | .reset script, [] => some (.yield (.reset (.block script ctx)))
  | .shift handler, [] => some (.yield (.shift (.handler handler ctx)))
  | .suspend, [] => some (.yield .suspend)
  | .splice, [.script s] => some (.yield (.splice s))
  | .resume, [.value (.handle (.continuation k)), .value v] =>
    some (.ask (.invoke k v) .suspend)
  | .awaitByShift, [.value (.handle (.completion c))] => some (.yield (.shift (.awaiting c)))
  | .await, [.value (.handle (.completion c))] => some (.yield (.await c))
  | .returning, [.outcome o] => some (.script (.returning o))
  | .staged stages onExit, [] =>
    some (.script (.staged ⟨stages.map (StageTerm.close ctx), onExit.map ctx.close, 0, false⟩))
  | .empty, [] => some (.script (.staged .empty))
  | .counted steps, [] => some (.script (.own (.counted steps 0 ctx.scope)))
  | .custom c, [] => some (.script (.own (.custom c 0 false ctx.scope)))
  | _, _ => none

/-- Apply an operation to its evaluated operands. -/
def applyOperation (op : Operation) (arguments : List Argument) (ctx : Context) : Effect :=
  (applyToValues op arguments
    <|> applyInContext op arguments ctx
    <|> applyToCompletions op arguments ctx
    <|> applyToRunners op arguments ctx
    <|> applyToScripts op arguments ctx).getD (.fail (.raised "bad operands"))

end Strand.Language
