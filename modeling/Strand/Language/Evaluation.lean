import Strand.Language.Operations

/-! # Evaluation — the language as a behavior

    Running code evaluates one form at a time. A thought is carried out
    against the innermost evaluation that waits for it; when none waits any
    more, it is what the code returns.

    `behavior` puts together how code at rest starts, how running code
    reacts, and how the language's own coroutines move and are copied. -/

namespace Strand.Language

/-- What is made of a product by the place where it was expected; an outcome
    takes failures as well. -/
def Expect.accept : Expect → Product → Except Error Argument
  | .any, .value v => .ok (.value v)
  | .type t, .value v => (v.readAs t).map .value
  | .side, .value v =>
    match v.type with
    | .settler => .ok (.value v)
    | _ => (v.readAs .completion).map .value
  | .runner, .value v =>
    match v.type with
    | .bridge => .ok (.value v)
    | _ => (v.readAs .scheduler).map .value
  | .outcome, .value v => .ok (.outcome (.success v))
  | .intOutcome, .value v => .ok (.outcome (.ofExcept (v.readAs .int)))
  | .error, .error e => .ok (.error e)
  | .script, .script s => .ok (.script s)
  | _, _ => .error (.raised "bad operand")

/-- Whether a failure is an operand, too. -/
def Expect.takesFailure : Expect → Bool
  | .outcome | .intOutcome => true
  | _ => false

/-- The context with one more lexical binding. -/
def Context.bind (ctx : Context) (name : String) (v : Value) : Context :=
  { ctx with scope := { ctx.scope with bindings := (name, v) :: ctx.scope.bindings } }

/-- The step's reaction: think on. -/
def think (t : Thought) (pending : List Pending) : Reaction Code Running :=
  .proceed (.thinking t pending)

/-- Carry out an effect. -/
def Effect.react (effect : Effect) (pending : List Pending) : Reaction Code Running :=
  match effect with
  | .produce p => think (.produced p) pending
  | .fail e => think (.failed e) pending
  | .panic payload => .panic payload
  | .ask request purpose => .ask request (.waiting purpose pending)

/-- Go on with the operands of an operation. -/
def nextOperand (op : Operation) (ready : List Argument) (left : List Operand) (ctx : Context)
    (pending : List Pending) : Reaction Code Running :=
  match left with
  | [] => (applyOperation op ready ctx).react pending
  | .mk expect t :: left =>
    think (.evaluate t ctx) (.operands op ready expect left ctx :: pending)

/-- Go on with the arguments of a definition; when all are ready, its body
    runs with them as its only bindings and the same input. -/
def nextArgument (body : Term) (ready : List (String × Value)) (left : List (String × Term))
    (ctx : Context) (pending : List Pending) : Reaction Code Running :=
  match left with
  | [] =>
    let ctx := { ctx with scope := { ctx.scope with bindings := ready } }
    think (.evaluate body ctx) (.within ctx :: pending)
  | (parameter, t) :: left =>
    think (.evaluate t ctx) (.arguments body ready parameter left ctx :: pending)

/-- Pair parameters with argument terms; missing arguments are unit. -/
def pairArguments : List String → List Term → List (String × Term)
  | [], _ => []
  | p :: ps, [] => (p, .literal .unit) :: pairArguments ps []
  | p :: ps, t :: ts => (p, t) :: pairArguments ps ts

/-- Evaluate a form. -/
def evaluateTerm (t : Term) (ctx : Context) (pending : List Pending) : Reaction Code Running :=
  match t with
  | .malformed message => think (.failed (.raised message)) pending
  | .literal l => think (.produced (.value l.value)) pending
  | .apply op operands => nextOperand op [] operands ctx pending
  | .bind name value body => think (.evaluate value ctx) (.bind name body ctx :: pending)
  | .sequence [] last => think (.evaluate last ctx) pending
  | .sequence (t :: left) last => think (.evaluate t ctx) (.sequence left last ctx :: pending)
  | .choose test yes no => think (.evaluate test ctx) (.choose yes no ctx :: pending)
  | .rescue body other => think (.evaluate body ctx) (.rescue other ctx :: pending)
  | .contain body => .ask (.attempt (.block body ctx)) (.waiting .contained pending)
  | .call role name arguments =>
    match ctx.scope.definitions.lookup name with
    | none => think (.failed (.raised ("no such def: " ++ name))) pending
    | some d =>
      nextArgument (d.body role) [] (pairArguments d.parameters arguments) ctx pending

/-- Hand a product to the evaluation that waits for it. -/
def resumeWith (p : Product) (waiting : Pending) (pending : List Pending) :
    Reaction Code Running :=
  match waiting with
  | .operands op ready expect left ctx =>
    match expect.accept p with
    | .ok a => nextOperand op (ready ++ [a]) left ctx pending
    | .error e => think (.failed e) pending
  | .bind name body ctx =>
    match p with
    | .value v =>
      let ctx := ctx.bind name v
      think (.evaluate body ctx) (.within ctx :: pending)
    | p => think (.produced p) pending
  | .sequence [] last ctx => think (.evaluate last ctx) pending
  | .sequence (t :: left) last ctx =>
    think (.evaluate t ctx) (.sequence left last ctx :: pending)
  | .choose yes no ctx =>
    match p with
    | .value (.bool true) => think (.evaluate yes ctx) pending
    | .value (.bool false) => think (.evaluate no ctx) pending
    | .value v => think (.failed (v.mismatch .bool)) pending
    | p => think (.produced p) pending
  | .arguments body ready parameter left ctx =>
    match p with
    | .value v => nextArgument body ((parameter, v) :: ready) left ctx pending
    | p => think (.produced p) pending
  | .rescue _ _ | .within _ | .keep _ | .report => think (.produced p) pending

/-- Hand a failure to the evaluation that waits. -/
def failWith (e : Error) (waiting : Pending) (pending : List Pending) : Reaction Code Running :=
  match waiting with
  | .operands op ready expect left ctx =>
    if expect.takesFailure then
      nextOperand op (ready ++ [.outcome (.failure e)]) left ctx pending
    else think (.failed e) pending
  | .rescue other ctx => think (.evaluate other { ctx with input := .failure e }) pending
  | .report => think (.note (.callbackFailed e) none) pending
  | _ => think (.failed e) pending

/-- What code returns for a product. -/
def Product.result : Product → Reaction Code Running
  | .value v => .finish (.success v)
  | .error e => .finish (.failure e)
  | .step (.done o) => .finish o
  | .step (.yield i) => .yield i
  | .script s => .build s

/-- Carry out a thought. -/
def Thought.react (thought : Thought) (pending : List Pending) : Reaction Code Running :=
  match thought with
  | .evaluate t ctx => evaluateTerm t ctx pending
  | .produced p =>
    match pending with
    | [] => p.result
    | waiting :: pending => resumeWith p waiting pending
  | .failed e =>
    match pending with
    | [] => .finish (.failure e)
    | waiting :: pending => failWith e waiting pending
  | .store [] t ctx => think (.evaluate t ctx) pending
  | .store ((name, v) :: left) t ctx =>
    .ask (.writeVariable name v) (.waiting (.next (.store left t ctx)) pending)
  | .register c code =>
    .ask (.onSettle c code) (.waiting (.next (.produced (.script (.returning .unit)))) pending)
  | .reenter p k v =>
    .ask (.reenter p k v) (.waiting (.next (.produced (.value .unit))) pending)
  | .note n andThen =>
    .ask (.record n) (.waiting (.next (match andThen with
      | some (t, ctx) => .evaluate t ctx
      | none => .produced (.value .unit))) pending)

/-- The word for an instruction. -/
def instructionName : Instruction Code → String
  | .reset _ => "Reset"
  | .shift _ => "Shift"
  | .suspend => "Suspend"
  | .splice _ => "Splice"
  | .await _ => "Await"

/-- The result of a kept script's step, as a list. -/
def stepList : Step Code → Value
  | .yield i => .list [.text "yield", .text (instructionName i)]
  | .done (.success v) => .list [.text "done", v]
  | .done (.failure e) => .list [.text "failed", .text e.kind, .text e.message]

/-- What an outcome makes one think. -/
def thinkOutcome : Outcome Value → Thought
  | .success v => .produced (.value v)
  | .failure e => .failed e

/-- Use a reply for its purpose. -/
def Purpose.react (purpose : Purpose) (r : Reply Code) (pending : List Pending) :
    Reaction Code Running :=
  match purpose, r with
  | .next thought, _ => think thought pending
  | .variable name, .nothing => think (.failed (.raised ("unbound: " ++ name))) pending
  | .newPair completion settler, .outcome (.success (.list [c, s])) =>
    .ask (.writeVariable completion c)
      (.waiting (.next (.store [(settler, s)] (.literal .unit) ⟨⟨[], []⟩, .unit⟩)) pending)
  | .settledOutcome, .nothing => think (.produced (.value (.label "pending"))) pending
  | .contained, .unwound payload =>
    think (.failed (.raised ("unwound: " ++ payload.message))) pending
  | .suspend, _ => think (.produced (.step (.yield .suspend))) pending
  | .invoked, _ => think (.produced (.value (.text (instructionName .suspend)))) pending
  | .moved, .stepped step => think (.produced (.value (stepList step))) pending
  | .position, .nothing => think (.failed (.raised "no position")) pending
  | _, .busy => think (.failed (.raised "coroutine is busy")) pending
  | .failures, .errors es =>
    think (.produced (.value (.list (es.map fun e => .text (e.kind ++ ": " ++ e.message)))))
      pending
  | .emptiness, .outcome (.success (.int n)) =>
    think (.produced (.value (.bool (n == 0)))) pending
  | .aloneOn task ctx, .outcome (.success (.handle (.bridge b))) =>
    .ask (.run b (.block task ctx)) (.waiting .result pending)
  | _, .outcome o => think (thinkOutcome o) pending
  | _, _ => think (.produced (.value .unit)) pending

/-- What running code does on a signal. -/
def react : Running → Signal Code → Reaction Code Running
  | .thinking thought pending, .proceed => thought.react pending
  | .waiting purpose pending, .reply r => purpose.react r pending
  | state, _ => .proceed state

/-- Start to evaluate `t` in a context that stays alive meanwhile. -/
def evaluateIn (t : Term) (ctx : Context) : Running :=
  .thinking (.evaluate t ctx) [.within ctx]

/-- What an entry feeds. -/
def entryInput : Entry → Outcome Value
  | .feed o => o
  | _ => .unit

/-- Bind a name, if there is one. -/
def Context.bindSome (ctx : Context) (name : Option String) (v : Value) : Context :=
  match name with
  | some name => ctx.bind name v
  | none => ctx

/-- Start a shift handler: bind and store the continuation and the way back
    in, then build the body. The continuation is kept until that is done. -/
def startHandler (h : HandlerTerm) (ctx : Context) (k p : Nat) : Running :=
  match h with
  | .mk body continuation reenter continuationVariable reenterVariable =>
    let kValue := Value.handle (.continuation k)
    let rValue := Value.handle (.reenter p)
    let inner := (ctx.bindSome continuation kValue).bindSome reenter rValue
    let stored := continuationVariable.toList.map (·, kValue)
      ++ reenterVariable.toList.map (·, rValue)
    .thinking (.store stored body inner) [.within inner, .within ctx, .keep kValue]

/-- Start code at rest. -/
def start (code : Code) (entry : Entry) : Running :=
  match code with
  | .closure body scope => evaluateIn body ⟨scope, entryInput entry⟩
  | .callback body scope =>
    let ctx : Context := ⟨scope, entryInput entry⟩
    .thinking (.evaluate body ctx) [.report, .within ctx]
  | .block body ctx => evaluateIn body ctx
  | .handler h ctx =>
    match entry with
    | .handle k p => startHandler h ctx k p
    | _ => .thinking (.produced (.value .unit)) [.within ctx]
  | .awaiting c =>
    match entry with
    | .handle k p =>
      .thinking (.register c (.waking k p)) [.keep (.handle (.completion c))]
    | _ => .thinking (.produced (.value .unit)) []
  | .waking k p =>
    match entry with
    | .feed (.success v) =>
      .thinking (.reenter p k v) [.keep (.handle (.continuation k))]
    | _ => .thinking (.produced (.value .unit)) [.keep (.handle (.continuation k))]
  | .counted steps entered scope =>
    evaluateIn (steps.getD (min entered steps.length - 1) default) ⟨scope, entryInput entry⟩
  | .custom _ _ _ _ | .passing => .thinking (thinkOutcome (entryInput entry)) []
  | .noting tag position onCopy scope =>
    let ctx : Context := ⟨scope, .unit⟩
    match tag, onCopy with
    | some tag, onCopy =>
      .thinking (.note (.copied tag position) (onCopy.map (·, ctx))) [.within ctx]
    | none, some t => evaluateIn t ctx
    | none, none => .thinking (.produced (.value .unit)) []

/-- How a coroutine of the language moves on. A step past the last one
    returns what it is fed; an exit begins the cleanup steps. -/
def move (code : Code) (exiting : Bool) : Code × Code :=
  match code with
  | .counted steps entered scope =>
    if exiting then (code, .passing)
    else
      (.counted steps (entered + 1) scope,
        .closure (steps.getD (min (entered + 1) steps.length - 1) (.malformed "bad step: "))
          scope)
  | .custom c position wasExiting scope =>
    let position := if exiting then 0 else position
    let exiting := exiting || wasExiting
    match c with
    | .mk steps cleanup _ _ =>
      match (if exiting then cleanup else steps)[position]? with
      | none => (.custom c position exiting scope, .passing)
      | some step => (.custom c (position + 1) exiting scope, .closure step scope)
  | code => (code, .passing)

/-- What a coroutine of the language does when it is copied. -/
def onCopy : Code → Option Code
  | .custom (.mk _ _ tag onCopy) position _ scope =>
    if tag.isNone && onCopy.isNone then none else some (.noting tag position onCopy scope)
  | _ => none

/-- The language, seen from the library. -/
def behavior : Behavior Code Running where
  start
  react
  move
  onCopy
  held := Code.handles
  heldRunning := Running.handles

end Strand.Language
