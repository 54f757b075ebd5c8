import Strand.Behavior
import Strand.Language.Term

/-! # Code — programs at rest and running

    * **Code at rest** is program text with the lexical bindings of the place
      where it was made; blocks and handlers keep the input of that place
      too.
    * **Running code** is a thought with the evaluations that wait for it,
      innermost first, or it waits for a reply and knows what the reply is
      for.

    `handles` lists what code holds: what is at hand first, then what waits
    for it, outwards. -/

namespace Strand.Language

/-- The lexical side of a place in a program. -/
structure Scope where
  definitions : Definitions
  /-- Innermost first. -/
  bindings : List (String × Value)

/-- Where code runs: its bindings and the outcome that it was given. -/
structure Context where
  scope : Scope
  input : Outcome Value

/-- Code at rest. -/
inductive Code where
  /-- A stage, a step or a cleanup: runs on an outcome. -/
  | closure (body : Term) (scope : Scope)
  /-- The same, where a failure has no receiver. -/
  | callback (body : Term) (scope : Scope)
  /-- Builds a script, or evaluates, as in the place where it was made. -/
  | block (body : Term) (ctx : Context)
  /-- A shift handler. -/
  | handler (h : HandlerTerm) (ctx : Context)
  /-- The handler of a script that awaits a completion. -/
  | awaiting (completion : Nat)
  /-- Resumes a continuation when a completion has succeeded. -/
  | waking (continuation scheduler : Nat)
  /-- A coroutine that runs the next of its steps each time, and the last one
      again and again. -/
  | counted (steps : List Term) (entered : Nat) (scope : Scope)
  /-- A coroutine with steps and cleanup steps. -/
  | custom (c : CustomTerm) (position : Nat) (exiting : Bool) (scope : Scope)
  /-- Takes note of a copy. -/
  | noting (tag : Option String) (position : Nat) (onCopy : Option Term) (scope : Scope)
  /-- Returns what it is fed. -/
  | passing

instance : Inhabited Code := ⟨.passing⟩

/-- What a term can stand for. -/
inductive Product where
  | value (v : Value)
  | error (e : Error)
  | step (s : Step Code)
  | script (s : Script Code)

/-- An operand that has been evaluated. -/
inductive Argument where
  | value (v : Value)
  | outcome (o : Outcome Value)
  | error (e : Error)
  | script (s : Script Code)

/-- What an evaluation is about to do. -/
inductive Thought where
  | evaluate (t : Term) (ctx : Context)
  | produced (p : Product)
  | failed (e : Error)
  /-- Store values in shared variables, then evaluate. -/
  | store (named : List (String × Value)) (t : Term) (ctx : Context)
  /-- Call the library. -/
  | register (completion : Nat) (code : Code)
  /-- Invoke a continuation from outside. -/
  | reenter (scheduler continuation : Nat) (v : Value)
  /-- Write a note. -/
  | note (n : Note) (andThen : Option (Term × Context))

/-- An evaluation that waits for an inner one. -/
inductive Pending where
  /-- The operands of an operation. -/
  | operands (op : Operation) (ready : List Argument) (expect : Expect) (left : List Operand)
      (ctx : Context)
  /-- The value of a lexical binding. -/
  | bind (name : String) (body : Term) (ctx : Context)
  /-- A value that does not count. -/
  | sequence (left : List Term) (last : Term) (ctx : Context)
  /-- A test. -/
  | choose (yes no : Term) (ctx : Context)
  /-- What may fail. -/
  | rescue (other : Term) (ctx : Context)
  /-- The argument for `parameter`; those before it are ready, latest first. -/
  | arguments (body : Term) (ready : List (String × Value)) (parameter : String)
      (left : List (String × Term)) (ctx : Context)
  /-- Keeps a context alive until the evaluation inside is over. -/
  | within (ctx : Context)
  /-- Keeps a value alive until the evaluation inside is over. -/
  | keep (v : Value)
  /-- A failure that arrives here is noted. -/
  | report

/-- What a reply is for. -/
inductive Purpose where
  /-- The reply is the result. -/
  | result
  /-- The value of a name that is not bound lexically. -/
  | variable (name : String)
  /-- A new completion and its settler, to be stored. -/
  | newPair (completion settler : String)
  /-- The outcome of a completion, if it has settled. -/
  | settledOutcome
  /-- Code that may have panicked. -/
  | contained
  /-- Captured frames were reinstated by a step. -/
  | suspend
  /-- Captured frames were reinstated by an expression. -/
  | invoked
  /-- A kept script moved on. -/
  | moved
  /-- The position of a kept script. -/
  | position
  /-- The failures that waited. -/
  | failures
  /-- Whether a queue is empty. -/
  | emptiness
  /-- The bridge for a single task. -/
  | aloneOn (task : Term) (ctx : Context)
  /-- Go on with this, whatever the reply. -/
  | next (thought : Thought)

/-- Running code. -/
inductive Running where
  /-- In the middle of an evaluation. -/
  | thinking (thought : Thought) (pending : List Pending)
  /-- Waits for a reply. -/
  | waiting (purpose : Purpose) (pending : List Pending)

/-! ### What is held -/

/-- The handles of named values. -/
def namedHandles (vs : List (String × Value)) : List Handle := vs.flatMap fun b => b.2.handles

/-- The handles of lexical bindings, innermost first. -/
def Scope.handles (s : Scope) : List Handle := namedHandles s.bindings

def Context.handles (ctx : Context) : List Handle := ctx.scope.handles ++ ctx.input.handles

def Code.handles : Code → List Handle
  | .closure _ scope | .callback _ scope | .counted _ _ scope | .custom _ _ _ scope
  | .noting _ _ _ scope => scope.handles
  | .block _ ctx | .handler _ ctx => ctx.handles
  | .awaiting c => [.completion c]
  | .waking k p => [.reenter p, .continuation k]
  | .passing => []

def Product.handles : Product → List Handle
  | .value v => v.handles
  | .error _ => []
  | .step s => s.handles Code.handles
  | .script s => s.handles Code.handles

def Argument.handles : Argument → List Handle
  | .value v => v.handles
  | .outcome o => o.handles
  | .error _ => []
  | .script s => s.handles Code.handles

def Thought.handles : Thought → List Handle
  | .evaluate _ ctx => ctx.handles
  | .produced p => p.handles
  | .failed _ => []
  | .store named _ ctx => namedHandles named ++ ctx.handles
  | .register c code => .completion c :: code.handles
  | .reenter p k v => .reenter p :: .continuation k :: v.handles
  | .note n andThen => n.handles ++ (andThen.map fun x => x.2.handles).getD []

def Pending.handles : Pending → List Handle
  | .operands _ ready _ _ ctx => ready.flatMap Argument.handles ++ ctx.handles
  | .bind _ _ ctx | .sequence _ _ ctx | .choose _ _ ctx | .rescue _ ctx | .within ctx =>
    ctx.handles
  | .arguments _ ready _ _ ctx => namedHandles ready ++ ctx.handles
  | .keep v => v.handles
  | .report => []

def Purpose.handles : Purpose → List Handle
  | .aloneOn _ ctx => ctx.handles
  | .next thought => thought.handles
  | _ => []

def Running.handles : Running → List Handle
  | .thinking thought pending => thought.handles ++ pending.flatMap Pending.handles
  | .waiting purpose pending => purpose.handles ++ pending.flatMap Pending.handles

end Strand.Language
