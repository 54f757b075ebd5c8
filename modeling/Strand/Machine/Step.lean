import Strand.Machine.Unwind

/-! # Step — one move of the machine

    `Machine.step` is total. A machine with an empty control stack and
    nothing to let go of has halted: it keeps its last answer, or the panic
    that nobody caught. -/

namespace Strand.Machine

variable {C R : Type}

/-- Start code, and count its handles anew by what it holds once it runs. -/
def startCode (m : Machine C R) (B : Behavior C R) (code : C) (entry : Entry) : Machine C R :=
  let state := B.start code entry
  let (lost, m) := m.recount (B.held code ++ entry.handles) (B.heldRunning state)
  { m with focus := .release lost (.tell state .proceed) }

/-- Tell running code something, and count its handles anew by what it holds
    afterwards. A panic lets go of everything as part of unwinding. -/
def tell (m : Machine C R) (B : Behavior C R) (state : R) (signal : Signal C) : Machine C R :=
  let reaction := B.react state signal
  let (lost, m) := m.recount (B.heldRunning state ++ signal.handles B.held) (reaction.handles B)
  match reaction with
  | .panic payload => m.unwind lost payload none
  | reaction => { m with focus := .release lost (.act reaction) }

/-- Carry out a reaction. -/
def act (m : Machine C R) (B : Behavior C R) : Reaction C R → Machine C R
  | .proceed next => { m with focus := .release [] (.tell next .proceed) }
  | .ask request next => m.push (.code next) |>.perform B request
  | .finish o => m.give (.outcome o)
  | .yield i => m.give (.yield i)
  | .build s => m.give (.built s)
  | .panic payload => m.unwind [] payload none

/-- Let go of one handle; `rest` follows. Whoever waits for a completion that
    nobody can settle any more is told so first. -/
def letGo (m : Machine C R) (B : Behavior C R) (h : Handle) (rest : List Handle)
    (onward : Onward C R) : Machine C R :=
  match m.store.letGo B.held h with
  | (.release hs, store) => { m with store, focus := .release (hs ++ rest) onward }
  | (.abandoned c, store) =>
    { m with store }.push (.releasing (.completion c :: rest) onward)
      |>.settle c (.failure .abandoned)

/-- What follows once nothing is left to let go of. -/
def goOn (m : Machine C R) (B : Behavior C R) (onward : Onward C R) : Machine C R :=
  match onward with
  | .begin code entry => m.startCode B code entry
  | .tell state signal => m.tell B state signal
  | .act reaction => m.act B reaction
  | .give a =>
    match m.control with
    | [] => m
    | f :: control => { m with control }.deliver B a f
  | .unwind payload salvage =>
    match m.control with
    | [] => m
    | f :: control => { m with control }.unwindFrame B payload salvage f

/-- One move. -/
def step (B : Behavior C R) (m : Machine C R) : Machine C R :=
  match m.focus with
  | .advance script input => m.advanceScript B script input
  | .exit script => m.exitScript B script
  | .copy script => m.copyScript B script
  | .release (h :: rest) onward => m.letGo B h rest onward
  | .release [] onward => m.goOn B onward
  | .aborted => m

/-- Whether nothing more happens. -/
def halted (m : Machine C R) : Bool :=
  match m.focus with
  | .aborted => true
  | .release [] (.give _) | .release [] (.unwind _ _) => m.control.isEmpty
  | _ => false

/-- Up to `fuel` moves, until the machine has halted. -/
def run (B : Behavior C R) : (fuel : Nat) → Machine C R → Machine C R
  | 0, m => m
  | fuel + 1, m => if m.halted then m else run B fuel (m.step B)

end Strand.Machine
