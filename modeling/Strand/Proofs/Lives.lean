import Strand.Proofs.Calls
import Strand.Proofs.Cancellation

/-! # Lives — what a script goes through from call to call

    A script is fed and made to exit, and copies are made of it, each time by whoever has
    it then. A life is a line of such calls: each one finds the script as the one before
    has left it, be it the original or a copy.

    * `Errand` is one call with what came of it; `Lived` strings errands together.
    * `stages_follow_list` says what the errands of a list of stages are, whatever the order
      of the calls.
    * `forced_return_keeps_failure` says which errands of the script behind a forced return
      its own errands are made of, and what it is done with. -/

namespace Strand

variable {C R : Type}

/-- How a script is called. -/
inductive ScriptCall where
  | feed (input : Outcome Value)
  | exit

/-- What comes of a call. -/
inductive ScriptEnd (C : Type) where
  | stepped (step : Step C)
  | panicked (payload : Payload)

/-- The call, about to be made. -/
def ScriptCall.focus (script : Script C) : ScriptCall → Focus C R
  | .feed input => .advance script input
  | .exit => .exit script

/-- What is fed. -/
def ScriptCall.input? : ScriptCall → Option (Outcome Value)
  | .feed input => some input
  | .exit => none

/-- What the caller is handed, and what the script is from then on. A panic leaves it
    with the caller as well. -/
def ScriptEnd.onward (script : Script C) : ScriptEnd C → Onward C R
  | .stepped step => .give (.stepped step script)
  | .panicked payload => .unwind payload (some script)

/-- A call of a script. -/
structure Errand (C R : Type) where
  call : ScriptCall
  /-- Where it is made, and where it is over. -/
  start : Machine C R
  finish : Machine C R
  result : ScriptEnd C

namespace Errand

variable (B : Behavior C R) (d : Errand C R)

/-- The code of the program that the call begins. -/
def begun : Option (C × Entry) :=
  match (d.start.step B).focus with
  | .release _ (.begin code entry) => some (code, entry)
  | _ => none

/-- A script is done with the call, or was made to exit. -/
def isFinal : Bool :=
  match d.call, d.result with
  | .exit, _ => true
  | _, .stepped (.done _) => true
  | _, _ => false

/-- The call finds the script as `x` and leaves it as `y`. A panic comes from the code
    that it begins. -/
structure Turns (x y : Script C) : Prop where
  asked : d.start.focus = d.call.focus x
  ends : Machine.Ends B d.start d.finish
  answer : d.finish.focus = .release [] (d.result.onward y)
  caught : ∀ payload, d.result = .panicked payload → d.begun B ≠ none

end Errand

/-- The script `x` goes through these calls, and is `y` then. -/
inductive Lived (B : Behavior C R) (x : Script C) : List (Errand C R) → Script C → Prop
  | new : Lived B x [] x
  | called {ds : List (Errand C R)} {d : Errand C R} {y z : Script C} (h : Lived B x ds y)
      (hd : d.Turns B y z) : Lived B x (ds ++ [d]) z
  /-- A copy takes its place. -/
  | copied {ds : List (Errand C R)} {y z : Script C} {m n : Machine C R} (h : Lived B x ds y)
      (hfocus : m.focus = .copy y) (hends : Machine.Ends B m n)
      (hbuilt : n.focus = .release [] (.give (.built z))) : Lived B x ds z

theorem Lived.trans {x y z : Script C} {ds es : List (Errand C R)} {B : Behavior C R}
    (h : Lived B x ds y) (h' : Lived B y es z) : Lived B x (ds ++ es) z := by
  induction h' with
  | new => simpa using h
  | called _ hd ih =>
    rw [← List.append_assoc]
    exact ih.called hd
  | copied _ hfocus hends hbuilt ih => exact ih.copied hfocus hends hbuilt

/-! ### Lives, computed -/

section Computed

variable (B : Behavior C R)

/-- The call made of `x` in an empty machine, and what `x` is then, if the call is over
    within so many moves. -/
def performed (fuel : Nat) (x : Script C) (call : ScriptCall) : Option (Errand C R × Script C) :=
  let start : Machine C R := ⟨.empty, [], call.focus x⟩
  let finish := Machine.after B fuel start
  match finish.control, finish.focus with
  | [], .release [] (.give (.stepped step y)) => some (⟨call, start, finish, .stepped step⟩, y)
  | [], .release [] (.unwind payload (some y)) =>
    let d : Errand C R := ⟨call, start, finish, .panicked payload⟩
    if (d.begun B).isSome then some (d, y) else none
  | _, _ => none

/-- The same for one call after the other. -/
def performedAll (fuel : Nat) (x : Script C) :
    List ScriptCall → Option (List (Errand C R) × Script C)
  | [] => some ([], x)
  | call :: calls => do
    let (d, y) ← performed B fuel x call
    let (ds, z) ← performedAll fuel y calls
    return (d :: ds, z)

variable {B}

/-- A machine that was empty and has come to an answer or a panic has ended. -/
theorem Machine.ends_of_halted {m : Machine C R} {j : Nat} (hcontrol : m.control = [])
    (hback : (Machine.after B j m).control = []) (hpop : (Machine.after B j m).popping = true) :
    Machine.Ends B m (Machine.after B j m) := by
  classical
  have hex : ∃ i, (Machine.after B i m).control = [] ∧ (Machine.after B i m).popping = true :=
    ⟨j, hback, hpop⟩
  obtain ⟨hfirst, hpops⟩ := Nat.find_spec hex
  -- it stays as it is from then on
  have hstill : ∀ d, Machine.after B (Nat.find hex + d) m = Machine.after B (Nat.find hex) m := by
    intro d
    induction d with
    | zero => rfl
    | succ d ih =>
      rw [← Nat.add_assoc, Machine.after_add, ih]
      exact Machine.step_of_ended hfirst hpops
  obtain ⟨d, hd⟩ := Nat.exists_eq_add_of_le (Nat.find_min' hex ⟨hback, hpop⟩)
  refine ⟨Nat.find hex, ?_, ?_, hpop, fun i hi => ?_⟩
  · rw [hd, hstill]
  · rw [hback, hcontrol]
  · rw [hcontrol]
    exact Nat.find_min hex hi

theorem turns_of_performed {fuel : Nat} {x y : Script C} {call : ScriptCall} {d : Errand C R}
    (h : performed B fuel x call = some (d, y)) : d.Turns B x y := by
  dsimp only [performed] at h
  split at h
  · next step y' hcontrol hfocus =>
    cases h
    refine ⟨rfl, Machine.ends_of_halted rfl hcontrol ?_, hfocus, fun payload heq => ?_⟩
    · simp [Machine.popping, hfocus]
    · cases heq
  · next payload y' hcontrol hfocus =>
    split at h
    · next hbegun =>
      cases h
      refine ⟨rfl, Machine.ends_of_halted rfl hcontrol ?_, hfocus, fun payload' heq => ?_⟩
      · simp [Machine.popping, hfocus]
      · exact Option.isSome_iff_ne_none.mp hbegun
    · cases h
  · cases h

theorem call_of_performed {fuel : Nat} {x y : Script C} {call : ScriptCall} {d : Errand C R}
    (h : performed B fuel x call = some (d, y)) : d.call = call := by
  dsimp only [performed] at h
  split at h
  · cases h
    rfl
  · split at h
    · cases h
      rfl
    · cases h
  · cases h

theorem lived_of_performedAll {fuel : Nat} {calls : List ScriptCall} {x z : Script C}
    {ds : List (Errand C R)} (h : performedAll B fuel x calls = some (ds, z)) : Lived B x ds z := by
  induction calls generalizing x ds with
  | nil =>
    cases h
    exact .new
  | cons call calls ih =>
    rw [performedAll, Option.bind_eq_bind, Option.bind_eq_some_iff] at h
    obtain ⟨⟨d, y⟩, hd, h⟩ := h
    rw [Option.bind_eq_bind, Option.bind_eq_some_iff] at h
    obtain ⟨⟨es, z'⟩, hes, h⟩ := h
    cases h
    exact (Lived.called .new (turns_of_performed hd)).trans (ih hes)

theorem calls_of_performedAll {fuel : Nat} {calls : List ScriptCall} {x z : Script C}
    {ds : List (Errand C R)} (h : performedAll B fuel x calls = some (ds, z)) :
    ds.map Errand.call = calls := by
  induction calls generalizing x ds with
  | nil =>
    cases h
    rfl
  | cons call calls ih =>
    rw [performedAll, Option.bind_eq_bind, Option.bind_eq_some_iff] at h
    obtain ⟨⟨d, y⟩, hd, h⟩ := h
    rw [Option.bind_eq_bind, Option.bind_eq_some_iff] at h
    obtain ⟨⟨es, z'⟩, hes, h⟩ := h
    cases h
    rw [List.map_cons, ih hes, call_of_performed hd]

end Computed

/-! ### Deeds in order -/

/-- The errands up to the first one that is final. -/
def untilFinal : List (Errand C R) → List (Errand C R)
  | [] => []
  | d :: ds => d :: if d.isFinal then [] else untilFinal ds

/-- What the script is fed in these errands. -/
def fedWith (ds : List (Errand C R)) : List (Outcome Value) := ds.filterMap fun d => d.call.input?

theorem untilFinal_append (ds : List (Errand C R)) (d : Errand C R) :
    untilFinal (ds ++ [d]) = if ds.any Errand.isFinal then untilFinal ds else ds ++ [d] := by
  induction ds with
  | nil => simp [untilFinal]
  | cons e ds ih =>
    rw [List.cons_append, untilFinal, ih, untilFinal, List.any_cons]
    cases e.isFinal with
    | true => simp
    | false => simp only [Bool.false_or, Bool.false_eq_true, if_false]; split <;> rfl

theorem untilFinal_of_none {ds : List (Errand C R)} (h : ds.any Errand.isFinal = false) :
    untilFinal ds = ds := by
  induction ds with
  | nil => rfl
  | cons d ds ih =>
    rw [List.any_cons, Bool.or_eq_false_iff] at h
    rw [untilFinal, h.1, ih h.2]
    rfl

@[simp] theorem fedWith_append (ds ds' : List (Errand C R)) :
    fedWith (ds ++ ds') = fedWith ds ++ fedWith ds' := List.filterMap_append ..

/-! ### Lists of stages -/

/-- The code that a stage runs on an input, if it runs on it. -/
def Stage.run? : Stage C → Outcome Value → Option (C × Entry)
  | .always code, input => some (code, .feed input)
  | .onSuccess code, .success v => some (code, .feed (.success v))
  | .onSuccess _, .failure _ => none
  | .constant _, _ => none

/-- What a stage is done with if it runs nothing. -/
def Stage.idle : Stage C → Outcome Value → Outcome Value
  | .constant o, _ => o
  | _, input => input

namespace Errand

variable {B : Behavior C R} {d : Errand C R} {s s' : Staged C} {y : Script C}
  {input o : Outcome Value} {code : C} {entry : Entry}

theorem Turns.step_feed {x : Script C} (h : d.Turns B x y) (hcall : d.call = .feed input) :
    d.start.step B = d.start.advanceScript B x input := by
  have hasked := h.asked
  rw [hcall] at hasked
  simp only [Machine.step, show d.start.focus = .advance x input from hasked]

theorem Turns.step_exit {x : Script C} (h : d.Turns B x y) (hcall : d.call = .exit) :
    d.start.step B = d.start.exitScript B x := by
  have hasked := h.asked
  rw [hcall] at hasked
  simp only [Machine.step, show d.start.focus = .exit x from hasked]

/-- What is worked off after the first move. -/
theorem Turns.tail {x : Script C} (h : d.Turns B x y) :
    ∃ j, Machine.EndsIn B d.start.control j (d.start.step B) d.finish := by
  refine h.ends.tail ?_
  have hasked := h.asked
  cases hcall : d.call <;> simp [Machine.popping, hasked, hcall, ScriptCall.focus]

/-- A list of stages answers without running anything. -/
theorem Turns.answers {hs : List Handle} (h : d.Turns B (.staged s) y)
    (hfocus : (d.start.step B).focus = .release hs (.give (.stepped (.done o) (.staged s'))))
    (hcontrol : (d.start.step B).control = d.start.control) :
    y = .staged s' ∧ d.result = .stepped (.done o) ∧ d.begun B = none := by
  have hnone : d.begun B = none := by rw [begun, hfocus]
  obtain ⟨j, hends⟩ := h.tail
  have hanswer := h.answer
  cases hresult : d.result with
  | panicked payload => exact absurd hnone (h.caught payload hresult)
  | stepped step =>
    rw [hresult] at hanswer
    rcases hends.released hcontrol hfocus rfl with hgive | ⟨payload, salvage, hpanic⟩
    · rw [hgive] at hanswer
      cases hanswer
      exact ⟨rfl, rfl, hnone⟩
    · rw [hpanic] at hanswer
      cases hanswer

/-- A list of stages runs code: the answer is that of the code, or its panic. -/
theorem Turns.runs (h : d.Turns B (.staged s) y)
    (hfocus : (d.start.step B).focus = .release [] (.begin code entry))
    (hcontrol : (d.start.step B).control = .inStaged s' :: d.start.control) :
    d.begun B = some (code, entry) ∧
      ((∃ step, d.result = .stepped step ∧ y = .staged (s'.after step)) ∨
        ∃ payload, d.result = .panicked payload ∧ y = .staged s') := by
  have hbegun : d.begun B = some (code, entry) := by rw [begun, hfocus]
  obtain ⟨j, hends⟩ := h.tail
  have hanswer := h.answer
  refine ⟨hbegun, ?_⟩
  obtain ⟨i, n, hrest, hat, ⟨a, ha⟩ | ⟨payload, salvage, hpanic⟩⟩ :=
    hends.frame (f := .inStaged s') (by rw [hcontrol])
  · rw [Machine.step_of_give hat ha] at hrest
    rw [hrest.eq_of_popping rfl rfl] at hanswer
    cases hresult : d.result with
    | stepped step =>
      rw [hresult] at hanswer
      cases hanswer
      exact Or.inl ⟨_, rfl, rfl⟩
    | panicked payload =>
      rw [hresult] at hanswer
      cases hanswer
  · rw [Machine.step_of_unwind hat hpanic] at hrest
    rw [hrest.eq_of_popping rfl rfl] at hanswer
    cases hresult : d.result with
    | stepped step =>
      rw [hresult] at hanswer
      cases hanswer
    | panicked payload' =>
      rw [hresult] at hanswer
      cases hanswer
      exact Or.inr ⟨_, rfl, rfl⟩

/-- What feeding a list of stages comes to. -/
inductive Enters (B : Behavior C R) (s : Staged C) (input : Outcome Value) (d : Errand C R) :
    Staged C → Prop
  /-- It has come to its end before, or does so now. -/
  | past (hnone : s.finished = true ∨ s.stages[s.position]? = none)
      (hresult : d.result = .stepped (.done input)) (hbegun : d.begun B = none) :
      Enters B s input d s.finish
  /-- The next stage has nothing to run. -/
  | idle {stage : Stage C} (hgoing : s.finished = false)
      (hstage : s.stages[s.position]? = some stage) (hrun : stage.run? input = none)
      (hresult : d.result = .stepped (.done (stage.idle input))) (hbegun : d.begun B = none) :
      Enters B s input d { s with position := s.position + 1, finished := true }
  /-- The next stage runs. -/
  | ran {stage : Stage C} {step : Step C} (hgoing : s.finished = false)
      (hstage : s.stages[s.position]? = some stage) (hrun : stage.run? input = d.begun B)
      (hresult : d.result = .stepped step) (hbegun : d.begun B ≠ none) :
      Enters B s input d ({ s with position := s.position + 1 }.after step)
  | panicked {stage : Stage C} {payload : Payload} (hgoing : s.finished = false)
      (hstage : s.stages[s.position]? = some stage) (hrun : stage.run? input = d.begun B)
      (hresult : d.result = .panicked payload) (hbegun : d.begun B ≠ none) :
      Enters B s input d { s with position := s.position + 1 }

theorem Turns.enters (h : d.Turns B (.staged s) y) (hcall : d.call = .feed input) :
    ∃ s', y = .staged s' ∧ Enters B s input d s' := by
  have hstep : d.start.step B = d.start.enterStage B.held s input := h.step_feed hcall
  obtain ⟨stages, onExit, position, finished⟩ := s
  unfold Machine.enterStage Staged.enter at hstep
  cases finished with
  | true =>
    obtain ⟨rfl, hresult, hbegun⟩ := h.answers (by rw [hstep]; rfl) (by rw [hstep]; rfl)
    exact ⟨_, rfl, .past (Or.inl rfl) hresult hbegun⟩
  | false =>
    dsimp only at hstep
    cases hstage : stages[position]? with
    | none =>
      rw [hstage] at hstep
      obtain ⟨rfl, hresult, hbegun⟩ := h.answers (by rw [hstep]; rfl) (by rw [hstep]; rfl)
      exact ⟨_, rfl, .past (Or.inr hstage) hresult hbegun⟩
    | some stage =>
      rw [hstage] at hstep
      have hruns {code : C} (hrun : stage.run? input = some (code, .feed input))
          (hfocus : (d.start.step B).focus = .release [] (.begin code (.feed input)))
          (hcontrol : (d.start.step B).control =
            .inStaged ⟨stages, onExit, position + 1, false⟩ :: d.start.control) :
          ∃ s', y = .staged s' ∧ Enters B ⟨stages, onExit, position, false⟩ input d s' := by
        obtain ⟨hbegun, hended⟩ := h.runs hfocus hcontrol
        have hsome : d.begun B ≠ none := by simp [hbegun]
        rw [← hbegun] at hrun
        rcases hended with ⟨step, hresult, rfl⟩ | ⟨payload, hresult, rfl⟩
        · exact ⟨_, rfl, .ran rfl hstage hrun hresult hsome⟩
        · exact ⟨_, rfl, .panicked rfl hstage hrun hresult hsome⟩
      cases stage with
      | always code => exact hruns rfl (by rw [hstep]; rfl) (by rw [hstep]; rfl)
      | onSuccess code =>
        cases input with
        | success v => exact hruns rfl (by rw [hstep]; rfl) (by rw [hstep]; rfl)
        | failure e =>
          obtain ⟨rfl, hresult, hbegun⟩ := h.answers (by rw [hstep]; rfl) (by rw [hstep]; rfl)
          exact ⟨_, rfl, .idle rfl hstage rfl hresult hbegun⟩
      | constant o =>
        obtain ⟨rfl, hresult, hbegun⟩ := h.answers (by rw [hstep]; rfl) (by rw [hstep]; rfl)
        exact ⟨_, rfl, .idle rfl hstage rfl hresult hbegun⟩

/-- Made to exit, a list of stages finishes for good, and runs its cleanup if that is due. -/
theorem Turns.exits (h : d.Turns B (.staged s) y) (hcall : d.call = .exit) :
    y = .staged s.finish ∧
      d.begun B = (if 0 < s.position ∧ s.finished = false then s.onExit else none).map
        fun code => (code, .begin) := by
  have hstep : d.start.step B = d.start.exitStages B.held s := h.step_exit hcall
  unfold Machine.exitStages Staged.exit at hstep
  have hdue : (if 0 < s.position && !s.finished then s.onExit else none) =
      if 0 < s.position ∧ s.finished = false then s.onExit else none := by simp
  rw [hdue] at hstep
  cases hcode : (if 0 < s.position ∧ s.finished = false then s.onExit else none) with
  | none =>
    rw [hcode] at hstep
    obtain ⟨rfl, -, hbegun⟩ := h.answers (by rw [hstep]; rfl) (by rw [hstep]; rfl)
    exact ⟨rfl, hbegun⟩
  | some code =>
    rw [hcode] at hstep
    have hfocus : (d.start.step B).focus = .release [] (.begin code .begin) := by
      rw [hstep]
      rfl
    obtain ⟨hbegun, ⟨step, -, rfl⟩ | ⟨payload, -, rfl⟩⟩ := h.runs hfocus (by rw [hstep]; rfl)
    · refine ⟨?_, hbegun⟩
      cases step <;> rfl
    · exact ⟨rfl, hbegun⟩

/-- The code of a stage that the call runs. -/
def ranStage (B : Behavior C R) (d : Errand C R) : Option (C × Entry) :=
  d.call.input?.bind fun _ => d.begun B

/-- The code of a cleanup that the call runs. -/
def cleanedUp (B : Behavior C R) (d : Errand C R) : Option (C × Entry) :=
  match d.call with
  | .exit => d.begun B
  | .feed _ => none

/-- The call makes the script exit. -/
def isExit (d : Errand C R) : Bool := d.call.input?.isNone

/-- What a list of stages may do after the errands `before`. As long as none of these was
    final, each of them entered a stage. -/
def Follows (B : Behavior C R) (stages : List (Stage C)) (onExit : Option C)
    (before : List (Errand C R)) (d : Errand C R) : Prop :=
  if before.any Errand.isFinal then
    d.begun B = none ∧ ∀ input, d.call = .feed input → d.result = .stepped (.done input)
  else
    match d.call with
    | .exit => d.begun B = if before = [] then none else onExit.map fun code => (code, .begin)
    | .feed input =>
      match stages[before.length]? with
      | none => d.begun B = none ∧ d.result = .stepped (.done input)
      | some stage => d.begun B = stage.run? input ∧
          (stage.run? input = none → d.result = .stepped (.done (stage.idle input)))

end Errand

open Errand

/-- Where a list of stages is after these errands. -/
structure Staged.Stands (stages : List (Stage C)) (onExit : Option C) (ds : List (Errand C R))
    (s : Staged C) : Prop where
  list : s.stages = stages
  hook : s.onExit = onExit
  finished : s.finished = ds.any Errand.isFinal
  position : s.position = min stages.length (fedWith (untilFinal ds)).length
  /-- Each errand has entered a stage, unless one was final. -/
  going : ds.any Errand.isFinal = false →
    (fedWith ds).length = ds.length ∧ ds.length ≤ stages.length

theorem zip_concat {α β : Type} (as : List α) (bs : List β) (b : β) (h : bs.length ≤ as.length) :
    as.zip (bs ++ [b]) = as.zip bs ++ (as[bs.length]?.map fun a => (a, b)).toList := by
  induction bs generalizing as with
  | nil => cases as <;> simp
  | cons c bs ih =>
    cases as with
    | nil => simp at h
    | cons a as =>
      rw [List.length_cons, List.length_cons, Nat.succ_le_succ_iff] at h
      simp [ih as h]

section Stages

variable {B : Behavior C R} {stages : List (Stage C)} {onExit : Option C} {ds : List (Errand C R)}
  {d : Errand C R} {s s' : Staged C} {y : Script C} {input : Outcome Value}

theorem Staged.Stands.position_of_going (h : s.Stands stages onExit ds)
    (hgoing : ds.any Errand.isFinal = false) : s.position = ds.length := by
  obtain ⟨hfed, hlength⟩ := h.going hgoing
  rw [h.position, untilFinal_of_none hgoing, hfed]
  exact Nat.min_eq_right hlength

/-- The next errand of a list of stages that has come to its end changes nothing. -/
theorem Staged.Stands.rests (h : s.Stands stages onExit ds) (hover : ds.any Errand.isFinal = true) :
    s.finish.Stands stages onExit (ds ++ [d]) := by
  refine ⟨h.list, h.hook, by simp [Staged.finish, hover], ?_, fun hgoing => ?_⟩
  · rw [untilFinal_append, if_pos hover]
    exact h.position
  · simp [hover] at hgoing

/-- An errand is final. -/
theorem Staged.Stands.ends (h : s.Stands stages onExit ds) (hgoing : ds.any Errand.isFinal = false)
    (hfinal : d.isFinal = true) (hs' : s'.stages = stages ∧ s'.onExit = onExit)
    (hfinished : s'.finished = true)
    (hposition : s'.position = min stages.length (ds.length + (fedWith [d]).length)) :
    s'.Stands stages onExit (ds ++ [d]) := by
  refine ⟨hs'.1, hs'.2, by simp [hfinished, hfinal], ?_, fun hgo => ?_⟩
  · rw [untilFinal_append, hgoing, if_neg Bool.false_ne_true, fedWith_append, List.length_append,
      (h.going hgoing).1, hposition]
  · simp [hfinal] at hgo

/-- A stage is entered, and more may follow. -/
theorem Staged.Stands.goesOn (h : s.Stands stages onExit ds) (hgoing : ds.any Errand.isFinal = false)
    (hfinal : d.isFinal = false) (hcall : d.call = .feed input)
    (hstage : stages[ds.length]? ≠ none) (hs' : s'.stages = stages ∧ s'.onExit = onExit)
    (hfinished : s'.finished = false) (hposition : s'.position = ds.length + 1) :
    s'.Stands stages onExit (ds ++ [d]) := by
  have hlt : ds.length < stages.length := by
    by_contra hle
    exact hstage (List.getElem?_eq_none (Nat.le_of_not_lt hle))
  have hfed : fedWith [d] = [input] := by simp [fedWith, hcall, ScriptCall.input?]
  refine ⟨hs'.1, hs'.2, by simp [hfinished, hfinal, hgoing], ?_, fun _ => ?_⟩
  · rw [untilFinal_append, hgoing, if_neg Bool.false_ne_true, fedWith_append, List.length_append,
      (h.going hgoing).1, hfed, hposition]
    exact (Nat.min_eq_right hlt).symm
  · rw [fedWith_append, List.length_append, List.length_append, (h.going hgoing).1, hfed]
    exact ⟨rfl, hlt⟩

/-- The next errand is as the list of stages demands, and leaves it where it should be. -/
theorem Errand.Turns.stands (hd : d.Turns B (.staged s) y) (h : s.Stands stages onExit ds) :
    ∃ s', y = .staged s' ∧ s'.Stands stages onExit (ds ++ [d]) ∧
      d.Follows B stages onExit ds := by
  cases hcall : d.call with
  | exit =>
    have hfinal : d.isFinal = true := by simp [isFinal, hcall]
    have hfed : fedWith [d] = [] := by simp [fedWith, hcall, ScriptCall.input?]
    obtain ⟨rfl, hbegun⟩ := hd.exits hcall
    rw [h.finished, h.hook] at hbegun
    refine ⟨_, rfl, ?_⟩
    cases hany : ds.any Errand.isFinal with
    | true =>
      refine ⟨h.rests hany, ?_⟩
      rw [hany] at hbegun
      simp only [Follows, hany, if_true, hcall]
      exact ⟨by simpa using hbegun, nofun⟩
    | false =>
      refine ⟨h.ends hany hfinal ⟨h.list, h.hook⟩ rfl ?_, ?_⟩
      · rw [hfed, Staged.finish, h.position_of_going hany]
        exact (Nat.min_eq_right (h.going hany).2).symm
      · rw [hany, h.position_of_going hany] at hbegun
        simp only [Follows, hany, Bool.false_eq_true, if_false, hcall, hbegun]
        cases ds with
        | nil => rfl
        | cons e ds => simp
  | feed input =>
    have hfed : fedWith [d] = [input] := by simp [fedWith, hcall, ScriptCall.input?]
    have hlasts {step : Step C} (hresult : d.result = .stepped step) :
        d.isFinal = match step with | .done _ => true | .yield _ => false := by
      cases step <;> simp [isFinal, hcall, hresult]
    obtain ⟨s', rfl, henters⟩ := hd.enters hcall
    refine ⟨s', rfl, ?_⟩
    cases hany : ds.any Errand.isFinal with
    | true =>
      have hover : s.finished = true := h.finished.trans hany
      cases henters with
      | past hnone hresult hbegun =>
        refine ⟨h.rests hany, ?_⟩
        simp only [Follows, hany, if_true, hcall]
        refine ⟨hbegun, fun input' heq => ?_⟩
        cases heq
        exact hresult
      | idle hgoing | ran hgoing | panicked hgoing => exact absurd (hover.symm.trans hgoing) (by simp)
    | false =>
      have hgoing : s.finished = false := h.finished.trans hany
      have hposition := h.position_of_going hany
      have hat : s.stages[s.position]? = stages[ds.length]? := by rw [h.list, hposition]
      simp only [Follows, hany, Bool.false_eq_true, if_false, hcall]
      cases henters with
      | past hnone hresult hbegun =>
        have hout : stages[ds.length]? = none :=
          hat.symm.trans (hnone.resolve_left (by simp [hgoing]))
        refine ⟨h.ends hany (hlasts hresult) ⟨h.list, h.hook⟩ rfl ?_, ?_⟩
        · have hlength := (h.going hany).2
          have hle := List.getElem?_eq_none_iff.mp hout
          rw [hfed]
          show s.position = _
          simp only [hposition, List.length_singleton]
          omega
        · rw [hout]
          exact ⟨hbegun, hresult⟩
      | @idle stage _ hstage hrun hresult hbegun =>
        rw [hat] at hstage
        have hlt := (List.getElem?_eq_some_iff.mp hstage).1
        refine ⟨h.ends hany (hlasts hresult) ⟨h.list, h.hook⟩ rfl ?_, ?_⟩
        · rw [hfed]
          show s.position + 1 = _
          simp only [hposition, List.length_singleton]
          omega
        · rw [hstage]
          exact ⟨hbegun.trans hrun.symm, fun _ => hresult⟩
      | @ran stage step _ hstage hrun hresult hbegun =>
        rw [hat] at hstage
        have hlt := (List.getElem?_eq_some_iff.mp hstage).1
        refine ⟨?_, ?_⟩
        · cases step with
          | done o =>
            refine h.ends hany (hlasts hresult) ⟨h.list, h.hook⟩ rfl ?_
            rw [hfed]
            show s.position + 1 = _
            simp only [hposition, List.length_singleton]
            omega
          | yield i =>
            exact h.goesOn hany (hlasts hresult) hcall (by simp [hstage]) ⟨h.list, h.hook⟩ hgoing
              (congrArg (· + 1) hposition)
        · rw [hstage]
          exact ⟨hrun.symm, fun hnone => absurd (hrun.symm.trans hnone) hbegun⟩
      | @panicked stage payload _ hstage hrun hresult hbegun =>
        rw [hat] at hstage
        refine ⟨?_, ?_⟩
        · exact h.goesOn hany (by simp [isFinal, hcall, hresult]) hcall (by simp [hstage])
            ⟨h.list, h.hook⟩ hgoing (congrArg (· + 1) hposition)
        · rw [hstage]
          exact ⟨hrun.symm, fun hnone => absurd (hrun.symm.trans hnone) hbegun⟩

/-- What the stages ran on, one errand later. -/
theorem Errand.Follows.ran (h : d.Follows B stages onExit ds) (hs : s.Stands stages onExit ds)
    (hds : ds.filterMap (ranStage B) =
      (stages.zip (fedWith (untilFinal ds))).filterMap fun p => p.1.run? p.2) :
    (ds ++ [d]).filterMap (ranStage B) =
      (stages.zip (fedWith (untilFinal (ds ++ [d])))).filterMap fun p => p.1.run? p.2 := by
  rw [List.filterMap_append, hds, untilFinal_append]
  cases hany : ds.any Errand.isFinal with
  | true =>
    simp only [Follows, hany, if_true] at h
    have hnone : ranStage B d = none := by
      cases hcall : d.call <;> simp [ranStage, hcall, ScriptCall.input?, h.1]
    simp [hnone]
  | false =>
    simp only [Follows, hany, Bool.false_eq_true, if_false] at h
    rw [if_neg Bool.false_ne_true, untilFinal_of_none hany, fedWith_append]
    obtain ⟨hlength, hle⟩ := hs.going hany
    cases hcall : d.call with
    | exit => simp [ranStage, fedWith, hcall, ScriptCall.input?]
    | feed input =>
      have hfed : fedWith [d] = [input] := by simp [fedWith, hcall, ScriptCall.input?]
      have hran : ranStage B d = d.begun B := by simp [ranStage, hcall, ScriptCall.input?]
      simp only [hcall] at h
      rw [hfed, zip_concat _ _ _ (hlength ▸ hle), List.filterMap_append, hlength,
        List.filterMap_cons, hran]
      congr 1
      cases hstage : stages[ds.length]? with
      | none =>
        simp only [hstage] at h
        simp [h.1]
      | some stage =>
        simp only [hstage] at h
        simp only [h.1, Option.map_some, Option.toList_some, List.filterMap_cons, List.filterMap_nil]

/-- What the cleanup ran on, one errand later. -/
theorem Errand.Follows.cleaned (h : d.Follows B stages onExit ds) (hs : s.Stands stages onExit ds)
    (hs' : s'.Stands stages onExit (ds ++ [d]))
    (hds : ds.filterMap (cleanedUp B) = (if 0 < s.position ∧ (untilFinal ds).any isExit then
      onExit.map fun code => (code, .begin) else none).toList) :
    (ds ++ [d]).filterMap (cleanedUp B) =
      (if 0 < s'.position ∧ (untilFinal (ds ++ [d])).any isExit then
        onExit.map fun code => (code, .begin) else none).toList := by
  have hposition := hs'.position
  rw [untilFinal_append] at hposition
  rw [List.filterMap_append, hds, untilFinal_append]
  cases hany : ds.any Errand.isFinal with
  | true =>
    simp only [Follows, hany, if_true] at h
    rw [hany, if_pos rfl, ← hs.position] at hposition
    have hnone : cleanedUp B d = none := by
      cases hcall : d.call <;> simp [cleanedUp, hcall, h.1]
    simp [hnone, hposition]
  | false =>
    simp only [Follows, hany, Bool.false_eq_true, if_false] at h
    -- so far there has not been an exit
    have hnever : ds.any isExit = false := by
      rw [List.any_eq_false] at hany ⊢
      intro e he hexit
      refine hany e he ?_
      cases hcall : e.call with
      | feed input => simp [isExit, hcall, ScriptCall.input?] at hexit
      | exit => simp [isFinal, hcall]
    rw [if_neg Bool.false_ne_true, untilFinal_of_none hany, List.any_append, hnever]
    cases hcall : d.call with
    | feed input => simp [cleanedUp, isExit, hcall, ScriptCall.input?]
    | exit =>
      rw [hany, if_neg Bool.false_ne_true, fedWith_append, List.length_append,
        (hs.going hany).1] at hposition
      simp only [hcall] at h
      have hpositive : 0 < s'.position ↔ ds ≠ [] := by
        have hle := (hs.going hany).2
        have hlength : ds ≠ [] ↔ 0 < ds.length := List.length_pos_iff.symm
        have hfed : (fedWith [d]).length = 0 := by simp [fedWith, hcall, ScriptCall.input?]
        rw [hlength, hposition, hfed]
        omega
      have hexit : d.isExit = true := by simp [isExit, hcall, ScriptCall.input?]
      have hcleaned : cleanedUp B d = d.begun B := by simp only [cleanedUp, hcall]
      by_cases hempty : ds = []
      · simp [hcleaned, h, hpositive, hempty]
      · cases onExit <;> simp [hcleaned, h, hpositive, hempty, hexit]

/-- What a list of stages does follows the list, in whatever order it is fed and made to
    exit, and whatever its stages and its cleanup do.

    * The stages that run are the first ones of the list, in their order and once each, the
      i-th on what the script was fed the i-th time; one that waits for a success passes a
      failure on instead.
    * The position is the number of stages entered.
    * The cleanup runs once if the list was made to exit before it had come to its end, and
      a stage had been entered then; otherwise it never runs.
    * Each call does what `Errand.Follows` says: nothing runs after the end, and what is fed
      then comes back at once. -/
theorem stages_follow_list {x : Script C} (h : Lived B (.staged ⟨stages, onExit, 0, false⟩) ds x) :
    ∃ s, x = .staged s ∧
      ds.filterMap (ranStage B) =
        ((stages.zip (fedWith (untilFinal ds))).filterMap fun p => p.1.run? p.2) ∧
      s.position = min stages.length (fedWith (untilFinal ds)).length ∧
      ds.filterMap (cleanedUp B) =
        (if 0 < s.position ∧ (untilFinal ds).any isExit then
          onExit.map fun code => (code, .begin) else none).toList ∧
      (∀ (before : List (Errand C R)) (d : Errand C R) (rest : List (Errand C R)),
        ds = before ++ d :: rest → d.Follows B stages onExit before) ∧
      ∀ (m : Machine C R) (input : Outcome Value), ds.any Errand.isFinal = true → m.focus = .advance x input →
        m.step B = m.give (.stepped (.done input) x) := by
  have hall : ∃ s, x = .staged s ∧ s.Stands stages onExit ds ∧
      ds.filterMap (ranStage B) =
        ((stages.zip (fedWith (untilFinal ds))).filterMap fun p => p.1.run? p.2) ∧
      ds.filterMap (cleanedUp B) =
        (if 0 < s.position ∧ (untilFinal ds).any isExit then
          onExit.map fun code => (code, .begin) else none).toList ∧
      ∀ (before : List (Errand C R)) (d : Errand C R) (rest : List (Errand C R)),
        ds = before ++ d :: rest → d.Follows B stages onExit before := by
    induction h with
    | new =>
      refine ⟨_, rfl, ⟨rfl, rfl, rfl, ?_, fun _ => ⟨rfl, Nat.zero_le _⟩⟩, ?_, ?_, ?_⟩
      · simp [untilFinal, fedWith]
      · simp [untilFinal, fedWith]
      · simp [untilFinal]
      · intro before d rest heq
        cases before <;> cases heq
    | @called ds d y z hlived hd ih =>
      obtain ⟨s, rfl, hs, hran, hcleaned, hfollows⟩ := ih
      obtain ⟨s', rfl, hs', hnext⟩ := hd.stands hs
      refine ⟨s', rfl, hs', hnext.ran hs hran, hnext.cleaned hs hs' hcleaned, ?_⟩
      intro before e rest heq
      rcases List.eq_nil_or_concat rest with rfl | ⟨rest, last, rfl⟩
      · obtain ⟨rfl, hd⟩ := List.append_inj' heq rfl
        cases hd
        exact hnext
      · rw [List.concat_eq_append, ← List.cons_append, ← List.append_assoc] at heq
        exact hfollows before e rest (List.append_inj' heq rfl).1
    | @copied ds y z m n hlived hfocus hends hbuilt ih =>
      cases hends.copied hfocus hbuilt
      exact ih
  obtain ⟨s, rfl, hs, hran, hcleaned, hfollows⟩ := hall
  refine ⟨s, rfl, hran, hs.position, hcleaned, hfollows, ?_⟩
  intro m input hover hfocus
  have hfinished : s.finished = true := hs.finished.trans hover
  simp only [Machine.step, hfocus, Machine.advanceScript, Machine.enterStage, Staged.enter, hfinished]
  rfl

open Strand.Language in
/-- Two stages and a cleanup, the first one waiting for good and the second one panicking. -/
def panickingSecond : Staged Code where
  stages := [.always (.closure (.apply .suspend []) ⟨[], []⟩),
    .onSuccess (.closure (.apply (.panic (.text "boom")) []) ⟨[], []⟩)]
  onExit := some (.closure (.literal .unit) ⟨[], []⟩)
  position := 0
  finished := false

open Strand.Language in
/-- Fed twice, made to exit and fed again: both stages run, and then the cleanup. -/
theorem panicked_stage_cleaned_up : ∃ (ds : List (Errand Code Running)) (s : Staged Code),
    Lived behavior (.staged panickingSecond) ds (.staged s) ∧ ds.length = 4 ∧ s.position = 2 ∧
      ds.filterMap (cleanedUp behavior) = [(.closure (.literal .unit) ⟨[], []⟩, .begin)] := by
  obtain ⟨life, hlife⟩ : ∃ life, life = performedAll (R := Running) behavior 60
      (.staged panickingSecond)
      [.feed (.success (.int 1)), .feed (.success (.int 2)), .exit, .feed .unit] := ⟨_, rfl⟩
  have hchecked : life.any (fun p => p.1.length = 4 ∧ (fedWith (untilFinal p.1)).length = 2 ∧
      (untilFinal p.1).any isExit) = true := by
    rw [hlife]
    decide +kernel
  cases life with
  | none => cases hchecked
  | some p =>
    obtain ⟨ds, x⟩ := p
    obtain ⟨hlength, hfed, hexit⟩ := of_decide_eq_true hchecked
    have hlived := lived_of_performedAll hlife.symm
    obtain ⟨s, rfl, -, hposition, hcleaned, -⟩ := stages_follow_list hlived
    rw [hfed] at hposition
    refine ⟨ds, s, hlived, hlength, hposition, ?_⟩
    rw [hcleaned, hposition, hexit]
    rfl

end Stages

/-! ### Forced returns -/

/-- How the script behind a forced return is called when this is fed to it: it is made
    to exit, and then it is fed what failures are taken out of. -/
def callsBehind : List (Outcome Value) → List ScriptCall
  | [] => []
  | _ :: inputs => .exit :: inputs.map fun input => .feed (ForcedReturn.passOn input)

theorem callsBehind_append (inputs : List (Outcome Value)) (input : Outcome Value) :
    callsBehind (inputs ++ [input]) = callsBehind inputs ++
      [if inputs = [] then .exit else .feed (ForcedReturn.passOn input)] := by
  cases inputs <;> simp [callsBehind]

theorem lastFailure_append (o : Outcome Value) (os : List (Outcome Value)) (input : Outcome Value) :
    lastFailure o (os ++ [input]) = match input with
      | .success _ => lastFailure o os
      | .failure e => .failure e := by
  induction os generalizing o with
  | nil => cases input <;> rfl
  | cons p os ih => cases p <;> exact ih _

/-- A step whose success is replaced. -/
def Step.keeping (o : Outcome Value) : Step C → Step C
  | .done (.success _) => .done o
  | step => step

/-- The value of a success that is replaced is let go of. -/
def Step.dropped : Step C → List Handle
  | .done (.success v) => v.handles
  | _ => []

/-- How far a forced return is that has been fed this. -/
def ForcedReturn.fed (inputs : List (Outcome Value)) : ForcedReturn :=
  ⟨!inputs.isEmpty, lastFailure .unit inputs⟩

theorem ForcedReturn.next_fed (inputs : List (Outcome Value)) (input : Outcome Value) :
    (fed inputs).next input = fed (inputs ++ [input]) := by
  unfold fed
  rw [lastFailure_append]
  cases input <;> simp [next]

namespace Machine

variable {B : Behavior C R} {K : List (Frame C R)} {m n o : Machine C R} {progress : ForcedReturn}
  {inner : Script C} {step : Step C}

/-- The script behind a forced return has answered: what it is done with is replaced by
    what the forced return keeps, unless it is a failure. -/
theorem step_of_inExit (hcontrol : m.control = .inExit progress :: K)
    (hfocus : m.focus = .release [] (.give (.stepped step inner))) :
    (m.step B).control = K ∧ (m.step B).focus = .release step.dropped
      (.give (.stepped (step.keeping progress.output) (.exit inner progress))) := by
  rw [step_of_give hcontrol hfocus]
  cases step with
  | yield i => exact ⟨rfl, rfl⟩
  | done o => cases o <;> exact ⟨rfl, rfl⟩

end Machine

namespace Errand

variable {B : Behavior C R} {d : Errand C R} {K : List (Frame C R)} {m n : Machine C R}
  {progress : ForcedReturn} {inner y : Script C} {call : ScriptCall} {step : Step C} {j : Nat}

/-- A call behind a forced return that comes to an answer is over before, and its answer
    is the one that is passed on. -/
theorem behind (hfocus : m.focus = call.focus inner)
    (hcontrol : m.control = .inExit progress :: K) (h : Machine.EndsIn B K j m n)
    (hanswer : n.focus = .release [] (.give (.stepped step y))) :
    ∃ (e : Errand C R) (inner' : Script C) (step' : Step C), e.Turns B inner inner' ∧
      e.call = call ∧ e.start = m ∧ e.result = .stepped step' ∧
      step = step'.keeping progress.output ∧ y = .exit inner' progress := by
  obtain ⟨i, i', o, -, hin, hout⟩ := h.handed (f := .inExit progress) (by rw [hcontrol])
  rcases Machine.focus_of_popping hin.pops with ⟨a, ha⟩ | ⟨payload, salvage, hpanic⟩
  · cases a with
    | stepped step' inner' =>
      obtain ⟨hback, hgives⟩ := Machine.step_of_inExit (B := B) hin.back ha
      refine ⟨⟨call, m, o, .stepped step'⟩, inner', step', ⟨hfocus, ⟨i, ?_⟩, ha, nofun⟩, rfl, rfl,
        rfl, ?_⟩
      · rw [hcontrol]
        exact hin
      · rcases hout.released hback hgives rfl with hsame | ⟨payload, salvage, hpanic⟩
        · rw [hsame] at hanswer
          cases hanswer
          exact ⟨rfl, rfl⟩
        · rw [hpanic] at hanswer
          cases hanswer
    | nothing | outcome | yield | built | reply =>
      rw [Machine.step_of_give hin.back ha] at hout
      rw [hout.eq_of_popping rfl rfl] at hanswer
      cases hanswer
  · rw [Machine.step_of_unwind hin.back hpanic] at hout
    rw [hout.eq_of_popping rfl rfl] at hanswer
    cases hanswer

/-- What a forced return is fed, it makes of it a call of the script behind. -/
theorem Turns.forced {inputs : List (Outcome Value)} {input : Outcome Value}
    (h : d.Turns B (.exit inner (.fed inputs)) y) (hcall : d.call = .feed input)
    (hresult : d.result = .stepped step) :
    ∃ (e : Errand C R) (inner' : Script C) (step' : Step C), e.Turns B inner inner' ∧
      e.call = (if inputs = [] then .exit else .feed (ForcedReturn.passOn input)) ∧
      e.start = d.start.step B ∧ e.result = .stepped step' ∧
      step = step'.keeping (lastFailure .unit (inputs ++ [input])) ∧
      y = .exit inner' (.fed (inputs ++ [input])) := by
  have hstep := h.step_feed hcall
  have hanswer := h.answer
  rw [hresult] at hanswer
  obtain ⟨j, hends⟩ := h.tail
  unfold Machine.advanceScript at hstep
  dsimp only at hstep
  rw [ForcedReturn.next_fed] at hstep
  cases inputs with
  | cons first inputs =>
    rw [if_pos (by rfl)] at hstep
    have hfocus : (d.start.step B).focus =
        (ScriptCall.feed (ForcedReturn.passOn input)).focus inner := by
      rw [hstep]
      rfl
    exact behind hfocus (by rw [hstep]; rfl) hends hanswer
  | nil =>
    rw [if_neg (by simp [ForcedReturn.fed])] at hstep
    -- what was fed is let go of after the answer has come
    obtain ⟨i, i', o, -, hin, hout⟩ := hends.handed (f := .holding (ForcedReturn.passOn input).handles) (by
      rw [hstep]
      exact List.suffix_cons ..)
    rcases Machine.focus_of_popping hin.pops with ⟨a, ha⟩ | ⟨payload, salvage, hpanic⟩
    · rw [Machine.step_of_give hin.back ha] at hout
      have hsame : d.finish.focus = .release [] (.give a) := by
        refine (hout.released rfl rfl rfl).resolve_right ?_
        rintro ⟨payload, salvage, hpanic⟩
        rw [hpanic] at hanswer
        cases hanswer
      rw [← hsame, hanswer] at ha
      have hfocus : (d.start.step B).focus = ScriptCall.exit.focus inner := by
        rw [hstep]
        rfl
      exact behind hfocus (by rw [hstep]; rfl) hin ha
    · rw [Machine.step_of_unwind hin.back hpanic] at hout
      have hpanicked := hout.released rfl rfl rfl
      rw [hanswer] at hpanicked
      rcases hpanicked with hsame | ⟨_, _, hsame⟩ <;> cases hsame

end Errand

open Errand

/-- A forced return makes the script behind it exit once, the first time it is fed, and from
    then on feeds it what it is fed itself, with unit in place of failures. What the cleanup
    asks for is passed on. When the cleanup is done, so is the forced return: with the
    cleanup's failure, or else with the last failure that it was fed over all its life, be
    it as the original or as a copy, or else with unit. -/
theorem forced_return_keeps_failure {B : Behavior C R} {ds : List (Errand C R)} {inner x : Script C}
    (h : Lived B (.exit inner .initial) ds x)
    (hsteps : ∀ d ∈ ds, ∃ (input : Outcome Value) (step : Step C),
      d.call = .feed input ∧ d.result = .stepped step) :
    ∃ (inner' : Script C) (es : List (Errand C R)), x = .exit inner' (.fed (fedWith ds)) ∧
      Lived B inner es inner' ∧ es.map Errand.call = callsBehind (fedWith ds) ∧
      (∀ e ∈ es, ∀ error, e.call ≠ .feed (.failure error)) ∧
      (∀ (i : Nat) (d e : Errand C R), ds[i]? = some d → es[i]? = some e →
        e.start = d.start.step B ∧ ∃ step, e.result = .stepped step ∧
          d.result = .stepped (step.keeping (lastFailure .unit ((fedWith ds).take (i + 1))))) ∧
      -- the next call
      ∀ (m : Machine C R) (input : Outcome Value), m.focus = .advance x input →
        (m.step B).focus = (if ds = [] then ScriptCall.exit
          else .feed (ForcedReturn.passOn input)).focus inner' ∧
        ∀ (n : Machine C R) (step : Step C) (inner'' : Script C), Machine.Ends B (m.step B) n →
          n.focus = .release [] (.give (.stepped step inner'')) →
          (n.step B).control = (if ds = [] then [.holding (ForcedReturn.passOn input).handles] else []) ++ m.control ∧
          (n.step B).focus = .release step.dropped
            (.give (.stepped (step.keeping (lastFailure .unit (fedWith ds ++ [input])))
              (.exit inner'' (.fed (fedWith ds ++ [input]))))) := by
  have hall : (fedWith ds).length = ds.length ∧ ∃ (inner' : Script C) (es : List (Errand C R)),
      x = .exit inner' (.fed (fedWith ds)) ∧
      Lived B inner es inner' ∧ es.map Errand.call = callsBehind (fedWith ds) ∧
      (∀ e ∈ es, ∀ error, e.call ≠ .feed (.failure error)) ∧ es.length = ds.length ∧
      ∀ (i : Nat) (d e : Errand C R), ds[i]? = some d → es[i]? = some e →
        e.start = d.start.step B ∧ ∃ step, e.result = .stepped step ∧
          d.result = .stepped (step.keeping (lastFailure .unit ((fedWith ds).take (i + 1)))) := by
    induction h with
    | new => exact ⟨rfl, inner, [], rfl, .new, rfl, by simp, rfl, by simp⟩
    | @called ds d y z hlived hd ih =>
      rw [List.forall_mem_append] at hsteps
      obtain ⟨hfed, inner', es, rfl, hes, hcalls, hnever, hlength, hresults⟩ := ih hsteps.1
      obtain ⟨input, step, hcall, hresult⟩ := hsteps.2 d (List.mem_singleton_self d)
      obtain ⟨e, inner'', step', he, hecall, hstart, heresult, rfl, rfl⟩ := hd.forced hcall hresult
      have hone : fedWith [d] = [input] := by simp [fedWith, hcall, ScriptCall.input?]
      rw [fedWith_append, hone]
      refine ⟨by simp [hfed], inner'', es ++ [e], rfl, hes.called he, ?_, ?_, by simp [hlength], ?_⟩
      · rw [List.map_append, hcalls, callsBehind_append, ← hecall]
        rfl
      · rw [List.forall_mem_append]
        refine ⟨hnever, ?_⟩
        intro e' he' error
        rw [List.mem_singleton.mp he', hecall]
        split
        · nofun
        · cases input <;> nofun
      · intro i d' e' hd' he'
        by_cases hi : i < ds.length
        · rw [List.getElem?_append_left hi] at hd'
          rw [List.getElem?_append_left (hlength ▸ hi)] at he'
          rw [List.take_append_of_le_length (by omega)]
          exact hresults i d' e' hd' he'
        · -- the call that has been added
          obtain rfl : i = ds.length := by
            have hlt := (List.getElem?_eq_some_iff.mp hd').1
            rw [List.length_append, List.length_singleton] at hlt
            omega
          rw [List.getElem?_concat_length] at hd'
          rw [← hlength, List.getElem?_concat_length] at he'
          cases hd'
          cases he'
          rw [List.take_of_length_le (by simp [hfed])]
          exact ⟨hstart, step', heresult, hresult⟩
    | @copied ds y z m n hlived hfocus hends hbuilt ih =>
      cases hends.copied hfocus hbuilt
      exact ih hsteps
  obtain ⟨hfed, inner', es, rfl, hes, hcalls, hnever, -, hresults⟩ := hall
  refine ⟨inner', es, rfl, hes, hcalls, hnever, hresults, ?_⟩
  intro m input hfocus
  have hstep : m.step B = m.advanceScript B (.exit inner' (.fed (fedWith ds))) input := by
    simp only [Machine.step, hfocus]
  unfold Machine.advanceScript at hstep
  dsimp only at hstep
  rw [ForcedReturn.next_fed] at hstep
  have hempty : fedWith ds = [] ↔ ds = [] := by
    rw [← List.length_eq_zero_iff, hfed, List.length_eq_zero_iff]
  by_cases hfirst : ds = []
  · rw [if_neg (by simp [ForcedReturn.fed, hempty.mpr hfirst])] at hstep
    rw [if_pos hfirst, if_pos hfirst]
    refine ⟨by rw [hstep]; rfl, fun n step inner'' hends hgives => ?_⟩
    have hback := hends.control
    rw [hstep] at hback
    exact Machine.step_of_inExit hback hgives
  · rw [if_pos (by simp [ForcedReturn.fed, hempty, hfirst])] at hstep
    rw [if_neg hfirst, if_neg hfirst]
    refine ⟨by rw [hstep]; rfl, fun n step inner'' hends hgives => ?_⟩
    have hback := hends.control
    rw [hstep] at hback
    exact Machine.step_of_inExit hback hgives

/-- The call came to an answer. -/
def ScriptEnd.isStep : ScriptEnd C → Bool
  | .stepped _ => true
  | .panicked _ => false

open Strand.Language in
/-- A coroutine that waits twice while it is cleaned up. -/
def waitingTwice : Script Code :=
  .own (.custom (.mk [] [.apply .suspend [], .apply .suspend [], .literal .unit] none none) 0 false
    ⟨[], []⟩)

open Strand.Language in
/-- A failure that comes first is kept until the cleanup is done. -/
theorem early_failure_kept : ∃ (ds : List (Errand Code Running)) (inner : Script Code)
    (es : List (Errand Code Running)),
    Lived behavior (.exit waitingTwice .initial) ds
        (.exit inner ⟨true, .failure (.raised "early")⟩) ∧ ds.length = 3 ∧
      Lived behavior waitingTwice es inner ∧
      es.map Errand.call = [.exit, .feed (.success (.int 2)), .feed .unit] := by
  obtain ⟨life, hlife⟩ : ∃ life, life = performedAll (R := Running) behavior 60
      (.exit waitingTwice .initial)
      [.feed (.failure (.raised "early")), .feed (.success (.int 2)), .feed .unit] := ⟨_, rfl⟩
  have hchecked : life.any (fun p => p.1.all fun d => d.call.input?.isSome && d.result.isStep) =
      true := by
    rw [hlife]
    decide +kernel
  cases life with
  | none => cases hchecked
  | some p =>
    obtain ⟨ds, x⟩ := p
    have hlived := lived_of_performedAll hlife.symm
    have hcalls := calls_of_performedAll hlife.symm
    have hfed : fedWith ds = [.failure (.raised "early"), .success (.int 2), .unit] := by
      have hmap : fedWith ds = (ds.map Errand.call).filterMap ScriptCall.input? := by
        rw [List.filterMap_map]
        rfl
      rw [hmap, hcalls]
      rfl
    have hlength : ds.length = 3 := by simpa using congrArg List.length hcalls
    obtain ⟨inner, es, rfl, hes, hmade, -⟩ := forced_return_keeps_failure hlived (by
      intro d hd
      have hd := List.all_eq_true.mp hchecked d hd
      rw [Bool.and_eq_true] at hd
      obtain ⟨hinput, hstep⟩ := hd
      obtain ⟨input, hinput⟩ := Option.isSome_iff_exists.mp hinput
      cases hcall : d.call with
      | exit => simp [hcall, ScriptCall.input?] at hinput
      | feed input =>
        cases hresult : d.result with
        | panicked payload => simp [hresult, ScriptEnd.isStep] at hstep
        | stepped step => exact ⟨input, step, rfl, rfl⟩)
    rw [hfed] at hlived hmade
    exact ⟨ds, inner, es, hlived, hlength, hes, hmade⟩

end Strand
