import Mathlib
import Strand.Program
import Strand.Proofs.Honesty

/-! # Closures — programs of the language are honest

    Code of the language holds the values of its bindings, its input and what
    its evaluation has come to. There is no literal for a handle, so each handle
    in there has been bound, fed or replied before (`honest`).

    The argument follows the evaluation: an operation makes use of its operands
    and its context, a thought of what waits for it, a reply of its purpose. -/

open Strand.Machine

namespace Strand.Language

@[simp] theorem Literal.handles_value (l : Literal) : l.value.handles = [] := by
  cases l <;> simp [value, Value.handles]

/-! ### Operations -/

/-- What the result of an operation holds. -/
def Effect.handles : Effect → List Handle
  | .produce p => p.handles
  | .fail _ => []
  | .panic _ => []
  | .ask request purpose => request.handles Code.handles ++ purpose.handles

theorem handles_valuesOf (arguments : List Argument) :
    Value.listHandles (valuesOf arguments) ⊆ arguments.flatMap Argument.handles := by
  induction arguments with
  | nil => exact List.Subset.refl _
  | cons a arguments ih =>
    cases a with
    | value v =>
      simp only [valuesOf, List.filterMap_cons, Value.listHandles, List.flatMap_cons]
      exact List.append_subset.mpr ⟨List.subset_append_left _ _,
        List.Subset.trans ih (List.subset_append_right _ _)⟩
    | _ => exact List.Subset.trans ih (List.subset_append_right _ _)

variable {op : Operation} {arguments : List Argument} {ctx : Context} {e : Effect}

theorem handles_ofOutcome (o : Outcome Value) : (Effect.ofOutcome o).handles = o.handles := by
  cases o <;> rfl

theorem handles_applyToValues (h : applyToValues op arguments = some e) :
    e.handles ⊆ arguments.flatMap Argument.handles := by
  unfold applyToValues at h
  split at h
  all_goals cases h
  case h_3 =>
    simpa [Effect.value, Effect.handles, Product.handles, Value.handles] using
      handles_valuesOf arguments
  case h_15 o =>
    rw [handles_ofOutcome]
    cases o <;> simp [Outcome.map, Outcome.handles, Value.handles]
  all_goals
    simp [Effect.value, Effect.bool, Effect.handles, Product.handles, Argument.handles,
      Value.handles]

theorem handles_lookup {bindings : List (String × Value)} {name : String} {v : Value}
    (h : bindings.lookup name = some v) : v.handles ⊆ namedHandles bindings := by
  induction bindings with
  | nil => cases h
  | cons b bindings ih =>
    rw [List.lookup_cons] at h
    split at h
    · obtain rfl := Option.some.inj h
      exact List.subset_append_left _ _
    · exact List.Subset.trans (ih h) (List.subset_append_right _ _)

theorem handles_applyInContext (h : applyInContext op arguments ctx = some e) :
    e.handles ⊆ arguments.flatMap Argument.handles ++ ctx.handles := by
  unfold applyInContext at h
  split at h
  case h_1 name =>
    split at h
    · next v hv =>
      cases h
      exact List.Subset.trans (handles_lookup hv)
        (List.subset_append_of_subset_right _ (List.subset_append_left _ _))
    · cases h
      exact List.nil_subset _
  case h_4 =>
    cases h
    rw [handles_ofOutcome]
    exact List.Subset.trans (List.subset_append_right _ _) (List.subset_append_right _ _)
  case h_5 =>
    split at h <;> (cases h; simp [Effect.value, Effect.handles, Product.handles, Value.handles])
  all_goals cases h
  all_goals
    simp [Effect.value, Effect.handles, Request.handles, Note.handles, Purpose.handles,
      Product.handles, Argument.handles, Value.handles]

theorem handles_applyToCompletions (h : applyToCompletions op arguments ctx = some e) :
    e.handles ⊆ arguments.flatMap Argument.handles ++ ctx.handles := by
  unfold applyToCompletions at h
  split at h
  all_goals cases h
  all_goals
    simp [Effect.handles, Request.handles, Purpose.handles, Argument.handles, Value.handles,
      Outcome.handles, Code.handles, Context.handles]

theorem handles_applyToRunners (h : applyToRunners op arguments ctx = some e) :
    e.handles ⊆ arguments.flatMap Argument.handles ++ ctx.handles := by
  unfold applyToRunners at h
  split at h
  all_goals cases h
  case h_8 p k v =>
    simp only [Effect.handles, Request.handles, Purpose.handles, List.flatMap_cons,
      List.flatMap_nil, Argument.handles, Value.handles, List.subset_def]
    intro x hx
    simp only [List.mem_append, List.mem_cons, List.not_mem_nil, or_false] at hx ⊢
    tauto
  all_goals
    simp [Effect.handles, Request.handles, Purpose.handles, Argument.handles, Value.handles,
      Code.handles, Context.handles]

theorem handles_close (ctx : Context) (stages : List StageTerm) (onExit : Option Term) :
    (stages.map (StageTerm.close ctx)).flatMap (Stage.handles Code.handles) ++
      ((onExit.map ctx.close).map Code.handles).getD [] ⊆ ctx.scope.handles := by
  refine List.append_subset.mpr ⟨fun x hx => ?_, ?_⟩
  · obtain ⟨stage, hstage, hx⟩ := List.mem_flatMap.mp hx
    obtain ⟨t, -, rfl⟩ := List.mem_map.mp hstage
    cases t <;> exact hx
  · cases onExit with
    | none => exact List.nil_subset _
    | some t => exact List.Subset.refl _

theorem handles_applyToScripts (h : applyToScripts op arguments ctx = some e) :
    e.handles ⊆ arguments.flatMap Argument.handles ++ ctx.handles := by
  unfold applyToScripts at h
  split at h
  all_goals cases h
  case h_10 stages onExit =>
    exact List.Subset.trans (handles_close ctx stages onExit)
      (List.Subset.trans (List.subset_append_left _ _) (List.subset_append_right _ _))
  all_goals
    simp [Effect.handles, Effect.step, Effect.yield, Effect.script, Product.handles, Step.handles,
      Instruction.handles, Script.handles, Script.returning, Staged.returning, Staged.empty,
      Staged.handles, Stage.handles, Request.handles, Purpose.handles, Argument.handles,
      Value.handles, Code.handles, Context.handles]

/-- An operation makes use of its operands and of the place where it stands. -/
theorem handles_applyOperation (op : Operation) (arguments : List Argument) (ctx : Context) :
    (applyOperation op arguments ctx).handles ⊆
      arguments.flatMap Argument.handles ++ ctx.handles := by
  unfold applyOperation
  cases hv : applyToValues op arguments with
  | some e =>
    exact List.Subset.trans (handles_applyToValues hv) (List.subset_append_left _ _)
  | none =>
    cases hx : applyInContext op arguments ctx with
    | some e => exact handles_applyInContext hx
    | none =>
      cases hc : applyToCompletions op arguments ctx with
      | some e => exact handles_applyToCompletions hc
      | none =>
        cases hr : applyToRunners op arguments ctx with
        | some e => exact handles_applyToRunners hr
        | none =>
          cases hs : applyToScripts op arguments ctx with
          | some e => exact handles_applyToScripts hs
          | none => exact List.nil_subset _

/-! ### Evaluation -/

/-- What is held by a thought and by what waits for it. -/
def Thought.reach (thought : Thought) (pending : List Pending) : List Handle :=
  thought.handles ++ pending.flatMap Pending.handles

theorem handles_think (t : Thought) (pending : List Pending) :
    (think t pending).handles behavior = t.reach pending := rfl

theorem handles_react_effect (e : Effect) (pending : List Pending) :
    (e.react pending).handles behavior ⊆ e.handles ++ pending.flatMap Pending.handles := by
  cases e with
  | ask request purpose =>
    intro x hx
    simpa [Effect.react, Reaction.handles, Effect.handles, behavior, Running.handles] using hx
  | panic payload => exact List.nil_subset _
  | _ => exact List.Subset.refl _

theorem handles_nextOperand (op : Operation) (ready : List Argument) (left : List Operand)
    (ctx : Context) (pending : List Pending) :
    (nextOperand op ready left ctx pending).handles behavior ⊆
      ready.flatMap Argument.handles ++ ctx.handles ++ pending.flatMap Pending.handles := by
  cases left with
  | nil =>
    refine List.Subset.trans (handles_react_effect _ pending) ?_
    exact List.append_subset.mpr
      ⟨List.Subset.trans (handles_applyOperation op ready ctx) (List.subset_append_left _ _),
        List.subset_append_right _ _⟩
  | cons operand left =>
    obtain ⟨expect, t⟩ := operand
    intro x hx
    simp only [nextOperand, handles_think, Thought.reach, Thought.handles, List.flatMap_cons,
      Pending.handles, List.mem_append] at hx ⊢
    tauto

theorem handles_nextArgument (body : Term) (ready : List (String × Value))
    (left : List (String × Term)) (ctx : Context) (pending : List Pending) :
    (nextArgument body ready left ctx pending).handles behavior ⊆
      namedHandles ready ++ ctx.handles ++ pending.flatMap Pending.handles := by
  intro x hx
  cases left with
  | nil =>
    simp only [nextArgument, handles_think, Thought.reach, Thought.handles, List.flatMap_cons,
      Pending.handles, Context.handles, Scope.handles, List.mem_append] at hx ⊢
    tauto
  | cons argument left =>
    simp only [nextArgument, handles_think, Thought.reach, Thought.handles, List.flatMap_cons,
      Pending.handles, List.mem_append] at hx ⊢
    tauto

theorem handles_evaluateTerm (t : Term) (ctx : Context) (pending : List Pending) :
    (evaluateTerm t ctx pending).handles behavior ⊆
      ctx.handles ++ pending.flatMap Pending.handles := by
  unfold evaluateTerm
  split
  case h_3 op operands => simpa using handles_nextOperand op [] operands ctx pending
  case h_9 body => exact List.Subset.refl _
  case h_10 role name arguments =>
    split
    · exact List.subset_append_right _ _
    · simpa [namedHandles] using handles_nextArgument _ [] _ ctx pending
  all_goals
    intro x hx
    simp only [handles_think, Thought.reach, Thought.handles, Product.handles, Pending.handles,
      Literal.handles_value, List.flatMap_cons, List.mem_append, List.nil_append] at hx ⊢
    tauto

/-! ### What waits for a result -/

theorem handles_readAs {t : ValueType} {v w : Value} (h : v.readAs t = .ok w) : w = v := by
  unfold Value.readAs at h
  split at h
  · exact (Except.ok.inj h).symm
  · cases h

theorem handles_accept {expect : Expect} {p : Product} {a : Argument}
    (h : expect.accept p = .ok a) : a.handles ⊆ p.handles := by
  have hread {t : ValueType} {v : Value} (h : (v.readAs t).map Argument.value = .ok a) :
      a.handles ⊆ v.handles := by
    cases hw : v.readAs t with
    | error e =>
      rw [hw] at h
      cases h
    | ok w =>
      rw [hw] at h
      cases h
      rw [handles_readAs hw]
      exact List.Subset.refl _
  unfold Expect.accept at h
  split at h
  case h_2 => exact hread h
  case h_3 | h_4 =>
    split at h
    · cases h
      exact List.Subset.refl _
    · exact hread h
  case h_6 v =>
    cases h
    cases hw : v.readAs .int with
    | error e => exact List.nil_subset _
    | ok w =>
      rw [handles_readAs hw]
      exact List.Subset.refl _
  all_goals
    cases h
    try exact List.Subset.refl _

theorem handles_bind (ctx : Context) (name : String) (v : Value) :
    (ctx.bind name v).handles = v.handles ++ ctx.handles := by
  simp [Context.bind, Context.handles, Scope.handles, namedHandles]

theorem handles_resumeWith (p : Product) (waiting : Pending) (pending : List Pending) :
    (resumeWith p waiting pending).handles behavior ⊆
      p.handles ++ (waiting.handles ++ pending.flatMap Pending.handles) := by
  unfold resumeWith
  split
  case h_1 op ready expect left ctx =>
    split
    · next a ha =>
      refine List.Subset.trans (handles_nextOperand op _ left ctx pending) fun x hx => ?_
      have hin := @handles_accept expect p a ha x
      simp only [List.flatMap_append, List.flatMap_singleton, Pending.handles,
        List.mem_append] at hx ⊢
      tauto
    · exact List.subset_append_of_subset_right _ (List.subset_append_right _ _)
  case h_6 body ready parameter left ctx =>
    split
    · next v =>
      refine List.Subset.trans (handles_nextArgument body _ left ctx pending) fun x hx => ?_
      simp only [namedHandles, List.flatMap_cons, Product.handles, Pending.handles,
        List.mem_append] at hx ⊢
      tauto
    · intro x hx
      simp only [handles_think, Thought.reach, Thought.handles, List.mem_append] at hx ⊢
      tauto
  case h_2 name body ctx =>
    split
    · intro x hx
      simp only [handles_think, Thought.reach, Thought.handles, Pending.handles, handles_bind,
        Product.handles, List.flatMap_cons, List.mem_append] at hx ⊢
      tauto
    · intro x hx
      simp only [handles_think, Thought.reach, Thought.handles, List.mem_append] at hx ⊢
      tauto
  case h_5 yes no ctx =>
    split
    all_goals
      intro x hx
      simp only [handles_think, Thought.reach, Thought.handles, Pending.handles,
        List.mem_append, List.nil_append] at hx ⊢
      tauto
  all_goals
    intro x hx
    simp only [handles_think, Thought.reach, Thought.handles, Pending.handles, List.flatMap_cons,
      List.mem_append] at hx ⊢
    tauto

theorem handles_failWith (err : Error) (waiting : Pending) (pending : List Pending) :
    (failWith err waiting pending).handles behavior ⊆
      waiting.handles ++ pending.flatMap Pending.handles := by
  unfold failWith
  split
  case h_1 op ready expect left ctx =>
    split
    · refine List.Subset.trans (handles_nextOperand op _ left ctx pending) fun x hx => ?_
      simpa [Pending.handles, Argument.handles, Outcome.handles] using hx
    · exact List.subset_append_right _ _
  case h_2 other ctx =>
    intro x hx
    simp only [handles_think, Thought.reach, Thought.handles, Pending.handles, Context.handles,
      Outcome.handles, List.append_nil, List.mem_append] at hx ⊢
    tauto
  all_goals exact List.subset_append_right _ _

theorem handles_result (p : Product) : p.result.handles behavior = p.handles := by
  unfold Product.result
  split <;> rfl

theorem handles_react_thought (thought : Thought) (pending : List Pending) :
    (thought.react pending).handles behavior ⊆ thought.reach pending := by
  unfold Thought.react
  split
  case h_1 t ctx => exact handles_evaluateTerm t ctx pending
  case h_2 p =>
    split
    · rw [handles_result]
      exact List.subset_append_left _ _
    · next waiting pending => exact handles_resumeWith p waiting pending
  case h_3 err =>
    split
    · exact List.nil_subset _
    · next waiting pending => exact handles_failWith err waiting pending
  case h_8 n andThen =>
    cases andThen <;>
    · intro x hx
      simpa [Thought.reach, Thought.handles, Reaction.handles, Request.handles, behavior,
        Running.handles, Purpose.handles, Product.handles, Value.handles] using hx
  all_goals
    intro x hx
    simpa [Thought.reach, Thought.handles, think, Reaction.handles, Request.handles, behavior,
      Running.handles, Purpose.handles, namedHandles, Product.handles, Script.handles,
      Script.returning, Staged.returning, Staged.handles, Stage.handles] using hx

/-! ### Replies -/

theorem handles_thinkOutcome (o : Outcome Value) : (thinkOutcome o).handles = o.handles := by
  cases o <;> rfl

theorem handles_stepList (step : Step Code) :
    (stepList step).handles ⊆ step.handles Code.handles := by
  cases step with
  | yield i => simp [stepList, Value.handles, Value.listHandles]
  | done o =>
    cases o <;> simp [stepList, Value.handles, Value.listHandles, Step.handles, Outcome.handles]

/-- Texts hold nothing. -/
theorem handles_errors (es : List Error) :
    Value.listHandles (es.map fun e => .text (e.kind ++ ": " ++ e.message)) = [] := by
  induction es with
  | nil => rfl
  | cons e es ih => simpa [Value.listHandles, Value.handles] using ih

theorem handles_react_purpose (purpose : Purpose) (r : Reply Code) (pending : List Pending) :
    (purpose.react r pending).handles behavior ⊆
      purpose.handles ++ pending.flatMap Pending.handles ++ r.handles Code.handles := by
  -- most replies are answered with a thought that holds nothing
  have hplain {t : Thought} (ht : t.handles = []) : (think t pending).handles behavior ⊆
      purpose.handles ++ pending.flatMap Pending.handles ++ r.handles Code.handles := by
    rw [handles_think, Thought.reach, ht]
    exact List.subset_append_of_subset_left _ (List.subset_append_right _ _)
  unfold Purpose.react
  split
  case h_1 thought => exact List.subset_append_left _ _
  case h_3 completion settler c s =>
    intro x hx
    simp only [Reaction.handles, Request.handles, behavior, Running.handles, Purpose.handles,
      Thought.handles, namedHandles, Context.handles, Scope.handles,
      Reply.handles, Outcome.handles, Value.handles, Value.listHandles, List.flatMap_cons,
      List.flatMap_nil, List.append_nil, List.nil_append, List.mem_append] at hx ⊢
    tauto
  case h_8 step =>
    intro x hx
    have hin := @handles_stepList step x
    simp only [handles_think, Thought.reach, Thought.handles, Product.handles, Purpose.handles,
      Reply.handles, List.nil_append, List.mem_append] at hx ⊢
    tauto
  case h_11 es => exact hplain (handles_errors es)
  case h_13 task ctx b =>
    intro x hx
    simp only [Reaction.handles, Request.handles, behavior, Running.handles, Purpose.handles,
      Code.handles, Reply.handles, Outcome.handles, Value.handles, List.mem_append, List.mem_cons,
      List.not_mem_nil, or_false] at hx ⊢
    tauto
  case h_14 o _ _ =>
    intro x hx
    simp only [handles_think, Thought.reach, handles_thinkOutcome, Reply.handles,
      List.mem_append] at hx ⊢
    tauto
  all_goals
    exact hplain (by
      simp [Thought.handles, Product.handles, Value.handles, Step.handles, Instruction.handles])

/-! ### Code at rest -/

theorem handles_entryInput (entry : Entry) : (entryInput entry).handles ⊆ entry.handles := by
  cases entry with
  | feed o => exact List.Subset.refl _
  | _ => simp [entryInput]

theorem handles_evaluateIn (t : Term) (ctx : Context) :
    (evaluateIn t ctx).handles ⊆ ctx.handles := by
  intro x hx
  simpa [evaluateIn, Running.handles, Thought.handles, Pending.handles] using hx

theorem handles_bindSome (ctx : Context) (name : Option String) (v : Value) :
    (ctx.bindSome name v).handles ⊆ v.handles ++ ctx.handles := by
  cases name with
  | none => exact List.subset_append_right _ _
  | some name =>
    rw [Context.bindSome, handles_bind]
    exact List.Subset.refl _

theorem handles_stored (name : Option String) (h : Handle) :
    namedHandles (name.toList.map (·, .handle h)) ⊆ [h] := by
  cases name <;> simp [namedHandles]

theorem handles_startHandler (h : HandlerTerm) (ctx : Context) (k p : Nat) :
    (startHandler h ctx k p).handles ⊆ ctx.handles ++ [.continuation k, .reenter p] := by
  obtain ⟨body, continuation, reenter, continuationVariable, reenterVariable⟩ := h
  have hinner : ((ctx.bindSome continuation (.handle (.continuation k))).bindSome reenter
      (.handle (.reenter p))).handles ⊆ ctx.handles ++ [.continuation k, .reenter p] := by
    intro x hx
    have hin := handles_bindSome _ _ _ hx
    rw [handles_handle, List.mem_append] at hin
    rcases hin with hin | hin
    · exact List.mem_append_right _ (List.mem_cons_of_mem _ hin)
    · have hin := handles_bindSome _ _ _ hin
      rw [handles_handle, List.mem_append, List.mem_singleton] at hin
      rcases hin with rfl | hin
      · exact List.mem_append_right _ (List.mem_cons_self ..)
      · exact List.mem_append_left _ hin
  have hstored : namedHandles (continuationVariable.toList.map (·, .handle (.continuation k)) ++
      reenterVariable.toList.map (·, .handle (.reenter p))) ⊆ [.continuation k, .reenter p] := by
    rw [namedHandles, List.flatMap_append]
    exact List.append_subset.mpr
      ⟨List.Subset.trans (handles_stored _ _) (List.subset_append_left [_] _),
        List.Subset.trans (handles_stored _ _) (List.subset_append_right [_] _)⟩
  have hk : (Value.handle (.continuation k)).handles ⊆
      ctx.handles ++ [.continuation k, .reenter p] := by simp
  simp only [startHandler, Running.handles, Thought.handles, Pending.handles, List.flatMap_cons,
    List.flatMap_nil, List.append_nil, List.append_subset]
  exact ⟨⟨List.Subset.trans hstored (List.subset_append_right _ _), hinner⟩, hinner,
    List.subset_append_left _ _, hk⟩

theorem handles_start (code : Code) (entry : Entry) :
    (start code entry).handles ⊆ code.handles ++ entry.handles := by
  intro x hx
  have hinput := @handles_entryInput entry x
  have hrun (t : Term) (ctx : Context) := @handles_evaluateIn t ctx x
  unfold start at hx
  split at hx
  case h_1 body scope =>
    have hin := hrun _ _ hx
    simp only [Context.handles, Code.handles, List.mem_append] at hin ⊢
    tauto
  case h_2 body scope =>
    simp only [Running.handles, Thought.handles, Pending.handles, Context.handles, Code.handles,
      List.flatMap_cons, List.flatMap_nil, List.append_nil, List.nil_append,
      List.mem_append] at hx ⊢
    tauto
  case h_3 body ctx => exact List.mem_append_left _ (hrun _ _ hx)
  case h_4 h ctx =>
    split at hx
    · exact handles_startHandler h ctx _ _ hx
    · have hin : x ∈ ctx.handles := by
        simpa [Running.handles, Thought.handles, Pending.handles, Product.handles,
          Value.handles] using hx
      exact List.mem_append_left _ hin
  case h_5 c =>
    split at hx
    · simp only [Running.handles, Thought.handles, Pending.handles, Code.handles, Entry.handles,
        handles_handle, List.flatMap_cons, List.flatMap_nil, List.mem_append, List.mem_cons,
        List.not_mem_nil, or_false] at hx ⊢
      tauto
    · simp [Running.handles, Thought.handles, Product.handles, Value.handles] at hx
  case h_6 k p =>
    split at hx
    · simp only [Running.handles, Thought.handles, Pending.handles, Code.handles, Entry.handles,
        Outcome.handles, handles_handle, List.flatMap_cons, List.flatMap_nil, List.mem_append,
        List.mem_cons, List.not_mem_nil, or_false] at hx ⊢
      tauto
    · simp only [Running.handles, Thought.handles, Product.handles, Value.handles, Pending.handles,
        Code.handles, List.flatMap_cons, List.flatMap_nil, List.mem_append, List.mem_cons,
        List.not_mem_nil, or_false, List.nil_append] at hx ⊢
      tauto
  case h_7 steps entered scope =>
    have hin := hrun _ _ hx
    simp only [Context.handles, Code.handles, List.mem_append] at hin ⊢
    tauto
  case h_8 | h_9 =>
    refine List.mem_append_right _ (hinput ?_)
    simpa [Running.handles, handles_thinkOutcome] using hx
  case h_10 tag position onCopy scope =>
    refine List.mem_append_left _ ?_
    split at hx
    · cases onCopy <;> simpa [Running.handles, Thought.handles, Note.handles, Pending.handles,
        Context.handles, Code.handles] using hx
    · simpa [Context.handles, Code.handles] using hrun _ _ hx
    · simp [Running.handles, Thought.handles, Product.handles, Value.handles] at hx

/-- Programs of the language are honest. -/
theorem honest : behavior.Honest where
  start := handles_start
  react state signal := by
    cases state with
    | thinking thought pending =>
      cases signal with
      | proceed =>
        exact List.Subset.trans (handles_react_thought thought pending)
          (List.subset_append_left _ _)
      | reply r => exact List.subset_append_left _ _
    | waiting purpose pending =>
      cases signal with
      | proceed => exact List.subset_append_left _ _
      | reply r => exact handles_react_purpose purpose r pending
  move state exiting := by
    intro x hx
    cases state with
    | counted steps entered scope => cases exiting <;> simpa [behavior, move, Code.handles] using hx
    | custom c position wasExiting scope =>
      obtain ⟨steps, cleanup, tag, onCopy⟩ := c
      revert hx
      simp only [behavior, move]
      split <;> simp [Code.handles]
    | _ => exact (List.mem_append.mp hx).resolve_right List.not_mem_nil
  copy state code h := by
    cases state with
    | custom c position exiting scope =>
      obtain ⟨steps, cleanup, tag, onCopy⟩ := c
      simp only [behavior, Strand.Language.onCopy] at h
      split at h
      · cases h
      · cases h
        exact List.Subset.refl _
    | _ => cases h

end Strand.Language
