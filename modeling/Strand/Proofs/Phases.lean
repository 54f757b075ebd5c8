import Strand.Proofs.Duties

/-! # Phases — what a pass is busy with

    A scheduler has at most one pass at a time. What that pass is busy with can
    be read off the control stack, from what stands directly above its frame.

    * `PassStage` lists what a pass can be busy with, and `Machine.stage` finds out.
    * `Stacked` is the order of the frames that make it readable: nothing comes
      between a pass and the routine that it steps, and whatever is above a
      routine ends in a step. Every move keeps it (`Phased.step`).
    * `Stride` lists everything that can be done to a scheduler that is there,
      stage by stage, and a move of a reachable machine is one of these
      (`Reachable.stride`). -/

namespace Strand

variable {C R : Type}

/-! ### Stages -/

/-- What a pass is busy with. -/
inductive PassStage (C : Type) where
  /-- There is no pass. -/
  | idle
  /-- It is at its head. -/
  | head
  /-- It advances a routine. -/
  | stepping (id : RoutineId)
  /-- The script of a child of a routine is built. -/
  | building (id : RoutineId)
  /-- Frames lifted by a shift of a routine are copied. -/
  | capturing (id : RoutineId) (frames : List (Lifted C))
  /-- The scheduler is swept after a step. -/
  | sweeping
  /-- A panic is about to leave it. -/
  | leaving

/-- What stands directly above a frame: another frame, or the focus. -/
inductive Above (C R : Type) where
  | frame (f : Frame C R)
  | focus (focus : Focus C R)

/-- Whether a frame is a pass of scheduler `p`. -/
def Frame.isPass (p : Nat) : Frame C R → Bool
  | .pass q => q = p
  | _ => false

/-- What a pass is busy with, by what stands directly above its frame. -/
def Above.stage : Above C R → PassStage C
  | .frame (.stepping _ id) => .stepping id
  | .frame (.building _ id _) => .building id
  | .frame (.capturing _ id _ frames _ _) => .capturing id frames
  | .frame (.sweeping _) => .sweeping
  | .frame (.releasing _ (.give _)) => .head
  | .focus (.release _ (.give _)) => .head
  | _ => .leaving

/-- What the topmost pass of scheduler `p` in a control stack is busy with. -/
def stageFrom (p : Nat) : Above C R → List (Frame C R) → PassStage C
  | _, [] => .idle
  | above, f :: rest => if f.isPass p then above.stage else stageFrom p (.frame f) rest

/-- What scheduler `p` is busy with. -/
def Machine.stage (p : Nat) (m : Machine C R) : PassStage C := stageFrom p (.focus m.focus) m.control

/-! ### The order of frames -/

/-- Whether the topmost frame is a pass of scheduler `p`. -/
def startsPass (p : Nat) : List (Frame C R) → Bool
  | f :: _ => f.isPass p
  | [] => false

/-- Whether what comes next has to be the step of a routine of scheduler `p`. -/
def expectsStep (p : Nat) : List (Frame C R) → Bool
  | .stepping q _ :: _ => q = p
  | .holding _ :: rest => expectsStep p rest
  | .inExit _ :: rest => expectsStep p rest
  | .inRoot _ :: rest => expectsStep p rest
  | _ => false

/-- Whether it hands something to the top frame. -/
def Onward.hands : Onward C R → Bool
  | .give _ => true
  | .unwind _ _ => true
  | _ => false

/-- Whether it ends a step. -/
def Onward.endsStep : Onward C R → Bool
  | .give (.stepped _ _) => true
  | .unwind _ _ => true
  | _ => false

/-- Whether it may stand directly above a pass of scheduler `p`. -/
def Above.servesPass (p : Nat) : Above C R → Bool
  | .frame (.stepping q _) => q = p
  | .frame (.building q _ _) => q = p
  | .frame (.capturing q _ _ _ _ _) => q = p
  | .frame (.sweeping q) => q = p
  | .frame (.releasing _ onward) => onward.hands
  | .focus (.release _ onward) => onward.hands
  | .focus .aborted => true
  | _ => false

/-- Whether it comes to the end of a step. -/
def Above.servesStep : Above C R → Bool
  | .frame (.inStaged _) => true
  | .frame (.inOwn _) => true
  | .frame (.reporting _ _ _) => true
  | .frame (.inReentry _) => true
  | .frame (.holding _) => true
  | .frame (.inExit _) => true
  | .frame (.inRoot _) => true
  | .frame (.releasing _ onward) => onward.endsStep
  | .focus (.advance _ _) => true
  | .focus (.exit _) => true
  | .focus (.release _ onward) => onward.endsStep
  | .focus .aborted => true
  | _ => false

/-- Whether something may stand above a control stack. -/
structure Suits (p : Nat) (above : Above C R) (control : List (Frame C R)) : Prop where
  pass : startsPass p control = true → above.servesPass p = true
  step : expectsStep p control = true → above.servesStep = true

/-- What a frame needs beneath it: a pass works directly above its frame, and
    there is only one. -/
def Frame.fits (p : Nat) (rest : List (Frame C R)) : Frame C R → Prop
  | .pass q => q = p → ∀ g ∈ rest, g.of p = false
  | .stepping q _ => q = p → startsPass p rest = true
  | .building q _ _ => q = p → startsPass p rest = true
  | .capturing q _ _ _ _ _ => q = p → startsPass p rest = true
  | .sweeping q => q = p → startsPass p rest = true ∨ ∀ g ∈ rest, g.of p = false
  | .opening q _ => q = p → ∀ g ∈ rest, g.of p = false
  | _ => True

/-- A control stack is in order, as far as scheduler `p` goes. -/
def Stacked (p : Nat) : List (Frame C R) → Prop
  | [] => True
  | f :: rest => Suits p (.frame f) rest ∧ f.fits p rest ∧ Stacked p rest

section Order

variable {p : Nat} {f : Frame C R} {L X : List (Frame C R)}

theorem Frame.fits_of_not_attends (h : f.attends p = false) (rest : List (Frame C R)) :
    f.fits p rest := by
  cases f <;> first
    | trivial
    | exact fun hq => absurd hq (of_decide_eq_false h)

theorem Frame.of_of_isPass (h : f.isPass p = true) : f.of p = true := by
  cases f <;> first | exact h | cases h

theorem Frame.isPass_of_not_of (h : f.of p = false) : f.isPass p = false := by
  cases f <;> first | exact h | rfl

theorem Frame.of_of_not_attends (h : f.attends p = false) : f.of p = false := by
  cases f <;> first | exact h | rfl

theorem Suits.of_free (hpass : startsPass p L = false) (hstep : expectsStep p L = false)
    (above : Above C R) : Suits p above L :=
  ⟨fun h => absurd (hpass.symm.trans h) (by simp), fun h => absurd (hstep.symm.trans h) (by simp)⟩

/-- What hands on is as good as what comes next. -/
theorem Suits.hands {hs hs' : List Handle} {onward : Onward C R}
    (h : Suits p (.focus (.release hs onward)) L) : Suits p (.focus (.release hs' onward)) L :=
  ⟨h.pass, h.step⟩

theorem Suits.interrupted {hs hs' : List Handle} {onward : Onward C R}
    (h : Suits p (.focus (.release hs onward)) L) : Suits p (.frame (.releasing hs' onward)) L :=
  ⟨h.pass, h.step⟩

theorem Suits.resumed {hs hs' : List Handle} {onward : Onward C R}
    (h : Suits p (.frame (.releasing hs onward)) L) : Suits p (.focus (.release hs' onward)) L :=
  ⟨h.pass, h.step⟩

/-- Unwinding suits everywhere. -/
theorem Suits.unwinding (hs : List Handle) (payload : Payload) (salvage : Option (Script C)) :
    Suits p (.focus (.release hs (.unwind payload salvage)) : Above C R) L :=
  ⟨fun _ => rfl, fun _ => rfl⟩

theorem expectsStep_of_startsPass (h : startsPass p L = true) : expectsStep p L = false := by
  cases L with
  | nil => rfl
  | cons f rest => cases f <;> first | rfl | cases h

/-- A step that is over. -/
theorem Suits.of_step (hpass : startsPass p L = false) {above : Above C R}
    (h : above.servesStep = true) : Suits p above L :=
  ⟨fun hp => absurd (hpass.symm.trans hp) (by simp), fun _ => h⟩

theorem startsPass_of_expectsStep (h : expectsStep p L = true) : startsPass p L = false := by
  cases hp : startsPass p L with
  | false => rfl
  | true => exact absurd (h.symm.trans (expectsStep_of_startsPass hp)) (by simp)

/-- Where there is no frame of a pass, there is nothing to keep in order. -/
theorem free_of_none (h : ∀ g ∈ L, g.of p = false) :
    startsPass p L = false ∧ expectsStep p L = false := by
  induction L with
  | nil => exact ⟨rfl, rfl⟩
  | cons f rest ih =>
    obtain ⟨hf, hrest⟩ := List.forall_mem_cons.mp h
    refine ⟨f.isPass_of_not_of hf, ?_⟩
    cases f <;> first
      | exact (ih hrest).2
      | exact hf
      | rfl

theorem Stacked.of_none (h : ∀ g ∈ L, g.of p = false) : Stacked p L := by
  induction L with
  | nil => trivial
  | cons f rest ih =>
    obtain ⟨hf, hrest⟩ := List.forall_mem_cons.mp h
    obtain ⟨hpass, hstep⟩ := free_of_none hrest
    refine ⟨.of_free hpass hstep _, ?_, ih hrest⟩
    cases f <;> first
      | trivial
      | exact fun hq => absurd hq (of_decide_eq_false hf)
      | exact fun _ => Or.inr hrest
      | exact fun _ => hrest

/-- Frames that are about something else go on top of a stack that waits for
    nothing in particular. -/
theorem Stacked.append (h : Stacked p L) (hpass : startsPass p L = false)
    (hstep : expectsStep p L = false) (hX : ∀ f ∈ X, f.attends p = false) :
    Stacked p (X ++ L) ∧ startsPass p (X ++ L) = false ∧ expectsStep p (X ++ L) = false := by
  induction X with
  | nil => exact ⟨h, hpass, hstep⟩
  | cons f X ih =>
    obtain ⟨hf, hX⟩ := List.forall_mem_cons.mp hX
    obtain ⟨hstacked, hpass', hstep'⟩ := ih hX
    refine ⟨⟨.of_free hpass' hstep' _, f.fits_of_not_attends hf _, hstacked⟩,
      f.isPass_of_not_of (f.of_of_not_attends hf), ?_⟩
    cases f <;> first
      | exact hstep'
      | exact hf
      | rfl

/-- The stage does not depend on what is pushed above the frame that shows it. -/
theorem stageFrom_append (hpass : startsPass p L = false) (hX : ∀ f ∈ X, f.attends p = false)
    (a b : Above C R) : stageFrom p a (X ++ L) = stageFrom p b L := by
  induction X generalizing a with
  | nil =>
    cases L with
    | nil => rfl
    | cons f rest =>
      have hf : f.isPass p = false := hpass
      simp [stageFrom, hf]
  | cons f X ih =>
    obtain ⟨hf, hX⟩ := List.forall_mem_cons.mp hX
    have hf := f.isPass_of_not_of (f.of_of_not_attends hf)
    rw [List.cons_append, stageFrom, hf]
    exact ih hX _

theorem stageFrom_of_none (h : ∀ g ∈ L, g.of p = false) (above : Above C R) :
    stageFrom p above L = .idle := by
  induction L generalizing above with
  | nil => rfl
  | cons f rest ih =>
    obtain ⟨hf, hrest⟩ := List.forall_mem_cons.mp h
    rw [stageFrom, f.isPass_of_not_of hf]
    exact ih hrest _

theorem none_of_stageFrom (h : Stacked p L) {above : Above C R} (hidle : stageFrom p above L = .idle) :
    ∀ g ∈ L, g.of p = false := by
  induction L generalizing above with
  | nil => rintro _ ⟨⟩
  | cons f rest ih =>
    rw [stageFrom] at hidle
    split at hidle
    · exact absurd hidle (by unfold Above.stage; split <;> rintro ⟨⟩)
    · next hf =>
      have hrest := ih h.2.2 hidle
      refine List.forall_mem_cons.mpr ⟨?_, hrest⟩
      have hfree := (free_of_none hrest).1
      have hfits := h.2.1
      cases f <;> first
        | rfl
        | exact decide_eq_false fun hq => absurd (hfits hq) (by rw [hfree]; rintro ⟨⟩)
        | exact decide_eq_false fun hq => hf (decide_eq_true hq)

end Order

namespace Machine

/-! ### Moves keep the order -/

/-- The control stack of a machine is in order, and so is its focus. -/
structure Ordered (p : Nat) (m : Machine C R) : Prop where
  stacked : Stacked p m.control
  suits : Suits p (.focus m.focus) m.control

section Ordered

variable {p : Nat} {m n : Machine C R} {L : List (Frame C R)}

theorem Ordered.of_none (h : ∀ g ∈ m.control, g.of p = false) : m.Ordered p :=
  ⟨.of_none h, .of_free (free_of_none h).1 (free_of_none h).2 _⟩

/-- What a move has pushed, if it has left the frames at work alone. -/
theorem pushed_of_duties (hsuffix : L <:+ n.control)
    (hwork : n.duties p = L.filter (Frame.attends p)) :
    ∃ X, n.control = X ++ L ∧ ∀ f ∈ X, f.attends p = false := by
  obtain ⟨X, hX⟩ := hsuffix
  refine ⟨X, hX.symm, ?_⟩
  have hnil : X.filter (Frame.attends p) = [] := by
    rw [duties, ← hX, List.filter_append] at hwork
    exact List.append_left_eq_self.mp hwork
  intro f hf
  simpa using List.filter_eq_nil_iff.mp hnil f hf

theorem Ordered.of_free (hstacked : Stacked p L) (hpass : startsPass p L = false)
    (hstep : expectsStep p L = false) (hsuffix : L <:+ n.control)
    (hwork : n.duties p = L.filter (Frame.attends p)) : n.Ordered p := by
  obtain ⟨X, hX, hnone⟩ := pushed_of_duties hsuffix hwork
  obtain ⟨hstacked', hpass', hstep'⟩ := hstacked.append hpass hstep hnone
  rw [← hX] at hstacked' hpass' hstep'
  exact ⟨hstacked', .of_free hpass' hstep' _⟩

/-- A frame that comes to the end of a step is pushed, and more above it. -/
theorem Ordered.of_pushed {f : Frame C R} (hstacked : Stacked p L) (hsuits : Suits p (.frame f) L)
    (hf : f.attends p = false) (hstep : expectsStep p (f :: L) = false)
    (hsuffix : f :: L <:+ n.control) (hwork : n.duties p = L.filter (Frame.attends p)) :
    n.Ordered p := by
  refine .of_free (L := f :: L) ⟨hsuits, f.fits_of_not_attends hf L, hstacked⟩
    (f.isPass_of_not_of (f.of_of_not_attends hf)) hstep hsuffix ?_
  rw [hwork, List.filter_cons, if_neg (by simp [hf])]

theorem Ordered.letGo (B : Behavior C R) {h : Handle} {rest : List Handle} {onward : Onward C R}
    (hord : m.Ordered p) (hfocus : m.focus = .release (h :: rest) onward) :
    (m.letGo B h rest onward).Ordered p := by
  have hsuits := hfocus ▸ hord.suits
  have hwork := duties_letGo (p := p) m B h rest onward
  unfold Machine.letGo at hwork ⊢
  split at hwork
  · exact ⟨hord.stacked, hsuits.hands⟩
  · next c store heq =>
    exact .of_pushed hord.stacked hsuits.interrupted rfl rfl
      (suffix_settle (({ m with store } : Machine C R).push
        (.releasing (.completion c :: rest) onward)) c (.failure .abandoned)) hwork

/-- Where a step is due, feeding a script comes to the end of one. -/
theorem Ordered.advanceScript (B : Behavior C R) (hord : m.Ordered p)
    (hstep : expectsStep p m.control = true) (script : Script C) (input : Outcome Value) :
    (m.advanceScript B script input).Ordered p := by
  have hpass := startsPass_of_expectsStep hstep
  have hserves : ∀ above : Above C R, above.servesStep = true → Suits p above m.control :=
    fun above h => Suits.of_step hpass h
  have hwork := duties_advanceScript (p := p) m B script input
  cases script with
  | staged s =>
    show (m.enterStage B.held s input).Ordered p
    replace hwork : (m.enterStage B.held s input).duties p = m.duties p := hwork
    unfold enterStage at hwork ⊢
    split at hwork
    · exact ⟨hord.stacked, hserves _ rfl⟩
    · exact ⟨hord.stacked, hserves _ rfl⟩
    · exact .of_pushed hord.stacked (hserves (.frame (.inStaged _)) rfl) rfl rfl
        List.suffix_rfl hwork
  | own state =>
    exact .of_pushed hord.stacked (hserves (.frame (.inOwn (B.move state false).1)) rfl) rfl rfl
      List.suffix_rfl hwork
  | exit inner progress =>
    unfold Machine.advanceScript at hwork ⊢
    dsimp only at hwork ⊢
    split at hwork
    · next hs =>
      rw [if_pos hs]
      exact ⟨⟨hserves _ rfl, trivial, hord.stacked⟩, .of_step rfl rfl⟩
    · next hs =>
      rw [if_neg hs]
      exact ⟨⟨.of_step rfl rfl, trivial, hserves _ rfl, trivial, hord.stacked⟩, .of_step rfl rfl⟩
  | settled stored => cases input <;> exact ⟨hord.stacked, hserves _ rfl⟩
  | reentry k value =>
    cases value with
    | none => exact ⟨hord.stacked, hserves _ rfl⟩
    | some v =>
      refine .of_pushed hord.stacked (hserves (.frame (.inReentry k)) rfl) rfl rfl ?_ hwork
      exact (List.suffix_cons _ _).trans
        (suffix_invoke ((m.push (.inReentry k)).push (.holding input.handles)) k v)
  | root inner settler =>
    exact ⟨⟨hserves _ rfl, trivial, hord.stacked⟩, .of_step rfl rfl⟩

theorem Ordered.exitScript (B : Behavior C R) (hord : m.Ordered p)
    (hstep : expectsStep p m.control = true) (script : Script C) :
    (m.exitScript B script).Ordered p := by
  have hpass := startsPass_of_expectsStep hstep
  have hserves : ∀ above : Above C R, above.servesStep = true → Suits p above m.control :=
    fun above h => Suits.of_step hpass h
  have hwork := duties_exitScript (p := p) m B script
  cases script with
  | staged s =>
    show (m.exitStages B.held s).Ordered p
    replace hwork : (m.exitStages B.held s).duties p = m.duties p := hwork
    unfold exitStages at hwork ⊢
    split at hwork
    · exact .of_pushed hord.stacked (hserves (.frame (.inStaged _)) rfl) rfl rfl
        List.suffix_rfl hwork
    · exact ⟨hord.stacked, hserves _ rfl⟩
  | own state =>
    exact .of_pushed hord.stacked (hserves (.frame (.inOwn (B.move state true).1)) rfl) rfl rfl
      List.suffix_rfl hwork
  | root inner settler =>
    exact ⟨⟨hserves _ rfl, trivial, hord.stacked⟩, .of_step rfl rfl⟩
  | exit inner progress => exact ⟨hord.stacked, hserves _ rfl⟩
  | settled stored => exact ⟨hord.stacked, hserves _ rfl⟩
  | reentry k value => exact ⟨hord.stacked, hserves _ rfl⟩

/-- Where a step is due, a frame that is handed one hands it on. -/
theorem Ordered.deliver (B : Behavior C R) {a : Answer C} {f : Frame C R}
    (hstacked : Stacked p (f :: m.control)) (hsuits : Suits p (.focus (.release [] (.give a))) (f :: m.control))
    (hstep : expectsStep p m.control = true) (hf : f.attends p = false) :
    (m.deliver B a f).Ordered p := by
  obtain ⟨habove, -, hstacked⟩ := hstacked
  have hpass := startsPass_of_expectsStep hstep
  have hserves : ∀ above : Above C R, above.servesStep = true → Suits p above m.control :=
    fun above h => Suits.of_step hpass h
  have hline := habove.step hstep
  cases f with
  | inStaged s => exact ⟨hstacked, hserves _ rfl⟩
  | inOwn state => exact ⟨hstacked, hserves _ rfl⟩
  | reporting inner settler o => exact ⟨hstacked, hserves _ rfl⟩
  | inReentry k => exact ⟨hstacked, hserves _ rfl⟩
  | holding hs => exact ⟨hstacked, hserves _ (hsuits.step hstep)⟩
  | releasing rest onward => exact ⟨hstacked, habove.resumed⟩
  | inExit progress =>
    have hended := hsuits.step hstep
    cases a with
    | stepped step inner =>
      show (m.exitStepped progress inner step).Ordered p
      unfold exitStepped
      split
      · exact ⟨hstacked, hserves _ rfl⟩
      · exact ⟨hstacked, hserves _ rfl⟩
    | nothing | outcome | yield | built | reply => cases hended
  | inRoot settler =>
    have hended := hsuits.step hstep
    cases a with
    | stepped step inner =>
      cases step with
      | done o =>
        exact .of_pushed hstacked (hserves (.frame (.reporting inner settler o)) rfl) rfl rfl
          (suffix_settle ((m.retain o.handles).push (.reporting inner settler o)) settler o)
          (duties_settle ((m.retain o.handles).push (.reporting inner settler o)) settler o)
      | yield i => exact ⟨hstacked, hserves _ rfl⟩
    | nothing | outcome | yield | built | reply => cases hended
  | _ => cases hline

theorem Ordered.unwindFrame (B : Behavior C R) {payload : Payload} {salvage : Option (Script C)}
    {f : Frame C R} (hstacked : Stacked p (f :: m.control))
    (hstep : expectsStep p m.control = true) :
    (m.unwindFrame B payload salvage f).Ordered p := by
  obtain ⟨habove, -, hstacked⟩ := hstacked
  have hpass := startsPass_of_expectsStep hstep
  have hline := habove.step hstep
  cases f with
  | releasing rest onward =>
    cases onward <;> exact ⟨hstacked, .of_step hpass rfl⟩
  | inStaged | inOwn | reporting | inReentry | holding | inExit | inRoot =>
    exact ⟨hstacked, .unwinding _ _ _⟩
  | _ => cases hline

/-- Above a pass, what has been interrupted goes on. -/
theorem Ordered.deliver_releasing (B : Behavior C R) {a : Answer C} {rest : List Handle}
    {onward : Onward C R} (hstacked : Stacked p (.releasing rest onward :: m.control)) :
    (m.deliver B a (.releasing rest onward)).Ordered p :=
  ⟨hstacked.2.2, hstacked.1.resumed⟩

theorem Ordered.unwind_releasing (B : Behavior C R) {payload : Payload}
    {salvage : Option (Script C)} {rest : List Handle} {onward : Onward C R}
    (hstacked : Stacked p (.releasing rest onward :: m.control)) :
    (m.unwindFrame B payload salvage (.releasing rest onward)).Ordered p := by
  cases onward <;> first
    | exact ⟨hstacked.2.2, .unwinding _ _ _⟩
    | exact ⟨hstacked.2.2, ⟨fun _ => rfl, fun _ => rfl⟩⟩

end Ordered

end Machine

/-! ### What is done to a scheduler that is there -/

/-- A scheduler with what it is busy with and the snapshots of its routines. -/
structure Status (C : Type) where
  stage : PassStage C
  scheduler : Scheduler C
  captures : Nat → Option (Snapshot C)

/-- Everything that one move can do to scheduler `p`. -/
inductive Stride (p : Nat) : Status C → Status C → Prop where
  /-- Nothing. -/
  | still (x : Status C) : Stride p x x
  /-- Failures that nobody received are noted or taken. -/
  | note (σ : PassStage C) (s : Scheduler C) (t : Nat → Option (Snapshot C))
      (unhandled : List Error) : Stride p ⟨σ, s, t⟩ ⟨σ, { s with unhandled }.told, t⟩
  -- passes
  | pick {s s' : Scheduler C} {id : RoutineId} {script : Script C}
      (h : s.pick = (some (id, script), s')) (t : Nat → Option (Snapshot C)) :
      Stride p ⟨.head, s, t⟩ ⟨.stepping id, { s' with register := .unit }.told, t⟩
  /-- There is nothing to pick, and the pass is over. -/
  | leave {s s' : Scheduler C} (h : s.pick = (none, s')) (unwinding : Bool)
      (t : Nat → Option (Snapshot C)) :
      Stride p ⟨.head, s, t⟩ ⟨.idle, ({ s' with register := .unit }.leave unwinding).told, t⟩
  /-- A panic comes out of what the pass was busy with. -/
  | fail {σ : PassStage C} (h : σ ≠ .idle) (s : Scheduler C) (t : Nat → Option (Snapshot C)) :
      Stride p ⟨σ, s, t⟩ ⟨.leaving, s, t⟩
  /-- A panic leaves the pass. -/
  | abandon (s : Scheduler C) (t : Nat → Option (Snapshot C)) :
      Stride p ⟨.leaving, s, t⟩ ⟨.idle, (s.leave true).told, t⟩
  /-- One round of a sweep; no routine is being stepped. -/
  | sweep {σ σ' : PassStage C} {s : Scheduler C} (h : σ = .sweeping ∨ s.current = none)
      (h' : σ' = σ ∨ σ = .sweeping ∧ σ' = .head) (t : Nat → Option (Snapshot C)) :
      Stride p ⟨σ, s, t⟩ ⟨σ', { s.freeUnclaimed.2 with current := none, retired := [] }.told, t⟩
  -- steps of routines
  | conclude (s : Scheduler C) (id : RoutineId) (script : Script C) (o : Outcome Value)
      (t : Nat → Option (Snapshot C)) :
      Stride p ⟨.stepping id, s, t⟩ ⟨.sweeping, (s.conclude id script o).told, t⟩
  | suspend (s : Scheduler C) (id : RoutineId) (script : Script C) (t : Nat → Option (Snapshot C)) :
      Stride p ⟨.stepping id, s, t⟩ ⟨.sweeping, (s.suspend id script).told, t⟩
  | reset (s : Scheduler C) (id : RoutineId) (script : Script C) (t : Nat → Option (Snapshot C)) :
      Stride p ⟨.stepping id, s, t⟩ ⟨.building id, ((s.shelve id script).push .boundary).told, t⟩
  | splice (s : Scheduler C) (id : RoutineId) (script nested : Script C)
      (t : Nat → Option (Snapshot C)) :
      Stride p ⟨.stepping id, s, t⟩
        ⟨.sweeping, ((s.shelve id script).told.scheduleChild .splice nested id).told, t⟩
  /-- A block or a handler has built the script of a child. -/
  | build (s : Scheduler C) (id : RoutineId) (origin : Origin) (script : Script C)
      (t : Nat → Option (Snapshot C)) :
      Stride p ⟨.building id, s, t⟩ ⟨.sweeping, (s.scheduleChild origin script id).told, t⟩
  -- captures
  | lift {s s' : Scheduler C} {id : RoutineId} {script : Script C} {frames : List (Lifted C)}
      (h : (s.shelve id script).lift = (frames, s')) (t : Nat → Option (Snapshot C)) :
      Stride p ⟨.stepping id, s, t⟩ ⟨.capturing id frames, s'.told, t⟩
  /-- The shift finds nothing to lift. -/
  | liftNothing {s s' : Scheduler C} {id : RoutineId} {script : Script C} {k : Nat}
      {t : Nat → Option (Snapshot C)} (h : (s.shelve id script).lift = ([], s')) (hk : t k = none) :
      Stride p ⟨.stepping id, s, t⟩
        ⟨.building id, s'.told, Function.update t k (some (.of p [] []))⟩
  | capture (s : Scheduler C) (id : RoutineId) (frames : List (Lifted C))
      (copies : List (Script C)) {k : Nat} {t : Nat → Option (Snapshot C)} (hk : t k = none) :
      Stride p ⟨.capturing id frames, s, t⟩
        ⟨.building id, (s.giveBackAll frames).told,
          Function.update t k (some (.of p frames copies))⟩
  -- work from outside
  | root (s : Scheduler C) (script : Script C) (t : Nat → Option (Snapshot C)) :
      Stride p ⟨.idle, s, t⟩
        ⟨.head, { (s.scheduleRoot script).told with running := true }.told, t⟩
  /-- A re-entry during a pass. -/
  | queue {σ : PassStage C} {s : Scheduler C} (h : s.running = true) (k : Nat) (v : Value)
      (t : Nat → Option (Snapshot C)) : Stride p ⟨σ, s, t⟩ ⟨σ, (s.queue k v).told, t⟩
  /-- A re-entry from outside, which begins a pass. -/
  | reenter {s : Scheduler C} (h : s.running = false) (k : Nat) (v : Value)
      (t : Nat → Option (Snapshot C)) :
      Stride p ⟨.idle, s, t⟩
        ⟨.head, { s.queue k v with register := .success v, running := true }.told, t⟩
  -- continuations
  /-- The captured routines themselves go back on the stack. -/
  | reinstate {σ : PassStage C} {s : Scheduler C} {k : Nat} {snapshot : Snapshot C}
      {ids : List RoutineId} {t : Nat → Option (Snapshot C)} (hk : t k = some snapshot)
      (hids : snapshot.routines = some ids) (hlive : ids.all s.routines.contains = true)
      (v : Value) :
      Stride p ⟨σ, s, t⟩
        ⟨σ, (s.reinstate ids v).told,
          Function.update t k (some { snapshot with routines := none })⟩
  /-- Copies are to go on the stack. -/
  | claim {σ : PassStage C} {s : Scheduler C} {k : Nat} {snapshot : Snapshot C}
      {t : Nat → Option (Snapshot C)} (hk : t k = some snapshot)
      (hgone : ∀ ids, snapshot.routines = some ids → ids.all s.routines.contains = false) :
      Stride p ⟨σ, s, t⟩ ⟨σ, s, Function.update t k (some { snapshot with routines := none })⟩
  | plant {σ : PassStage C} {s s' : Scheduler C} {k : Nat} {snapshot : Snapshot C}
      {copies : List (Script C)} {ids : List RoutineId} {t : Nat → Option (Snapshot C)}
      (hk : t k = some snapshot) (h : s.plant snapshot.frames copies = (ids, s')) (v : Value) :
      Stride p ⟨σ, s, t⟩ ⟨σ, (s'.told.reinstate ids v).told, t⟩
  /-- There is nothing to copy. -/
  | plantNothing {σ : PassStage C} {s : Scheduler C} {k : Nat} {snapshot : Snapshot C}
      {t : Nat → Option (Snapshot C)} (hk : t k = some snapshot) (hnone : snapshot.frames = [])
      (hgone : ∀ ids, snapshot.routines = some ids → ids.all s.routines.contains = false)
      (v : Value) :
      Stride p ⟨σ, s, t⟩
        ⟨σ, (s.told.reinstate [] v).told,
          Function.update t k (some { snapshot with routines := none })⟩
  /-- The continuation has died without having been invoked. -/
  | unclaim {σ : PassStage C} (s : Scheduler C) {k : Nat} {snapshot : Snapshot C}
      {ids : List RoutineId} {t : Nat → Option (Snapshot C)} (hk : t k = some snapshot)
      (hids : snapshot.routines = some ids) :
      Stride p ⟨σ, s, t⟩
        ⟨σ, { s with unclaimed := s.unclaimed ++ ids }.told, Function.update t k none⟩
  | forget {σ : PassStage C} (s : Scheduler C) {k : Nat} {snapshot : Snapshot C}
      {t : Nat → Option (Snapshot C)} (hk : t k = some snapshot)
      (hnone : snapshot.routines = none) : Stride p ⟨σ, s, t⟩ ⟨σ, s, Function.update t k none⟩

/-- Whether a pass is under way, and with which routine, as the stage has it. -/
def PassStage.Agrees (s : Scheduler C) : PassStage C → Prop
  | .idle => s.pace = (false, none)
  | .head => s.pace = (true, none)
  | .stepping id => s.pace = (true, some id)
  | .building id => s.pace = (true, some id)
  | .capturing id _ => s.pace = (true, some id)
  | .sweeping => s.running = true
  | .leaving => s.running = true

namespace Machine

variable {p : Nat} {m n : Machine C R} {B : Behavior C R}

/-- The status of scheduler `p`, if it is there. -/
def status? (p : Nat) (m : Machine C R) : Option (Status C) :=
  (m.scheduler? p).map fun s => ⟨m.stage p, s, (m.realm p).captures⟩

/-- The scheduler `p` of a machine and its frames are in order. -/
inductive Phased (p : Nat) (m : Machine C R) : Prop where
  /-- It has vanished. -/
  | gone (none : m.scheduler? p = none) (old : p < m.store.schedulers.cells.size)
  /-- It is still to come. -/
  | unborn (none : m.scheduler? p = none) (free : ∀ g ∈ m.control, g.of p = false)
  /-- It is still to come, and a pass of it comes to nothing. -/
  | early {control : List (Frame C R)} (none : m.scheduler? p = none)
      (top : m.control = .pass p :: control) (free : ∀ g ∈ control, g.of p = false)
      (focus : m.focus = .release [] (.give .nothing))
  | there {s : Scheduler C} (found : m.scheduler? p = some s) (ordered : m.Ordered p)
      (agrees : (m.stage p).Agrees s)

/-! ### Moves beside the work of a scheduler -/

/-- What interrupts a release shows the same stage. -/
theorem stage_releasing (hs hs' : List Handle) (onward : Onward C R) :
    (Above.frame (.releasing hs onward) : Above C R).stage =
      (Above.focus (.release hs' onward) : Above C R).stage := by
  cases onward <;> rfl

theorem startsPass_eq {L : List (Frame C R)} (h : startsPass p L = true) :
    ∃ rest, L = .pass p :: rest := by
  cases L with
  | nil => cases h
  | cons f rest =>
    cases f <;> first
      | cases h
      | exact ⟨rest, by rw [of_decide_eq_true h]⟩

/-- Letting go of something keeps the stage. -/
theorem stage_letGo {h : Handle} {hs : List Handle} {onward : Onward C R}
    (hfocus : m.focus = .release (h :: hs) onward) :
    (m.letGo B h hs onward).stage p = m.stage p := by
  have hwork := duties_letGo (p := p) m B h hs onward
  cases hpass : startsPass p m.control with
  | true =>
    obtain ⟨rest, hrest⟩ := startsPass_eq hpass
    unfold letGo at hwork ⊢
    split at hwork
    · simp [stage, hrest, stageFrom, Frame.isPass, hfocus]
      cases onward <;> rfl
    · next c store heq =>
      obtain ⟨X, hX, hnone⟩ := pushed_of_duties (L := .releasing (.completion c :: hs) onward :: m.control)
        (suffix_settle (({ m with store } : Machine C R).push
          (.releasing (.completion c :: hs) onward)) c (.failure .abandoned)) hwork
      rw [stage, hX, stageFrom_append rfl hnone _ (.focus m.focus), stage, hrest]
      simp only [stageFrom, Frame.isPass, decide_true, if_true, Bool.false_eq_true, if_false, hfocus]
      exact stage_releasing _ _ onward
  | false =>
    have hsuffix : m.control <:+ (m.letGo B h hs onward).control := by
      have hstep : m.step B = m.letGo B h hs onward := by simp only [step, hfocus]
      rw [← hstep]
      exact suffix_step m B (by simp [popping, hfocus])
    obtain ⟨X, hX, hnone⟩ := pushed_of_duties hsuffix hwork
    rw [stage, hX]
    exact stageFrom_append hpass hnone _ _

/-- A move beside the work of a scheduler keeps the order and the stage, unless
    a panic comes out of something that was let go of. -/
theorem Ordered.step_beside (hord : m.Ordered p) (hpop : ∀ f, m.Pops f → f.attends p = false)
    (hwork : (m.step B).duties p = m.duties p) :
    (m.step B).Ordered p ∧ ((m.step B).stage p = m.stage p ∨
      (m.step B).realm p = m.realm p ∧ m.stage p ≠ .idle ∧ (m.step B).stage p = .leaving) := by
  cases hpopping : m.popping with
  | false =>
    obtain ⟨X, hX, hnone⟩ := pushed_of_duties (suffix_step m B hpopping) hwork
    have hstage : startsPass p m.control = false → (m.step B).stage p = m.stage p := by
      intro hpass
      rw [stage, hX]
      exact stageFrom_append hpass hnone _ _
    by_cases hlet : ∃ h hs onward, m.focus = .release (h :: hs) onward
    · obtain ⟨h, hs, onward, hfocus⟩ := hlet
      have hstep : m.step B = m.letGo B h hs onward := by simp only [step, hfocus]
      rw [hstep]
      exact ⟨hord.letGo B hfocus, Or.inl (stage_letGo hfocus)⟩
    by_cases habort : m.focus = .aborted
    · have hstep : m.step B = m := by simp only [step, habort]
      rw [hstep]
      exact ⟨hord, Or.inl rfl⟩
    have hpass : startsPass p m.control = false := by
      cases hpass : startsPass p m.control with
      | false => rfl
      | true =>
        have hserves := hord.suits.pass hpass
        cases hfocus : m.focus with
        | release hs onward =>
          cases hs with
          | cons h hs => exact absurd ⟨h, hs, onward, hfocus⟩ hlet
          | nil =>
            rw [hfocus] at hserves
            cases onward with
            | give | unwind => simp [popping, hfocus] at hpopping
            | begin | tell | act => cases hserves
        | aborted => exact absurd hfocus habort
        | _ => rw [hfocus] at hserves; cases hserves
    refine ⟨?_, Or.inl (hstage hpass)⟩
    cases hexpects : expectsStep p m.control with
    | false => exact .of_free hord.stacked hpass hexpects (suffix_step m B hpopping) hwork
    | true =>
      have hserves := hord.suits.step hexpects
      cases hfocus : m.focus with
      | advance script input =>
        have hstep : m.step B = m.advanceScript B script input := by simp only [step, hfocus]
        rw [hstep]
        exact hord.advanceScript B hexpects script input
      | exit script =>
        have hstep : m.step B = m.exitScript B script := by simp only [step, hfocus]
        rw [hstep]
        exact hord.exitScript B hexpects script
      | copy script => rw [hfocus] at hserves; cases hserves
      | aborted => exact absurd hfocus habort
      | release hs onward =>
        cases hs with
        | cons h hs => exact absurd ⟨h, hs, onward, hfocus⟩ hlet
        | nil =>
          rw [hfocus] at hserves
          cases onward with
          | give | unwind => simp [popping, hfocus] at hpopping
          | begin | tell | act => cases hserves
  | true =>
    cases hcontrol : m.control with
    | nil =>
      have hnone : ∀ g ∈ (m.step B).control, g.of p = false := by
        intro g hg
        have hnil : (m.step B).duties p = [] := by rw [hwork, duties, hcontrol]; rfl
        refine g.of_of_not_attends ?_
        simpa using List.filter_eq_nil_iff.mp hnil g hg
      refine ⟨.of_none hnone, Or.inl ?_⟩
      rw [stage, stage, hcontrol]
      exact stageFrom_of_none hnone _
    | cons f rest =>
      have hf := hpop f ⟨hpopping, rest, hcontrol⟩
      have hstacked : Stacked p (f :: rest) := hcontrol ▸ hord.stacked
      have hsuffix : rest <:+ (m.step B).control := by
        have := tail_suffix_step m B
        rwa [hcontrol] at this
      have hwork' : (m.step B).duties p = rest.filter (Frame.attends p) := by
        rw [hwork, duties, hcontrol, List.filter_cons, if_neg (by simp [hf])]
      obtain ⟨X, hX, hnone⟩ := pushed_of_duties hsuffix hwork'
      have hbefore : m.stage p = stageFrom p (.frame f) rest := by
        rw [stage, hcontrol, stageFrom, f.isPass_of_not_of (f.of_of_not_attends hf)]
        rfl
      have hhanded := handed_of_pops (B := B) hpopping hcontrol
      cases hpass : startsPass p rest with
      | true =>
        -- above a pass, only what was interrupted can be
        have hserves := hstacked.1.pass hpass
        obtain ⟨rest', rfl⟩ := startsPass_eq hpass
        cases f <;> first
          | cases hserves
          | exact absurd (of_decide_eq_true hserves) (of_decide_eq_false hf)
          | skip
        next hs onward =>
        rcases hhanded with ⟨a, hfocus, hstep⟩ | ⟨payload, salvage, hfocus, hstep⟩
        · rw [hbefore, hstep]
          refine ⟨Ordered.deliver_releasing B hstacked, Or.inl ?_⟩
          simp only [stageFrom, Frame.isPass, decide_true, if_true]
          refine Eq.trans ?_ (stage_releasing hs (a.handles B.held ++ hs) onward).symm
          simp [stage, Machine.deliver, stageFrom, Frame.isPass]
        · rw [hstep]
          refine ⟨Ordered.unwind_releasing B hstacked, Or.inr ⟨?_, ?_, ?_⟩⟩
          · refine realm_eq ?_ ?_ ?_
            · cases onward <;> rfl
            · rw [hcontrol]
              cases onward <;> rfl
            · cases onward <;> exact fun _ => rfl
          · rw [hbefore]
            simp only [stageFrom, Frame.isPass, decide_true, if_true]
            cases onward <;> rintro ⟨⟩
          · cases onward <;> simp [Machine.unwindFrame, stage, Machine.unwind, stageFrom,
              Frame.isPass, Above.stage]
      | false =>
        refine ⟨?_, Or.inl ?_⟩
        · cases hexpects : expectsStep p rest with
          | false => exact .of_free hstacked.2.2 hpass hexpects hsuffix hwork'
          | true =>
            rcases hhanded with ⟨a, hfocus, hstep⟩ | ⟨payload, salvage, hfocus, hstep⟩
            · rw [hstep]
              have hsuits := hord.suits
              rw [hfocus, hcontrol] at hsuits
              exact Ordered.deliver (m := { m with control := rest }) B hstacked hsuits hexpects hf
            · rw [hstep]
              exact Ordered.unwindFrame (m := { m with control := rest }) B hstacked hexpects
        · rw [hbefore, stage, hX]
          exact stageFrom_append hpass hnone _ _

/-! ### Moves of the pass itself -/

/-- After a move the scheduler is still there and in order, and this is what has
    been done to it. -/
def There (p : Nat) (x : Status C) (n : Machine C R) : Prop :=
  ∃ s, n.scheduler? p = some s ∧ n.Ordered p ∧ (n.stage p).Agrees s ∧
    Stride p x ⟨n.stage p, s, (n.realm p).captures⟩

/-- The stage agrees with the pace alone. -/
theorem Agrees.congr {σ : PassStage C} {s s' : Scheduler C} (h : σ.Agrees s)
    (hpace : s'.pace = s.pace) : σ.Agrees s' := by
  have hrunning : s'.running = s.running := congrArg Prod.fst hpace
  cases σ <;> first
    | exact hpace.trans h
    | exact hrunning.trans h

/-- What is done to a scheduler beside its work. -/
theorem turn_of_moves {s s' : Scheduler C} (hs : m.scheduler? p = some s)
    (hs' : n.scheduler? p = some s')
    (hmoves : Moves p (m.Escapes p) m.Pops (m.realm p) (n.realm p))
    (hpop : ∀ f, m.Pops f → f.attends p = false)
    (hframes : (n.realm p).frames = (m.realm p).frames) (hpace : s'.pace = s.pace)
    (σ : PassStage C) :
    Stride p ⟨σ, s, (m.realm p).captures⟩ ⟨σ, s', (n.realm p).captures⟩ := by
  obtain ⟨top, top', below, hx, hy, hpopped, hact⟩ := hmoves
  have htop : top = [] := by
    cases top with
    | nil => rfl
    | cons f top =>
      have hf : f ∈ (m.realm p).frames := hx ▸ List.mem_cons_self ..
      have hof := Frame.attends_of_of (List.mem_filter.mp hf).2
      rw [hpop f (hpopped f (List.mem_cons_self ..))] at hof
      cases hof
  subst htop
  have htop' : top' = [] := by
    rw [hx, hy, List.nil_append] at hframes
    exact List.append_left_eq_self.mp hframes
  subst htop'
  have hsched : (m.realm p).scheduler = some s := hs
  have hsched' : (n.realm p).scheduler = some s' := hs'
  rw [hsched, hsched'] at hact
  generalize (m.realm p).captures = t at hact ⊢
  generalize (n.realm p).captures = t' at hact ⊢
  cases hact with
  | still => exact .still _
  | note _ _ unhandled => exact .note σ s t unhandled
  | sweep =>
    refine .sweep (Or.inr ?_) (Or.inl rfl) t
    exact (congrArg Prod.snd hpace).symm
  | queue h k v => exact .queue h k v t
  | reinstate hk hids hlive v => exact .reinstate hk hids hlive v
  | claim hk hgone => exact .claim hk hgone
  | plant hk h v => exact .plant hk h v
  | plantNothing hk hnone hgone v => exact .plantNothing hk hnone hgone v
  | unclaim _ hk hids => exact .unclaim s hk hids
  | forget _ hk hnone => exact .forget s hk hnone

/-- A pass that has just been put above frames that are about something else. -/
theorem Ordered.of_pass {L : List (Frame C R)} {hs : List Handle} {onward : Onward C R}
    (hcontrol : n.control = .pass p :: L) (hfree : ∀ g ∈ L, g.of p = false)
    (hfocus : n.focus = .release hs onward) (hhands : onward.hands = true) : n.Ordered p := by
  constructor
  · rw [hcontrol]
    exact ⟨.of_free (free_of_none hfree).1 (free_of_none hfree).2 _, fun _ => hfree, .of_none hfree⟩
  · rw [hcontrol, hfocus]
    exact ⟨fun _ => hhands, by rintro ⟨⟩⟩

/-- A frame at work directly above its pass. -/
theorem Ordered.of_working {f : Frame C R} {L : List (Frame C R)} (hcontrol : n.control = f :: .pass p :: L)
    (hstacked : Stacked p (.pass p :: L)) (hserves : (Above.frame f).servesPass p = true)
    (hfits : f.fits p (.pass p :: L)) (hpass : f.isPass p = false)
    (hstep : expectsStep p n.control = true → (Above.focus n.focus).servesStep = true) :
    n.Ordered p := by
  constructor
  · rw [hcontrol]
    exact ⟨⟨fun _ => hserves, by rintro ⟨⟩⟩, hfits, hstacked⟩
  · refine ⟨fun h => ?_, hstep⟩
    rw [hcontrol] at h
    exact absurd (hpass.symm.trans h) (by simp)

theorem There.of_realm {x : Status C} {s : Scheduler C} {σ : PassStage C}
    (hs : n.scheduler? p = some s) (hord : n.Ordered p) (hstage : n.stage p = σ)
    (hagrees : σ.Agrees s) (hturn : Stride p x ⟨σ, s, (n.realm p).captures⟩) : There p x n := by
  subst hstage
  exact ⟨s, hs, hord, hagrees, hturn⟩

/-- The captures do not depend on the scheduler. -/
theorem captures_onScheduler (m : Machine C R) (q : Nat) (f : Scheduler C → Scheduler C) :
    ((m.onScheduler q f).realm p).captures = (m.realm p).captures := by
  simp only [realm, snapshots_onScheduler]

theorem captures_retain (m : Machine C R) (hs : List Handle) :
    ((m.retain hs).realm p).captures = (m.realm p).captures :=
  congrArg Realm.captures (realm_retain m hs)

section Work

variable {s : Scheduler C} {L : List (Frame C R)} {hs : List Handle}

theorem there_passHead (hs : m.scheduler? p = some s) (hfree : ∀ g ∈ m.control, g.of p = false)
    (hpace : s.pace = (true, none)) :
    There p ⟨.head, s, (m.realm p).captures⟩ (m.passHead p) := by
  cases hpick : s.pick with
  | mk picked s' =>
    have hpicked := Scheduler.pace_pickFrom s.stack s
    rw [← Scheduler.pick, hpick] at hpicked
    unfold passHead
    simp only [hs, hpick]
    cases picked with
    | none =>
      have hfound := scheduler?_onScheduler_some hs fun _ =>
        { s' with register := .unit }.leave m.panicking
      refine .of_realm hfound (.of_none hfree) (stageFrom_of_none hfree _) ?_ ?_
      · refine Prod.ext (Scheduler.running_leave _ _) (Scheduler.current_leave _ _ ?_)
        exact hpicked.2.trans (congrArg Prod.snd hpace)
      · show Stride p _ ⟨.idle, _, ((m.onScheduler p _).realm p).captures⟩
        rw [captures_onScheduler]
        exact .leave hpick m.panicking _
    | some next =>
      obtain ⟨id, script⟩ := next
      have hfound := scheduler?_onScheduler_some hs fun _ => { s' with register := .unit }
      refine .of_realm hfound ?_ ?_ ?_ ?_ (σ := .stepping id)
      · refine .of_working (f := .stepping p id) (L := m.control) rfl ?_ (decide_eq_true rfl) ?_ rfl
          fun _ => rfl
        · exact ⟨.of_free (free_of_none hfree).1 (free_of_none hfree).2 _, fun _ => hfree,
            .of_none hfree⟩
        · exact fun _ => decide_eq_true rfl
      · simp [stage, stageFrom, Frame.isPass, Above.stage]
      · exact Prod.ext (hpicked.1.trans (congrArg Prod.fst hpace)) hpicked.2
      · show Stride p _ ⟨.stepping id, _, ((m.onScheduler p _).realm p).captures⟩
        rw [captures_onScheduler]
        exact .pick hpick _

/-- A step has come to its end: what is next is a sweep. -/
theorem there_endStep {x : Status C} {s' : Scheduler C} (hcontrol : n.control = .pass p :: L)
    (hstacked : Stacked p (.pass p :: L)) (hs' : n.scheduler? p = some s')
    (hrunning : s'.running = true) (dropped : List Handle)
    (hturn : Stride p x ⟨.sweeping, s', (n.realm p).captures⟩) : There p x (n.endStep p dropped) := by
  refine .of_realm (s := s') (σ := .sweeping) hs' ?_ ?_ hrunning hturn
  · refine .of_working (f := .sweeping p) (L := L) ?_ hstacked (decide_eq_true rfl) ?_ rfl ?_
    · simp [endStep, hcontrol]
    · exact fun _ => Or.inl (decide_eq_true rfl)
    · simp [endStep, expectsStep]
  · simp [stage, endStep, hcontrol, stageFrom, Frame.isPass, Above.stage]

/-- The script of a child is to be built. -/
theorem there_building {x : Status C} {s' : Scheduler C} (hcontrol : n.control = .pass p :: L)
    (hstacked : Stacked p (.pass p :: L)) (hs' : n.scheduler? p = some s') {id : RoutineId}
    (hpace : s'.pace = (true, some id)) (origin : Origin) (code : C) (entry : Entry)
    (hturn : Stride p x ⟨.building id, s', (n.realm p).captures⟩) :
    There p x ((n.push (.building p id origin)).begin code entry) := by
  have hcontrol' : ((n.push (.building p id origin)).begin code entry).control =
      .building p id origin :: .pass p :: L := by simp [hcontrol]
  refine .of_realm (s := s') (σ := .building id) hs' ?_ ?_ hpace hturn
  · refine .of_working hcontrol' hstacked (decide_eq_true rfl) ?_ rfl ?_
    · exact fun _ => decide_eq_true rfl
    · rw [hcontrol']
      rintro ⟨⟩
  · rw [stage, hcontrol']
    simp [stageFrom, Frame.isPass, Above.stage]

theorem there_concludeStep (hcontrol : m.control = .pass p :: L) (hstacked : Stacked p (.pass p :: L))
    (hs : m.scheduler? p = some s) {id : RoutineId} (hpace : s.pace = (true, some id))
    (script : Script C) (o : Outcome Value) :
    There p ⟨.stepping id, s, (m.realm p).captures⟩ (m.concludeStep p id script o) := by
  unfold concludeStep
  have hfound := scheduler?_onScheduler_some ((scheduler?_retain m
    (if ((m.scheduler? p).map fun s => s.keepsResult id).getD false then o.handles else []) p).trans hs)
    fun s => s.conclude id script o
  refine there_endStep (n := (m.retain _).onScheduler p fun s => s.conclude id script o) (L := L) hcontrol hstacked hfound ?_ _ ?_
  · exact (congrArg Prod.fst (Scheduler.pace_of_badge (Scheduler.badge_conclude s id script o))).trans (congrArg Prod.fst hpace)
  · rw [captures_onScheduler, captures_retain]
    exact .conclude s id script o _

theorem there_startChild (hcontrol : m.control = .pass p :: L) (hstacked : Stacked p (.pass p :: L))
    (hs : m.scheduler? p = some s) {id : RoutineId} (hpace : s.pace = (true, some id))
    (origin : Origin) (script : Script C) :
    There p ⟨.building id, s, (m.realm p).captures⟩ (m.startChild p id origin script) := by
  unfold startChild
  have hfound := scheduler?_onScheduler_some hs fun s => s.scheduleChild origin script id
  refine there_endStep (n := m.onScheduler p fun s => s.scheduleChild origin script id) (L := L) hcontrol hstacked hfound ?_ _ ?_
  · exact (congrArg Prod.fst (Scheduler.pace_of_badge (Scheduler.badge_scheduleChild s origin script id))).trans
      (congrArg Prod.fst hpace)
  · rw [captures_onScheduler]
    exact .build s id origin script _

/-- The last lifted frame has been copied, and the handler is called. -/
theorem there_captured {x : Status C} (hcontrol : m.control = .pass p :: L)
    (hstacked : Stacked p (.pass p :: L)) (hs : m.scheduler? p = some s) {id : RoutineId}
    (hpace : s.pace = (true, some id)) (handler : C) (frames : List (Lifted C))
    (copies : List (Script C))
    (hturn : Stride p x ⟨.building id, (s.giveBackAll frames).told,
      Function.update (m.realm p).captures m.store.snapshots.cells.size
        (some (.of p frames copies))⟩) :
    There p x (m.captureNext p id handler frames copies []) := by
  have hfound := scheduler?_onScheduler_some hs fun s => s.giveBackAll frames
  have hrealm := realm_captureNext_nil (p := p) m p id handler frames copies
  rw [if_pos rfl] at hrealm
  have hcaptures := congrArg Realm.captures hrealm
  refine there_building (n := (m.onScheduler p fun s => s.giveBackAll frames).withStore fun st =>
    { st with snapshots := ((m.onScheduler p fun s => s.giveBackAll frames).store.snapshots.alloc 1
      (.of p frames copies)).2 }) (L := L) hcontrol hstacked hfound ?_ .shift handler _ ?_
  · exact (Scheduler.pace_of_badge (Scheduler.badge_giveBackAll frames s)).trans hpace
  · have hsame : (((m.onScheduler p fun s => s.giveBackAll frames).withStore fun st =>
        { st with snapshots := ((m.onScheduler p fun s =>
          s.giveBackAll frames).store.snapshots.alloc 1 (.of p frames copies)).2 }).realm p).captures =
        ((m.captureNext p id handler frames copies []).realm p).captures := rfl
    rw [hsame, hcaptures]
    exact hturn

/-- There are frames left to copy. -/
theorem there_copying {x : Status C} (hcontrol : m.control = .pass p :: L)
    (hstacked : Stacked p (.pass p :: L)) (hs : m.scheduler? p = some s) {id : RoutineId}
    (hpace : s.pace = (true, some id)) (handler : C) (frames : List (Lifted C))
    (copies : List (Script C)) (frame : Lifted C) (left : List (Lifted C))
    (hturn : Stride p x ⟨.capturing id frames, s, (m.realm p).captures⟩) :
    There p x (m.captureNext p id handler frames copies (frame :: left)) := by
  have hcontrol' : (m.captureNext p id handler frames copies (frame :: left)).control =
      .capturing p id handler frames copies left :: .pass p :: L := by simp [captureNext, hcontrol]
  refine .of_realm (s := s) (σ := .capturing id frames) hs ?_ ?_ hpace hturn
  · refine .of_working hcontrol' hstacked (decide_eq_true rfl) ?_ rfl ?_
    · exact fun _ => decide_eq_true rfl
    · rw [hcontrol']
      rintro ⟨⟩
  · rw [stage, hcontrol']
    simp [stageFrom, Frame.isPass, Above.stage]

theorem there_obey (hcontrol : m.control = .pass p :: L) (hstacked : Stacked p (.pass p :: L))
    (hs : m.scheduler? p = some s) {id : RoutineId} (hpace : s.pace = (true, some id))
    (script : Script C) (i : Instruction C) :
    There p ⟨.stepping id, s, (m.realm p).captures⟩ (m.obey p id script i) := by
  have hsuspend : ∀ dropped, There p ⟨.stepping id, s, (m.realm p).captures⟩
      ((m.onScheduler p fun s => s.suspend id script).endStep p dropped) := by
    intro dropped
    have hfound := scheduler?_onScheduler_some hs fun s => s.suspend id script
    refine there_endStep (n := m.onScheduler p fun s => s.suspend id script) (L := L) hcontrol hstacked hfound ?_ _ ?_
    · exact (congrArg Prod.fst (Scheduler.pace_of_badge (Scheduler.badge_suspend s id script))).trans (congrArg Prod.fst hpace)
    · rw [captures_onScheduler]
      exact .suspend s id script _
  have hshelved := (Scheduler.pace_of_badge (Scheduler.badge_shelve s id script)).trans hpace
  cases i with
  | reset block =>
    have hfound := scheduler?_onScheduler_some hs fun s => (s.shelve id script).push .boundary
    refine there_building (n := m.onScheduler p fun s => (s.shelve id script).push .boundary)
      (L := L) hcontrol hstacked hfound hshelved .reset block .begin ?_
    rw [captures_onScheduler]
    exact .reset s id script _
  | shift handler =>
    obtain ⟨⟨frames, s'⟩, hlift⟩ : ∃ out, (s.shelve id script).lift = out := ⟨_, rfl⟩
    have hlifted := Scheduler.pace_of_badge (Scheduler.badge_lift (s.shelve id script))
    rw [hlift] at hlifted
    have hfound := scheduler?_onScheduler_some hs fun _ => s'
    simp only [obey, hs, hlift]
    cases frames with
    | nil =>
      refine there_captured (m := m.onScheduler p fun _ => s') (L := L) hcontrol hstacked hfound
        (hlifted.trans hshelved) handler [] [] ?_
      rw [captures_onScheduler, snapshots_onScheduler]
      exact (Stride.liftNothing hlift (captures_fresh m) : Stride p _ ⟨_, s'.told, _⟩)
    | cons frame left =>
      refine there_copying (m := m.onScheduler p fun _ => s') (L := L) hcontrol hstacked hfound
        (hlifted.trans hshelved) handler (frame :: left) [] frame left ?_
      rw [captures_onScheduler]
      exact .lift hlift _
  | suspend => exact hsuspend []
  | await c => exact hsuspend [.completion c]
  | splice nested =>
    have hfound := scheduler?_onScheduler_some
      (scheduler?_onScheduler_some hs fun s => s.shelve id script)
      fun s => s.scheduleChild .splice nested id
    refine there_endStep (n := (m.onScheduler p fun s => s.shelve id script).onScheduler p
      fun s => s.scheduleChild .splice nested id) (L := L) hcontrol hstacked hfound ?_ _ ?_
    · refine (congrArg Prod.fst (Scheduler.pace_of_badge (Scheduler.badge_scheduleChild _ .splice nested id))).trans ?_
      exact congrArg Prod.fst hshelved
    · rw [captures_onScheduler, captures_onScheduler]
      exact .splice s id script nested _

theorem there_routineStepped (hcontrol : m.control = .pass p :: L)
    (hstacked : Stacked p (.pass p :: L)) (hs : m.scheduler? p = some s) {id : RoutineId}
    (hpace : s.pace = (true, some id)) (script : Script C) (step : Step C) :
    There p ⟨.stepping id, s, (m.realm p).captures⟩ (m.routineStepped p id script step) := by
  cases step with
  | done o => exact there_concludeStep hcontrol hstacked hs hpace script o
  | yield i => exact there_obey hcontrol hstacked hs hpace script i

/-- A panic comes out of what a pass was busy with. -/
theorem there_failed {σ : PassStage C} (hcontrol : n.control = .pass p :: L)
    (hstacked : Stacked p (.pass p :: L)) (hs : n.scheduler? p = some s) (hσ : σ ≠ .idle)
    (hrunning : s.running = true) {payload : Payload} {salvage : Option (Script C)}
    {dropped : List Handle} (hfocus : n.focus = .release dropped (.unwind payload salvage)) :
    There p ⟨σ, s, (n.realm p).captures⟩ n := by
  refine .of_realm (σ := .leaving) hs ⟨hcontrol ▸ hstacked, hfocus ▸ .unwinding _ _ _⟩ ?_ hrunning
    (.fail hσ s _)
  rw [stage, hcontrol, hfocus]
  simp [stageFrom, Frame.isPass, Above.stage]

theorem there_sweep {B : Behavior C R} {σ : PassStage C} (hs : m.scheduler? p = some s)
    (hstacked : Stacked p m.control) (hagrees : σ.Agrees s)
    (hbusy : σ = .idle ∧ (∀ g ∈ m.control, g.of p = false) ∨
      σ = .sweeping ∧ startsPass p m.control = true) :
    There p ⟨σ, s, (m.realm p).captures⟩ (m.sweep B.held p) := by
  have hfound := scheduler?_onScheduler_some hs fun _ =>
    { s.freeUnclaimed.2 with current := none, retired := [] }
  have hrunning : s.freeUnclaimed.2.running = s.running :=
    congrArg Prod.fst (Scheduler.pace_freeUnclaimed s)
  have hcurrent : σ = .sweeping ∨ s.current = none := by
    rcases hbusy with ⟨rfl, -⟩ | ⟨rfl, -⟩
    · exact Or.inr (congrArg Prod.snd hagrees)
    · exact Or.inl rfl
  unfold sweep
  simp only [hs]
  split
  · -- nothing was left to do
    rcases hbusy with ⟨rfl, hfree⟩ | ⟨rfl, hpass⟩
    · refine .of_realm (σ := .idle) hfound (.of_none hfree) (stageFrom_of_none hfree _) ?_ ?_
      · exact Prod.ext (hrunning.trans (congrArg Prod.fst hagrees)) rfl
      · show Stride p _ ⟨.idle, _, ((m.onScheduler p _).realm p).captures⟩
        rw [captures_onScheduler]
        exact .sweep hcurrent (Or.inl rfl) _
    · obtain ⟨L, hL⟩ := startsPass_eq hpass
      refine .of_realm (σ := .head) hfound ⟨hstacked, ⟨fun _ => rfl, ?_⟩⟩ ?_ ?_ ?_
      · rw [control_give, control_onScheduler, hL]
        rintro ⟨⟩
      · rw [stage, control_give, control_onScheduler, hL]
        simp [stageFrom, Frame.isPass, Above.stage, give]
      · exact Prod.ext (hrunning.trans hagrees) rfl
      · show Stride p _ ⟨.head, _, ((m.onScheduler p _).realm p).captures⟩
        rw [captures_onScheduler]
        exact .sweep hcurrent (Or.inr ⟨rfl, rfl⟩) _
  · rcases hbusy with ⟨rfl, hfree⟩ | ⟨rfl, hpass⟩
    · have hfree' : ∀ g ∈ (.sweeping p :: m.control : List (Frame C R)), g.of p = false :=
        List.forall_mem_cons.mpr ⟨rfl, hfree⟩
      refine .of_realm (σ := .idle) hfound (.of_none hfree') (stageFrom_of_none hfree' _) ?_ ?_
      · exact Prod.ext (hrunning.trans (congrArg Prod.fst hagrees)) rfl
      · show Stride p _ ⟨.idle, _, ((m.onScheduler p _).realm p).captures⟩
        rw [captures_onScheduler]
        exact .sweep hcurrent (Or.inl rfl) _
    · obtain ⟨L, hL⟩ := startsPass_eq hpass
      refine there_endStep (n := m.onScheduler p fun _ =>
        { s.freeUnclaimed.2 with current := none, retired := [] }) (L := L) hL (hL ▸ hstacked)
        hfound (hrunning.trans hagrees) _ ?_
      rw [captures_onScheduler]
      exact .sweep hcurrent (Or.inl rfl) _

theorem there_openRoot (hs : m.scheduler? p = some s) (hfree : ∀ g ∈ m.control, g.of p = false)
    (hpace : s.pace = (false, none)) (settler : Option Nat) (script : Script C) :
    There p ⟨.idle, s, (m.realm p).captures⟩ (m.openRoot p settler script) := by
  have hroot : ∀ (script : Script C) (L : List (Frame C R)) (n : Machine C R),
      (∀ g ∈ L, g.of p = false) → n.control = .pass p :: L →
      n.store = ((m.onScheduler p fun s => s.scheduleRoot script).onScheduler p fun s =>
        { s with running := true }).store →
      (∃ dropped, n.focus = .release dropped (.give .nothing)) →
      There p ⟨.idle, s, (m.realm p).captures⟩ n := by
    rintro script L n hL hcontrol hstore ⟨dropped, hfocus⟩
    have hfound := scheduler?_onScheduler_some
      (scheduler?_onScheduler_some hs fun s => s.scheduleRoot script)
      fun s => { s with running := true }
    have hfound' := (congrArg (fun st : Store C => st.schedulers.find? p) hstore).trans hfound
    refine .of_realm (σ := .head) hfound' (.of_pass hcontrol hL hfocus rfl) ?_ ?_ ?_
    · rw [stage, hcontrol, hfocus]
      simp [stageFrom, Frame.isPass, Above.stage]
    · refine Prod.ext rfl ?_
      have hnone : s.current = none := congrArg Prod.snd hpace
      exact hnone
    · have hcaptures : (n.realm p).captures = (m.realm p).captures := by
        rw [← captures_onScheduler m p fun s => s.scheduleRoot script,
          ← captures_onScheduler (m.onScheduler p fun s => s.scheduleRoot script) p
            fun s => { s with running := true }]
        exact congrArg (fun (st : Store C) k =>
          (st.snapshots.find? k).filter fun snapshot => decide (snapshot.home = p)) hstore
      rw [hcaptures]
      exact .root s script _
  cases settler with
  | none => exact hroot script m.control _ hfree rfl rfl ⟨_, rfl⟩
  | some c =>
    exact hroot (.root script c) (.firstPass p :: m.control) _
      (List.forall_mem_cons.mpr ⟨rfl, hfree⟩) rfl rfl ⟨_, rfl⟩

theorem there_abandoned (hs : m.scheduler? p = some s) (hfree : ∀ g ∈ m.control, g.of p = false)
    (dropped : List Handle) (payload : Payload) :
    There p ⟨.leaving, s, (m.realm p).captures⟩
      ((m.onScheduler p fun s => s.leave true).unwind dropped payload none) := by
  have hfound := scheduler?_onScheduler_some hs fun s => s.leave true
  refine .of_realm (σ := .idle) hfound (.of_none hfree) (stageFrom_of_none hfree _) ?_ ?_
  · exact Prod.ext (Scheduler.running_leave s true)
      (congrArg Prod.snd (Scheduler.pace_of_badge (Scheduler.badge_frees _ _)))
  · show Stride p _ ⟨.idle, _, ((m.onScheduler p _).realm p).captures⟩
    rw [captures_onScheduler]
    exact .abandon s _

end Work

/-! ### Every move -/

theorem none_of_duties (hfree : ∀ g ∈ m.control, g.of p = false) {f : Frame C R}
    (hf : f.of p = false) (hwork : n.duties p = f :: m.duties p) : ∀ g ∈ n.control, g.of p = false := by
  intro g hg
  cases hof : g.of p with
  | false => rfl
  | true =>
    have hmem : g ∈ n.duties p := List.mem_filter.mpr ⟨hg, Frame.attends_of_of hof⟩
    rw [hwork] at hmem
    rcases List.mem_cons.mp hmem with rfl | hmem
    · exact hof.symm.trans hf
    · exact hof.symm.trans (hfree g (List.mem_filter.mp hmem).1)

theorem none_of_same_duties (hfree : ∀ g ∈ m.control, g.of p = false)
    (hwork : n.duties p = m.duties p) : ∀ g ∈ n.control, g.of p = false := by
  intro g hg
  cases hof : g.of p with
  | false => rfl
  | true =>
    have hmem : g ∈ n.duties p := List.mem_filter.mpr ⟨hg, Frame.attends_of_of hof⟩
    rw [hwork] at hmem
    exact hof.symm.trans (hfree g (List.mem_filter.mp hmem).1)

theorem frames_of_duties (hwork : n.duties p = m.duties p) :
    (n.realm p).frames = (m.realm p).frames := by
  have hsub : ∀ L : List (Frame C R), L.filter (Frame.of p) =
      (L.filter (Frame.attends p)).filter (Frame.of p) := by
    intro L
    rw [List.filter_filter]
    refine List.filter_congr fun f _ => ?_
    cases hof : f.of p with
    | false => rfl
    | true => rw [Frame.attends_of_of hof]; rfl
  show n.control.filter (Frame.of p) = m.control.filter (Frame.of p)
  rw [hsub n.control, hsub m.control]
  exact congrArg _ hwork

/-- Nothing of a scheduler that is not running is on the control stack. -/
theorem Agrees.none_of_idle {s : Scheduler C} (hord : m.Ordered p)
    (hagrees : (m.stage p).Agrees s) (hidle : s.running = false) :
    m.stage p = .idle ∧ ∀ g ∈ m.control, g.of p = false := by
  have hstage : m.stage p = .idle := by
    cases hσ : m.stage p with
    | idle => rfl
    | sweeping | leaving =>
      rw [hσ] at hagrees
      exact absurd (hidle.symm.trans hagrees) (by simp)
    | head | stepping | building | capturing =>
      rw [hσ] at hagrees
      exact absurd (hidle.symm.trans (congrArg Prod.fst hagrees)) (by simp)
  exact ⟨hstage, none_of_stageFrom hord.stacked hstage⟩

/-- A move beside the work of a scheduler. -/
theorem there_beside {s : Scheduler C} (hs : m.scheduler? p = some s) (hord : m.Ordered p)
    (hagrees : (m.stage p).Agrees s) (hpop : ∀ f, m.Pops f → f.attends p = false) :
    (m.step B).scheduler? p = none ∨
      There p ⟨m.stage p, s, (m.realm p).captures⟩ (m.step B) := by
  have hmoves := moves_step (p := p) m B
  have hrunning : m.isRunning (.scheduler p) = s.running := by simp [isRunning, hs]
  cases quiet_step (B := B) hpop with
  | steady work pace =>
    rw [hs] at pace
    obtain ⟨s', hs', hpace⟩ := Option.map_eq_some_iff.mp pace
    obtain ⟨hord', hstage | ⟨hrealm, hidle, hstage⟩⟩ := hord.step_beside hpop work
    · refine Or.inr (.of_realm hs' hord' hstage (Agrees.congr hagrees hpace) ?_)
      exact turn_of_moves hs hs' hmoves hpop (frames_of_duties work) hpace _
    · have hsame : s' = s := by
        have := congrArg Realm.scheduler hrealm
        exact Option.some.inj (hs'.symm.trans (this.trans hs))
      subst hsame
      refine Or.inr (.of_realm hs' hord' hstage ?_ ?_)
      · show s'.running = true
        cases hr : s'.running with
        | true => rfl
        | false => exact absurd (Agrees.none_of_idle hord hagrees hr).1 hidle
      · rw [hrealm]
        exact .fail hidle s' _
  | opened settler idle work same =>
    obtain ⟨hstage, hfree⟩ := Agrees.none_of_idle hord hagrees (hrunning ▸ idle)
    have hfree' := none_of_duties hfree (f := .opening p settler) rfl work
    have hs' := same.trans hs
    have hstage' : (m.step B).stage p = m.stage p := by
      rw [hstage]
      exact stageFrom_of_none hfree' _
    refine Or.inr (.of_realm hs' (.of_none hfree') hstage' hagrees ?_)
    refine turn_of_moves hs hs' hmoves hpop ?_ rfl _
    exact (List.filter_eq_nil_iff.mpr fun g hg => by simp [hfree' g hg]).trans
      (List.filter_eq_nil_iff.mpr fun g hg => by simp [hfree g hg]).symm
  | counted idle work same =>
    obtain ⟨hstage, hfree⟩ := Agrees.none_of_idle hord hagrees (hrunning ▸ idle)
    have hfree' := none_of_duties hfree (f := .sweeping p) rfl work
    have hs' := same.trans hs
    have hstage' : (m.step B).stage p = m.stage p := by
      rw [hstage]
      exact stageFrom_of_none hfree' _
    refine Or.inr (.of_realm hs' (.of_none hfree') hstage' hagrees ?_)
    refine turn_of_moves hs hs' hmoves hpop ?_ rfl _
    exact (List.filter_eq_nil_iff.mpr fun g hg => by simp [hfree' g hg]).trans
      (List.filter_eq_nil_iff.mpr fun g hg => by simp [hfree g hg]).symm
  | @reentered s₀ s' _ control found idle top beneath focus found' running current =>
    obtain rfl := Option.some.inj (found.symm.trans hs)
    obtain ⟨hstage, hfree⟩ := Agrees.none_of_idle hord hagrees idle
    have hfree' : ∀ g ∈ control, g.of p = false :=
      none_of_same_duties (n := { m with control := control }) hfree beneath
    rw [hstage] at hagrees ⊢
    refine Or.inr (.of_realm (σ := .head) found' (.of_pass top hfree' focus rfl) ?_ ?_ ?_)
    · rw [stage, top, focus]
      simp [stageFrom, Frame.isPass, Above.stage]
    · exact Prod.ext running (current.trans (congrArg Prod.snd hagrees))
    · obtain ⟨above, above', below, hx, hy, hpopped, hact⟩ := hmoves
      have hxnil : (m.realm p).frames = [] :=
        List.filter_eq_nil_iff.mpr fun g hg => by simp [hfree g hg]
      have hypass : ((m.step B).realm p).frames = [.pass p] := by
        show (m.step B).control.filter _ = _
        rw [top, List.filter_cons, if_pos (by simp [Frame.of]),
          List.filter_eq_nil_iff.mpr fun g hg => by simp [hfree' g hg]]
      rw [hxnil] at hx
      obtain ⟨rfl, rfl⟩ := List.append_eq_nil_iff.mp hx.symm
      rw [hypass, List.append_nil] at hy
      subst hy
      have hsched : (m.realm p).scheduler = some s₀ := hs
      have hsched' : ((m.step B).realm p).scheduler = some s' := found'
      rw [hsched, hsched'] at hact
      generalize (m.realm p).captures = t at hact ⊢
      generalize ((m.step B).realm p).captures = t' at hact ⊢
      cases hact with
      | root _ script => exact .root s₀ script t
      | reenter h k v => exact .reenter h k v t
  | vanished work found gone => exact Or.inl gone
  | created settings work none found => exact absurd (none.symm.trans hs) (by simp)

/-- The top frame works directly above its pass. -/
theorem stage_working {f : Frame C R} {L : List (Frame C R)} (hcontrol : m.control = f :: .pass p :: L)
    (hpass : f.isPass p = false) : m.stage p = (Above.frame f).stage := by
  rw [stage, hcontrol, stageFrom, hpass]
  simp [stageFrom, Frame.isPass]

/-- An answer for a frame with which the scheduler is at work. -/
theorem there_deliver {s : Scheduler C} {f : Frame C R} {rest : List (Frame C R)} {a : Answer C}
    (hs : m.scheduler? p = some s) (hcontrol : m.control = f :: rest)
    (hfocus : m.focus = .release [] (.give a)) (hord : m.Ordered p)
    (hagrees : (m.stage p).Agrees s) (hf : f.attends p = true) :
    There p ⟨m.stage p, s, (m.realm p).captures⟩ (({ m with control := rest }).deliver B a f) := by
  obtain ⟨hsuits, hfits, hstacked⟩ : Stacked p (f :: rest) := hcontrol ▸ hord.stacked
  have hsuits' : Suits p (.focus (.release [] (.give a))) (f :: rest) := by
    rw [← hfocus, ← hcontrol]
    exact hord.suits
  cases f with
  | pass q =>
    obtain rfl : q = p := of_decide_eq_true hf
    have hstage : m.stage q = .head := by
      rw [stage, hcontrol, hfocus]
      simp [stageFrom, Frame.isPass, Above.stage]
    rw [hstage] at hagrees ⊢
    exact there_passHead (m := { m with control := rest }) hs (hfits rfl) hagrees
  | stepping q id =>
    obtain rfl : q = p := of_decide_eq_true hf
    obtain ⟨L, rfl⟩ := startsPass_eq (hfits rfl)
    have hstage : m.stage q = .stepping id := stage_working hcontrol rfl
    rw [hstage] at hagrees ⊢
    have hstep := hsuits'.step (decide_eq_true rfl)
    cases a with
    | stepped step script =>
      exact there_routineStepped (m := { m with control := .pass q :: L }) rfl hstacked hs hagrees
        script step
    | _ => cases hstep
  | building q id origin =>
    obtain rfl : q = p := of_decide_eq_true hf
    obtain ⟨L, rfl⟩ := startsPass_eq (hfits rfl)
    have hstage : m.stage q = .building id := stage_working hcontrol rfl
    rw [hstage] at hagrees ⊢
    exact there_startChild (m := { m with control := .pass q :: L }) rfl hstacked hs hagrees origin
      a.script
  | capturing q id handler frames copies left =>
    obtain rfl : q = p := of_decide_eq_true hf
    obtain ⟨L, rfl⟩ := startsPass_eq (hfits rfl)
    have hstage : m.stage q = .capturing id frames := stage_working hcontrol rfl
    rw [hstage] at hagrees ⊢
    cases left with
    | nil =>
      exact there_captured (m := { m with control := .pass q :: L }) rfl hstacked hs hagrees handler
        frames _ (.capture s id frames _ (captures_fresh m))
    | cons frame left =>
      exact there_copying (m := { m with control := .pass q :: L }) rfl hstacked hs hagrees handler
        frames _ frame left (.still _)
  | sweeping q =>
    obtain rfl : q = p := of_decide_eq_true hf
    rcases hfits rfl with hpass | hfree
    · obtain ⟨L, rfl⟩ := startsPass_eq hpass
      have hstage : m.stage q = .sweeping := stage_working hcontrol rfl
      rw [hstage] at hagrees ⊢
      exact there_sweep (m := { m with control := .pass q :: L }) hs hstacked hagrees
        (Or.inr ⟨rfl, hpass⟩)
    · have hstage : m.stage q = .idle :=
        stageFrom_of_none (hcontrol ▸ List.forall_mem_cons.mpr ⟨rfl, hfree⟩) _
      rw [hstage] at hagrees ⊢
      exact there_sweep (m := { m with control := rest }) hs hstacked hagrees (Or.inl ⟨rfl, hfree⟩)
  | opening q settler =>
    obtain rfl : q = p := of_decide_eq_true hf
    have hstage : m.stage q = .idle :=
      stageFrom_of_none (hcontrol ▸ List.forall_mem_cons.mpr ⟨rfl, hfits rfl⟩) _
    rw [hstage] at hagrees ⊢
    exact there_openRoot (m := { m with control := rest }) hs (hfits rfl) hagrees settler a.script
  | _ => cases hf

/-- A panic for a frame with which the scheduler is at work. -/
theorem there_unwindFrame {s : Scheduler C} {f : Frame C R} {rest : List (Frame C R)}
    {payload : Payload} {salvage : Option (Script C)} (hs : m.scheduler? p = some s)
    (hcontrol : m.control = f :: rest) (hfocus : m.focus = .release [] (.unwind payload salvage))
    (hord : m.Ordered p) (hagrees : (m.stage p).Agrees s) (hf : f.attends p = true) :
    There p ⟨m.stage p, s, (m.realm p).captures⟩
      (({ m with control := rest }).unwindFrame B payload salvage f) := by
  obtain ⟨-, hfits, hstacked⟩ : Stacked p (f :: rest) := hcontrol ▸ hord.stacked
  cases f with
  | pass q =>
    obtain rfl : q = p := of_decide_eq_true hf
    have hstage : m.stage q = .leaving := by
      rw [stage, hcontrol, hfocus]
      simp [stageFrom, Frame.isPass, Above.stage]
    rw [hstage]
    exact there_abandoned (m := { m with control := rest }) hs (hfits rfl) _ payload
  | stepping q id =>
    obtain rfl : q = p := of_decide_eq_true hf
    obtain ⟨L, rfl⟩ := startsPass_eq (hfits rfl)
    have hstage : m.stage q = .stepping id := stage_working hcontrol rfl
    rw [hstage] at hagrees ⊢
    unfold unwindFrame
    dsimp only
    split
    · exact there_routineStepped (m := { m with control := .pass q :: L }) rfl hstacked hs hagrees _ _
    · exact there_failed (L := L) rfl hstacked hs (by simp) (congrArg Prod.fst hagrees) rfl
  | building q id origin =>
    obtain rfl : q = p := of_decide_eq_true hf
    obtain ⟨L, rfl⟩ := startsPass_eq (hfits rfl)
    have hstage : m.stage q = .building id := stage_working hcontrol rfl
    rw [hstage] at hagrees ⊢
    unfold unwindFrame
    dsimp only
    split
    · exact there_startChild (m := { m with control := .pass q :: L }) rfl hstacked hs hagrees origin _
    · exact there_failed (L := L) rfl hstacked hs (by simp) (congrArg Prod.fst hagrees) rfl
  | capturing q id handler frames copies left =>
    obtain rfl : q = p := of_decide_eq_true hf
    obtain ⟨L, rfl⟩ := startsPass_eq (hfits rfl)
    have hstage : m.stage q = .capturing id frames := stage_working hcontrol rfl
    rw [hstage] at hagrees ⊢
    exact there_failed (L := L) rfl hstacked hs (by simp) (congrArg Prod.fst hagrees) rfl
  | sweeping q =>
    obtain rfl : q = p := of_decide_eq_true hf
    rcases hfits rfl with hpass | hfree
    · obtain ⟨L, rfl⟩ := startsPass_eq hpass
      have hstage : m.stage q = .sweeping := stage_working hcontrol rfl
      rw [hstage] at hagrees ⊢
      exact there_failed (L := L) rfl hstacked hs (by simp) hagrees rfl
    · have hstage : m.stage q = .idle :=
        stageFrom_of_none (hcontrol ▸ List.forall_mem_cons.mpr ⟨rfl, hfree⟩) _
      rw [hstage] at hagrees ⊢
      exact .of_realm (σ := .idle) hs (.of_none hfree) (stageFrom_of_none hfree _) hagrees (.still _)
  | opening q settler =>
    obtain rfl : q = p := of_decide_eq_true hf
    have hstage : m.stage q = .idle :=
      stageFrom_of_none (hcontrol ▸ List.forall_mem_cons.mpr ⟨rfl, hfits rfl⟩) _
    rw [hstage] at hagrees ⊢
    unfold unwindFrame
    dsimp only
    split
    · exact there_openRoot (m := { m with control := rest }) hs (hfits rfl) hagrees settler _
    · exact .of_realm (σ := .idle) hs (.of_none (hfits rfl)) (stageFrom_of_none (hfits rfl) _) hagrees
        (.still _)
  | _ => cases hf

/-- What a move does to a scheduler that is there. -/
theorem there_step {s : Scheduler C} (hs : m.scheduler? p = some s) (hord : m.Ordered p)
    (hagrees : (m.stage p).Agrees s) :
    (m.step B).scheduler? p = none ∨
      There p ⟨m.stage p, s, (m.realm p).captures⟩ (m.step B) := by
  by_cases hpop : ∀ f, m.Pops f → f.attends p = false
  · exact there_beside hs hord hagrees hpop
  · obtain ⟨f, ⟨hpopping, rest, hcontrol⟩, hf⟩ : ∃ f, m.Pops f ∧ f.attends p = true := by
      simpa using hpop
    right
    rcases handed_of_pops (B := B) hpopping hcontrol with ⟨a, hfocus, hstep⟩ | ⟨payload, salvage, hfocus, hstep⟩
    · rw [hstep]
      exact there_deliver hs hcontrol hfocus hord hagrees hf
    · rw [hstep]
      exact there_unwindFrame hs hcontrol hfocus hord hagrees hf

/-- A root of a scheduler that is still to come begins a pass of nothing. -/
theorem phased_openRoot (hnone : m.scheduler? p = none) (hfree : ∀ g ∈ m.control, g.of p = false)
    (settler : Option Nat) (script : Script C) : (m.openRoot p settler script).Phased p := by
  have hdropped : m.registerHandles p = [] := by simp [registerHandles, hnone]
  have hnone' (f g : Scheduler C → Scheduler C) :
      ((m.onScheduler p f).onScheduler p g).scheduler? p = none := by
    rw [scheduler?_onScheduler, scheduler?_onScheduler, hnone]
    rfl
  cases settler with
  | none =>
    have hfocus : (m.openRoot p none script).focus = .release [] (.give .nothing) := by
      simp [openRoot, enterPass, hdropped, drop]
    exact .early (hnone' _ _) rfl hfree hfocus
  | some c =>
    have hfocus : (m.openRoot p (some c) script).focus = .release [] (.give .nothing) := by
      simp [openRoot, enterPass, hdropped, drop]
    exact .early (hnone' _ _) rfl (List.forall_mem_cons.mpr ⟨rfl, hfree⟩) hfocus

/-- A move while a scheduler is still to come. -/
theorem phased_step_unborn (hnone : m.scheduler? p = none) (hfree : ∀ g ∈ m.control, g.of p = false) :
    (m.step B).Phased p := by
  by_cases hpop : ∀ f, m.Pops f → f.attends p = false
  · cases quiet_step (B := B) hpop with
    | steady work pace =>
      rw [hnone] at pace
      exact .unborn (Option.map_eq_none_iff.mp pace) (none_of_same_duties hfree work)
    | opened settler idle work same =>
      exact .unborn (same.trans hnone) (none_of_duties hfree (f := .opening p settler) rfl work)
    | counted idle work same =>
      exact .unborn (same.trans hnone) (none_of_duties hfree (f := .sweeping p) rfl work)
    | reentered found => exact absurd (hnone.symm.trans found) (by simp)
    | vanished work found =>
      obtain ⟨s, hs⟩ := found
      exact absurd (hnone.symm.trans hs) (by simp)
    | created settings work none found =>
      have hfree' := none_of_same_duties hfree work
      have hstage : (m.step B).stage p = .idle := stageFrom_of_none hfree' _
      exact .there found (.of_none hfree') (hstage ▸ rfl)
  · obtain ⟨f, ⟨hpopping, rest, hcontrol⟩, hf⟩ : ∃ f, m.Pops f ∧ f.attends p = true := by
      simpa using hpop
    rw [hcontrol] at hfree
    obtain ⟨hof, hrest⟩ := List.forall_mem_cons.mp hfree
    rcases handed_of_pops (B := B) hpopping hcontrol with ⟨a, -, hstep⟩ | ⟨payload, salvage, -, hstep⟩
    · rw [hstep]
      cases f <;> first
        | cases hf
        | exact absurd (hof.symm.trans hf) (by simp)
        | skip
      · next q =>
        obtain rfl : q = p := of_decide_eq_true hf
        have hsame : ({ m with control := rest } : Machine C R).deliver B a (.sweeping q) =
            ({ m with control := rest } : Machine C R).give .nothing := by
          have hnone' : ({ m with control := rest } : Machine C R).scheduler? q = none := hnone
          simp [deliver, sweep, hnone']
        rw [hsame]
        exact .unborn hnone hrest
      · next q settler =>
        obtain rfl : q = p := of_decide_eq_true hf
        exact phased_openRoot (m := { m with control := rest }) hnone hrest settler a.script
    · rw [hstep]
      cases f <;> first
        | cases hf
        | exact absurd (hof.symm.trans hf) (by simp)
        | skip
      · exact .unborn hnone hrest
      · next q settler =>
        obtain rfl : q = p := of_decide_eq_true hf
        unfold unwindFrame
        dsimp only
        split
        · exact phased_openRoot (m := { m with control := rest }) hnone hrest settler _
        · exact .unborn hnone hrest

theorem Phased.step (h : m.Phased p) (B : Behavior C R) : (m.step B).Phased p := by
  have hedited := edited_step m B
  cases h with
  | gone none old =>
    refine .gone ?_ (Nat.lt_of_lt_of_le old hedited.size)
    rw [Option.eq_none_iff_forall_ne_some]
    intro s' hs'
    rcases hedited.edits hs' with ⟨s, hs, -⟩ | ⟨hle, -⟩
    · exact absurd (none.symm.trans hs) (by simp)
    · exact Nat.not_lt_of_le hle old
  | unborn none free => exact phased_step_unborn none free
  | @early control none top free focus =>
    have hstep : m.step B = ({ m with control } : Machine C R).passHead p := by
      simp only [Machine.step, focus, goOn, top, deliver]
    have hpass : ({ m with control } : Machine C R).passHead p =
        ({ m with control } : Machine C R).give .nothing := by
      have hnone : ({ m with control } : Machine C R).scheduler? p = .none := none
      simp only [passHead, hnone]
    rw [hpass] at hstep
    rw [hstep]
    exact .unborn none free
  | there found ordered agrees =>
    rcases there_step (B := B) found ordered agrees with hnone | ⟨s', hs', hord', hagrees', -⟩
    · exact .gone hnone (Nat.lt_of_lt_of_le (Table.lt_size_of_find? found) hedited.size)
    · exact .there hs' hord' hagrees'

/-- Between operations, nothing is under way. -/
theorem Phased.anew (h : m.Phased p) (halted : m.control = []) (events : List Event)
    (focus : Focus C R) : Phased p ⟨{ m.store with events }, [], focus⟩ := by
  cases h with
  | gone none old => exact .gone none old
  | unborn none => exact .unborn none (by rintro _ ⟨⟩)
  | early none => exact .unborn none (by rintro _ ⟨⟩)
  | there found ordered agrees =>
    have hstage : m.stage p = .idle := by simp [stage, halted, stageFrom]
    rw [hstage] at agrees
    exact .there found (.of_none (by rintro _ ⟨⟩)) agrees

theorem Later.phased (h : Later B m n) (hm : m.Phased p) : n.Phased p := by
  induction h with
  | refl => exact hm
  | step _ ih => exact ih.step B
  | anew _ halted events focus ih => exact ih.anew halted events focus

theorem Reachable.phased (h : Reachable B m) (p : Nat) : m.Phased p := by
  obtain ⟨focus, hm⟩ := h
  refine hm.phased (.unborn ?_ (by rintro _ ⟨⟩))
  simp [scheduler?, Store.empty, Table.empty, Table.find?, Table.cell?]

/-- A scheduler of a reachable machine and the stage it shows. -/
theorem Reachable.ordered {s : Scheduler C} (h : Reachable B m) (hs : m.scheduler? p = some s) :
    m.Ordered p ∧ (m.stage p).Agrees s := by
  cases h.phased p with
  | there found ordered agrees => exact ⟨ordered, Option.some.inj (found.symm.trans hs) ▸ agrees⟩
  | gone none => exact absurd (none.symm.trans hs) (by simp)
  | unborn none => exact absurd (none.symm.trans hs) (by simp)
  | early none => exact absurd (none.symm.trans hs) (by simp)

/-- What is done to a scheduler by a move of a reachable machine. -/
theorem Reachable.stride (h : Reachable B m) {s s' : Scheduler C} (hs : m.scheduler? p = some s)
    (hs' : (m.step B).scheduler? p = some s') :
    Stride p ⟨m.stage p, s, (m.realm p).captures⟩
      ⟨(m.step B).stage p, s', ((m.step B).realm p).captures⟩ := by
  obtain ⟨hord, hagrees⟩ := h.ordered hs
  rcases there_step (B := B) hs hord hagrees with hnone | ⟨t, ht, -, -, hturn⟩
  · exact absurd (hnone.symm.trans hs') (by simp)
  · exact Option.some.inj (ht.symm.trans hs') ▸ hturn

end Machine

end Strand
