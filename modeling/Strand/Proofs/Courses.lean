import Strand.Proofs.Cancellation
import Strand.Proofs.Handlers
import Strand.Proofs.Reinstatement

/-! # Courses — what scripts come to when they are run in sequence

    `Conduct` is a program without its scheduler: what a script does when it is
    fed and what a block builds, given everything that has been fed so far.
    `Runs` is direct sequential evaluation of such a program. A child's outcome
    is fed to its parent, and a handler that resumes at once hands its value
    straight back.

    A scheduler that has such a program comes to the same
    (`Runs.finishes`). Meanwhile

    * the routine that is stepped has what was on the stack beneath it;
    * a handler that has resumed sleeps under the routine that shifted, until that
      finishes;
    * nothing becomes of any other routine. -/

namespace Strand

variable {C : Type}

/-! ### Sequential evaluation -/

/-- A script and what it is fed. -/
abbrev Feed (C : Type) := Script C × Outcome Value

/-- What the program does, given what has been fed so far. -/
structure Conduct (C : Type) where
  /-- What a script does when it is fed, and how it goes on; nothing, if this is
      none of the steps that are described here. -/
  feed : List (Feed C) → Script C → Outcome Value → Option (Step C × Script C)
  /-- The script that a block or a handler builds. -/
  build : List (Feed C) → C → Script C
  /-- What a handler hands back. -/
  hands : List (Feed C) → C → Option Value

/-- The script that a step asks to have run. -/
def Conduct.child (π : Conduct C) (h : List (Feed C)) : Instruction C → Option (Script C)
  | .splice script => some script
  | .reset block => some (π.build h block)
  | _ => none

/-- `Runs π shifts h script input fed o`: after `h`, script `script` that is fed
    `input` comes to the outcome `o`, and `fed` is what is fed to scripts on the
    way. With `shifts`, handlers may hand back values. -/
inductive Runs (π : Conduct C) (shifts : Prop) :
    List (Feed C) → Script C → Outcome Value → List (Feed C) → Outcome Value → Prop
  | done {h script input later o} (step : π.feed h script input = some (.done o, later)) :
      Runs π shifts h script input [(script, input)] o
  | call {h script input i later child fed fed' r o}
      (step : π.feed h script input = some (.yield i, later))
      (spawns : π.child (h ++ [(script, input)]) i = some child)
      (inner : Runs π shifts (h ++ [(script, input)]) child .unit fed r)
      (rest : Runs π shifts (h ++ (script, input) :: fed) later r fed' o) :
      Runs π shifts h script input ((script, input) :: fed ++ fed') o
  | shift {h script input later handler v fed o} (allowed : shifts)
      (step : π.feed h script input = some (.yield (.shift handler), later))
      (hands : π.hands (h ++ [(script, input)]) handler = some v)
      (rest : Runs π shifts
        (h ++ [(script, input), (π.build (h ++ [(script, input)]) handler, .unit)]) later
        (.success v) fed o) :
      Runs π shifts h script input
        ((script, input) :: (π.build (h ++ [(script, input)]) handler, .unit) :: fed) o

/-- What somebody is fed. -/
def PassEvent.feed? : PassEvent C → Option (Feed C)
  | .resumed _ script input => some (script, input)
  | _ => none

/-- What has been fed. -/
def fedIn (evs : List (PassEvent C)) : List (Feed C) := evs.filterMap PassEvent.feed?

@[simp] theorem fedIn_nil : fedIn ([] : List (PassEvent C)) = [] := rfl

@[simp] theorem fedIn_append (evs evs' : List (PassEvent C)) :
    fedIn (evs ++ evs') = fedIn evs ++ fedIn evs' := List.filterMap_append

@[simp] theorem fedIn_resumed (id : RoutineId) (script : Script C) (input : Outcome Value)
    (evs : List (PassEvent C)) :
    fedIn (.resumed id script input :: evs) = (script, input) :: fedIn evs := rfl

@[simp] theorem fedIn_finished (id : RoutineId) (o : Outcome Value) (evs : List (PassEvent C)) :
    fedIn (.finished id o :: evs) = fedIn evs := rfl

theorem mem_fedIn {evs : List (PassEvent C)} {id : RoutineId} {script : Script C}
    {input : Outcome Value} (h : .resumed id script input ∈ evs) : (script, input) ∈ fedIn evs :=
  List.mem_filterMap.mpr ⟨_, h, rfl⟩

/-- Nobody is made to exit. -/
abbrev Unforced (evs : List (PassEvent C)) : Prop := ∀ e ∈ evs, e.ofExit = false

theorem fedIn_of_exits {evs : List (PassEvent C)} (h : ExitsOnly evs) : fedIn evs = [] := by
  refine List.filterMap_eq_nil_iff.mpr ?_
  intro e he
  have hexit := h e he
  cases e <;> simp_all [PassEvent.ofExit, PassEvent.feed?]

/-- A script with one stage, in which so many stages have been entered. -/
def oneStage (stage : Stage C) (entered : Nat) : Script C := .staged ⟨[stage], none, entered, false⟩

/-! ### What becomes of the scheduler -/

namespace Scheduler

section Beside

variable {strict : Prop} {slots slots' base : RoutineId → Prop} {f g : RoutineId → Routine C → Routine C}
  {s t : Scheduler C}

theorem Beside.congr (h : Beside strict slots base f s t) (hfg : ∀ a x, ¬ slots a → f a x = g a x) :
    Beside strict slots base g s t where
  stays := h.stays
  waiting a x hnot hunder hx := hfg a x hnot ▸ h.waiting a x hnot hunder hx
  exact hstrict a hnot := by
    rw [h.exact hstrict a hnot]
    cases s.routines.find? a with
    | none => rfl
    | some x => exact congrArg some (hfg a x hnot)

/-- What becomes of a routine that waits. -/
theorem Beside.entry (h : Beside strict slots base f s t) {a : RoutineId} {x : Routine C}
    (hnot : ¬ slots a) (hon : base a) (hx : s.routines.find? a = some x) :
    ∃ parent, t.routines.find? a = some { f a x with parent } ∧
      (strict → parent = (f a x).parent) := by
  by_cases hstrict : strict
  · refine ⟨(f a x).parent, ?_, fun _ => rfl⟩
    rw [h.exact hstrict a hnot, hx]
    rfl
  · obtain ⟨parent, hy, -⟩ := h.waiting a x hnot (.on hx hon) hx
    exact ⟨parent, hy, fun hs => absurd hs hstrict⟩

/-- Slots that were vacant, and are so again, make no difference. -/
theorem Beside.narrow (h : Beside strict slots' base f s t)
    (hbefore : ∀ a, slots' a → ¬ slots a → s.routines.find? a = none)
    (hafter : strict → ∀ a, slots' a → ¬ slots a → t.routines.find? a = none) :
    Beside strict slots base f s t := by
  have hlive : ∀ a x, s.routines.find? a = some x → ¬ slots a → ¬ slots' a := by
    intro a x hx hnot hs
    rw [hbefore a hs hnot] at hx
    cases hx
  have hwiden : ∀ {a}, Under slots base s a → Under slots' base s a := by
    intro a ha
    induction ha with
    | on live there => exact .on live there
    | hangs live outside parent _ ih => exact .hangs live (hlive _ _ live outside) parent ih
  refine ⟨h.stays, fun a x hnot hunder hx => ?_, fun hstrict a hnot => ?_⟩
  · obtain ⟨parent, hy, hparent⟩ := h.waiting a x (hlive a x hx hnot) (hwiden hunder) hx
    exact ⟨parent, hy, fun q hq habove => hparent q hq (hwiden habove)⟩
  · by_cases hs : slots' a
    · rw [hbefore a hs hnot, hafter hstrict a hs hnot]
      rfl
    · exact h.exact hstrict a hs

/-- Only those of `base` matter that are live. -/
theorem Beside.alive (h : Beside strict slots (fun a => base a ∧ ∃ x, s.routines.find? a = some x) f s t) :
    Beside strict slots base f s t := by
  have hlive : ∀ {a}, Under slots base s a →
      Under slots (fun a => base a ∧ ∃ x, s.routines.find? a = some x) s a := by
    intro a ha
    induction ha with
    | on live there => exact .on live ⟨there, _, live⟩
    | hangs live outside parent _ ih => exact .hangs live outside parent ih
  refine ⟨fun a x ha hx => h.stays a x ⟨ha, x, hx⟩ hx, fun a x hnot hunder hx => ?_, h.exact⟩
  obtain ⟨parent, hy, hparent⟩ := h.waiting a x hnot (hlive hunder) hx
  exact ⟨parent, hy, fun q hq habove => hparent q hq (hlive habove)⟩

end Beside

/-- What becomes of routine `a`, which was `x`, when `id` joins the children of
    `parent`. -/
def joined (id parent a : RoutineId) (x : Routine C) : Routine C :=
  { x with children := if a = parent then x.children ++ [id] else x.children }

/-! ### While a routine is at work -/

/-- Routine `a` is `X`, which is at work, or on the stack. -/
def AtWork (s : Scheduler C) (X a : RoutineId) : Prop := a = X ∨ .routine a ∈ s.stack

/-- What a scheduler has come to while routine `X` was stepped. Handlers that have
    resumed sleep under it; if `strict` holds, nothing has become of the others.
    `shifts` says whether there can have been any handlers. -/
structure Worked (shifts strict : Prop) (X : RoutineId) (naps : List (RoutineId × Stage C))
    (s t : Scheduler C) : Prop where
  /-- A shift puts a boundary beneath what it has lifted, if there was none. -/
  stack : ∃ j, t.stack = s.stack ++ List.replicate j .boundary ∧ (j = 0 ∨ shifts)
  shifted : naps = [] ∨ shifts
  entry : ∀ x, s.routines.find? X = some x → x.script = none → ∃ parent,
    t.routines.find? X = some { x with parent, children := x.children ++ naps.map Prod.fst } ∧
      (strict → parent = x.parent)
  sleep : ∀ nap ∈ naps,
    t.routines.find? nap.1 = some ⟨.shift, some (oneStage nap.2 1), some X, []⟩
  vacant : ∀ a, InSlots (naps.map Prod.fst) a → s.routines.find? a = none
  beside : Beside strict (InSlots (X :: naps.map Prod.fst)) (AtWork s X) (fun _ x => x) s t

section Worked

variable {shifts strict : Prop} {X c : RoutineId} {naps naps' : List (RoutineId × Stage C)}
  {s t u : Scheduler C} {x y : Routine C}

/-- Nothing has happened but to the entry of `X`. -/
theorem Worked.of_same (hstack : t.stack = s.stack) (hroutines : t.routines = s.routines) :
    Worked shifts strict X [] s t where
  stack := ⟨0, by rw [hstack, List.replicate_zero, List.append_nil], Or.inl rfl⟩
  shifted := Or.inl rfl
  entry x hx _ := ⟨x.parent, by rw [hroutines, hx, List.map_nil, List.append_nil], fun _ => rfl⟩
  sleep := nofun
  vacant := by
    rintro a ⟨b, hb, -⟩
    cases hb
  beside := .of_same hroutines

theorem Worked.of_spared (h : s.Spared t) : Worked shifts strict X [] s t := by
  obtain ⟨_, _, _, rfl⟩ := h
  exact .of_same rfl rfl

/-- Another live routine is in none of the slots that are taken meanwhile. -/
theorem Worked.not_taken (h : Worked shifts strict X naps s t) (hX : s.routines.find? X = some x)
    {a : RoutineId} (ha : s.routines.find? a = some y) (hne : a ≠ X) :
    ¬ InSlots (X :: naps.map Prod.fst) a := by
  intro hin
  rcases inSlots_cons.mp hin with hindex | hin
  · exact hne (Roster.eq_of_index_eq ha hX hindex.symm)
  · rw [h.vacant a hin] at ha
    cases ha

theorem Worked.stays (h : Worked shifts strict X naps s t) :
    ∀ a, .routine a ∈ s.stack → .routine a ∈ t.stack := by
  intro a ha
  obtain ⟨j, hstack, -⟩ := h.stack
  rw [hstack]
  exact List.mem_append_left _ ha

/-- One part of the work after another. -/
theorem Worked.trans (h : Worked shifts strict X naps s t) (h' : Worked shifts strict X naps' t u)
    (hstrict : shifts → strict) (hX : s.routines.find? X = some x) (hout : x.script = none) :
    Worked shifts strict X (naps ++ naps') s u := by
  obtain ⟨parent, hX', hparent⟩ := h.entry x hX hout
  obtain ⟨parent', hX'', hparent'⟩ := h'.entry _ hX' hout
  have hnaps' : ∀ b, InSlots (naps'.map Prod.fst) b → strict := by
    rintro b ⟨c, hc, -⟩
    rcases h'.shifted with rfl | hs
    · cases hc
    · exact hstrict hs
  -- what was vacant before the second part was so before the first
  have hvacant : ∀ a, InSlots (naps'.map Prod.fst) a → s.routines.find? a = none := by
    intro a ha
    have hnone := h'.vacant a ha
    by_cases hin : InSlots (X :: naps.map Prod.fst) a
    · rw [inSlots_cons] at hin
      rcases hin with hindex | hin
      · cases hy : s.routines.find? a with
        | none => rfl
        | some y =>
          rw [← Roster.eq_of_index_eq hX hy hindex, hX'] at hnone
          cases hnone
      · exact h.vacant a hin
    · have hsame := h.beside.exact (hnaps' a ha) a hin
      rw [Option.map_id', hnone] at hsame
      exact hsame.symm
  refine ⟨?_, ?_, ?_, ?_, ?_, ?_⟩
  · obtain ⟨i, hi, hi'⟩ := h.stack
    obtain ⟨j, hj, hj'⟩ := h'.stack
    refine ⟨i + j, by rw [hj, hi, List.append_assoc, List.replicate_add], ?_⟩
    rcases hi' with rfl | hs
    · exact hj'.imp_left fun hj' => by rw [hj']
    · exact Or.inr hs
  · rcases h.shifted with rfl | hs
    · exact h'.shifted
    · exact Or.inr hs
  · intro y hy _
    rw [hX] at hy
    cases hy
    refine ⟨parent', ?_, fun hs => (hparent' hs).trans (hparent hs)⟩
    rw [hX'', List.map_append, List.append_assoc]
  · intro nap hnap
    rcases List.mem_append.mp hnap with hnap | hnap
    · have hlive := h.sleep nap hnap
      have hs : strict := by
        rcases h.shifted with rfl | hs
        · cases hnap
        · exact hstrict hs
      have hne : nap.1 ≠ X := by
        intro heq
        rw [heq, hX'] at hlive
        exact absurd ((congrArg Routine.script (Option.some.inj hlive)).symm.trans hout) nofun
      rw [h'.beside.exact hs _ (h'.not_taken hX' hlive hne), Option.map_id', hlive]
    · exact h'.sleep nap hnap
  · intro a ha
    rw [List.map_append, inSlots_append] at ha
    exact ha.elim (h.vacant a) (hvacant a)
  · refine (h.beside.mono (fun a ha => ha.mono ?_) fun _ _ _ ha => ha).trans
      (h'.beside.mono (fun a ha => ha.mono ?_) fun a _ _ ha => ha.imp_right (h.stays a))
    · intro b hb
      rw [List.map_append]
      rcases List.mem_cons.mp hb with rfl | hb
      · exact List.mem_cons_self ..
      · exact List.mem_cons_of_mem _ (List.mem_append_left _ hb)
    · intro b hb
      rw [List.map_append]
      rcases List.mem_cons.mp hb with rfl | hb
      · exact List.mem_cons_self ..
      · exact List.mem_cons_of_mem _ (List.mem_append_right _ hb)

/-- A child of `X` that has worked is swept up, with those that sleep under it, and `X`
    is as it was, to go on as `later`. -/
theorem Worked.swept {s₁ s₂ s₃ : Scheduler C} {work : List StackEntry} {later : Script C}
    (h : Worked shifts strict c naps s₁ s₂) (hstrict : shifts → strict)
    (hX : s.routines.find? X = some x) (hnew : c ∉ x.children)
    (hvacant : ∀ a, a.index = c.index → s.routines.find? a = none)
    (hspawned : Beside strict (InSlots [c]) (Apart (InSlots [c]) work)
      (fun a y => joined c X a (if a = X then { y with script := some later } else y)) s s₁)
    (hstack : s₁.stack = work) (hplace : .routine X ∈ work)
    (hwork : ∀ a, .routine a ∈ s.stack → .routine a ∈ work)
    (hc : s₁.routines.find? c = some y)
    (hturned : Turned strict (c :: naps.map Prod.fst) [] s₂.stack (struck c (some X)) s₂ s₃) :
    (∃ parent, s₃.routines.find? X = some { x with script := some later, parent } ∧
      (strict → parent = x.parent)) ∧
      Beside strict (InSlots [X]) (AtWork s X) (fun _ x => x) s s₃ := by
  subst hstack
  have hXc : X ≠ c := by
    rintro rfl
    rw [hvacant X rfl] at hX
    cases hX
  have hfirst : ¬ InSlots [c] X := by
    intro hin
    rw [hvacant X (inSlots_singleton.mp hin).symm] at hX
    cases hX
  obtain ⟨parent₁, hX₁, hparent₁⟩ := hspawned.entry hfirst ⟨hplace, hfirst⟩ hX
  have htaken := h.not_taken hc hX₁ hXc
  obtain ⟨parent₂, hX₂, hparent₂⟩ := h.beside.entry htaken (Or.inr hplace) hX₁
  obtain ⟨parent₃, hX₃, hparent₃⟩ :=
    hturned.beside.entry htaken ⟨h.stays X hplace, htaken⟩ hX₂
  refine ⟨⟨parent₃, ?_, fun hs => ?_⟩, ?_⟩
  · rw [hX₃]
    simp [joined, struck, List.erase_append_right _ hnew]
  · rw [hparent₃ hs]
    show parent₂ = _
    rw [hparent₂ hs]
    show parent₁ = _
    rw [hparent₁ hs]
    simp [joined]
  · -- the slots of the child and of the sleepers are vacant before and after
    let slots := InSlots (X :: c :: naps.map Prod.fst)
    have hne : ∀ a, ¬ slots a → a ≠ X := by
      rintro a hnot rfl
      exact hnot (.of_mem (List.mem_cons_self ..))
    let base := fun a => AtWork s X a ∧ ∃ x, s.routines.find? a = some x
    have hon : ∀ a, base a → Apart (InSlots [c]) s₁.stack a := by
      rintro a ⟨ha, y, hy⟩
      refine ⟨ha.elim (fun heq => heq ▸ hplace) (hwork a), fun hin => ?_⟩
      rw [hvacant a (inSlots_singleton.mp hin).symm] at hy
      cases hy
    have hone : Beside strict slots base (fun _ x => x) s s₁ := by
      refine (hspawned.mono (fun a ha => ?_) fun a _ _ ha => hon a ha).congr fun a y hnot => ?_
      · exact ha.mono fun b hb => by simp_all
      · simp [joined, hne a hnot]
    have htwo : Beside strict slots base (fun _ x => x) s₁ s₂ :=
      h.beside.mono (fun a ha => ha.mono fun b hb => List.mem_cons_of_mem _ hb)
        fun a _ _ ha => Or.inr (hon a ha).1
    have hthree : Beside strict slots base (fun _ x => x) s₂ s₃ := by
      refine (hturned.beside.mono (fun a ha => ?_) fun a _ _ ha => ?_).congr fun a y hnot => ?_
      · exact ha.mono fun b hb => List.mem_cons_of_mem _ hb
      · obtain ⟨z, hz⟩ := ha.2
        obtain ⟨z', hz'⟩ := hspawned.stays a z (hon a ha) hz
        have hac : a ≠ c := by
          rintro rfl
          exact (hon a ha).2 (.of_mem (List.mem_singleton.mpr rfl))
        exact ⟨h.stays a (hon a ha).1, h.not_taken hc hz' hac⟩
      · simp [struck, (hne a hnot).symm]
    refine (((hone.trans htwo).trans hthree).narrow (fun a ha hnot => ?_)
      fun hs a ha hnot => ?_).alive
    · have ha' := (inSlots_cons.mp ha).resolve_left fun hi => hnot (inSlots_cons.mpr (Or.inl hi))
      by_cases hindex : a.index = c.index
      · exact hvacant a hindex
      · have hin := (inSlots_cons.mp ha').resolve_left fun hi => hindex hi.symm
        have hs : strict := by
          rcases h.shifted with rfl | hs
          · obtain ⟨b, hb, -⟩ := hin
            cases hb
          · exact hstrict hs
        have hsame := hspawned.exact hs a fun hi =>
          hindex (inSlots_singleton.mp hi).symm
        rw [h.vacant a hin] at hsame
        exact Option.map_eq_none_iff.mp hsame.symm
    · refine hturned.vacant hs a ?_ inSlots_nil
      exact (inSlots_cons.mp ha).resolve_left fun hi => hnot (inSlots_cons.mpr (Or.inl hi))

end Worked

end Scheduler

namespace Machine

open Scheduler

variable {R : Type} {B : Behavior C R} {p : Nat} {K : List (Frame C R)} {s t : Scheduler C}
  {m n : Machine C R} {X : RoutineId} {x : Routine C} {strict : Prop}

/-! ### Children -/

/-- The next routine beneath some boundaries is fed the register. -/
theorem At.feeds (h : AtHead p K s m) {j : Nat} {tail : List StackEntry} {script : Script C}
    (hstack : s.stack = List.replicate j .boundary ++ .routine X :: tail)
    (hX : s.routines.find? X = some x) (hscript : x.script = some script) :
    ∃ t, Reaches B p m [] (m.step B) ∧
      At p K [.stepping p X] (.advance script s.register) t (m.step B) ∧ t.stack = tail ∧
      t.routines = s.routines.modify X fun r => { r with script := none } := by
  obtain ⟨reports, hpick⟩ := pick_of_boundaries hstack hX hscript
  have hfed := h.pick (B := B) hpick
  exact ⟨_, Reaches.unseen (.refl m) h.event?_head, hfed, rfl, rfl⟩

/-- A child is on the stack, and is fed unit after the sweep. -/
theorem At.feeds_child {origin : Origin} {child : Script C} {hs : List Handle}
    (h : At p K [.sweeping p] (.release hs (.give .nothing))
      { t.scheduleChild origin child X with reports := [] } m)
    (hreach : Reachable B m) (hl : Linked t.routines)
    (hroom : (t.scheduleChild origin child X).routines.slots.size ≤ 2 ^ 32)
    (hX : t.routines.find? X = some x)
    (hdrops : During B p K (· = []) (DropsReturn B p) m)
    (hstill : strict → During B p K (· = []) (NoneUnclaimed p) m) :
    ∃ n s₁ parent, Reaches B p m [] n ∧
      At p K [.stepping p t.fresh] (.advance child .unit) s₁ n ∧ s₁.stack = t.stack ∧
      s₁.routines.find? t.fresh = some ⟨origin, none, parent, []⟩ ∧
      (strict → parent = some X) ∧
      (∀ a, a.index = t.fresh.index → t.routines.find? a = none) ∧
      Scheduler.Beside strict (InSlots [t.fresh]) (Apart (InSlots [t.fresh]) t.stack)
        (joined t.fresh X) t s₁ := by
  obtain ⟨hdead, routines, reports, heq, hfind⟩ := scheduleChild_spec hl hroom hX
  have hvacant : ∀ a, a.index = t.fresh.index → t.routines.find? a = none :=
    fun a ha => find?_of_index_fresh hl.sound hroom ha
  have hlinked := hreach.linked h.scheduler hroom
  obtain ⟨n, s₁, hr, hhead, hpruned, -, hsame⟩ := h.tidied hlinked hdrops
  rw [heq] at hpruned hsame
  have hstack : s₁.stack = .routine t.fresh :: t.stack := hpruned.shrunk.work.stack
  have hother : ∀ a, ¬ InSlots [t.fresh] a →
      routines.find? a = (t.routines.find? a).map (joined t.fresh X a) := by
    intro a hnot
    have hne : a ≠ t.fresh := by
      rintro rfl
      exact hnot (.of_mem (List.mem_singleton.mpr rfl))
    rw [hfind, if_neg hne]
    by_cases haX : a = X
    · subst haX
      rw [if_pos rfl, hX, Option.map_some, joined, if_pos rfl]
    · rw [if_neg haX]
      cases t.routines.find? a with
      | none => rfl
      | some y => rw [Option.map_some, joined, if_neg haX]
  have hbeside : Scheduler.Beside strict (InSlots [t.fresh]) (Apart (InSlots [t.fresh]) t.stack)
      (joined t.fresh X) t s₁ := by
    refine Scheduler.Beside.trans (.of_find? (fun _ ha => ha.2) (fun _ _ => rfl) hother)
      (hpruned.beside ?_ fun hstrict => hsame (hstill hstrict))
    exact fun a ha => List.mem_cons_of_mem _ ha.1
  -- the child is on the stack, so it stays
  have hfresh : routines.find? t.fresh = some ⟨origin, some child, some X, []⟩ := by
    rw [hfind, if_pos rfl]
  obtain ⟨parent, hchild, hparent⟩ : ∃ parent,
      s₁.routines.find? t.fresh = some ⟨origin, some child, parent, []⟩ ∧
        (strict → parent = some X) := by
    by_cases hs : strict
    · exact ⟨some X, hsame (hstill hs) ▸ hfresh, fun _ => rfl⟩
    · have hon : Anchored ({ t with
          routines, register := .unit, stack := .routine t.fresh :: t.stack, reports := [] } :
          Scheduler C) t.fresh :=
        .onStack hfresh (List.contains_iff_mem.mpr (List.mem_cons_self ..))
      rcases hpruned.keeps _ _ hon hfresh with hkept | ⟨hkept, -⟩
      · exact ⟨_, hkept, fun h => absurd h hs⟩
      · exact ⟨_, hkept, fun h => absurd h hs⟩
  obtain ⟨u, hr', hfed, hustack, huroutines⟩ := hhead.feeds (B := B) (j := 0) hstack hchild rfl
  have hregister : s₁.register = .unit := hpruned.shrunk.work.register
  have hmodify : ∀ a, ¬ InSlots [t.fresh] a → u.routines.find? a = s₁.routines.find? a := by
    intro a hnot
    rw [huroutines, Roster.find?_modify, if_neg]
    rintro rfl
    exact hnot (.of_mem (List.mem_singleton.mpr rfl))
  refine ⟨_, u, parent, hr.quietly hr', hregister ▸ hfed, hustack, ?_, hparent, hvacant,
    hbeside.trans (.of_find? (fun _ ha => ha.2) (fun _ _ => rfl) fun a hnot => ?_)⟩
  · rw [huroutines, Roster.find?_modify, if_pos rfl, hchild]
    rfl
  · rw [hmodify a hnot, Option.map_id']

/-! ### The program at work -/

/-- A step has ended like this. Where panics are caught, a step that panics is done
    with that failure. -/
def Focus.ends (catches : Bool) (result : Step C × Script C) (f : Focus C R) : Prop :=
  f = .release [] (.give (.stepped result.1 result.2)) ∨
    catches = true ∧ ∃ payload salvage, result.1 = .done (.failure (.panicked payload.message)) ∧
      f = .release [] (.unwind payload salvage)

/-- A script has been built. Where panics are caught, a block that panics builds one
    that fails. -/
def Focus.builds (catches : Bool) (script : Script C) (f : Focus C R) : Prop :=
  (∃ a : Answer C, a.script = script ∧ f = .release [] (.give a)) ∨
    catches = true ∧ ∃ payload salvage,
      script = .returning (.failure (.panicked payload.message)) ∧
      f = .release [] (.unwind payload salvage)

/-- A script is copied in the end. -/
def CopyReturns (B : Behavior C R) (p : Nat) (m : Machine C R) : Prop :=
  ∀ script, m.focus = .copy script →
    Answered B p m fun f => ∃ a : Answer C, f = .release [] (.give a)

/-- A step of routine `H` suspends, and goes on as `script`. -/
def SuspendsAs (B : Behavior C R) (p : Nat) (K : List (Frame C R)) (H : RoutineId)
    (script : Script C) (m : Machine C R) : Prop :=
  ∀ s, m.scheduler? p = some s → ∃ n t, Reaches B p m [] n ∧
    At p K [.stepping p H] (.release [] (.give (.stepped (.yield .suspend) script))) t n ∧
    s.Spared t

/-- A handler builds a script with one stage. Its step is the first to invoke
    continuation `k`, with `v`, and suspends. -/
def HandsBack (B : Behavior C R) (p : Nat) (K : List (Frame C R)) (k : Nat) (v : Value)
    (script : Script C) (m : Machine C R) : Prop :=
  ∃ stage, script = oneStage stage 0 ∧
    Answered B p m (fun f => ∃ a : Answer C, a.script = script ∧ f = .release [] (.give a)) ∧
    ∀ n H s, Reaches B p m [] n → At p K [.stepping p H] (.advance script .unit) s n →
      ∃ o fs next t, Reaches B p n [.resumed H script .unit] o ∧
        At p K (fs ++ [.stepping p H]) (.release [] (.act (.ask (.invoke k v) next))) t o ∧
        s.Spared t ∧ LaterWhile B (Dormant k) m o ∧ o.Has k ∧
        ∀ n' hs t', Reaches B p o [] n' →
          At p K (invoking p k next (fs ++ [.stepping p H])) (Focus.replied hs) t' n' →
          SuspendsAs B p K H (oneStage stage 1) n'

variable (B p K) in
/-- The program conducts itself as `π` says in the pass of `p` above `K`, until the
    scripts have been fed `N` times. -/
structure Plays (π : Conduct C) (N : Nat) (strict : Prop) (m : Machine C R) : Prop where
  reach : Reachable B m
  room : Roomy B p m
  feeds : ∀ evs n id script input s result, Reaches B p m evs n → (fedIn evs).length < N →
    At p K [.stepping p id] (.advance script input) s n →
    π.feed (fedIn evs) script input = some result →
    script.isUser = true ∧ Answered B p n (Focus.ends (n.catches p) result)
  builds : ∀ evs n id block s, Reaches B p m evs n → (fedIn evs).length ≤ N →
    At p K [.building p id .reset] (.release [] (.begin block .begin)) s n →
    Answered B p n (Focus.builds (n.catches p) (π.build (fedIn evs) block))
  hands : ∀ evs n id handler k v, Reaches B p m evs n → (fedIn evs).length < N →
    n.Calls p (.pass p :: K) id handler k → π.hands (fedIn evs) handler = some v →
    HandsBack B p K k v (π.build (fedIn evs) handler) n
  copies : During B p K (fun evs => (fedIn evs).length ≤ N) (CopyReturns B p) m
  drops : During B p K (fun evs => (fedIn evs).length ≤ N) (DropsReturn B p) m
  /-- Meanwhile no continuation dies without having been invoked. -/
  still : strict → During B p K (fun evs => (fedIn evs).length ≤ N) (NoneUnclaimed p) m

section Plays

variable {π : Conduct C} {N : Nat} {m₀ : Machine C R} {evs : List (PassEvent C)}
  {script later : Script C} {input o : Outcome Value}

theorem Plays.linked (h : Plays B p K π N strict m₀) (hr : Reaches B p m₀ evs m)
    (hs : m.scheduler? p = some s) : Linked s.routines :=
  (h.reach.later hr.later).linked hs (h.room _ _ _ hr hs)

/-- What holds until nothing more may be fed holds while nothing is seen. -/
theorem quietly_of_fed {Q : Machine C R → Prop}
    (h : During B p K (fun evs => (fedIn evs).length ≤ N) Q m₀) (hr : Reaches B p m₀ evs m)
    (hN : (fedIn evs).length ≤ N) : During B p K (· = []) Q m :=
  (h.later hr).weaken (by
    rintro _ rfl
    rwa [List.append_nil])

/-- A step that ends. -/
theorem Plays.finishes (h : Plays B p K π N strict m₀) (hr : Reaches B p m₀ evs m)
    (hN : (fedIn evs).length < N) (hat : At p K [.stepping p X] (.advance script input) s m)
    (hfeed : π.feed (fedIn evs) script input = some (.done o, later)) :
    ∃ n t, Reaches B p m [.resumed X script input] n ∧ Finishes p K X o t n ∧ s.Spared t := by
  obtain ⟨huser, hanswered⟩ := h.feeds evs m X script input s _ hr hN hat hfeed
  obtain ⟨n, focus, t, hr', hat', hends, hspared⟩ := hat.answered hanswered
  rw [show m.event? p = some (.resumed X script input) by
    simp [event?, hat.focus, hat.control, huser]] at hr'
  refine ⟨n, t, hr', ?_, hspared⟩
  rcases hends with rfl | ⟨hcatch, payload, salvage, ho, rfl⟩
  · exact Or.inl ⟨later, hat'⟩
  · refine Or.inr ⟨?_, payload, salvage, Step.done.inj ho, hat'⟩
    have hsettings : t.settings = s.settings := by
      obtain ⟨_, _, _, rfl⟩ := hspared
      rfl
    rw [hsettings]
    simpa [catches, hat.scheduler] using hcatch

/-- A step that goes on. -/
theorem Plays.yields {i : Instruction C} (h : Plays B p K π N strict m₀)
    (hr : Reaches B p m₀ evs m) (hN : (fedIn evs).length < N)
    (hat : At p K [.stepping p X] (.advance script input) s m)
    (hfeed : π.feed (fedIn evs) script input = some (.yield i, later)) :
    ∃ n t, Reaches B p m [.resumed X script input] n ∧
      At p K [.stepping p X] (.release [] (.give (.stepped (.yield i) later))) t n ∧
      s.Spared t := by
  obtain ⟨huser, hanswered⟩ := h.feeds evs m X script input s _ hr hN hat hfeed
  obtain ⟨n, focus, t, hr', hat', hends, hspared⟩ := hat.answered hanswered
  rw [show m.event? p = some (.resumed X script input) by
    simp [event?, hat.focus, hat.control, huser]] at hr'
  rcases hends with rfl | ⟨-, payload, salvage, ho, -⟩
  · exact ⟨n, t, hr', hat', hspared⟩
  · cases ho

/-- A block or a handler has built a script, or panicked instead. -/
theorem At.built {id : RoutineId} {origin : Origin} {focus : Focus C R}
    (h : At p K [.building p id origin] focus s m)
    (hf : Focus.builds s.settings.catchPanics script focus) :
    m.event? p = none ∧ At p K [.sweeping p] (.release s.register.handles (.give .nothing))
      { s.scheduleChild origin script id with reports := [] } (m.step B) := by
  rcases hf with ⟨a, rfl, rfl⟩ | ⟨hcatch, payload, salvage, rfl, rfl⟩
  · exact ⟨by simp [event?, h.focus, h.control], h.builds⟩
  · refine ⟨by simp [event?, h.focus, h.control], ?_⟩
    have hs : ({ m with control := .pass p :: K } : Machine C R).scheduler? p = some s :=
      h.scheduler
    have hcatches : ({ m with control := .pass p :: K } : Machine C R).catches p = true := by
      rw [catches, hs]
      exact hcatch
    have hstep : m.step B = ({ m with control := .pass p :: K } : Machine C R).startChild p id origin
        (.returning (.failure (.panicked payload.message))) := by
      simp only [step, h.focus, goOn, h.control, List.cons_append, List.nil_append, unwindFrame]
      exact if_pos hcatches
    rw [hstep]
    refine ⟨rfl, ?_, scheduler?_onScheduler_some hs _⟩
    show Focus.release (registerHandles _ p) _ = _
    rw [registerHandles, hs]
    rfl

/-- A routine is put back on the stack, to go on as `later`. -/
theorem find?_shelve (hX : s.routines.find? X = some x) (later : Script C) (a : RoutineId) :
    (s.shelve X later).routines.find? a =
      (s.routines.find? a).map fun y => if a = X then { y with script := some later } else y := by
  rw [shelve_of_live hX]
  show (s.routines.modify X _).find? a = _
  rw [Roster.find?_modify]
  split
  · rfl
  · rw [Option.map_id']

/-- A child of routine `X` is fed in a scheduler whose routines are those of `s`, except
    that `X` goes on as `later`. -/
theorem Plays.feeds_child {origin : Origin} {child : Script C} {hs : List Handle}
    (h : Plays B p K π N strict m₀) (hr : Reaches B p m₀ evs m) (hN : (fedIn evs).length ≤ N)
    (hsweep : At p K [.sweeping p] (.release hs (.give .nothing))
      { t.scheduleChild origin child X with reports := [] } m)
    (hlinked : Linked t.routines) (hfresh : t.fresh = s.fresh)
    (hentries : ∀ a, t.routines.find? a = (s.routines.find? a).map fun y =>
      if a = X then { y with script := some later } else y)
    (hX : s.routines.find? X = some x) :
    ∃ n s₁ parent, Reaches B p m [] n ∧
      At p K [.stepping p s.fresh] (.advance child .unit) s₁ n ∧ s₁.stack = t.stack ∧
      s₁.routines.find? s.fresh = some ⟨origin, none, parent, []⟩ ∧
      (∀ a, a.index = s.fresh.index → s.routines.find? a = none) ∧
      Scheduler.Beside strict (InSlots [s.fresh]) (Apart (InSlots [s.fresh]) t.stack)
        (fun a y => joined s.fresh X a (if a = X then { y with script := some later } else y))
        s s₁ := by
  have hroom : (t.scheduleChild origin child X).routines.slots.size ≤ 2 ^ 32 := by
    have hroom := h.room evs m _ hr hsweep.scheduler
    exact hroom
  have hself : t.routines.find? X = some { x with script := some later } := by
    rw [hentries, hX, Option.map_some, if_pos rfl]
  obtain ⟨n, s₁, parent, hrn, hfed, hstack, hentry, -, hvacant, hbeside⟩ := hsweep.feeds_child
    (h.reach.later hr.later) hlinked hroom hself (quietly_of_fed h.drops hr hN)
    fun hstrict => quietly_of_fed (h.still hstrict) hr hN
  rw [hfresh] at hfed hentry hvacant hbeside
  have hgoes : Scheduler.Beside strict (InSlots [s.fresh]) (Apart (InSlots [s.fresh]) t.stack)
      (fun a y => if a = X then { y with script := some later } else y) s t :=
    .of_find? (fun _ ha => ha.2) (fun a y => by split <;> rfl) fun a _ => hentries a
  refine ⟨n, s₁, parent, hrn, hfed, hstack, hentry, fun a ha => ?_,
    hgoes.comp hbeside fun _ _ _ _ => rfl⟩
  have hnone := hvacant a ha
  rwa [hentries, Option.map_eq_none_iff] at hnone

/-- A routine asks for a child, and waits beneath it. -/
theorem Plays.spawns {i : Instruction C} {child : Script C} (h : Plays B p K π N strict m₀)
    (hr : Reaches B p m₀ evs m) (hN : (fedIn evs).length ≤ N)
    (hat : At p K [.stepping p X] (.release [] (.give (.stepped (.yield i) later))) s m)
    (hchild : π.child (fedIn evs) i = some child) (hX : s.routines.find? X = some x) :
    ∃ n s₁ origin parent, Reaches B p m [] n ∧
      At p K [.stepping p s.fresh] (.advance child .unit) s₁ n ∧
      s₁.stack = i.bounds ++ .routine X :: s.stack ∧
      s₁.routines.find? s.fresh = some ⟨origin, none, parent, []⟩ ∧
      (∀ a, a.index = s.fresh.index → s.routines.find? a = none) ∧
      Scheduler.Beside strict (InSlots [s.fresh])
        (Apart (InSlots [s.fresh]) (i.bounds ++ .routine X :: s.stack))
        (fun a y => joined s.fresh X a (if a = X then { y with script := some later } else y))
        s s₁ := by
  have hquiet : m.event? p = none := by simp [event?, hat.focus, hat.control]
  have hr₁ := (Reaches.refl (B := B) (p := p) m).unseen hquiet
  have hstack : (s.shelve X later).stack = .routine X :: s.stack := by rw [shelve_of_live hX]
  have hfresh := fresh_shelve s X later
  have hentries := find?_shelve hX later
  have hlinked : Linked (s.shelve X later).routines := by
    rw [shelve_of_live hX]
    exact (h.linked hr hat.scheduler).modify X (fun _ => rfl) fun _ => rfl
  cases i with
  | shift handler => cases hchild
  | suspend => cases hchild
  | await c => cases hchild
  | splice nested =>
    cases hchild
    have hsweep := hat.yields_splice (B := B)
    generalize s.shelve X later = t at *
    obtain ⟨n, s₁, parent, hrn, hfed, hs₁, hrest⟩ := h.feeds_child (t := { t with reports := [] })
      (hr.quietly hr₁) hN hsweep hlinked hfresh hentries hX
    exact ⟨n, s₁, .splice, parent, hr₁.quietly hrn, hfed, hs₁.trans hstack, hstack ▸ hrest⟩
  | reset block =>
    cases hchild
    have hbuilding := hat.yields_reset (B := B)
    generalize s.shelve X later = t at *
    have hbuilt := h.builds evs _ X block _ (hr.quietly hr₁) hN hbuilding
    obtain ⟨n₁, focus, t₁, hr₂, hat₁, hok, hspared⟩ := hbuilding.answered hbuilt
    rw [show event? p _ = none by simp [event?, hbuilding.focus, hbuilding.control]] at hr₂
    have hcatches : (m.step B).catches p = t₁.settings.catchPanics := by
      rw [catches, hbuilding.scheduler]
      obtain ⟨_, _, _, rfl⟩ := hspared
      rfl
    rw [hcatches] at hok
    obtain ⟨hquiet₁, hsweep⟩ := hat₁.built (B := B) hok
    have hroutines : t₁.routines = t.routines := hspared.routines
    have hstack₁ : t₁.stack = .boundary :: .routine X :: s.stack := by
      obtain ⟨_, _, _, rfl⟩ := hspared
      exact congrArg (StackEntry.boundary :: ·) hstack
    have hr₃ := (hr₁.quietly hr₂).unseen hquiet₁
    obtain ⟨n, s₁, parent, hrn, hfed, hs₁, hrest⟩ := h.feeds_child (hr.quietly hr₃) hN hsweep
      (hroutines ▸ hlinked) ((fresh_congr hroutines).trans hfresh)
      (fun a => by rw [hroutines, hentries]) hX
    rw [hstack₁] at hs₁ hrest
    exact ⟨n, s₁, .reset, parent, hr₃.quietly hrn, hfed, hs₁, hrest⟩

/-! ### Sweeping up -/

/-- A script whose only stage has been entered is done with its exit at once. -/
theorem exitReturns_oneStage (stage : Stage C) (m : Machine C R) :
    ExitReturns B p (fun o => o.isSuccess = true) (oneStage stage 1) m := by
  intro hf
  have hstep : m.step B = m.stepDone [] .unit (.staged (Staged.finish ⟨[stage], none, 1, false⟩)) := by
    simp only [step, hf, exitScript, oneStage, exitStages, Staged.exit]
    rfl
  have hmove := (Reaches.refl (B := B) (p := p) m).move
  rw [List.nil_append] at hmove
  refine ⟨m.step B, hmove, ?_⟩
  rw [hstep]
  exact ⟨rfl, ⟨_, _, rfl, rfl⟩, fun s hs => ⟨s, hs, .refl s⟩⟩

/-- Nothing is seen of the move in which a routine finishes but that. -/
theorem Finishes.event? (h : Finishes p K X o s m) :
    (m.event? p).toList = [] ∨ (m.event? p).toList = [.finished X o] := by
  rcases h with ⟨script, hat⟩ | ⟨-, payload, salvage, rfl, hat⟩
  · simp only [Machine.event?, hat.focus, hat.control, List.cons_append]
    split <;> simp
  · simp only [Machine.event?, hat.focus, hat.control, List.cons_append]
    split <;> simp

theorem Finishes.fedIn (h : Finishes p K X o s m) : fedIn (m.event? p).toList = [] := by
  rcases h.event? with hnone | hone
  · rw [hnone]
    rfl
  · rw [hone]
    rfl

theorem Finishes.unforced (h : Finishes p K X o s m) : Unforced (m.event? p).toList := by
  rcases h.event? with hnone | hone
  · rw [hnone]
    exact nofun
  · rw [hone]
    intro e he
    rw [List.mem_singleton.mp he]
    rfl

/-- A routine finishes, the exits of its descendants succeed, and its outcome is what
    is in the register then. -/
theorem Plays.empties {origin : Origin} {parent : Option RoutineId} {T : Brood C}
    (h : Plays B p K π N strict m₀) (hr : Reaches B p m₀ evs m) (hN : (fedIn evs).length ≤ N)
    (hfinish : Finishes p K X o s m)
    (hX : s.routines.find? X = some ⟨origin, none, parent, T.roots⟩)
    (hT : T.Stands s.routines X)
    (hexits : During B p K (fun evs => evs.length < 2 * T.size ∧ ExitsOnly evs)
      (fun n => ∀ c ∈ T.exits, ExitReturns B p (fun o => o.isSuccess = true) c.2 n) (m.step B)) :
    ∃ evs' n t, Reaches B p m evs' n ∧ fedIn evs' = [] ∧ (T.exits = [] → Unforced evs') ∧
      AtHead p K t n ∧ t.register = o ∧ t.stack = s.stack ∧
      Turned strict (X :: T.ids) [] s.stack (struck X parent) s t := by
  have hone : Reaches B p m (m.event? p).toList (m.step B) := by
    simpa using (Reaches.refl (B := B) (p := p) m).move
  have hr₁ := hr.trans hone
  have hfed : ∀ evs' : List (PassEvent C), ExitsOnly evs' →
      (Strand.fedIn (evs ++ (m.event? p).toList ++ evs')).length ≤ N := by
    intro evs' hevs
    rw [fedIn_append, fedIn_append, hfinish.fedIn, fedIn_of_exits hevs]
    simpa using hN
  obtain ⟨calls, n, t, hcalls, hgood, hswept, -, hturned⟩ := hfinish.emptied (h.reach.later hr.later)
    (h.room _ _ _ hr hfinish.scheduler) hX hT hexits
    ((h.drops.later hr₁).weaken fun evs' hevs => hfed evs' hevs.2)
    (fun hstrict => ((h.still hstrict).later hr₁).weaken fun evs' hevs => hfed evs' hevs.2)
  have hregister := hswept.register
  rw [lastFailure_of_success (by simpa using hgood)] at hregister
  refine ⟨_, n, t, hone.trans hswept.reaches, ?_, fun hnone => ?_, hswept.head, hregister,
    hswept.awaits.stack, hturned⟩
  · rw [fedIn_append, hfinish.fedIn, fedIn_of_exits (exitsOnly_calls calls), List.append_nil]
  · rw [hnone, List.map_eq_nil_iff] at hcalls
    rw [hcalls, List.flatMap_nil, List.append_nil]
    exact hfinish.unforced

/-- Those that sleep under a routine. -/
def asleep : List (RoutineId × Stage C) → Brood C
  | [] => .nil
  | nap :: naps => .cons nap.1 (oneStage nap.2 1) .nil (asleep naps)

theorem roots_asleep (naps : List (RoutineId × Stage C)) : (asleep naps).roots = naps.map Prod.fst := by
  induction naps with
  | nil => rfl
  | cons nap naps ih => exact congrArg (nap.1 :: ·) ih

theorem ids_asleep (naps : List (RoutineId × Stage C)) : (asleep naps).ids = naps.map Prod.fst := by
  induction naps with
  | nil => rfl
  | cons nap naps ih => exact congrArg (nap.1 :: ·) ih

theorem exits_asleep (naps : List (RoutineId × Stage C)) :
    ∀ c ∈ (asleep naps).exits, ∃ stage, c.2 = oneStage stage 1 := by
  induction naps with
  | nil => exact nofun
  | cons nap naps ih =>
    intro c hc
    rcases List.mem_append.mp hc with hc | hc
    · exact ih c hc
    · rw [Brood.exits, List.mem_singleton] at hc
      exact ⟨nap.2, by rw [hc]⟩

theorem stands_asleep {r : Roster (Routine C)} {naps : List (RoutineId × Stage C)}
    (h : ∀ nap ∈ naps, r.find? nap.1 = some ⟨.shift, some (oneStage nap.2 1), some X, []⟩) :
    (asleep naps).Stands r X := by
  induction naps with
  | nil => trivial
  | cons nap naps ih =>
    obtain ⟨hnap, hnaps⟩ := List.forall_mem_cons.mp h
    exact ⟨⟨_, hnap⟩, trivial, ih hnaps⟩

/-- A child of `X` is done, and its outcome is fed to `X`. -/
theorem Plays.returns {shifts : Prop} {c : RoutineId} {naps : List (RoutineId × Stage C)}
    {s₁ s₂ : Scheduler C} {origin : Origin} {parent : Option RoutineId} {bounds : Nat}
    (h : Plays B p K π N strict m₀) (hr : Reaches B p m₀ evs m) (hN : (fedIn evs).length ≤ N)
    (hstrict : shifts → strict) (hfinish : Finishes p K c o s₂ m)
    (hwork : Worked shifts strict c naps s₁ s₂)
    (hstack : s₁.stack = List.replicate bounds .boundary ++ .routine X :: s.stack)
    (hc : s₁.routines.find? c = some ⟨origin, none, parent, []⟩)
    (hX : s.routines.find? X = some x) (hout : x.script = none) (hnew : c ∉ x.children)
    (hvacant : ∀ a, a.index = c.index → s.routines.find? a = none)
    (hspawned : Scheduler.Beside strict (InSlots [c])
      (Apart (InSlots [c]) (List.replicate bounds .boundary ++ .routine X :: s.stack))
      (fun a y => joined c X a (if a = X then { y with script := some later } else y)) s s₁) :
    ∃ evs' n t, Reaches B p m evs' n ∧ fedIn evs' = [] ∧ (shifts ∨ Unforced evs') ∧
      At p K [.stepping p X] (.advance later o) t n ∧ Worked shifts strict X [] s t := by
  obtain ⟨parent₂, hc₂, -⟩ := hwork.entry _ hc rfl
  -- `X` waits and lists the child, so that names it
  have hplace : .routine X ∈ List.replicate bounds StackEntry.boundary ++ .routine X :: s.stack :=
    List.mem_append_right _ (List.mem_cons_self ..)
  have hparent : parent₂ = some X := by
    have hXc : X ≠ c := by
      rintro rfl
      rw [hvacant X rfl] at hX
      cases hX
    have hfirst : ¬ InSlots [c] X := by
      intro hin
      rw [hvacant X (inSlots_singleton.mp hin).symm] at hX
      cases hX
    obtain ⟨_, hX₁, -⟩ := hspawned.entry hfirst ⟨hplace, hfirst⟩ hX
    obtain ⟨_, hX₂, -⟩ :=
      hwork.beside.entry (hwork.not_taken hc hX₁ hXc) (Or.inr (hstack ▸ hplace)) hX₁
    obtain ⟨y, hy, hparent⟩ := (h.linked hr hfinish.scheduler).child hX₂ (c := c) (by simp [joined])
    rw [hc₂] at hy
    cases hy
    exact hparent
  subst hparent
  obtain ⟨evs', n, s₃, hr', hfed, hforced, hhead, hregister, hstack₃, hturned⟩ :=
    h.empties (T := asleep naps) hr hN hfinish (by rw [hc₂, roots_asleep]; rfl)
      (stands_asleep hwork.sleep) fun _ n _ _ _ c hc => by
        obtain ⟨stage, hstage⟩ := exits_asleep naps c hc
        rw [hstage]
        exact exitReturns_oneStage stage n
  rw [ids_asleep] at hturned
  obtain ⟨⟨parent₃, hX₃, hparent₃⟩, hbeside⟩ := hwork.swept hstrict hX hnew hvacant hspawned hstack
    hplace (fun a ha => List.mem_append_right _ (List.mem_cons_of_mem _ ha)) hc hturned
  obtain ⟨j, hj, hj'⟩ := hwork.stack
  rw [hj, hstack, List.append_assoc, List.cons_append] at hstack₃
  obtain ⟨t, hr'', hfed', hstack₄, hroutines⟩ := hhead.feeds (B := B) hstack₃ hX₃ rfl
  rw [hregister] at hfed'
  refine ⟨evs', _, t, hr'.quietly hr'', hfed,
    hwork.shifted.symm.imp_right fun hnone => hforced (by rw [hnone]; rfl), hfed',
    ⟨j, hstack₄, hj'⟩, Or.inl rfl, ?_, nofun,
    fun a ha => absurd ha inSlots_nil, ?_⟩
  · intro y hy _
    rw [hX] at hy
    cases hy
    refine ⟨parent₃, ?_, hparent₃⟩
    rw [hroutines, Roster.find?_modify, if_pos rfl, hX₃, List.map_nil, List.append_nil, ← hout]
    rfl
  · exact hbeside.trans (.of_modify (.of_mem (List.mem_cons_self ..)) hroutines)

end Plays

end Machine

end Strand
