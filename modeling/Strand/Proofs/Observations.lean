import Strand.Proofs.Courses
import Strand.Proofs.Rehearsal

/-! # Observations — a program's conduct, read off its run

    What a program does when it is fed depends on what has been fed before. In one
    run of a machine that is the number of feeds: the conduct that the run shows
    (`observed`) is a table of what has come back from each feed, and of what has been
    built after each. Sequential evaluation of such a table is computed
    (`Conduct.run?`). -/

namespace Strand

variable {C : Type}

/-! ### Sequential evaluation, computed -/

/-- What evaluation feeds and comes to, with so much fuel. -/
def Conduct.run? (π : Conduct C) : (fuel : Nat) → List (Feed C) → Script C → Outcome Value →
    Option (List (Feed C) × Outcome Value)
  | 0, _, _, _ => none
  | fuel + 1, h, script, input =>
    let h' := h ++ [(script, input)]
    match π.feed h script input with
    | some (.done o, _) => some ([(script, input)], o)
    | some (.yield i, later) =>
      match π.child h' i, i with
      | some child, _ =>
        (π.run? fuel h' child .unit).bind fun (fed, r) =>
          (π.run? fuel (h ++ (script, input) :: fed) later r).map fun (fed', o) =>
            ((script, input) :: fed ++ fed', o)
      | none, .shift handler =>
        (π.hands h' handler).bind fun v =>
          let fed := [(script, input), (π.build h' handler, .unit)]
          (π.run? fuel (h ++ fed) later (.success v)).map fun (fed', o) => (fed ++ fed', o)
      | none, _ => none
    | none => none

theorem runs_of_run? {π : Conduct C} {shifts : Prop}
    (hshifts : shifts ∨ ∀ fed handler, π.hands fed handler = none) {fuel : Nat}
    {h fed : List (Feed C)} {script : Script C} {input o : Outcome Value}
    (hrun : π.run? fuel h script input = some (fed, o)) : Runs π shifts h script input fed o := by
  induction fuel generalizing h fed script input o with
  | zero => cases hrun
  | succ fuel ih =>
    unfold Conduct.run? at hrun
    dsimp only at hrun
    split at hrun
    · next hstep =>
      cases hrun
      exact .done hstep
    · next i later hstep =>
      split at hrun
      · next child hchild =>
        obtain ⟨⟨fed₁, r⟩, hinner, hmore⟩ := Option.bind_eq_some_iff.mp hrun
        obtain ⟨⟨fed₂, o'⟩, hrest, heq⟩ := Option.map_eq_some_iff.mp hmore
        cases heq
        exact .call hstep hchild (ih hinner) (ih hrest)
      · next handler hnone =>
        obtain ⟨v, hhands, hmore⟩ := Option.bind_eq_some_iff.mp hrun
        obtain ⟨⟨fed₂, o'⟩, hrest, heq⟩ := Option.map_eq_some_iff.mp hmore
        cases heq
        have hallowed : shifts := hshifts.resolve_right fun hnone => by simp [hnone] at hhands
        exact .shift hallowed hstep hhands (ih hrest)
      · cases hrun
    · cases hrun

/-! ### What has come back -/

/-- Something to be noted on the way: a feed, or something that was built, with what has
    come back. -/
inductive Moment (C : Type) where
  | fed (result : Option (Step C × Script C))
  | built (script : Option (Script C))

/-- What follows after so many feeds. -/
def Moment.past : List (Moment C) → Nat → List (Moment C)
  | moments, 0 => moments
  | [], _ + 1 => []
  | .fed _ :: moments, j + 1 => past moments j
  | .built _ :: moments, j + 1 => past moments (j + 1)

/-- What the next feed has come to. -/
def Moment.nextFed : List (Moment C) → Option (Step C × Script C)
  | [] => none
  | .fed result :: _ => result
  | .built _ :: moments => nextFed moments

/-- What is built before the next feed. -/
def Moment.nextBuilt : List (Moment C) → Option (Script C)
  | .built script :: _ => script
  | _ => none

/-- Between two feeds one thing is built at most. -/
def Moment.spaced : List (Moment C) → Bool
  | .built _ :: .built _ :: _ => false
  | _ :: moments => spaced moments
  | [] => true

@[simp] theorem Moment.past_zero (moments : List (Moment C)) : past moments 0 = moments := by
  rw [past]

theorem Moment.nextFed_past_built (script : Option (Script C)) (moments : List (Moment C)) (j : Nat) :
    nextFed (past (.built script :: moments) j) = nextFed (past moments j) := by
  cases j with
  | zero => simp [nextFed]
  | succ j => rw [past]

theorem Moment.spaced_tail {moment : Moment C} {moments : List (Moment C)}
    (h : spaced (moment :: moments) = true) : spaced moments = true := by
  cases moment with
  | fed => exact h
  | built =>
    cases moments with
    | nil => rfl
    | cons next moments =>
      cases next with
      | fed => exact h
      | built => cases h

/-- The conduct that such a run shows. If handlers hand back values, they hand back
    what `hands` says. -/
def Moment.conduct (moments : List (Moment C)) (hands : List (Feed C) → C → Option Value) :
    Conduct C where
  feed h script _ := if script.isUser then nextFed (past moments h.length) else none
  build h _ := (nextBuilt (past moments h.length)).getD (.returning .unit)
  hands

namespace Machine

variable {R : Type}

/-- What a step has come to, if it is over. -/
def Focus.result? (catches : Bool) : Focus C R → Option (Step C × Script C)
  | .release [] (.give (.stepped step script)) => some (step, script)
  | .release [] (.unwind payload salvage) =>
    if catches then some (.done (.failure (.panicked payload.message)), salvage.getD (.returning .unit))
    else none
  | _ => none

theorem Focus.ends_of_result? {catches : Bool} {f : Focus C R}
    {result : Step C × Script C} (h : Focus.result? catches f = some result) : Focus.ends catches result f := by
  unfold Focus.result? at h
  split at h
  · cases h
    exact Or.inl rfl
  · next payload salvage =>
    split at h
    · next hcatch =>
      cases h
      exact Or.inr ⟨hcatch, payload, salvage, rfl, rfl⟩
    · cases h
  · cases h

/-- What a block has built, if it is over. -/
def Focus.built? (catches : Bool) : Focus C R → Option (Script C)
  | .release [] (.give a) => some a.script
  | .release [] (.unwind payload _) =>
    if catches then some (.returning (.failure (.panicked payload.message))) else none
  | _ => none

theorem Focus.builds_of_built? {catches : Bool} {f : Focus C R} {script : Script C}
    (h : Focus.built? catches f = some script) : Focus.builds catches script f := by
  unfold Focus.built? at h
  split at h
  · next a =>
    cases h
    exact Or.inl ⟨a, rfl, rfl⟩
  · next payload salvage =>
    split at h
    · next hcatch =>
      cases h
      exact Or.inr ⟨hcatch, payload, salvage, rfl, rfl⟩
    · cases h
  · cases h

section

variable (B : Behavior C R) (p : Nat)

/-- Where the call in focus comes back to within so many moves, if the program keeps to
    itself. -/
def comesTo (height : Nat) : (fuel : Nat) → Machine C R → Option (Focus C R)
  | 0, _ => none
  | fuel + 1, m =>
    if m.control.length = height && m.popping then some m.focus
    else if (height < m.control.length || !m.popping) && m.aside && (m.event? p).isNone then
      comesTo height fuel (m.step B)
    else none

/-- What the call in focus answers. -/
def answer? (fuel : Nat) (m : Machine C R) : Option (Focus C R) :=
  if !m.popping && m.aside then comesTo B p m.control.length fuel (m.step B) else none

/-- What there is to be noted of the next move. -/
def moment? (fuel : Nat) (m : Machine C R) : Option (Moment C) :=
  match m.event? p, m.focus, m.control with
  | some (.resumed _ _ _), _, _ =>
    some (.fed ((answer? B p fuel m).bind (Focus.result? (m.catches p))))
  | _, .release [] (.begin _ _), .building q _ _ :: _
  | _, .release [] (.begin _ _), .opening q _ :: _ =>
    if q = p then some (.built ((answer? B p fuel m).bind (Focus.built? (m.catches p)))) else none
  | _, _, _ => none

/-- What there is to be noted of so many moves. -/
def moments (fuel : Nat) : Nat → Machine C R → List (Moment C)
  | 0, _ => []
  | j + 1, m => (moment? B p fuel m).toList ++ moments fuel j (m.step B)

end

variable {B : Behavior C R} {p : Nat} {m n : Machine C R} {evs : List (PassEvent C)}

theorem reaches_of_comesTo {base : List (Frame C R)} {fuel : Nat} {f : Focus C R}
    (hbase : base <:+ m.control) (h : comesTo B p base.length fuel m = some f) :
    ∃ n, Reaches B p m [] n ∧ n.control = base ∧ n.focus = f ∧
      n.scheduler? p = m.scheduler? p := by
  induction fuel generalizing m with
  | zero => cases h
  | succ fuel ih =>
    unfold comesTo at h
    split at h
    · next hback =>
      cases h
      refine ⟨m, .refl m, ?_, rfl, rfl⟩
      rw [Bool.and_eq_true] at hback
      exact (hbase.eq_of_length (of_decide_eq_true hback.1).symm).symm
    · split at h
      · next hmore =>
        simp only [Bool.and_eq_true, Option.isNone_iff_eq_none] at hmore
        obtain ⟨⟨hheight, haside⟩, hnone⟩ := hmore
        obtain ⟨n, hr, hcontrol, hfocus, hsched⟩ := ih (suffix_step_of_height hbase hheight) h
        exact ⟨n, (Reaches.unseen (.refl m) hnone).after_quiet hr, hcontrol, hfocus,
          hsched.trans (scheduler?_step haside)⟩
      · cases h

theorem answered_of_answer? {fuel : Nat} {f : Focus C R} (h : answer? B p fuel m = some f) :
    Answered B p m (· = f) := by
  unfold answer? at h
  split at h
  · next hcalls =>
    rw [Bool.and_eq_true, Bool.not_eq_true'] at hcalls
    obtain ⟨hpop, haside⟩ := hcalls
    obtain ⟨n, hr, hcontrol, hfocus, hsched⟩ := reaches_of_comesTo (suffix_step m B hpop) h
    refine ⟨n, ?_, hcontrol, hfocus, fun s hs => ?_⟩
    · simpa using ((Reaches.refl (B := B) (p := p) m).move).trans hr
    · exact ⟨s, by rw [hsched, scheduler?_step haside, hs], .refl s⟩
  · cases h

theorem after_of_ended (hcontrol : m.control = []) (hpop : m.popping = true) (i : Nat) :
    after B i m = m := by
  induction i with
  | zero => rfl
  | succ i ih => rw [after_succ, ih, step_of_ended hcontrol hpop]

/-- After so many moves the machine has halted. -/
theorem control_of_throughout {check : Machine C R → Bool} {fuel i : Nat}
    (h : throughout B (fun _ => false) check fuel m = true) (hi : fuel ≤ i) :
    (after B i m).control = [] := by
  induction fuel generalizing m i with
  | zero => cases h
  | succ fuel ih =>
    rw [throughout, Bool.and_eq_true, Bool.false_or, Bool.or_eq_true, Bool.and_eq_true] at h
    rcases h.2 with ⟨hempty, hpop⟩ | hrest
    · rw [after_of_ended (List.isEmpty_iff.mp hempty) hpop]
      exact List.isEmpty_iff.mp hempty
    · obtain ⟨i, rfl⟩ : ∃ i', i = i' + 1 := ⟨i - 1, by omega⟩
      exact ih (m := m.step B) hrest (by omega)

/-! ### The table of a run -/

theorem moment?_of_resumed {fuel : Nat} {id : RoutineId} {script : Script C} {input : Outcome Value}
    (h : m.event? p = some (.resumed id script input)) : moment? B p fuel m =
      some (.fed ((answer? B p fuel m).bind (Focus.result? (m.catches p)))) := by
  unfold moment?
  rw [h]

/-- What is noted of a move that feeds nobody. -/
theorem moment?_of_unfed (B : Behavior C R) (fuel : Nat) (h : fedIn (m.event? p).toList = []) :
    moment? B p fuel m = none ∨ ∃ script, moment? B p fuel m = some (.built script) := by
  unfold moment?
  split
  · next he => simp [he, fedIn, PassEvent.feed?] at h
  · split
    · exact Or.inr ⟨_, rfl⟩
    · exact Or.inl rfl
  · split
    · exact Or.inr ⟨_, rfl⟩
    · exact Or.inl rfl
  · exact Or.inl rfl

theorem resumed_or_unfed (m : Machine C R) (p : Nat) :
    (∃ id script input, m.event? p = some (.resumed id script input)) ∨
      fedIn (m.event? p).toList = [] := by
  cases he : m.event? p with
  | none => exact Or.inr rfl
  | some e =>
    cases e with
    | resumed id script input => exact Or.inl ⟨id, script, input, rfl⟩
    | exiting | exited | finished => exact Or.inr rfl

/-- What the table says of a feed. -/
theorem nextFed_moments {fuel i j : Nat} (hij : i < j) {id : RoutineId} {script : Script C}
    {input : Outcome Value} (he : (after B i m).event? p = some (.resumed id script input)) :
    Moment.nextFed (Moment.past (moments B p fuel j m) (fedIn (trail B p i m)).length) =
      (answer? B p fuel (after B i m)).bind (Focus.result? ((after B i m).catches p)) := by
  induction i generalizing m j with
  | zero =>
    obtain ⟨j, rfl⟩ : ∃ j', j = j' + 1 := ⟨j - 1, by omega⟩
    have hnow : m.event? p = some (.resumed id script input) := he
    rw [moments, moment?_of_resumed hnow]
    simp [trail, Moment.nextFed, after]
  | succ i ih =>
    obtain ⟨j, rfl⟩ : ∃ j', j = j' + 1 := ⟨j - 1, by omega⟩
    have hlater := ih (m := m.step B) (Nat.lt_of_succ_lt_succ hij) he
    rw [moments, trail, fedIn_append, List.length_append]
    rcases resumed_or_unfed m p with ⟨id', script', input', hnow⟩ | hnow
    · rw [moment?_of_resumed hnow, hnow]
      simp only [Option.toList_some, fedIn_resumed, fedIn_nil, List.length_cons, List.length_nil,
        List.cons_append, List.nil_append, Nat.zero_add, Nat.add_comm 1]
      rw [Moment.past]
      exact hlater
    · rw [hnow, List.length_nil, Nat.zero_add]
      rcases moment?_of_unfed B fuel hnow with hnone | ⟨built, hbuilt⟩
      · rw [hnone]
        exact hlater
      · rw [hbuilt]
        exact (Moment.nextFed_past_built _ _ _).trans hlater

/-- What the table says of something that is built. -/
theorem past_moments {fuel i j : Nat} (hij : i < j) {built : Option (Script C)}
    (hspaced : Moment.spaced (moments B p fuel j m) = true)
    (hbuilt : moment? B p fuel (after B i m) = some (.built built)) :
    ∃ rest, Moment.past (moments B p fuel j m) (fedIn (trail B p i m)).length =
      .built built :: rest := by
  induction i generalizing m j with
  | zero =>
    obtain ⟨j, rfl⟩ : ∃ j', j = j' + 1 := ⟨j - 1, by omega⟩
    rw [moments]
    have hnow : moment? B p fuel m = some (.built built) := hbuilt
    rw [hnow]
    exact ⟨_, Moment.past_zero _⟩
  | succ i ih =>
    obtain ⟨j, rfl⟩ : ∃ j', j = j' + 1 := ⟨j - 1, by omega⟩
    rw [moments] at hspaced ⊢
    rw [trail, fedIn_append, List.length_append]
    rcases resumed_or_unfed m p with ⟨id', script', input', hnow⟩ | hnow
    · rw [moment?_of_resumed hnow] at hspaced ⊢
      rw [hnow]
      simp only [Option.toList_some, fedIn_resumed, fedIn_nil, List.length_cons, List.length_nil,
        List.cons_append, List.nil_append, Nat.zero_add, Nat.add_comm 1]
      rw [Moment.past]
      exact ih (Nat.lt_of_succ_lt_succ hij) (Moment.spaced_tail hspaced) hbuilt
    · rw [hnow, List.length_nil, Nat.zero_add]
      rcases moment?_of_unfed B fuel hnow with hnone | ⟨built', hbuilt'⟩
      · rw [hnone] at hspaced ⊢
        exact ih (Nat.lt_of_succ_lt_succ hij) hspaced hbuilt
      · rw [hbuilt'] at hspaced ⊢
        obtain ⟨rest, hrest⟩ :=
          ih (m := m.step B) (Nat.lt_of_succ_lt_succ hij) (Moment.spaced_tail hspaced) hbuilt
        -- something else has been built, so that somebody was fed in between
        cases hcount : (fedIn (trail B p i (m.step B))).length with
        | zero =>
          rw [hcount, Moment.past_zero] at hrest
          simp only [Option.toList_some, List.cons_append, List.nil_append, hrest] at hspaced
          cases hspaced
        | succ count =>
          rw [hcount] at hrest
          exact ⟨rest, hrest⟩

/-! ### Computing what is assumed -/

/-- Letting go of a handle leaves schedulers alone. A continuation that dies may leave
    routines unclaimed. -/
def sparing (m : Machine C R) : Handle → Bool
  | .continuation _ => true
  | h => m.lightly h

/-- Within so many moves everything in focus is let go of, and schedulers are left alone. -/
def letsGoSparing (B : Behavior C R) : (fuel : Nat) → Machine C R → Bool
  | 0, _ => false
  | fuel + 1, m =>
    match m.focus with
    | .release (h :: _) _ => m.sparing h && letsGoSparing B fuel (m.step B)
    | _ => true

theorem sparing_letGo {h : Handle} (hsparing : m.sparing h = true) (rest : List Handle)
    (onward : Onward C R) : ∃ hs, (m.letGo B h rest onward).control = m.control ∧
      (m.letGo B h rest onward).focus = .release (hs ++ rest) onward ∧
      ∀ s, m.scheduler? p = some s →
        ∃ t, (m.letGo B h rest onward).scheduler? p = some t ∧ s.Spared t := by
  by_cases hlightly : m.lightly h = true
  · obtain ⟨hs, hcontrol, hfocus, hsched⟩ := lightly_letGo (B := B) hlightly rest onward
    exact ⟨hs, hcontrol, hfocus, fun s hs => ⟨s, (hsched p).trans hs, .refl s⟩⟩
  · cases h with
    | continuation k =>
      cases hgone : (m.store.snapshots.letGo k).1 with
      | none => simp [lightly, hgone] at hlightly
      | some snapshot =>
        cases hids : snapshot.routines with
        | none => simp [lightly, hgone, hids] at hlightly
        | some ids =>
          have hletGo : m.letGo B (.continuation k) rest onward =
              ({ m with
                store := { m.store with snapshots := (m.store.snapshots.letGo k).2 }
                focus := .release (snapshot.handles B.held ++ rest) onward } : Machine C R).onScheduler
                snapshot.home fun q => { q with unclaimed := q.unclaimed ++ ids } := by
            simp only [letGo, Store.letGo, hgone, hids]
            rfl
          rw [hletGo]
          refine ⟨_, rfl, rfl, fun s hs => ?_⟩
          by_cases hhome : snapshot.home = p
          · subst hhome
            exact ⟨_, by rw [scheduler?_onScheduler]; exact congrArg (Option.map _) hs, _, _, _, rfl⟩
          · exact ⟨s, (scheduler?_onScheduler_of_ne _ hhome _).trans hs, .refl s⟩
    | _ => exact absurd hsparing hlightly

theorem reaches_of_letsGoSparing {fuel : Nat} {hs : List Handle} {onward : Onward C R}
    (hf : m.focus = .release hs onward) (h : letsGoSparing B fuel m = true) :
    ∃ n, Reaches B p m [] n ∧ n.control = m.control ∧ n.focus = .release [] onward ∧
      ∀ s, m.scheduler? p = some s → ∃ t, n.scheduler? p = some t ∧ s.Spared t := by
  induction fuel generalizing m hs with
  | zero => cases h
  | succ fuel ih =>
    cases hs with
    | nil => exact ⟨m, .refl m, rfl, hf, fun s hs => ⟨s, hs, .refl s⟩⟩
    | cons handle hs =>
      simp only [letsGoSparing, hf, Bool.and_eq_true] at h
      obtain ⟨hsparing, hrest⟩ := h
      obtain ⟨hs', hcontrol, hfocus, hspared⟩ := sparing_letGo (B := B) (p := p) hsparing hs onward
      have hstep : m.step B = m.letGo B handle hs onward := by simp only [step, hf]
      rw [← hstep] at hcontrol hfocus hspared
      obtain ⟨n, hr, hn, hnfocus, hnspared⟩ := ih hfocus hrest
      have hmove := (Reaches.refl (B := B) (p := p) m).unseen (event?_dropping hf)
      refine ⟨n, hmove.after_quiet hr, hn.trans hcontrol, hnfocus, fun s hs => ?_⟩
      obtain ⟨t, ht, hst⟩ := hspared s hs
      obtain ⟨u, hu, htu⟩ := hnspared t ht
      exact ⟨u, hu, hst.trans htu⟩

theorem dropsReturn_of_letsGoSparing {fuel : Nat} (h : letsGoSparing B fuel m = true) :
    DropsReturn B p m := by
  intro handle hs onward hf
  obtain ⟨n, hr, hcontrol, hfocus, hspared⟩ := reaches_of_letsGoSparing (p := p) hf h
  refine ⟨n, ?_, hcontrol, hfocus, hspared⟩
  rw [event?_dropping hf]
  exact hr

section

variable (B p)

/-- Letting go causes nothing, frames are copied without a hook, and blocks come back. -/
def composed (fuel : Nat) (m : Machine C R) : Bool :=
  (!m.atLoop p || letsGoSparing B fuel m) &&
    match m.focus, moment? B p fuel m with
    | .copy script, _ => (script.core.bind B.onCopy).isNone
    | _, some (.built none) => false
    | _, _ => true

/-- Between steps, no captured routine waits to be reclaimed. -/
def settled (m : Machine C R) : Bool :=
  !m.atLoop p || (m.scheduler? p).all fun s => s.unclaimed.isEmpty

end

variable {K : List (Frame C R)} {φ : List (PassEvent C) → Prop}

theorem dropsReturn_of_composed {fuel fuel' : Nat}
    (h : throughout B (fun _ => false) (composed B p fuel) fuel' m = true) :
    During B p K φ (DropsReturn B p) m := by
  rintro _ _ ⟨j, rfl, rfl⟩ - hloop
  have hcheck := check_after h j fun _ _ => rfl
  rw [composed, Bool.and_eq_true, hloop.atLoop, Bool.not_true, Bool.false_or] at hcheck
  exact dropsReturn_of_letsGoSparing hcheck.1

theorem copyReturns_of_composed {fuel fuel' : Nat}
    (h : throughout B (fun _ => false) (composed B p fuel) fuel' m = true) :
    During B p K φ (CopyReturns B p) m := by
  rintro _ n ⟨j, hn, rfl⟩ - - script hf
  have hcheck := check_after h j fun _ _ => rfl
  rw [hn, composed, Bool.and_eq_true] at hcheck
  have hnone : script.core.bind B.onCopy = none := by simpa [hf] using hcheck.2
  have hstep : n.step B = (n.retain (script.handles B.held)).give (.built script) := by
    simp only [step, hf, copyScript, hnone]
  have hr : Reaches B p n (n.event? p).toList (n.step B) := by
    simpa using (Reaches.refl (B := B) (p := p) n).move
  refine ⟨n.step B, hr, ?_⟩
  rw [hstep]
  exact ⟨rfl, ⟨.built script, rfl⟩, fun s hs => ⟨s, (scheduler?_retain n _ p).trans hs, .refl s⟩⟩

theorem noneUnclaimed_of_settled {fuel : Nat}
    (h : throughout B (fun _ => false) (settled p) fuel m = true) :
    During B p K φ (NoneUnclaimed p) m := by
  rintro _ n ⟨j, rfl, rfl⟩ - hloop s hs
  have hcheck := check_after h j fun _ _ => rfl
  rw [settled, hloop.atLoop, Bool.not_true, Bool.false_or, hs] at hcheck
  simpa using hcheck

theorem builds_of_composed {fuel fuel' i : Nat} {built : Option (Script C)}
    (h : throughout B (fun _ => false) (composed B p fuel) fuel' m = true)
    (hbuilt : moment? B p fuel (after B i m) = some (.built built)) : built ≠ none := by
  rintro rfl
  have hcheck := check_after h i fun _ _ => rfl
  rw [composed, Bool.and_eq_true, hbuilt] at hcheck
  unfold moment? at hbuilt
  split at hbuilt
  · cases hbuilt
  · next hf _ _ =>
    simp [hf] at hcheck
  · next hf _ _ =>
    simp [hf] at hcheck
  · cases hbuilt

section Conduct

variable {fuel fuel' : Nat} {hands : List (Feed C) → C → Option Value}

/-- What is built in a run is what its table says. -/
theorem built_of_moment (hands : List (Feed C) → C → Option Value) {evs : List (PassEvent C)}
    {f : Frame C R} {entry : Entry} {code : C}
    (hcontrol : n.control = f :: K) (hfocus : n.focus = .release [] (.begin code entry))
    (hf : (∃ id origin, f = .building p id origin) ∨ ∃ settler, f = .opening p settler)
    (h : throughout B (fun _ => false) (composed B p fuel) fuel' m = true)
    (hspaced : Moment.spaced (moments B p fuel fuel' m) = true) (hr : Reaches B p m evs n)
    (block : C) : ∃ g, answer? B p fuel n = some g ∧ Focus.built? (n.catches p) g =
      some ((Moment.conduct (moments B p fuel fuel' m) hands).build (fedIn evs) block) := by
  obtain ⟨i, rfl, rfl⟩ := hr
  have hlt : i < fuel' := by
    by_contra hge
    rw [control_of_throughout h (Nat.le_of_not_lt hge)] at hcontrol
    cases hcontrol
  have hquiet : (after B i m).event? p = none := by simp [event?, hfocus]
  have hbuilt : moment? B p fuel (after B i m) = some (.built ((answer? B p fuel (after B i m)).bind
      (Focus.built? ((after B i m).catches p)))) := by
    rcases hf with ⟨id, origin, rfl⟩ | ⟨settler, rfl⟩ <;>
      simp [moment?, hquiet, hfocus, hcontrol]
  obtain ⟨rest, hrest⟩ := past_moments hlt hspaced hbuilt
  obtain ⟨script, hscript⟩ := Option.ne_none_iff_exists'.mp (builds_of_composed h hbuilt)
  obtain ⟨g, hg, hgbuilt⟩ := Option.bind_eq_some_iff.mp hscript
  have hshows : (Moment.conduct (moments B p fuel fuel' m) hands).build (fedIn (trail B p i m)) block =
      script := by
    show (Moment.nextBuilt (Moment.past _ _)).getD _ = _
    rw [hrest, Moment.nextBuilt, hscript]
    rfl
  exact ⟨g, hg, hshows ▸ hgbuilt⟩

theorem builds_of_answer? {g : Focus C R} {script : Script C} (hg : answer? B p fuel n = some g)
    (hbuilt : Focus.built? (n.catches p) g = some script) :
    Answered B p n (Focus.builds (n.catches p) script) := by
  obtain ⟨o, hr, hcontrol, rfl, hsched⟩ := answered_of_answer? hg
  exact ⟨o, hr, hcontrol, Focus.builds_of_built? hbuilt, hsched⟩

theorem given_of_answer? {g : Focus C R} {script : Script C} (hg : answer? B p fuel n = some g)
    (hgiven : Focus.given g = true) (hbuilt : Focus.built? (n.catches p) g = some script) :
    Answered B p n fun f => ∃ a : Answer C, a.script = script ∧ f = .release [] (.give a) := by
  obtain ⟨o, hr, hcontrol, rfl, hsched⟩ := answered_of_answer? hg
  refine ⟨o, hr, hcontrol, ?_, hsched⟩
  unfold Focus.given at hgiven
  split at hgiven
  · next a hf =>
    rw [hf] at hbuilt
    exact ⟨a, Option.some.inj hbuilt, hf⟩
  · cases hgiven

/-- A run shows how its program conducts itself. -/
theorem plays_of_moments {N : Nat} {strict : Prop} (hreach : Reachable B m) (hroom : Roomy B p m)
    (h : throughout B (fun _ => false) (composed B p fuel) fuel' m = true)
    (hspaced : Moment.spaced (moments B p fuel fuel' m) = true)
    (hstill : strict → throughout B (fun _ => false) (settled p) fuel' m = true)
    (hhands : ∀ evs n id handler k v, Reaches B p m evs n → n.Calls p (.pass p :: K) id handler k →
      hands (fedIn evs) handler = some v → HandsBack B p K k v
        ((Moment.conduct (moments B p fuel fuel' m) hands).build (fedIn evs) handler) n) :
    Plays B p K (Moment.conduct (moments B p fuel fuel' m) hands) N strict m where
  reach := hreach
  room := hroom
  feeds := by
    rintro _ n id script input s result ⟨i, rfl, rfl⟩ - hat hfeed
    obtain ⟨huser, hnext⟩ := Option.ite_none_right_eq_some.mp hfeed
    have he : (after B i m).event? p = some (.resumed id script input) := by
      simp [event?, hat.focus, hat.control, huser]
    have hlt : i < fuel' := by
      by_contra hge
      have hcontrol := hat.control
      rw [control_of_throughout h (Nat.le_of_not_lt hge)] at hcontrol
      cases hcontrol
    rw [nextFed_moments hlt he] at hnext
    obtain ⟨f, hf, hresult⟩ := Option.bind_eq_some_iff.mp hnext
    obtain ⟨o, hr', hcontrol', rfl, hsched⟩ := answered_of_answer? hf
    exact ⟨huser, o, hr', hcontrol', Focus.ends_of_result? hresult, hsched⟩
  builds evs n id block s hr _ hat := by
    obtain ⟨g, hg, hbuilt⟩ :=
      built_of_moment _ hat.control hat.focus (Or.inl ⟨id, .reset, rfl⟩) h hspaced hr block
    exact builds_of_answer? hg hbuilt
  hands evs n id handler k v hr _ hcalls hv := hhands evs n id handler k v hr hcalls hv
  copies := copyReturns_of_composed h
  drops := dropsReturn_of_composed h
  still hstrict := noneUnclaimed_of_settled (hstill hstrict)

end Conduct

/-! ### Handlers that hand back a number -/

section

variable (B p)

/-- Continuation `k` is there, and the next move is no invocation of it. -/
def dormant (k : Nat) (m : Machine C R) : Bool :=
  (m.snapshot? k).isSome &&
    match m.focus with
    | .release [] (.act (.ask (.invoke j _) _)) => j != k
    | .advance (.reentry j (some _)) _ => j != k
    | _ => true

/-- What somebody is fed next, if continuation `k` is dormant until then. -/
def nextSeen (k : Nat) : (fuel : Nat) → Machine C R → Option (Machine C R)
  | 0, _ => none
  | fuel + 1, m =>
    if (m.event? p).isSome then some m
    else if m.dormant k then nextSeen k fuel (m.step B)
    else none

/-- Where code above this height of the control stack invokes continuation `k` with
    number `v`, if the program keeps to itself until then. -/
def asksFor (k : Nat) (v : Int64) (height : Nat) : (fuel : Nat) → Machine C R → Option (Machine C R)
  | 0, _ => none
  | fuel + 1, m =>
    match m.focus with
    | .release [] (.act (.ask (.invoke j (.int w)) _)) => if j = k ∧ w = v then some m else none
    | _ =>
      if (height < m.control.length || !m.popping) && m.aside && (m.event? p).isNone && m.dormant k then
        asksFor k v height fuel (m.step B)
      else none

/-- Code asks to suspend. -/
def Focus.suspended : Focus C R → Bool
  | .release [] (.give (.yield .suspend)) => true
  | _ => false

/-- A handler's code builds a script with one stage, which invokes continuation `k` with
    number `v` and suspends. -/
def handsNumber (k : Nat) (v : Int64) (fuel : Nat) (m : Machine C R) : Bool :=
  ((answer? B p fuel m).any fun
    | .release [] (.give (.built (.staged ⟨[_], none, 0, false⟩))) => true
    | _ => false) &&
  (nextSeen B p k fuel m).any fun n =>
    match n.focus with
    | .advance (.staged ⟨[.always _], none, 0, false⟩) _
    | .advance (.staged ⟨[.onSuccess _], none, 0, false⟩) _ =>
      n.dormant k && (asksFor B p k v (n.control.length + 1) fuel (n.step B)).any fun o =>
        (o.snapshot? k).isSome && throughout B (fun n => (n.event? p).isSome) (fun q =>
          match q.focus, q.control with
          | .release _ (.give (.reply _)), .holding _ :: .holding _ :: .code _ :: _ =>
            comesBack B p Focus.suspended (n.control.length + 1) fuel q
          | _, _ => true) fuel o
    | _ => false

end

theorem dormant_of_dormant {k : Nat} (h : m.dormant k = true) : Dormant k m := by
  obtain ⟨hhas, hnot⟩ := Bool.and_eq_true_iff.mp h
  refine ⟨Option.isSome_iff_exists.mp hhas, fun v hv => ?_⟩
  rcases hv with ⟨next, hf⟩ | ⟨input, hf⟩ <;> simp [hf] at hnot

theorem nextSeen_sound {k fuel : Nat} (h : nextSeen B p k fuel m = some n) :
    ∃ j, after B j m = n ∧ trail B p j m = [] ∧ (n.event? p).isSome ∧
      ∀ i < j, Dormant k (after B i m) := by
  induction fuel generalizing m with
  | zero => cases h
  | succ fuel ih =>
    unfold nextSeen at h
    split at h
    · next hseen =>
      cases h
      exact ⟨0, rfl, rfl, hseen, nofun⟩
    · next hunseen =>
      split at h
      · next hdormant =>
        obtain ⟨j, hj, htrail, hseen, hall⟩ := ih h
        refine ⟨j + 1, hj, ?_, hseen, fun i hi => ?_⟩
        · rw [trail, htrail, Option.not_isSome_iff_eq_none.mp hunseen]
          rfl
        · cases i with
          | zero => exact dormant_of_dormant hdormant
          | succ i => exact hall i (Nat.lt_of_succ_lt_succ hi)
      · cases h

/-- Who is seen next is the only one to be seen before anything else. -/
theorem eq_of_quiet {i j : Nat} (hi : trail B p i m = []) (hj : trail B p j m = [])
    (hseen : ((after B i m).event? p).isSome) (hseen' : ((after B j m).event? p).isSome) :
    after B i m = after B j m := by
  obtain ⟨e, he⟩ := Option.isSome_iff_exists.mp hseen
  obtain ⟨e', he'⟩ := Option.isSome_iff_exists.mp hseen'
  rcases Nat.lt_trichotomy i j with hlt | rfl | hlt
  · have := mem_trail hlt he
    rw [hj] at this
    cases this
  · rfl
  · have := mem_trail hlt he'
    rw [hi] at this
    cases this

theorem asksFor_sound {k fuel : Nat} {v : Int64} {base : List (Frame C R)}
    (hbase : base <:+ m.control) (h : asksFor B p k v base.length fuel m = some n) :
    ∃ j, after B j m = n ∧ trail B p j m = [] ∧ base <:+ n.control ∧
      (∃ next, n.focus = .release [] (.act (.ask (.invoke k (.int v)) next))) ∧
      n.scheduler? p = m.scheduler? p ∧ ∀ i < j, Dormant k (after B i m) := by
  induction fuel generalizing m with
  | zero => cases h
  | succ fuel ih =>
    unfold asksFor at h
    split at h
    · next j w next hf =>
      split at h
      · next heq =>
        cases h
        obtain ⟨rfl, rfl⟩ := heq
        exact ⟨0, rfl, rfl, hbase, ⟨next, hf⟩, rfl, nofun⟩
      · cases h
    · split at h
      · next hmore =>
        simp only [Bool.and_eq_true, Option.isNone_iff_eq_none] at hmore
        obtain ⟨⟨⟨hheight, haside⟩, hnone⟩, hdormant⟩ := hmore
        obtain ⟨j, hj, htrail, hsuffix, hasks, hsched, hall⟩ :=
          ih (suffix_step_of_height hbase hheight) h
        refine ⟨j + 1, hj, ?_, hsuffix, hasks, hsched.trans (scheduler?_step haside), fun i hi => ?_⟩
        · rw [trail, htrail, hnone]
          rfl
        · cases i with
          | zero => exact dormant_of_dormant hdormant
          | succ i => exact hall i (Nat.lt_of_succ_lt_succ hi)
      · cases h

/-- The only stage of a script is entered. -/
theorem enters_stage {stage : Stage C} {H : RoutineId} {s : Scheduler C} {input : Outcome Value}
    (hat : At p K [.stepping p H] (.advance (oneStage stage 0) input) s m)
    (hstage : (∃ code, stage = .always code) ∨ ∃ code v, stage = .onSuccess code ∧ input = .success v) :
    (m.step B).control = .inStaged ⟨[stage], none, 1, false⟩ :: .stepping p H :: .pass p :: K ∧
      (m.step B).scheduler? p = some s := by
  rcases hstage with ⟨code, rfl⟩ | ⟨code, v, rfl, rfl⟩ <;>
  · simp only [step, hat.focus, oneStage, advanceScript, enterStage, Staged.enter]
    exact ⟨congrArg (_ :: ·) hat.control, (scheduler?_retain m _ p).trans hat.scheduler⟩

/-- Code of a stage suspends. -/
theorem suspendsAs_of_comesBack {stage : Stage C} {H : RoutineId} {fuel : Nat}
    (hbase : .inStaged ⟨[stage], none, 1, false⟩ :: .stepping p H :: .pass p :: K <:+ m.control)
    (h : comesBack B p Focus.suspended (K.length + 3) fuel m = true) :
    SuspendsAs B p K H (oneStage stage 1) m := by
  obtain ⟨n, hr, hcontrol, hok, hsched⟩ := reaches_of_comesBack hbase h
  intro s hs
  unfold Focus.suspended at hok
  split at hok
  · next hf =>
    have hquiet : n.event? p = none := by simp [event?, hf]
    have hstep : n.step B = ({ n with control := .stepping p H :: .pass p :: K } : Machine C R).give
        (.stepped (.yield .suspend) (oneStage stage 1)) := by
      simp only [step, hf, goOn, hcontrol]
      rfl
    refine ⟨n.step B, s, hr.unseen hquiet, ?_, .refl s⟩
    rw [hstep]
    exact ⟨rfl, rfl, hsched.trans hs⟩
  · cases hok

theorem handsBack_of_handsNumber {k fuel : Nat} {v : Int64} {g : Focus C R} {script : Script C}
    (h : handsNumber B p k v fuel m = true) (hg : answer? B p fuel m = some g)
    (hbuilt : Focus.built? (m.catches p) g = some script) : HandsBack B p K k (.int v) script m := by
  rw [handsNumber, hg, Bool.and_eq_true, Option.any_some] at h
  obtain ⟨hone, hthen⟩ := h
  split at hone
  case h_2 => cases hone
  next stage =>
  obtain rfl : oneStage stage 0 = script := Option.some.inj hbuilt
  refine ⟨stage, rfl, ?_, fun n H s hr hat => ?_⟩
  · obtain ⟨o, hr, hcontrol, hfocus, hsched⟩ := answered_of_answer? hg
    exact ⟨o, hr, hcontrol, ⟨.built (oneStage stage 0), rfl, hfocus⟩, hsched⟩
  -- who is seen next is the handler
  obtain ⟨n', hn', hthen⟩ := (Option.any_eq_true _ _).mp hthen
  obtain ⟨i, rfl, htrail, hseen, hdormant⟩ := nextSeen_sound hn'
  obtain ⟨i', rfl, htrail'⟩ := hr
  have hfed : (after B i' m).event? p = some (.resumed H (oneStage stage 0) .unit) := by
    simp [event?, hat.focus, hat.control, oneStage, Script.isUser]
  have hsame := eq_of_quiet htrail htrail' hseen (by rw [hfed]; rfl)
  rw [hsame, hat.focus] at hthen
  obtain ⟨hstage, hthen⟩ : ((∃ code, stage = .always code) ∨
      ∃ code v, stage = .onSuccess code ∧ (.unit : Outcome Value) = .success v) ∧
      ((after B i' m).dormant k && (asksFor B p k v ((after B i' m).control.length + 1) fuel
        ((after B i' m).step B)).any fun o => (o.snapshot? k).isSome &&
          throughout B (fun n => (n.event? p).isSome) (fun q => match q.focus, q.control with
          | .release _ (.give (.reply _)), .holding _ :: .holding _ :: .code _ :: _ =>
            comesBack B p Focus.suspended ((after B i' m).control.length + 1) fuel q
          | _, _ => true) fuel o) = true := by
    cases stage with
    | always code => exact ⟨Or.inl ⟨code, rfl⟩, hthen⟩
    | onSuccess code => exact ⟨Or.inr ⟨code, .unit, rfl, rfl⟩, hthen⟩
    | constant o => cases hthen
  rw [Bool.and_eq_true] at hthen
  obtain ⟨hdormant', hasks⟩ := hthen
  obtain ⟨o, ho, hback⟩ := (Option.any_eq_true _ _).mp hasks
  rw [Bool.and_eq_true] at hback
  obtain ⟨hcontrol, hsched⟩ := enters_stage (B := B) hat hstage
  have hbase : (.inStaged ⟨[stage], none, 1, false⟩ :: .stepping p H :: .pass p :: K).length =
      (after B i' m).control.length + 1 := by rw [hat.control]; rfl
  rw [← hbase] at ho
  obtain ⟨j, rfl, htrail₂, ⟨pre, hpre⟩, ⟨next, hfocus⟩, hsched₂, hdormant₂⟩ :=
    asksFor_sound (hcontrol ▸ List.suffix_refl _) ho
  have hr : Reaches B p (after B i' m) [.resumed H (oneStage stage 0) .unit]
      (after B j ((after B i' m).step B)) := by
    have hone := (Reaches.refl (B := B) (p := p) (after B i' m)).seen hfed
    exact hone.quietly ⟨j, rfl, htrail₂⟩
  refine ⟨_, pre ++ [.inStaged ⟨[stage], none, 1, false⟩], next, s, hr, ⟨?_, hfocus, ?_⟩, .refl s, ?_,
    Option.isSome_iff_exists.mp hback.1, fun n' hs t' hr' hat' => ?_⟩
  · rw [← hpre]
    simp
  · rw [hsched₂, hsched]
  · have hafter : after B j ((after B i' m).step B) = after B (i + (j + 1)) m := by
      rw [← hsame, after_add]
      rfl
    rw [hafter]
    refine laterWhile_after fun l hl => ?_
    rcases Nat.lt_trichotomy l i with hlt | rfl | hlt
    · exact hdormant l hlt
    · exact hsame ▸ dormant_of_dormant hdormant'
    · obtain ⟨d, rfl⟩ : ∃ d, l = i + (d + 1) := ⟨l - i - 1, by omega⟩
      rw [after_add, hsame]
      exact hdormant₂ d (by omega)
  · have hcheck := check_of_quiet hback.2 hr'
    rw [hat'.focus, hat'.control] at hcheck
    rw [← hbase] at hcheck
    refine suspendsAs_of_comesBack ?_ hcheck
    rw [hat'.control]
    exact ⟨.holding [.scheduler p] :: .holding [.continuation k] :: .code next :: pre, by simp [invoking]⟩

variable (B p) in
/-- If a handler is called next, it hands back number `v`. -/
def handsBack (v : Int64) (fuel : Nat) (m : Machine C R) : Bool :=
  match m.focus, m.control with
  | .release [] (.begin _ (.handle k _)), .building _ _ _ :: _ => handsNumber B p k v fuel m
  | _, _ => true

/-- A run whose handlers hand back number `v` shows how its program conducts itself. -/
theorem plays_of_handsBack {fuel fuel' N : Nat} {strict : Prop} {v : Int64}
    (hreach : Reachable B m)
    (hroom : throughout B (fun _ => false) (fewSlots p) fuel' m = true)
    (h : throughout B (fun _ => false) (composed B p fuel) fuel' m = true)
    (hspaced : Moment.spaced (moments B p fuel fuel' m) = true)
    (hstill : strict → throughout B (fun _ => false) (settled p) fuel' m = true)
    (hhands : throughout B (fun _ => false) (handsBack B p v fuel) fuel' m = true) :
    Plays B p K (Moment.conduct (moments B p fuel fuel' m) fun _ _ => some (.int v)) N strict m := by
  refine plays_of_moments hreach (roomy_of_fewSlots hroom) h hspaced hstill ?_
  intro evs n id handler k w hr hcalls hw
  cases hw
  obtain ⟨g, hg, hbuilt⟩ :=
    built_of_moment _ hcalls.control hcalls.focus (Or.inl ⟨id, .shift, rfl⟩) h hspaced hr handler
  obtain ⟨i, rfl, rfl⟩ := hr
  have hcheck := check_after hhands i fun _ _ => rfl
  rw [handsBack, hcalls.focus, hcalls.control] at hcheck
  exact handsBack_of_handsNumber hcheck hg hbuilt

/-- The scheduler, the code and what is told next, if somebody asks for an evaluation. -/
def evaluation? (m : Machine C R) : Option (Nat × C × R) :=
  match m.focus with
  | .release [] (.act (.ask (.evaluate p code) next)) => some (p, code, next)
  | _ => none

theorem of_evaluation? {code : C} {next : R} (h : m.evaluation? = some (p, code, next)) :
    m.focus = .release [] (.act (.ask (.evaluate p code) next)) := by
  unfold evaluation? at h
  split at h
  · next hf =>
    cases h
    exact hf
  · cases h

end Machine

end Strand
