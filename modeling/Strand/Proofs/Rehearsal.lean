import Strand.Proofs.Control
import Strand.Proofs.Turns

/-! # Rehearsals — assumptions about a run, computed

    What the program answers to the calls of a pass is an assumption of the
    results about passes. For a given machine it can be computed:

    * `answers` follows a call until the program has come back, and checks on
      the way that it keeps to itself (`answered_of_answers`);
    * `throughout` goes through a run to its end and checks every machine on
      the way (`check_after`), `rehearsed` those within a pass
      (`during_of_rehearsed`). -/

namespace Strand

/-- The number that a success is about. -/
def Outcome.int? : Outcome Value → Option Int64
  | .success (.int n) => some n
  | _ => none

theorem Outcome.int?_eq_some {o : Outcome Value} {n : Int64} (h : o.int? = some n) :
    o = .success (.int n) := by
  unfold Outcome.int? at h
  split at h
  · cases h
    rfl
  · cases h

/-- The frames that have nothing to do with schedulers. -/
def Frame.plain {C R : Type} : Frame C R → Bool
  | .code _ | .holding _ | .attempting | .ignoring | .replying _ => true
  | .inStaged _ | .inOwn _ | .inExit _ | .inReentry _ => true
  | _ => false

namespace Machine

variable {C R : Type} {B : Behavior C R} {p : Nat} {m : Machine C R}

/-! ### Moves beside the schedulers -/

/-- Letting go of a handle has nothing to do with schedulers: there are others
    that hold what it refers to, or it refers to something else. A continuation that
    has been invoked has no routines to give up. -/
def lightly (m : Machine C R) : Handle → Bool
  | .scheduler q => ((m.store.schedulers.letGo q).2.find? q).isSome
  | .continuation k => (m.store.snapshots.letGo k).1.all fun snapshot => snapshot.routines.isNone
  | .settler c =>
    match m.store.completions.find? c with
    | some ⟨.pending _, settlers⟩ => 1 < settlers
    | _ => true
  | _ => true

/-- The next move has nothing to do with schedulers. -/
def aside (m : Machine C R) : Bool :=
  match m.focus, m.control with
  | .release (h :: _) _, _ => m.lightly h
  | .advance (.reentry _ (some _)) _, _ => false
  | .advance _ _, _ | .exit _, _ | .copy _, _ => true
  | .release [] (.begin _ _), _ | .release [] (.tell _ _), _ => true
  | .release [] (.act (.ask (.record _) _)), _ => true
  | .release [] (.act (.ask _ _)), _ => false
  | .release [] (.act _), _ => true
  | .release [] (.give _), f :: _ | .release [] (.unwind _ _), f :: _ => f.plain
  | _, _ => false

theorem scheduler?_enterStage (held : C → List Handle) (s : Staged C) (input : Outcome Value) :
    (m.enterStage held s input).scheduler? p = m.scheduler? p := by
  unfold enterStage
  split
  · rfl
  · exact scheduler?_retain m _ p
  · exact scheduler?_retain m _ p

theorem scheduler?_exitStages (held : C → List Handle) (s : Staged C) :
    (m.exitStages held s).scheduler? p = m.scheduler? p := by
  unfold exitStages
  split
  · exact scheduler?_retain m _ p
  · rfl

theorem scheduler?_moveOwn (state : C) (exiting : Bool) (input : Outcome Value) :
    (m.moveOwn B state exiting input).scheduler? p = m.scheduler? p :=
  scheduler?_retain m _ p

theorem scheduler?_advanceScript {script : Script C} {input : Outcome Value}
    (h : ∀ k v, script ≠ .reentry k (some v)) :
    (m.advanceScript B script input).scheduler? p = m.scheduler? p := by
  unfold advanceScript
  split
  · exact scheduler?_enterStage _ _ _
  · exact scheduler?_moveOwn _ _ _
  · dsimp only
    split <;> rfl
  · split
    · rfl
    · exact scheduler?_retain m _ p
  · rfl
  · next k v => exact absurd rfl (h k v)
  · rfl

theorem scheduler?_exitScript (script : Script C) :
    (m.exitScript B script).scheduler? p = m.scheduler? p := by
  unfold exitScript
  split
  · exact scheduler?_exitStages _ _
  · exact scheduler?_moveOwn _ _ _
  · rfl
  · rfl

theorem scheduler?_copyScript (script : Script C) :
    (m.copyScript B script).scheduler? p = m.scheduler? p := by
  unfold copyScript
  split <;> exact scheduler?_retain m _ p

theorem scheduler?_deliver {f : Frame C R} (hf : f.plain = true) (a : Answer C) :
    (m.deliver B a f).scheduler? p = m.scheduler? p := by
  cases f with
  | code next =>
    unfold deliver
    dsimp only
    split <;> rfl
  | inExit progress =>
    unfold deliver
    dsimp only
    split
    · unfold exitStepped
      split
      · exact scheduler?_retain m _ p
      · rfl
    · rfl
  | holding | attempting | ignoring | replying | inStaged | inOwn | inReentry => rfl
  | _ => cases hf

theorem scheduler?_unwindFrame {f : Frame C R} (hf : f.plain = true) (payload : Payload)
    (salvage : Option (Script C)) :
    (m.unwindFrame B payload salvage f).scheduler? p = m.scheduler? p := by
  cases f with
  | code | holding | attempting | ignoring | replying | inStaged | inOwn | inExit
  | inReentry => rfl
  | _ => cases hf

/-- A handle that has nothing to do with schedulers is let go of in one move,
    which may leave more handles to let go of. -/
theorem lightly_letGo {h : Handle} (hlightly : m.lightly h = true) (rest : List Handle)
    (onward : Onward C R) : ∃ hs, (m.letGo B h rest onward).control = m.control ∧
      (m.letGo B h rest onward).focus = .release (hs ++ rest) onward ∧
      ∀ p, (m.letGo B h rest onward).scheduler? p = m.scheduler? p := by
  have hstore : ∃ hs, (m.store.letGo B.held h).1 = .release hs ∧
      ∀ p, (m.store.letGo B.held h).2.schedulers.find? p = m.store.schedulers.find? p := by
    cases h with
    | scheduler q =>
      refine ⟨_, rfl, fun p => ?_⟩
      rcases Table.find?_letGo m.store.schedulers q p with hsame | ⟨rfl, hnone⟩
      · exact hsame
      · simp [lightly, hnone] at hlightly
    | continuation k =>
      cases hgone : (m.store.snapshots.letGo k).1 with
      | none =>
        simp only [Store.letGo, hgone]
        exact ⟨[], rfl, fun _ => trivial⟩
      | some snapshot =>
        have hspent : snapshot.routines = none := by simpa [lightly, hgone] using hlightly
        simp only [Store.letGo, hgone, hspent]
        exact ⟨_, rfl, fun _ => trivial⟩
    | settler c =>
      cases hc : m.store.completions.find? c with
      | none =>
        simp only [Store.letGo, hc]
        exact ⟨[], rfl, fun _ => trivial⟩
      | some x =>
        obtain ⟨progress, settlers⟩ := x
        cases progress with
        | pending listeners =>
          have hmore : ¬ settlers ≤ 1 := by simpa [lightly, hc] using hlightly
          simp only [Store.letGo, hc, if_neg hmore]
          exact ⟨_, rfl, fun _ => rfl⟩
        | settled o =>
          simp only [Store.letGo, hc]
          exact ⟨_, rfl, fun _ => rfl⟩
    | completion | queue | reenter | bridge | coroutine => exact ⟨_, rfl, fun _ => rfl⟩
  obtain ⟨hs, haftermath, hfind⟩ := hstore
  refine ⟨hs, ?_⟩
  unfold letGo
  split
  · next hs' store heq =>
    rw [heq] at hfind haftermath
    cases haftermath
    exact ⟨rfl, rfl, hfind⟩
  · next c store heq =>
    rw [heq] at haftermath
    cases haftermath

/-- A move beside the schedulers leaves them as they are. -/
theorem scheduler?_step (h : m.aside = true) :
    (m.step B).scheduler? p = m.scheduler? p := by
  cases hf : m.focus with
  | advance script input =>
    simp only [step, hf]
    refine scheduler?_advanceScript ?_
    rintro k v rfl
    simp [aside, hf] at h
  | exit script =>
    simp only [step, hf]
    exact scheduler?_exitScript script
  | copy script =>
    simp only [step, hf]
    exact scheduler?_copyScript script
  | aborted => simp only [step, hf]
  | release hs onward =>
    cases hs with
    | cons handle hs =>
      simp only [aside, hf] at h
      simp only [step, hf]
      obtain ⟨-, -, -, hsched⟩ := lightly_letGo (B := B) h hs onward
      exact hsched p
    | nil =>
      simp only [step, hf]
      cases onward with
      | begin code entry => exact scheduler?_retain m _ p
      | tell state signal =>
        simp only [goOn, tell, recount]
        split <;> exact scheduler?_retain m _ p
      | act reaction =>
        cases reaction with
        | ask request next =>
          cases request with
          | record note => rfl
          | _ => simp [aside, hf] at h
        | _ => rfl
      | give a =>
        cases hc : m.control with
        | nil => simp [aside, hf, hc] at h
        | cons f control =>
          simp only [aside, hf, hc] at h
          simp only [goOn, hc]
          exact scheduler?_deliver h a
      | unwind payload salvage =>
        cases hc : m.control with
        | nil => simp [aside, hf, hc] at h
        | cons f control =>
          simp only [aside, hf, hc] at h
          simp only [goOn, hc]
          exact scheduler?_unwindFrame h payload salvage

/-! ### Calls -/

variable (B p)

/-- Within so many moves the program is back at this height of the control
    stack, in such a focus, and has kept to itself. -/
def comesBack (ok : Focus C R → Bool) (height : Nat) : (fuel : Nat) → Machine C R → Bool
  | 0, _ => false
  | fuel + 1, m =>
    m.control.length = height && ok m.focus ||
      (height < m.control.length || !m.popping) && m.aside && (m.event? p).isNone &&
        comesBack ok height fuel (m.step B)

/-- The call in focus comes back within so many moves. -/
def answers (ok : Focus C R → Bool) (fuel : Nat) (m : Machine C R) : Bool :=
  !m.popping && m.aside && comesBack B p ok m.control.length fuel (m.step B)

variable {B p}

theorem suffix_step_of_height {base : List (Frame C R)} (hbase : base <:+ m.control)
    (h : (decide (base.length < m.control.length) || !m.popping) = true) :
    base <:+ (m.step B).control := by
  cases hpop : m.popping with
  | false => exact hbase.trans (suffix_step m B hpop)
  | true =>
    have hlt : base.length < m.control.length := by simpa [hpop] using h
    refine List.IsSuffix.trans ?_ (tail_suffix_step m B)
    cases hc : m.control with
    | nil => simp [hc] at hlt
    | cons f control =>
      rw [hc] at hbase hlt
      rcases List.suffix_cons_iff.mp hbase with rfl | htail
      · exact absurd hlt (Nat.lt_irrefl _)
      · exact htail

theorem reaches_of_comesBack {ok : Focus C R → Bool} {base : List (Frame C R)} {fuel : Nat}
    (hbase : base <:+ m.control) (h : comesBack B p ok base.length fuel m = true) :
    ∃ n, Reaches B p m [] n ∧ n.control = base ∧ ok n.focus = true ∧
      n.scheduler? p = m.scheduler? p := by
  induction fuel generalizing m with
  | zero => cases h
  | succ fuel ih =>
    rw [comesBack, Bool.or_eq_true, Bool.and_eq_true] at h
    rcases h with ⟨hlength, hok⟩ | hmore
    · refine ⟨m, .refl m, ?_, hok, rfl⟩
      exact (hbase.eq_of_length (of_decide_eq_true hlength).symm).symm
    · simp only [Bool.and_eq_true, Option.isNone_iff_eq_none] at hmore
      obtain ⟨⟨⟨hheight, haside⟩, hnone⟩, hback⟩ := hmore
      obtain ⟨n, hr, hcontrol, hok, hsched⟩ :=
        ih (suffix_step_of_height hbase hheight) hback
      exact ⟨n, (Reaches.unseen (.refl m) hnone).after_quiet hr, hcontrol, hok,
        hsched.trans (scheduler?_step haside)⟩

theorem answered_of_answers {ok : Focus C R → Bool} {Ok : Focus C R → Prop} {fuel : Nat}
    (h : answers B p ok fuel m = true) (hok : ∀ f, ok f = true → Ok f) :
    Answered B p m Ok := by
  simp only [answers, Bool.and_eq_true, Bool.not_eq_true'] at h
  obtain ⟨⟨hpop, haside⟩, hback⟩ := h
  obtain ⟨n, hr, hcontrol, hfocus, hsched⟩ :=
    reaches_of_comesBack (suffix_step m B hpop) hback
  refine ⟨n, ?_, hcontrol, hok _ hfocus, ?_⟩
  · have hall := ((Reaches.refl (B := B) (p := p) m).move).trans hr
    simpa using hall
  · intro s hs
    exact ⟨s, by rw [hsched, scheduler?_step haside, hs], .refl s⟩

/-! ### Runs -/

section Runs

variable (B p)

/-- Within so many moves the machine halts or comes to a stop, and the check
    holds until then. -/
def throughout (stop check : Machine C R → Bool) : (fuel : Nat) → Machine C R → Bool
  | 0, _ => false
  | fuel + 1, m =>
    check m &&
      (stop m || m.control.isEmpty && m.popping || throughout stop check fuel (m.step B))

/-- A pass of `p` is at work, and no code of the program is running. -/
def atLoop (m : Machine C R) : Bool :=
  match m.control.dropWhile (Frame.ofLoop p) with
  | .pass q :: _ => q = p
  | _ => false

/-- Within so many moves the machine halts or is about to do something, and the
    check holds of what a pass of `p` calls until then. -/
def rehearsed (last : PassEvent C → Bool) (check : Machine C R → Bool) (fuel : Nat)
    (m : Machine C R) : Bool :=
  throughout B (fun n => (n.event? p).any last) (fun n => !n.atLoop p || check n) fuel m

end Runs

theorem step_of_ended (hcontrol : m.control = []) (hpop : m.popping = true) : m.step B = m := by
  unfold popping at hpop
  unfold step
  split at hpop
  · next a hf => simp only [hf, goOn, hcontrol]
  · next payload salvage hf => simp only [hf, goOn, hcontrol]
  · cases hpop

/-- What holds until the machine halts or comes to a stop holds of all that it
    comes to before the stop. -/
theorem check_after {stop check : Machine C R → Bool} {fuel : Nat}
    (h : throughout B stop check fuel m = true) (j : Nat)
    (hgo : ∀ i < j, stop (after B i m) = false) : check (after B j m) = true := by
  induction j generalizing m fuel with
  | zero =>
    cases fuel with
    | zero => cases h
    | succ fuel =>
      rw [throughout, Bool.and_eq_true] at h
      exact h.1
  | succ j ih =>
    cases fuel with
    | zero => cases h
    | succ fuel =>
      have hall := h
      have hgo₀ : stop m = false := hgo 0 (Nat.succ_pos j)
      have hgo' : ∀ i < j, stop (after B i (m.step B)) = false := fun i hi =>
        hgo (i + 1) (Nat.succ_lt_succ hi)
      rw [throughout, Bool.and_eq_true, Bool.or_eq_true, Bool.or_eq_true, Bool.and_eq_true] at h
      rcases h.2 with (hstop | ⟨hempty, hpop⟩) | hrest
      · rw [hgo₀] at hstop
        cases hstop
      · have hsame : m.step B = m := step_of_ended (List.isEmpty_iff.mp hempty) hpop
        rw [hsame] at hgo'
        have hall' : throughout B stop check (fuel + 1) (m.step B) = true := by
          rw [hsame]
          exact hall
        exact ih hall' (by rw [hsame]; exact hgo')
      · exact ih hrest hgo'

variable (B) in
/-- The check holds of the next so many machines. -/
def lasting (check : Machine C R → Bool) : Nat → Machine C R → Bool
  | 0, _ => true
  | j + 1, m => check m && lasting check j (m.step B)

theorem check_of_lasting {check : Machine C R → Bool} {j : Nat} (h : lasting B check j m = true) :
    ∀ i < j, check (after B i m) = true := by
  induction j generalizing m with
  | zero => exact fun i hi => absurd hi (Nat.not_lt_zero i)
  | succ j ih =>
    obtain ⟨hnow, hlater⟩ := Bool.and_eq_true_iff.mp h
    intro i hi
    cases i with
    | zero => exact hnow
    | succ i => exact ih hlater i (Nat.lt_of_succ_lt_succ hi)

theorem AtLoop.atLoop {K : List (Frame C R)} (h : AtLoop p K m) : m.atLoop p = true := by
  obtain ⟨fs, hcontrol, hfs⟩ := h
  have hdrop : m.control.dropWhile (Frame.ofLoop p) = .pass p :: K := by
    rw [hcontrol, List.dropWhile_append_of_pos hfs]
    exact List.dropWhile_cons_of_neg Bool.false_ne_true
  rw [Machine.atLoop, hdrop]
  exact decide_eq_true rfl

theorem mem_trail {i j : Nat} (hi : i < j) {e : PassEvent C}
    (he : (after B i m).event? p = some e) : e ∈ trail B p j m := by
  obtain ⟨d, rfl⟩ : ∃ d, j = i + (d + 1) := ⟨j - i - 1, by omega⟩
  rw [trail_add, trail, he]
  exact List.mem_append_right _ (List.mem_append_left _ (Option.mem_toList.mpr rfl))

/-- There is a first event that is not as described, if there is one. -/
theorem exists_first {Q : PassEvent C → Prop} {j : Nat} {e : PassEvent C}
    (he : e ∈ trail B p j m) (hnot : ¬ Q e) :
    ∃ i e', (∀ e ∈ trail B p i m, Q e) ∧ (after B i m).event? p = some e' ∧ ¬ Q e' := by
  induction j generalizing m with
  | zero => cases he
  | succ j ih =>
    by_cases hnow : ∀ e ∈ (m.event? p).toList, Q e
    · rw [trail, List.mem_append] at he
      rcases he with he | he
      · exact absurd (hnow e he) hnot
      · obtain ⟨i, e', hbefore, he', hnot'⟩ := ih he
        refine ⟨i + 1, e', ?_, he', hnot'⟩
        rw [trail, List.forall_mem_append]
        exact ⟨hnow, hbefore⟩
    · obtain ⟨e', hmem, hnot'⟩ : ∃ e' ∈ (m.event? p).toList, ¬ Q e' := by
        by_contra hall
        exact hnow fun e he => by_contra fun h => hall ⟨e, he, h⟩
      exact ⟨0, e', List.forall_mem_nil _, Option.mem_toList.mp hmem, hnot'⟩

/-- And only one such event is the first. -/
theorem first_unique {Q : PassEvent C → Prop} {i j : Nat} {e e' : PassEvent C}
    (hi : ∀ e ∈ trail B p i m, Q e) (he : (after B i m).event? p = some e) (hnot : ¬ Q e)
    (hj : ∀ e ∈ trail B p j m, Q e) (he' : (after B j m).event? p = some e') (hnot' : ¬ Q e') :
    e = e' := by
  rcases Nat.lt_trichotomy i j with hlt | rfl | hlt
  · exact absurd (hj e (mem_trail hlt he)) hnot
  · exact Option.some.inj (he.symm.trans he')
  · exact absurd (hi e' (mem_trail hlt he')) hnot'

/-- What holds until something happens holds of all that is reached quietly. -/
theorem check_of_quiet {check : Machine C R → Bool} {fuel : Nat}
    (h : throughout B (fun n => (n.event? p).isSome) check fuel m = true) {n : Machine C R}
    (hr : Reaches B p m [] n) : check n = true := by
  obtain ⟨j, rfl, hquiet⟩ := hr
  refine check_after h j fun i hi => ?_
  rw [Option.isSome_eq_false_iff, Option.isNone_iff_eq_none]
  cases he : (after B i m).event? p with
  | none => rfl
  | some e =>
    have hmem := mem_trail hi he
    rw [hquiet] at hmem
    cases hmem

theorem during_of_rehearsed {last : PassEvent C → Bool} {check : Machine C R → Bool}
    {Q : Machine C R → Prop} {fuel : Nat} {K : List (Frame C R)}
    {φ : List (PassEvent C) → Prop} (h : rehearsed B p last check fuel m = true)
    (hφ : ∀ evs, φ evs → ∀ e ∈ evs, last e = false) (hcheck : ∀ n, check n = true → Q n) :
    During B p K φ Q m := by
  rintro _ _ ⟨j, rfl, rfl⟩ hevs hloop
  have hchecked := check_after h j fun i hi => by
    rw [Option.any_eq_false]
    exact fun e he => hφ _ hevs e (mem_trail hi he)
  rw [hloop.atLoop] at hchecked
  exact hcheck _ hchecked

/-! ### What is checked -/

variable (p) in
/-- The slots of the scheduler are few enough. -/
def fewSlots (m : Machine C R) : Bool :=
  match m.scheduler? p with
  | some s => s.routines.slots.size ≤ 2 ^ 32
  | none => true

theorem roomy_of_fewSlots {fuel : Nat}
    (h : throughout B (fun _ => false) (fewSlots p) fuel m = true) : Roomy B p m := by
  rintro _ _ s ⟨j, rfl, rfl⟩ hs
  have hfew := check_after h j fun _ _ => rfl
  simp only [fewSlots, hs] at hfew
  exact of_decide_eq_true hfew

/-- There is nothing to let go of. -/
def dropsNothing (m : Machine C R) : Bool :=
  match m.focus with
  | .release (_ :: _) _ => false
  | _ => true

theorem dropsReturn_of_dropsNothing (h : m.dropsNothing = true) : DropsReturn B p m := by
  intro handle hs onward hf
  simp [dropsNothing, hf] at h

/-- Within so many moves everything in focus is let go of, and none of it has to
    do with schedulers. -/
def letsGo (B : Behavior C R) : (fuel : Nat) → Machine C R → Bool
  | 0, _ => false
  | fuel + 1, m =>
    match m.focus with
    | .release (h :: _) _ => m.lightly h && letsGo B fuel (m.step B)
    | _ => true

theorem reaches_of_letsGo {fuel : Nat} {hs : List Handle} {onward : Onward C R}
    (hf : m.focus = .release hs onward) (h : letsGo B fuel m = true) :
    ∃ n, Reaches B p m [] n ∧ n.control = m.control ∧ n.focus = .release [] onward ∧
      n.scheduler? p = m.scheduler? p := by
  induction fuel generalizing m hs with
  | zero => cases h
  | succ fuel ih =>
    cases hs with
    | nil => exact ⟨m, .refl m, rfl, hf, rfl⟩
    | cons handle hs =>
      simp only [letsGo, hf, Bool.and_eq_true] at h
      obtain ⟨hlightly, hrest⟩ := h
      obtain ⟨hs', hcontrol, hfocus, hsched⟩ := lightly_letGo (B := B) hlightly hs onward
      have hstep : m.step B = m.letGo B handle hs onward := by simp only [step, hf]
      rw [← hstep] at hcontrol hfocus hsched
      obtain ⟨n, hr, hn, hnfocus, hnsched⟩ := ih hfocus hrest
      have hmove := (Reaches.refl (B := B) (p := p) m).unseen (event?_dropping hf)
      exact ⟨n, hmove.after_quiet hr, hn.trans hcontrol, hnfocus, hnsched.trans (hsched p)⟩

theorem dropsReturn_of_letsGo {fuel : Nat} (h : letsGo B fuel m = true) : DropsReturn B p m := by
  intro handle hs onward hf
  obtain ⟨n, hr, hcontrol, hfocus, hsched⟩ := reaches_of_letsGo (p := p) hf h
  refine ⟨n, ?_, hcontrol, hfocus, ?_⟩
  · rw [event?_dropping hf]
    exact hr
  · intro s hs
    exact ⟨s, hsched.trans hs, .refl s⟩

/-- A step is over. -/
def Focus.steppedDone : Focus C R → Bool
  | .release [] (.give (.stepped (.done _) _)) => true
  | _ => false

variable (B p) in
/-- An exit in focus comes back within so many moves. -/
def exitsAtOnce (fuel : Nat) (m : Machine C R) : Bool :=
  match m.focus with
  | .exit _ => answers B p Focus.steppedDone fuel m
  | _ => true

theorem exitsReturn_of_exitsAtOnce {fuel : Nat} (h : exitsAtOnce B p fuel m = true) :
    ExitsReturn B p m := by
  intro script hf
  simp only [exitsAtOnce, hf] at h
  refine answered_of_answers h ?_
  intro f hdone
  unfold Focus.steppedDone at hdone
  split at hdone
  · exact ⟨_, _, rfl⟩
  · cases hdone

end Machine

end Strand
