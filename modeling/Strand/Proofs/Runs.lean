import Strand.Proofs.Edits

/-! # Runs — what a pass does with the program, move by move

    * `PassEvent` is what can be seen of a pass from the program's side:
      scripts are fed, scripts are made to exit, and routines finish.
    * `Reaches` says that a machine comes to another, and which of these events
      happen on the way.
    * Between two moves of a pass the program runs. `Answered` says that it
      comes back, and that it has left the scheduler alone meanwhile.

    A pass calls the program where its own frames are on top of the control
    stack (`AtLoop`). `During` makes an assumption about all these calls, up
    to a point of the run. -/

namespace Strand

/-- What can be seen of a pass. -/
inductive PassEvent (C : Type) where
  /-- The script of a routine is fed, or the cleanup behind a forced return
      goes on. -/
  | resumed (id : RoutineId) (script : Script C) (input : Outcome Value)
  /-- The script behind a forced return is made to exit. -/
  | exiting (id : RoutineId) (script : Script C)
  /-- It is done with its exit. -/
  | exited (id : RoutineId) (outcome : Outcome Value)
  /-- The script of a routine is done, or has panicked. -/
  | finished (id : RoutineId) (outcome : Outcome Value)

/-- The routine that an event is about. -/
def PassEvent.id {C : Type} : PassEvent C → RoutineId
  | resumed id _ _ => id
  | exiting id _ => id
  | exited id _ => id
  | finished id _ => id

/-- Whether a script is the program's, and not one of those that a scheduler
    makes for a sweep. -/
def Script.isUser {C : Type} : Script C → Bool
  | .exit _ _ => false
  | .settled _ => false
  | _ => true

/-- The frames that a pass of a scheduler puts on the control stack itself. -/
def Frame.ofLoop {C R : Type} (p : Nat) : Frame C R → Bool
  | .stepping q _ => q = p
  | .building q _ _ => q = p
  | .sweeping q => q = p
  | .capturing q _ _ _ _ _ => q = p
  | .holding _ => true
  | .inExit _ => true
  | _ => false

namespace Scheduler

variable {C : Type}

/-- The scheduler has been left alone: nothing but failures taken, and
    continuations that died. -/
def Spared (s s' : Scheduler C) : Prop :=
  ∃ unhandled unclaimed reports, s' = { s with unhandled, unclaimed, reports }

theorem Spared.refl (s : Scheduler C) : Spared s s := ⟨_, _, _, rfl⟩

theorem Spared.trans {s t u : Scheduler C} (h : Spared s t) (h' : Spared t u) : Spared s u := by
  obtain ⟨_, _, _, rfl⟩ := h
  obtain ⟨unhandled, unclaimed, reports, rfl⟩ := h'
  exact ⟨unhandled, unclaimed, reports, rfl⟩

theorem Spared.routines {s s' : Scheduler C} (h : Spared s s') : s'.routines = s.routines := by
  obtain ⟨_, _, _, rfl⟩ := h
  rfl

theorem Spared.pruned {s s' : Scheduler C} (h : Spared s s') : Pruned s s' := by
  obtain ⟨_, _, _, rfl⟩ := h
  exact .of_same ⟨rfl, rfl, rfl, rfl⟩ rfl

end Scheduler

namespace Machine

variable {C R : Type} (B : Behavior C R) (p : Nat)

/-! ### Moves and events -/

/-- The machine after so many moves. -/
def after : Nat → Machine C R → Machine C R
  | 0, m => m
  | n + 1, m => after n (m.step B)

/-- What is seen of the passes of `p` in the next move. -/
def event? (m : Machine C R) : Option (PassEvent C) :=
  match m.focus, m.control with
  | .advance script input, .stepping q id :: _ =>
    if q = p ∧ script.isUser then some (.resumed id script input) else none
  | .advance script input, .inExit _ :: .stepping q id :: _ =>
    if q = p then some (.resumed id script input) else none
  | .exit script, .inExit _ :: .holding _ :: .stepping q id :: _ =>
    if q = p then some (.exiting id script) else none
  | .release [] (.give (.stepped (.done o) _)), .inExit _ :: .holding _ :: .stepping q id :: _ =>
    if q = p then some (.exited id o) else none
  | .release [] (.give (.stepped (.done o) script)), .stepping q id :: _ =>
    if q = p ∧ script.isUser then some (.finished id o) else none
  | .release [] (.unwind payload salvage), .stepping q id :: _ =>
    if q = p ∧ m.catches p ∧ (salvage.map Script.isUser).getD true then
      some (.finished id (.failure (.panicked payload.message)))
    else none
  | _, _ => none

/-- What is seen of the passes of `p` in so many moves. -/
def trail : Nat → Machine C R → List (PassEvent C)
  | 0, _ => []
  | n + 1, m => (m.event? p).toList ++ trail n (m.step B)

theorem after_add (i j : Nat) (m : Machine C R) : after B (i + j) m = after B j (after B i m) := by
  induction i generalizing m with
  | zero => rw [Nat.zero_add]; rfl
  | succ i ih =>
    rw [Nat.add_right_comm]
    exact ih (m.step B)

theorem trail_add (i j : Nat) (m : Machine C R) :
    trail B p (i + j) m = trail B p i m ++ trail B p j (after B i m) := by
  induction i generalizing m with
  | zero => rw [Nat.zero_add]; rfl
  | succ i ih =>
    rw [Nat.add_right_comm]
    show _ ++ trail B p (i + j) (m.step B) = (_ ++ _) ++ _
    rw [ih, List.append_assoc]
    rfl

/-- `m` comes to `n`, and `evs` is what is seen of the passes of `p` on the
    way. -/
def Reaches (m : Machine C R) (evs : List (PassEvent C)) (n : Machine C R) : Prop :=
  ∃ j, after B j m = n ∧ trail B p j m = evs

variable {B p} {m n o : Machine C R} {evs evs' : List (PassEvent C)}

theorem after_succ (i : Nat) (m : Machine C R) : after B (i + 1) m = (after B i m).step B :=
  after_add B i 1 m

theorem Reaches.refl (m : Machine C R) : Reaches B p m [] m := ⟨0, rfl, rfl⟩

theorem Reaches.trans (h : Reaches B p m evs n) (h' : Reaches B p n evs' o) :
    Reaches B p m (evs ++ evs') o := by
  obtain ⟨i, rfl, rfl⟩ := h
  obtain ⟨j, rfl, rfl⟩ := h'
  exact ⟨i + j, after_add B i j m, trail_add B p i j m⟩

/-- One move more. -/
theorem Reaches.move (h : Reaches B p m evs n) :
    Reaches B p m (evs ++ (n.event? p).toList) (n.step B) := by
  refine h.trans ⟨1, rfl, ?_⟩
  exact List.append_nil _

/-- One move more, of which nothing is seen. -/
theorem Reaches.unseen (h : Reaches B p m evs n) (hnone : n.event? p = none) :
    Reaches B p m evs (n.step B) := by
  have hmove := h.move
  rw [hnone] at hmove
  simpa using hmove

/-- One move more, of which something is seen. -/
theorem Reaches.seen {ev : PassEvent C} (h : Reaches B p m evs n) (hev : n.event? p = some ev) :
    Reaches B p m (evs ++ [ev]) (n.step B) := by
  have hmove := h.move
  rw [hev] at hmove
  exact hmove

theorem Reaches.quietly (h : Reaches B p m evs n) (h' : Reaches B p n [] o) :
    Reaches B p m evs o := by
  simpa using h.trans h'

theorem Reaches.after_quiet (h : Reaches B p m [] n) (h' : Reaches B p n evs o) :
    Reaches B p m evs o :=
  h.trans h'

theorem Reaches.later (h : Reaches B p m evs n) : Later B m n := by
  obtain ⟨j, rfl, -⟩ := h
  induction j generalizing m with
  | zero => exact .refl
  | succ j ih => exact Later.trans (.step .refl) ih

/-- An event that is still to come comes after the events that are known. -/
theorem Reaches.pass {Q : PassEvent C → Prop} {j : Nat} {e : PassEvent C}
    (h : Reaches B p m evs n) (hevs : ∀ e ∈ evs, Q e)
    (he : (after B j m).event? p = some e) (hnot : ¬ Q e) :
    ∃ i ≤ j, after B i n = after B j m ∧ trail B p j m = evs ++ trail B p i n := by
  obtain ⟨t, rfl, rfl⟩ := h
  by_cases hlt : j < t
  · obtain ⟨k, rfl⟩ : ∃ k, t = j + (k + 1) := ⟨t - j - 1, by omega⟩
    refine absurd (hevs e ?_) hnot
    rw [trail_add, trail, he]
    simp
  · refine ⟨j - t, Nat.sub_le .., ?_, ?_⟩
    · rw [← after_add, Nat.add_sub_cancel' (Nat.le_of_not_lt hlt)]
    · rw [← trail_add, Nat.add_sub_cancel' (Nat.le_of_not_lt hlt)]

/-! ### Schedulers along a run -/

theorem scheduler?_onScheduler (m : Machine C R) (p : Nat) (f : Scheduler C → Scheduler C) :
    (m.onScheduler p f).scheduler? p =
      (m.scheduler? p).map fun s => { f s with reports := [] } := by
  show (m.store.onScheduler p f).schedulers.find? p = (m.store.schedulers.find? p).map _
  unfold Store.onScheduler
  split
  · next s hs =>
    show (m.store.schedulers.set p _).find? p = _
    rw [Table.find?_set, if_pos rfl, hs]
    rfl
  · next hs => rw [hs]; rfl

theorem scheduler?_onScheduler_some {m : Machine C R} {p : Nat} {s : Scheduler C}
    (h : m.scheduler? p = some s) (f : Scheduler C → Scheduler C) :
    (m.onScheduler p f).scheduler? p = some { f s with reports := [] } := by
  rw [scheduler?_onScheduler, h]
  rfl

theorem scheduler?_retain (m : Machine C R) (hs : List Handle) (p : Nat) :
    (m.retain hs).scheduler? p = m.scheduler? p :=
  Store.find?_retainAll m.store hs p

/-! ### Calls of a pass -/

variable (B p)

/-- The pass of `p` above `K` is at work, and no code of the program is
    running. -/
def AtLoop (K : List (Frame C R)) (m : Machine C R) : Prop :=
  ∃ fs, m.control = fs ++ .pass p :: K ∧ ∀ f ∈ fs, f.ofLoop p = true

/-- The program comes back to where it was called, in a focus as described.
    Nothing but the call itself has been seen of the passes of the scheduler,
    to which the program has done what `rel` says. -/
def AnsweredBy (rel : Scheduler C → Scheduler C → Prop) (m : Machine C R)
    (ok : Focus C R → Prop) : Prop :=
  ∃ n, Reaches B p m (m.event? p).toList n ∧ n.control = m.control ∧ ok n.focus ∧
    ∀ s, m.scheduler? p = some s → ∃ s', n.scheduler? p = some s' ∧ rel s s'

variable {B p} in
theorem AnsweredBy.weaken {rel rel' : Scheduler C → Scheduler C → Prop} {m : Machine C R}
    {ok : Focus C R → Prop} (h : AnsweredBy B p rel m ok) (hrel : ∀ s t, rel s t → rel' s t) :
    AnsweredBy B p rel' m ok := by
  obtain ⟨n, hr, hcontrol, hok, hsched⟩ := h
  refine ⟨n, hr, hcontrol, hok, ?_⟩
  intro s hs
  obtain ⟨t, ht, hst⟩ := hsched s hs
  exact ⟨t, ht, hrel s t hst⟩

/-- The program comes back, and has left the scheduler alone. -/
abbrev Answered (m : Machine C R) (ok : Focus C R → Prop) : Prop :=
  AnsweredBy B p Scheduler.Spared m ok

/-- 32 bits are enough to number the slots of the scheduler. -/
def Roomy (m : Machine C R) : Prop :=
  ∀ evs n s, Reaches B p m evs n → n.scheduler? p = some s → s.routines.slots.size ≤ 2 ^ 32

/-- What is let go of is gone without further ado. -/
def DropsReturn (m : Machine C R) : Prop :=
  ∀ h hs onward, m.focus = .release (h :: hs) onward →
    Answered B p m fun f => f = .release [] onward

/-- If this script is made to exit, it is done with it at once, and the outcome is
    good. -/
def ExitReturns (good : Outcome Value → Prop) (script : Script C) (m : Machine C R) : Prop :=
  m.focus = .exit script → Answered B p m fun f =>
    ∃ o script', f = .release [] (.give (.stepped (.done o) script')) ∧ good o

/-- A script that is made to exit is done with it at once. -/
def ExitsReturn (m : Machine C R) : Prop :=
  ∀ script, m.focus = .exit script → Answered B p m fun f =>
    ∃ o script', f = .release [] (.give (.stepped (.done o) script'))

/-- What the pass of `p` above `K` calls answers as `Q` says, as long as `φ`
    holds of what has been seen so far. -/
def During (K : List (Frame C R)) (φ : List (PassEvent C) → Prop) (Q : Machine C R → Prop)
    (m : Machine C R) : Prop :=
  ∀ evs n, Reaches B p m evs n → φ evs → AtLoop p K n → Q n

variable {B p} {K : List (Frame C R)} {φ : List (PassEvent C) → Prop} {Q : Machine C R → Prop}

theorem Roomy.later (h : Roomy B p m) (hr : Reaches B p m evs n) : Roomy B p n :=
  fun evs' o s ho hs => h (evs ++ evs') o s (hr.trans ho) hs

theorem During.later (h : During B p K φ Q m) (hr : Reaches B p m evs n) :
    During B p K (fun evs' => φ (evs ++ evs')) Q n :=
  fun evs' o ho hφ hloop => h (evs ++ evs') o (hr.trans ho) hφ hloop

theorem During.weaken {φ' : List (PassEvent C) → Prop} (h : During B p K φ Q m)
    (hφ : ∀ evs, φ' evs → φ evs) : During B p K φ' Q m :=
  fun evs n hr hevs hloop => h evs n hr (hφ evs hevs) hloop

theorem During.imp {Q' : Machine C R → Prop} (h : During B p K φ Q m) (hQ : ∀ n, Q n → Q' n) :
    During B p K φ Q' m :=
  fun evs n hr hevs hloop => hQ n (h evs n hr hevs hloop)

theorem ExitsReturn.exit (h : ExitsReturn B p m) (script : Script C) :
    ExitReturns B p (fun _ => True) script m := by
  intro hf
  obtain ⟨n, hr, hc, ⟨o, script', hgive⟩, hs⟩ := h script hf
  exact ⟨n, hr, hc, ⟨o, script', hgive, trivial⟩, hs⟩

/-- What holds as long as nothing is seen still does later on. -/
theorem During.quietly (h : During B p K (· = []) Q m) (hr : Reaches B p m [] n) :
    During B p K (· = []) Q n :=
  fun evs o ho hevs hloop => h.later hr evs o ho hevs hloop

end Machine

end Strand
