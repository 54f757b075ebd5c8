import Strand.Proofs.Shelters

/-! # Tasks — one resumption for each await

    What is seen of a task of a bridge, from when it is started to when it ends, and where
    it is in between.

    * `Shows` reads what is seen off the machine.
    * A bridge that catches panics resumes a task first with nothing, and then with the
      outcome of each completion that it awaits, as long as no listener panics. A task that
      has not ended is in one place (`tasks_resumed_once_per_await`).
    * Whatever panics, and whether the bridge catches it or not: once control is back with
      the caller, a task that has not ended waits, for its turn or for a completion, unless
      the panic has taken it along (`tasks_left_by_panic`). -/

namespace Strand

variable {C R : Type}

namespace Machine

variable {B : Behavior C R} {b c : Nat} {m n : Machine C R} {past : List (Machine C R)}

/-! ### What is seen -/

/-- What the machine does when this is seen of a task. -/
inductive Shows (B : Behavior C R) (b : Nat) (n : Machine C R) : TaskEvent → Prop where
  | started {code : C} {next : R} (hfocus : n.focus = .release [] (.act (.ask (.run b code) next))) :
      Shows B b n (.started n.numbers)
  | resumed {id : UInt64} {c : Nat} {script : Script C} {input : Outcome Value} {K : List (Frame C R)}
      (hcontrol : (n.step B).control = .resuming b id c :: .driving b :: K)
      (hfocus : (n.step B).focus = .advance script input) : Shows B b n (.resumed c input)
  | awaits {id : UInt64} {c k : Nat} {script : Script C} {K : List (Frame C R)}
      (hcontrol : n.control = .resuming b id c :: K)
      (hfocus : n.focus = .release [] (.give (.stepped (.yield (.await k)) script))) :
      Shows B b n (.awaits c k)
  /-- It could not be built. -/
  | unbuilt {c : Nat} {e : Error} {K : List (Frame C R)} (hcontrol : n.control = .starting b c :: K)
      (hfocus : n.focus = .release [] (.give (.outcome (.failure e)))) :
      Shows B b n (.ended c (.failure e))
  | done {id : UInt64} {c : Nat} {o : Outcome Value} {script : Script C} {K : List (Frame C R)}
      (hcontrol : n.control = .resuming b id c :: K)
      (hfocus : n.focus = .release [] (.give (.stepped (.done o) script))) : Shows B b n (.ended c o)
  /-- A panic comes out of it, and is caught. -/
  | panicked {f : Frame C R} {c : Nat} {payload : Payload} {salvage : Option (Script C)}
      {K : List (Frame C R)} (hf : f = .starting b c ∨ ∃ id, f = .resuming b id c)
      (hcontrol : n.control = f :: K) (hfocus : n.focus = .release [] (.unwind payload salvage))
      (hcatch : n.bridgeCatches b = true) :
      Shows B b n (.ended c (.failure (.panicked payload.message)))

theorem shows_of_taskEvent? {e : TaskEvent} (h : n.taskEvent? b = some e) : Shows B b n e := by
  unfold taskEvent? at h
  split at h
  · next request next hfocus =>
    unfold Request.taskEvent? at h
    split at h
    · next b' code =>
      obtain ⟨rfl, heq⟩ := Option.ite_none_right_eq_some.mp h
      cases heq
      exact .started hfocus
    · cases h
  · next a hfocus =>
    obtain ⟨f, hf, h⟩ := Option.bind_eq_some_iff.mp h
    obtain ⟨K, hcontrol⟩ := List.head?_eq_some_iff.mp hf
    unfold Frame.answered? at h
    split at h
    · next b' =>
      obtain ⟨rfl, h⟩ := Option.ite_none_right_eq_some.mp h
      obtain ⟨x, hx, h⟩ := Option.bind_eq_some_iff.mp h
      obtain ⟨action, haction, h⟩ := Option.bind_eq_some_iff.mp h
      obtain ⟨stack, hstack⟩ := List.head?_eq_some_iff.mp haction
      cases action with
      | start code c => cases h
      | resume task o =>
        cases h
        have hstep : n.step B = ({ n with control := K } : Machine C R).bridgeHead b' :=
          step_of_give hcontrol hfocus
        have hat : ((n.step B).control, (n.step B).focus) =
            (.resuming b' task.id task.settler :: .driving b' :: K, .advance task.script (o.getD .unit)) := by
          rw [hstep]
          simp only [bridgeHead, hx, hstack]
          rfl
        exact .resumed (Prod.mk.inj hat).1 (Prod.mk.inj hat).2
    · next b' c =>
      split at h
      · obtain ⟨rfl, heq⟩ := Option.ite_none_right_eq_some.mp h
        cases heq
        exact .unbuilt hcontrol hfocus
      · cases h
    · next b' id c =>
      split at h
      · obtain ⟨rfl, heq⟩ := Option.ite_none_right_eq_some.mp h
        cases heq
        exact .done hcontrol hfocus
      · obtain ⟨rfl, heq⟩ := Option.ite_none_right_eq_some.mp h
        cases heq
        exact .awaits hcontrol hfocus
      · cases h
    · cases h
  · next payload salvage hfocus =>
    obtain ⟨f, hf, h⟩ := Option.bind_eq_some_iff.mp h
    obtain ⟨K, hcontrol⟩ := List.head?_eq_some_iff.mp hf
    unfold Frame.unwound? at h
    split at h
    · next b' c =>
      obtain ⟨⟨rfl, hcatch⟩, heq⟩ := Option.ite_none_right_eq_some.mp h
      cases heq
      exact .panicked (Or.inl rfl) hcontrol hfocus hcatch
    · next b' id c =>
      obtain ⟨⟨rfl, hcatch⟩, heq⟩ := Option.ite_none_right_eq_some.mp h
      cases heq
      exact .panicked (Or.inr ⟨id, rfl⟩) hcontrol hfocus hcatch
    · cases h
  · cases h

/-! ### In one place -/

/-- Who awaits a completion awaits a pending one. -/
theorem pending_of_waiting {k : Nat} (h : (m.works b).Stays c (.waiting k)) :
    ∃ ws, m.progress? k = some (.pending ws) := by
  cases h with
  | @queued a ha hs => cases a <;> cases hs
  | @seated x hx hs => cases x <;> simp [Seat.spots] at hs
  | @waits k' x hk hs =>
    obtain ⟨y, hy, rfl⟩ := Option.map_eq_some_iff.mp hk
    cases hp : y.progress with
    | settled o => simp [hp, Progress.wait, Wait.spots] at hs
    | pending ws =>
      simp only [hp, Progress.wait, Wait.spots] at hs
      obtain ⟨task, -, heq⟩ := List.mem_map.mp hs
      cases heq
      exact ⟨ws, by rw [progress?_of_find? hy, hp]⟩

theorem pending_of_waits {tasks : List (Task C)} (h : (m.works b).waits c = some (.pending tasks)) :
    ∃ ws, m.progress? c = some (.pending ws) := by
  obtain ⟨y, hy, hwait⟩ := Option.map_eq_some_iff.mp h
  rw [progress?_of_find? hy]
  cases hp : y.progress with
  | pending ws => exact ⟨ws, rfl⟩
  | settled o =>
    rw [hp] at hwait
    cases hwait

/-- With the caller in control, a task that is nowhere in the queue waits. -/
theorem waiting_of_stays {settled : Nat → Outcome Value → Prop} {e : TaskEvent} {s : Spot}
    (hrests : Rests settled c e s) (hs : (m.works b).Stays c s) (hcontrol : m.control = [])
    (hstack : (m.works b).stack = []) : ∃ k, s = .waiting k ∧ e = .awaits c k := by
  cases hs with
  | @queued a ha => simp [hstack] at ha
  | @seated x hx => simp [works, hcontrol] at hx
  | @waits k x hk hmem =>
    cases x with
    | settled o => simp [Wait.spots] at hmem
    | pending tasks =>
      obtain ⟨task, -, heq⟩ := List.mem_map.mp hmem
      cases heq
      cases hrests
      exact ⟨k, rfl, rfl⟩

/-- A task of which `e` has been seen last is in one place, and the completion of what it
    is to result in is pending. -/
structure InPlace (settled : Nat → Outcome Value → Prop) (b c : Nat) (m : Machine C R) (e : TaskEvent) :
    Prop where
  once : m.headcount b c = 1
  pending : ∃ ws, m.progress? c = some (.pending ws)
  spot : ∃ s, Rests settled c e s ∧ (m.works b).Stays c s ∧ ∀ s', (m.works b).Stays c s' → s' = s
  waits : ∀ k, (m.works b).Stays c (.waiting k) → ∃ ws, m.progress? k = some (.pending ws)
  /-- With the caller in control, it awaits a completion. -/
  outside : m.control = [] → (m.works b).stack = [] →
    ∃ k, e = .awaits c k ∧ (m.works b).Stays c (.waiting k)

theorem inPlace (h : Balanced B m) {settled : Nat → Outcome Value → Prop} {e : TaskEvent} {s : Spot}
    (hrests : Rests settled c e s) (hs : (m.works b).Stays c s) : InPlace settled b c m e where
  once := Nat.le_antisymm (headcount_le_one h b c) (headcount_pos hs.holds)
  pending := by
    obtain ⟨tasks, htasks⟩ := pending_of_holds h hs.holds
    exact pending_of_waits htasks
  spot := ⟨s, hrests, hs, fun _ hs' => (rolled h (Nat.le_refl _) b).unique hs' hs⟩
  waits _ hk := pending_of_waiting hk
  outside hcontrol hstack := by
    obtain ⟨k, rfl, he⟩ := waiting_of_stays hrests hs hcontrol hstack
    exact ⟨k, he, hs⟩

/-- What is known of a task that has been seen, when the bridge never loses sight of it. -/
structure Attended (b c : Nat) (past : List (Machine C R)) (m : Machine C R) : Prop where
  goes : Goes (SettledWith (past ++ [m])) c (taskTrail b c past)
  ended : ∀ o, .ended c o ∈ taskTrail b c past → (taskTrail b c past).getLast? = some (.ended c o) ∧
    ¬ (m.works b).Holds c ∧ SettledWith (past ++ [m]) c o ∧
      ∀ o', SettledWith (past ++ [m]) c o' → o' = o
  unfinished : (∀ o, .ended c o ∉ taskTrail b c past) →
    ∃ e, (taskTrail b c past).getLast? = some e ∧ InPlace (SettledWith (past ++ [m])) b c m e

theorem Goes.last_of_ended {settled : Nat → Outcome Value → Prop} {es : List TaskEvent}
    {o : Outcome Value} (h : Goes settled c es) (ho : .ended c o ∈ es) :
    es.getLast? = some (.ended c o) := by
  obtain ⟨before, since, rfl⟩ := List.append_of_mem ho
  cases since with
  | nil => exact List.getLast?_concat
  | cons e since =>
    have hnext := (List.isChain_append.mp h.1).2.1
    rw [List.isChain_cons_cons] at hnext
    cases hnext.1

theorem Accounted.attended (h : Accounted B b c past m) (hB : B.Honest) (hm : History B past m)
    (hseen : taskTrail b c past ≠ []) (hkept : ∀ n ∈ past, ¬ n.Forsakes B b c) :
    Attended b c past m := by
  obtain ⟨hgoes, -, haccount⟩ := h
  refine ⟨hgoes, fun o ho => ⟨hgoes.last_of_ended ho, ?_⟩, fun hnever => ?_⟩
  · have hlast := hgoes.last_of_ended ho
    generalize taskTrail b c past = es at hlast haccount
    cases haccount with
    | unstarted => cases hlast
    | placed hs =>
      rw [List.getLast?_concat] at hlast
      cases hlast
      cases hs
    | ended hnot hc =>
      rw [List.getLast?_concat] at hlast
      cases hlast
      exact ⟨hnot, hc, fun o' ho' => hm.settledWith_unique hB ho' hc⟩
    | lost _ hn =>
      obtain ⟨n, hn, hforsakes⟩ := hn
      exact absurd hforsakes (hkept n hn)
  · generalize taskTrail b c past = es at hseen hnever haccount
    cases haccount with
    | unstarted => exact absurd rfl hseen
    | placed hs hstays => exact ⟨_, List.getLast?_concat, inPlace (hm.balanced hB) hs hstays⟩
    | ended => exact absurd (List.mem_append_right _ (List.mem_singleton_self _)) (hnever _)
    | lost _ hn =>
      obtain ⟨n, hn, hforsakes⟩ := hn
      exact absurd hforsakes (hkept n hn)

/-- A bridge that catches panics, where no listener panics. Its tasks come first to being
    built and being resumed with nothing, then each is resumed once for each await, with what
    the completion has settled with; one that has ended has settled its completion with what
    it has ended with, and one that has not is in one place. When the bridge is not at work,
    nothing is left to do. -/
theorem tasks_resumed_once_per_await (hB : B.Honest) (h : History B past m)
    (hcatch : ∀ n ∈ past, (n.works b).bridge ≠ none → n.bridgeCatches b = true)
    (hcalm : ∀ n ∈ past, ¬ n.Scares) (htyped : ∀ n ∈ past, ¬ n.Astray b) :
    (∀ n ∈ past, ∀ e, n.taskEvent? b = some e → Shows B b n e) ∧
      ((m.works b).running = false → (m.works b).stack = []) ∧
      (m.control = [] → (m.works b).running = false) ∧
      ∀ c, taskTrail b c past ≠ [] → Attended b c past m := by
  refine ⟨fun n _ e he => shows_of_taskEvent? he, (h.tended hB hcatch hcalm).idle, fun hcontrol => ?_,
    fun c hseen => (h.accounted hB b c).attended hB h hseen fun n hn hforsakes => ?_⟩
  · have hseated := h.seated hB b
    simpa [works, hcontrol, Seated] using hseated
  · obtain ⟨before, since, rfl⟩ := List.append_of_mem hn
    have hbefore : ∀ x ∈ before, x ∈ before ++ n :: since := fun x hx => List.mem_append_left _ hx
    have htended := h.before.tended hB (fun x hx => hcatch x (hbefore x hx))
      (fun x hx => hcalm x (hbefore x hx))
    exact htended.keeps (h.before.balanced hB) (h.before.move.balanced hB) (h.before.seated hB b)
      (hcatch n hn) (hcalm n hn) (htyped n hn) hforsakes.loses

end Machine

/-! ### Two tasks -/

variable {m : Machine C R}

/-- No panic is about to pass the frame while it tells listeners. -/
def Focus.spares : Focus C R → Frame C R → Bool
  | .release [] (.unwind _ _), .notifying _ _ => false
  | _, _ => true

/-- A task that is advanced returns what tasks return. -/
def Focus.fits : Focus C R → Frame C R → Bool
  | .release [] (.give (.stepped (.done _) _)), .resuming _ _ _ => true
  | .release [] (.give (.stepped (.yield (.await _)) _)), .resuming _ _ _ => true
  | .release [] (.give _), .resuming _ _ _ => false
  | _, _ => true

namespace Machine

theorem not_scares_of_check (h : m.control.head?.all m.focus.spares = true) : ¬ m.Scares := by
  rintro ⟨ws, o, K, payload, salvage, hcontrol, hfocus⟩
  rw [hcontrol, hfocus] at h
  cases h

theorem not_astray_of_check {b : Nat} (h : m.control.head?.all m.focus.fits = true) :
    ¬ m.Astray b := by
  rintro ⟨id, c, K, a, hcontrol, hfocus, hdone, hawait⟩
  rw [hcontrol, hfocus] at h
  cases a with
  | stepped step script =>
    cases step with
    | done o => exact hdone o script rfl
    | yield i =>
      cases i with
      | await c' => exact hawait c' script rfl
      | _ => cases h
  | _ => cases h

/-- The bridge catches panics, no listener panics, and its task does what tasks do. -/
def calm (b : Nat) (m : Machine C R) : Bool :=
  ((m.store.bridges.find? b).isNone || m.bridgeCatches b) &&
    (m.control.head?.all m.focus.spares && m.control.head?.all m.focus.fits)

theorem calm_of_check {b : Nat} {past : List (Machine C R)} (h : past.all (calm b) = true) :
    (∀ n ∈ past, (n.works b).bridge ≠ none → n.bridgeCatches b = true) ∧ (∀ n ∈ past, ¬ n.Scares) ∧
      ∀ n ∈ past, ¬ n.Astray b := by
  have hcalm (n : Machine C R) (hn : n ∈ past) := Bool.and_eq_true_iff.mp (List.all_eq_true.mp h n hn)
  refine ⟨fun n hn hthere => ?_,
    fun n hn => not_scares_of_check (Bool.and_eq_true_iff.mp (hcalm n hn).2).1,
    fun n hn => not_astray_of_check (Bool.and_eq_true_iff.mp (hcalm n hn).2).2⟩
  rcases Bool.or_eq_true_iff.mp (hcalm n hn).1 with hnone | hcatches
  · exact absurd (Option.isNone_iff_eq_none.mp hnone) hthere
  · exact hcatches

end Machine

open Strand.Language in
/-- A listener and then a task wait for the completion `p`, and another task waits for what
    the first one results in. Then `p` is settled. -/
def waitingInLine : Machine Code Running :=
  let known (type : ValueType) (name : String) := Operand.mk (.type type) (.apply (.lookup name) [])
  let goOn := Term.apply .done [.mk .outcome (.apply .input [])]
  let task (awaited : String) := Term.apply (.run (.apply (.staged
    [.always (.apply .await [known .completion awaited]), .always goOn] none) [])) [known .bridge "b"]
  Program.machine [] .empty (.bind "b" (.apply (.newBridge {}) [])
    (.sequence [.apply (.pending "p" "s") [],
      .apply (.onSettle (.literal .unit)) [known .completion "p"],
      .apply (.assign "c") [.mk .any (task "p")],
      .apply (.assign "d") [.mk .any (task "c")]]
      (.apply .succeed [known .settler "s", .mk .any (.literal (.int 1))])))

/-- Whether the task that settles `c` is still to be told. -/
def Seat.tells (c : Nat) : Seat C → Bool
  | .telling tasks _ => tasks.any fun task => task.settler = c
  | _ => false

theorem Seat.told_of_check {c : Nat} {x : Seat C} (h : x.tells c = true) :
    ∃ o, (c, .told o) ∈ x.spots := by
  cases x with
  | telling tasks o =>
    obtain ⟨task, htask, hc⟩ := List.any_eq_true.mp h
    exact ⟨o, List.mem_map.mpr ⟨task, htask, by rw [of_decide_eq_true hc]⟩⟩
  | _ => cases h

/-- That the task has been seen to end. -/
def TaskEvent.ends : TaskEvent → Bool
  | .ended _ _ => true
  | _ => false

theorem TaskEvent.not_ended_of_check {c : Nat} {es : List TaskEvent}
    (h : es.any TaskEvent.ends = false) (o : Outcome Value) : .ended c o ∉ es := fun ho =>
  Bool.false_ne_true (h.symm.trans (List.any_eq_true.mpr ⟨_, ho, rfl⟩))

open Machine Strand.Language in
/-- Both tasks have been started, resumed with nothing, and resumed and ended after one
    await. -/
theorem two_tasks_resumed_once :
    ∃ (past : List (Machine Code Running)) (m : Machine Code Running),
      History behavior past m ∧ past.length = 246 ∧
      (∀ n ∈ past, (n.works 0).bridge ≠ none → n.bridgeCatches 0 = true) ∧
      (∀ n ∈ past, ¬ n.Scares) ∧ (∀ n ∈ past, ¬ n.Astray 0) ∧
      (taskTrail 0 1 past).length = 5 ∧ (taskTrail 0 2 past).length = 5 ∧
      (∀ n ∈ past, ∀ e, n.taskEvent? 0 = some e → Shows behavior 0 n e) ∧
      ((m.works 0).running = false → (m.works 0).stack = []) ∧
      (m.control = [] → (m.works 0).running = false) ∧
      Attended 0 1 past m ∧ Attended 0 2 past m := by
  obtain ⟨run, hrun⟩ : ∃ run, run = waitingInLine := ⟨_, rfl⟩
  have hcheck : (moves behavior 246 run).length = 246 ∧ (moves behavior 246 run).all (calm 0) = true := by
    rw [hrun]
    decide +kernel
  have htrail : (taskTrail 0 1 (moves behavior 246 run)).length = 5 ∧
      (taskTrail 0 2 (moves behavior 246 run)).length = 5 := by
    rw [hrun]
    decide +kernel
  have hhistory : History behavior (moves behavior 246 run) (after behavior 246 run) := by
    rw [hrun]
    exact (History.begin (B := behavior) (.begin _ .begin) rfl rfl).moves 246
  obtain ⟨hcatch, hcalm, htyped⟩ := calm_of_check hcheck.2
  obtain ⟨hshows, hidle, houtside, hattended⟩ :=
    tasks_resumed_once_per_await honest hhistory hcatch hcalm htyped
  have hseen {c : Nat} (h : (taskTrail 0 c (moves behavior 246 run)).length = 5) :
      taskTrail 0 c (moves behavior 246 run) ≠ [] := by
    intro hnone
    rw [hnone] at h
    cases h
  exact ⟨_, _, hhistory, hcheck.1, hcatch, hcalm, htyped, htrail.1, htrail.2, hshows, hidle, houtside,
    hattended 1 (hseen htrail.1), hattended 2 (hseen htrail.2)⟩

open Machine Strand.Language in
/-- While the listener before it is told, a task that has been started and has not ended is
    neither queued, nor in a step, nor does it await a pending completion. -/
theorem task_between_places :
    ∃ (past : List (Machine Code Running)) (m : Machine Code Running),
      History behavior past m ∧
      (∀ n ∈ past, (n.works 0).bridge ≠ none → n.bridgeCatches 0 = true) ∧
      (∀ n ∈ past, ¬ n.Scares) ∧ (∀ n ∈ past, ¬ n.Astray 0) ∧
      taskTrail 0 1 past ≠ [] ∧ (∀ o, .ended 1 o ∉ taskTrail 0 1 past) ∧
      ∀ s, (m.works 0).Stays 1 s → s ≠ .fresh ∧ (∀ o, s ≠ .ready o) ∧ s ≠ .building ∧ s ≠ .stepping ∧
        ∀ k, s ≠ .waiting k := by
  obtain ⟨run, hrun⟩ : ∃ run, run = waitingInLine := ⟨_, rfl⟩
  have hcheck : (moves behavior 185 run).all (calm 0) = true ∧
      (taskTrail 0 1 (moves behavior 185 run)).length = 3 ∧
      (taskTrail 0 1 (moves behavior 185 run)).any TaskEvent.ends = false := by
    rw [hrun]
    decide +kernel
  have htold : ((after behavior 185 run).works 0).seats.any (Seat.tells 1) = true := by
    rw [hrun]
    decide +kernel
  have hhistory : History behavior (moves behavior 185 run) (after behavior 185 run) := by
    rw [hrun]
    exact (History.begin (B := behavior) (.begin _ .begin) rfl rfl).moves 185
  obtain ⟨hcatch, hcalm, htyped⟩ := calm_of_check hcheck.1
  obtain ⟨x, hx, htells⟩ := List.any_eq_true.mp htold
  obtain ⟨o, ho⟩ := Seat.told_of_check htells
  refine ⟨_, _, hhistory, hcatch, hcalm, htyped, fun hnone => ?_,
    TaskEvent.not_ended_of_check hcheck.2.2, fun s hs => ?_⟩
  · have hthree := hcheck.2.1
    rw [hnone] at hthree
    cases hthree
  · obtain rfl := (rolled (hhistory.balanced honest) (Nat.le_refl _) 0).unique hs (.seated hx ho)
    simp

end Strand
