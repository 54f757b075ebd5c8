import Strand.Proofs.Cancellation

/-! # Publication — a started root is reported before it is swept

    The script of a started root is wrapped, and the wrapper settles the
    completion of the root as soon as the script is done, before the pass
    hears of it:

    * with that move the completion has settled with what the script itself is
      done with, and the descendants of the root are as they were
      (`At.reports`);
    * the listeners are told, and only then has the root finished for its pass
      (`At.reported`);
    * the sweep makes the descendants exit afterwards. Where an exit fails, the
      failure goes on in the pass, past the completion
      (`root_reported_before_exits`). -/

namespace Strand

namespace Machine

variable {C R : Type} {B : Behavior C R} {p c : Nat} {K fs : List (Frame C R)}
  {s : Scheduler C} {m n : Machine C R} {id : RoutineId} {o : Outcome Value}

/-- The outcome with which a completion has settled. -/
def settled? (m : Machine C R) (c : Nat) : Option (Outcome Value) :=
  match m.store.completions.find? c with
  | some ⟨.settled o, _⟩ => some o
  | _ => none

/-- The listeners of a completion. -/
def listeners? (m : Machine C R) (c : Nat) : Option (List (Listener C)) :=
  match m.store.completions.find? c with
  | some ⟨.pending listeners, _⟩ => some listeners
  | _ => none

/-! ### The report -/

/-- The script of a root is done: its completion settles with the same outcome,
    and the listeners are to be told. The scheduler is as it was. -/
theorem At.reports {inner : Script C} {listeners : List (Listener C)}
    (h : At p K (.inRoot c :: fs) (.release [] (.give (.stepped (.done o) inner))) s m)
    (hpending : m.listeners? c = some listeners) :
    At p K (.notifying listeners o :: .reporting inner c o :: fs) (.release [] (.give .nothing)) s
        (m.step B) ∧ (m.step B).settled? c = some o := by
  have hstep : m.step B = (({ m with control := fs ++ .pass p :: K } : Machine C R).retain
      o.handles |>.push (.reporting inner c o)).settle c o := by
    simp only [step, h.focus, goOn, h.control]
    rfl
  obtain ⟨settlers, hfind⟩ : ∃ settlers, (m.store.retainAll o.handles).completions.find? c =
      some ⟨.pending listeners, settlers⟩ := by
    have hsame := Store.progress_retainAll m.store o.handles c
    unfold listeners? at hpending
    split at hpending
    · next listeners' settlers hc =>
      cases hpending
      rw [hc] at hsame
      obtain ⟨⟨_, settlers'⟩, hx, rfl⟩ := Option.map_eq_some_iff.mp hsame
      exact ⟨settlers', hx⟩
    · cases hpending
  have hsettle : m.step B = (((({ m with control := fs ++ .pass p :: K } : Machine C R).retain
      o.handles |>.push (.reporting inner c o)).retain o.handles).setCompletion c
        ⟨.settled o, settlers⟩ |>.push (.notifying listeners o)).give .nothing := by
    rw [hstep, settle]
    simp only [push, retain, withStore, hfind]
  rw [hsettle]
  refine ⟨⟨rfl, rfl, ?_⟩, ?_⟩
  · show ((m.store.retainAll _).retainAll _).schedulers.find? p = _
    rw [Store.find?_retainAll, Store.find?_retainAll]
    exact h.scheduler
  · have hagain := Store.progress_retainAll (m.store.retainAll o.handles) o.handles c
    rw [hfind] at hagain
    obtain ⟨x, hx, -⟩ := Option.map_eq_some_iff.mp hagain
    have hset : (((m.store.retainAll o.handles).retainAll o.handles).completions.set c
        ⟨.settled o, settlers⟩).find? c = some ⟨.settled o, settlers⟩ := by
      rw [Table.find?_set, if_pos rfl, hx]
      rfl
    simp only [settled?, give, push, setCompletion, withStore, retain, hset]

/-- The listeners have been told: the root is done, and its pass hears of it. -/
theorem At.reported {inner : Script C} {a : Answer C}
    (h : At p K (.reporting inner c o :: fs) (.release [] (.give a)) s m) :
    At p K fs (.release [] (.give (.stepped (.done o) (.root inner c)))) s (m.step B) := by
  have hstep : m.step B = ({ m with control := fs ++ .pass p :: K } : Machine C R).give
      (.stepped (.done o) (.root inner c)) := by
    simp only [step, h.focus, goOn, h.control]
    rfl
  rw [hstep]
  exact ⟨rfl, rfl, h.scheduler⟩

variable (B p) in
/-- Listeners that are to be told come back, and have left the scheduler
    alone. -/
def ListenersReturn (m : Machine C R) : Prop :=
  ∀ listeners o rest, m.control = .notifying listeners o :: rest →
    ∃ n a, Reaches B p m [] n ∧ n.control = rest ∧ n.focus = .release [] (.give a) ∧
      ∀ s, m.scheduler? p = some s → ∃ s', n.scheduler? p = some s' ∧ s.Spared s'

/-! ### The sweep comes later -/

/-- The script of a started root `id` is done with `o` while its descendants
    `T` are live, whether they are suspended, captured or on the stack. The
    next move settles the completion of the root with `o`; none of `T` has been
    made to exit. As long as the listeners come back, the exits are done at
    once and what is let go of causes nothing, the pass does nothing but make
    all of `T` exit afterwards. What it delivers to what is beneath the root is
    the failure of the last exit that failed, or `o`: where an exit fails, not
    what the completion has settled with. -/
theorem root_reported_before_exits {inner : Script C} {listeners : List (Listener C)}
    {origin : Origin} {parent : Option RoutineId} {T : Brood C} (hreach : Reachable B m)
    (h : At p K [.inRoot c, .stepping p id] (.release [] (.give (.stepped (.done o) inner))) s m)
    (hpending : m.listeners? c = some listeners) (hroom : s.routines.slots.size ≤ 2 ^ 32)
    (hid : s.routines.find? id = some ⟨origin, none, parent, T.roots⟩)
    (hT : T.Stands s.routines id) (hlisteners : ListenersReturn B p (m.step B))
    (hexits : During B p K (·.length < 2 * T.size + 1) (ExitsReturn B p) (m.step B))
    (hdrops : During B p K (·.length ≤ 2 * T.size + 1) (DropsReturn B p) (m.step B)) :
    ((m.step B).settled? c = some o ∧ (m.step B).scheduler? p = some s) ∧
    ∃ (calls : List (ExitCall C)) (n : Machine C R) (s' : Scheduler C),
      calls.map (fun c => (c.id, c.script)) = T.exits ∧
      Reaches B p (m.step B) (.finished id o :: calls.flatMap ExitCall.events) n ∧
      AtHead p K s' n ∧ s'.stack = s.stack ∧
      Delivers p K (lastFailure o (calls.map ExitCall.outcome)) (n.step B) ∧
      ∀ a ∈ T.ids, s.routines.vacated a < s'.routines.vacated a := by
  obtain ⟨hreports, hsettled⟩ := h.reports (B := B) hpending
  refine ⟨⟨hsettled, hreports.scheduler⟩, ?_⟩
  obtain ⟨n₁, a, hr₁, hcontrol, hfocus, hspares⟩ := hlisteners _ _ _ hreports.control
  obtain ⟨s₁, hs₁, hspared⟩ := hspares s hreports.scheduler
  have hat₁ : At p K [.reporting inner c o, .stepping p id] (.release [] (.give a)) s₁ n₁ :=
    ⟨hcontrol, hfocus, hs₁⟩
  have hquiet : n₁.event? p = none := by
    cases a with
    | stepped step script => cases step <;> simp [event?, hfocus, hcontrol]
    | _ => simp [event?, hfocus, hcontrol]
  have hr₂ := hr₁.unseen hquiet
  have hfinishes := hat₁.reported (B := B)
  have hr₃ := hr₂.seen (show event? p (n₁.step B) = some (.finished id o) by
    simp [event?, hfinishes.focus, hfinishes.control, Script.isUser])
  rw [List.nil_append] at hr₃
  -- the sweep finds the descendants as they were when the completion settled
  have hroutines := hspared.routines
  have hone : ∀ {evs : List (PassEvent C)}, ([PassEvent.finished id o] ++ evs).length =
      evs.length + 1 := List.length_append.trans (Nat.add_comm ..)
  obtain ⟨calls, n, s', hcalls, -, hswept, hless, -⟩ := Finishes.emptied (Or.inl ⟨_, hfinishes⟩)
    ((hreach.later (.step .refl)).later hr₂.later) (hroutines ▸ hroom) (hroutines ▸ hid)
    (hroutines ▸ hT)
    (((hexits.later hr₃).weaken fun evs hevs => hone ▸ Nat.succ_lt_succ hevs.1).imp
      fun n hn c _ => hn.exit c.2)
    ((hdrops.later hr₃).weaken fun evs hevs => hone ▸ Nat.succ_le_succ hevs.1)
    fun hfalse : False => hfalse.elim
  have hstack : s₁.stack = s.stack := by
    obtain ⟨_, _, _, rfl⟩ := hspared
    rfl
  refine ⟨calls, n, s', hcalls, hr₃.trans hswept.reaches, hswept.head, ?_, ?_, ?_⟩
  · exact hswept.awaits.stack.trans hstack
  · exact hswept.register ▸ hswept.head.delivers
  · exact hroutines ▸ hless

/-! ### Computing what is assumed -/

/-- A started root whose script is done. -/
structure RootDone (C R : Type) where
  frames : List (Frame C R)
  id : RoutineId
  settler : Nat
  inner : Script C
  outcome : Outcome Value
  listeners : List (Listener C)
  scheduler : Scheduler C
  routine : Routine C
  descendants : Brood C

/-- The started root whose script is done in focus, and what stands below it. -/
def rootDone? (p : Nat) (m : Machine C R) : Option (RootDone C R) :=
  match m.control, m.focus, m.scheduler? p with
  | .inRoot c :: .stepping q id :: .pass q' :: K, .release [] (.give (.stepped (.done o) inner)),
      some s =>
    match m.listeners? c, s.routines.find? id with
    | some listeners, some r =>
      if q = p ∧ q' = p ∧ r.script.isNone ∧ s.routines.slots.size ≤ 2 ^ 32 then
        (Brood.gather s.routines s.routines.size r.children).map
          fun T => ⟨K, id, c, inner, o, listeners, s, r, T⟩
      else none
    | _, _ => none
  | _, _, _ => none

theorem of_rootDone? {x : RootDone C R} (h : m.rootDone? p = some x) (hreach : Reachable B m) :
    At p x.frames [.inRoot x.settler, .stepping p x.id]
        (.release [] (.give (.stepped (.done x.outcome) x.inner))) x.scheduler m ∧
      m.listeners? x.settler = some x.listeners ∧
      x.scheduler.routines.slots.size ≤ 2 ^ 32 ∧
      x.scheduler.routines.find? x.id =
        some ⟨x.routine.origin, none, x.routine.parent, x.descendants.roots⟩ ∧
      x.descendants.Stands x.scheduler.routines x.id := by
  unfold rootDone? at h
  split at h
  · next c q id q' K o inner s hcontrol hfocus hsched =>
    split at h
    · next listeners r hlisteners hr =>
      split at h
      · next hq =>
        obtain ⟨rfl, rfl, hnone, hroom⟩ := hq
        obtain ⟨T, hT, rfl⟩ := Option.map_eq_some_iff.mp h
        have hl := hreach.linked hsched hroom
        obtain ⟨hroots, hstands⟩ := Brood.stands_of_gather hl hT (q := id) (by
          intro c hmem y hy
          obtain ⟨y', hy', hparent⟩ := hl.child hr hmem
          rw [hy] at hy'
          cases hy'
          exact hparent)
        refine ⟨⟨hcontrol, hfocus, hsched⟩, hlisteners, hroom, ?_, hstands⟩
        show s.routines.find? id = some ⟨r.origin, none, r.parent, T.roots⟩
        rw [hr, hroots, ← Option.isNone_iff_eq_none.mp hnone]
      · cases h
    · cases h
  · cases h

/-- There is nobody to tell, and within so many moves the outcome is let go
    of. -/
def tellsNobody (B : Behavior C R) (fuel : Nat) (m : Machine C R) : Bool :=
  match m.control, m.focus with
  | .notifying [] _ :: _, .release [] (.give _) => letsGo B fuel (m.step B)
  | _, _ => false

theorem listenersReturn_of_tellsNobody {fuel : Nat} (h : tellsNobody B fuel m = true) :
    ListenersReturn B p m := by
  intro listeners o rest hcontrol
  unfold tellsNobody at h
  split at h
  · next o' rest' a hcontrol' hfocus =>
    rw [hcontrol] at hcontrol'
    cases hcontrol'
    have hstep : m.step B = ({ m with control := rest } : Machine C R).drop o.handles
        (.reply (.outcome (.success (.bool true)))) := by
      simp only [step, hfocus, goOn, hcontrol]
      rfl
    have hquiet : m.event? p = none := by
      cases a with
      | stepped step script => cases step <;> simp [event?, hfocus, hcontrol]
      | _ => simp [event?, hfocus, hcontrol]
    rw [hstep] at h
    obtain ⟨n, hr, hn, hnfocus, hsched⟩ := reaches_of_letsGo (p := p) rfl h
    rw [← hstep] at hr
    refine ⟨n, _, ((Reaches.refl m).unseen hquiet).after_quiet hr, hn, hnfocus, ?_⟩
    intro s hs
    exact ⟨s, hsched.trans hs, .refl s⟩
  · cases h

end Machine

/-- The number that an outcome is. -/
def Outcome.number? : Outcome Value → Option Int64
  | .success (.int n) => some n
  | _ => none

/-- An exit that is over, and whether it has succeeded. -/
def PassEvent.exit? {C : Type} : PassEvent C → Option (RoutineId × Bool)
  | .exited id o => some (id, o.isSuccess)
  | _ => none

open Machine Strand.Language in
/-- A started root that is done with 5, and leaves a sleeping reset block behind
    whose cleanup fails. -/
def early : Machine Code Running :=
  let script stages onExit := Term.apply (.staged (stages.map .onSuccess) onExit) []
  let failing := Term.apply .raise [.mk .any (.literal (.text "late"))]
  let sleeping := script [.apply .suspend []] (some failing)
  let root := script [.apply (.reset sleeping) [], .apply .done [.mk .outcome (.literal (.int 5))]]
    none
  Program.machine [] .empty
    (.apply (.start root) [.mk (.type .scheduler) (.apply (.newScheduler {}) [])])

open Machine Strand.Language in
/-- After 67 moves the script of the root in `early` is done. -/
theorem root_reported_before_exits_early :
    ∃ (m : Machine Code Running) (x : RootDone Code Running) (calls : List (ExitCall Code))
      (n : Machine Code Running),
      m = after behavior 67 early ∧ m.rootDone? 0 = some x ∧ x.descendants.size = 1 ∧
      (m.step behavior).settled? x.settler = some x.outcome ∧
      calls.map ExitCall.id = [⟨1, 1⟩] ∧
      Reaches behavior 0 (m.step behavior)
        (.finished x.id x.outcome :: calls.flatMap ExitCall.events) n := by
  have hdone : ((after behavior 67 early).rootDone? 0).map
      (fun x => (x.descendants.size, x.descendants.exits.map Prod.fst)) = some (1, [⟨1, 1⟩]) := by
    decide +kernel
  have hlisteners : tellsNobody behavior 1 ((after behavior 67 early).step behavior) = true := by
    decide +kernel
  have hexits : rehearsed behavior 0 (fun _ => false) (exitsAtOnce behavior 0 40) 100
      ((after behavior 67 early).step behavior) = true := by decide +kernel
  have hdrops : rehearsed behavior 0 (fun _ => false) (letsGo behavior 10) 100
      ((after behavior 67 early).step behavior) = true := by decide +kernel
  have hreach : Reachable behavior (after behavior 67 early) :=
    ⟨early.focus, Reaches.later (p := 0) ⟨67, rfl, rfl⟩⟩
  refine ⟨after behavior 67 early, ?_⟩
  generalize after behavior 67 early = m at *
  obtain ⟨x, hx, hfacts⟩ := Option.map_eq_some_iff.mp hdone
  obtain ⟨hsize, hids⟩ := Prod.mk.inj hfacts
  obtain ⟨hat, hpending, hroom, hid, hT⟩ := of_rootDone? hx hreach
  obtain ⟨⟨hsettled, -⟩, calls, n, s', hcalls, hr, -⟩ := root_reported_before_exits hreach hat
    hpending hroom hid hT (listenersReturn_of_tellsNobody hlisteners)
    (during_of_rehearsed hexits (fun _ _ _ _ => rfl) fun _ => exitsReturn_of_exitsAtOnce)
    (during_of_rehearsed hdrops (fun _ _ _ _ => rfl) fun _ => dropsReturn_of_letsGo)
  refine ⟨x, calls, n, rfl, hx, hsize, hsettled, ?_, hr⟩
  rw [← hids, ← hcalls, List.map_map]
  rfl

open Machine Strand.Language in
/-- The completion in `early` settles with 5 while the sleeper is live. The
    cleanup of the sleeper fails afterwards, and the completion keeps the 5. -/
theorem root_reported_early :
    ((after behavior 68 early).settled? 0).bind Outcome.number? = some 5 ∧
      ((after behavior 68 early).scheduler? 0).map (·.routines.contains ⟨1, 0⟩) = some true ∧
      (trail behavior 0 132 (after behavior 68 early)).filterMap PassEvent.exit? =
        [(⟨1, 1⟩, false)] ∧
      (after behavior 132 (after behavior 68 early)).halted = true ∧
      ((after behavior 132 (after behavior 68 early)).settled? 0).bind Outcome.number? = some 5 := by
  decide +kernel

end Strand
