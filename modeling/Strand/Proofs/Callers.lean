import Strand.Program
import Strand.Proofs.Rehearsal
import Strand.Proofs.Strands

/-! # Callers — who is fed what a routine ends in

    A routine `P` that has yielded a reset or a splice waits beneath its child
    `X`. When `X` is done, its outcome goes to whatever is on top of the stack
    then. That is `P`, unless a step of `X` has queued a re-entry of the same
    scheduler: the re-entry is above `P`, is fed the outcome of `X`, and drops
    it.

    * `Receives` says who is fed an outcome, given what was queued.
    * `outcome_goes_to_top` is the run from the yield of `P` until then. -/

namespace Strand

variable {C : Type}

/-- What an instruction puts between the routine that yields it and the
    child. -/
def Instruction.bounds : Instruction C → List StackEntry
  | .reset _ => [.boundary]
  | _ => []

namespace Scheduler

variable {s : Scheduler C} {P : RoutineId} {x : Routine C}

/-- A child of a routine that waits on the stack is a strand. -/
theorem standing_of_child (hl : Linked s.routines) (origin : Origin) (nested script : Script C)
    (hroom : (s.scheduleChild origin nested P).routines.slots.size ≤ 2 ^ 32)
    (hP : s.routines.find? P = some x) (hscript : x.script = some script) {X : RoutineId}
    {below : List StackEntry} (hX : s.fresh = X) (hstack : s.stack = below)
    (hplace : .routine P ∈ below) (reenters : Prop) :
    Standing ⟨X, [], below, P, script, reenters⟩ (s.scheduleChild origin nested P) X
      [.routine X] [] := by
  subst hX hstack
  obtain ⟨hdead, routines, reports, heq, hfind⟩ := scheduleChild_spec hl hroom hP
  have hne : P ≠ s.fresh := by
    rintro rfl
    rw [hdead] at hP
    cases hP
  rw [heq]
  refine ⟨rfl, ?_, List.nodup_cons.mpr ⟨nofun, List.nodup_nil⟩, ⟨nofun, fun _ => rfl, hplace, ?_⟩, ?_⟩
  · refine @Chain.bottom _ _ _ _ _ origin nested (some P) ?_
    show routines.find? _ = _
    rw [hfind, if_pos rfl]
    rfl
  · refine ⟨x.origin, x.parent, x.children ++ [s.fresh], ?_⟩
    show routines.find? _ = _
    rw [hfind, if_neg hne, if_pos rfl, hscript]
  · intro a ha
    rw [routinesOf_routine, routinesOf_nil, List.mem_singleton] at ha
    exact ⟨ha ▸ hne.symm, nofun⟩

end Scheduler

namespace Machine

open Scheduler

variable {R : Type} {B : Behavior C R} {p : Nat} {K : List (Frame C R)} {site : Site C}
  {s : Scheduler C} {m n : Machine C R} {P : RoutineId} {script : Script C}

/-! ### The yield -/

/-- A routine yields a reset or a splice, and its child stands above it. -/
theorem Orderly.begins {i : Instruction C} {x : Routine C} {reenters : Prop}
    (hat : At p K [.stepping p P] (.release [] (.give (.stepped (.yield i) script))) s m)
    (hi : (Step.yield i).continues = true) (hP : s.routines.find? P = some x)
    (h : Orderly B p K ⟨s.fresh, [], i.bounds ++ .routine P :: s.stack, P, script, reenters⟩ m) :
    ∃ n s', Reaches B p m [] n ∧ AtHead p K s' n ∧
      Standing ⟨s.fresh, [], i.bounds ++ .routine P :: s.stack, P, script, reenters⟩ s' s.fresh
        [.routine s.fresh] [] := by
  have hquiet : m.event? p = none := by simp [event?, hat.focus, hat.control]
  have hr := (Reaches.refl (B := B) (p := p) m).unseen hquiet
  have hstack : (s.shelve P script).stack = .routine P :: s.stack := by rw [shelve_of_live hP]
  have hself : (s.shelve P script).routines.find? P = some { x with script := some script } := by
    rw [shelve_of_live hP]
    show (s.routines.modify P _).find? P = _
    rw [Roster.find?_modify, if_pos rfl, hP, Option.map_some]
  have hlinked : Linked (s.shelve P script).routines := by
    rw [shelve_of_live hP]
    exact (h.linked hat.scheduler).modify P (fun _ => rfl) fun _ => rfl
  have hfresh := fresh_shelve s P script
  cases i with
  | shift handler => cases hi
  | suspend => cases hi
  | await c => cases hi
  | splice nested =>
    have hsweep := hat.yields_splice (B := B)
    generalize s.shelve P script = t at *
    have hroom := h.room [] _ _ hr hsweep.scheduler
    have hstand := standing_of_child (s := { t with reports := [] }) hlinked .splice nested script
      hroom hself rfl hfresh hstack (List.mem_cons_self ..) reenters
    obtain ⟨n, s', hr', hhead, hstand', -⟩ := (h.quietly hr).swept hsweep (hstand.congr rfl rfl)
    exact ⟨n, s', hr.quietly hr', hhead, hstand'⟩
  | reset block =>
    have hbuilding := hat.yields_reset (B := B)
    generalize s.shelve P script = t at *
    have hcall := h.blocks [] _ hr (List.forall_mem_nil _) (hbuilding.atLoop (by simp [Frame.ofLoop]))
      block P .reset _ hbuilding.focus hbuilding.control hbuilding.scheduler (Or.inl rfl)
    obtain ⟨n₁, focus, t₁, hr₁, hat₁, ⟨a, rfl⟩, hspared⟩ := hbuilding.answered hcall
    rw [show event? p _ = none by simp [event?, hbuilding.focus, hbuilding.control]] at hr₁
    have hr₁ := hr.quietly hr₁
    have hr₂ := hr₁.unseen (by simp [event?, hat₁.focus, hat₁.control])
    have hsweep := hat₁.builds (B := B)
    have hroutines : t₁.routines = t.routines := hspared.routines
    have hstack₁ : t₁.stack = .boundary :: .routine P :: s.stack := by
      obtain ⟨_, _, _, rfl⟩ := hspared
      exact congrArg (StackEntry.boundary :: ·) hstack
    have hroom := h.room [] _ _ hr₂ hsweep.scheduler
    have hstand := standing_of_child (s := t₁) (hroutines ▸ hlinked) .reset a.script script hroom
      (hroutines ▸ hself) rfl ((fresh_congr hroutines).trans hfresh) hstack₁
      (List.mem_cons_of_mem _ (List.mem_cons_self ..)) reenters
    obtain ⟨n, s', hr', hhead, hstand', -⟩ := (h.quietly hr₂).swept hsweep (hstand.congr rfl rfl)
    exact ⟨n, s', hr₂.quietly hr', hhead, hstand'⟩

/-! ### The end of the child -/

/-- Who is fed `o`: the re-entry that was queued last, or `P` if none was. -/
def Receives (p : Nat) (site : Site C) (queue : List StackEntry) (o : Outcome Value)
    (n : Machine C R) : Prop :=
  match queue with
  | [] => n.event? p = some (.resumed site.P site.script o)
  | w :: _ => ∃ q k v, w = .routine q ∧ n.event? p = some (.resumed q (.reentry k (some v)) o)

/-- The bottom of a strand is done, and its outcome goes to the top of the
    stack. -/
theorem Orderly.delivers {o : Outcome Value} {queue : List StackEntry} (h : Orderly B p K site n)
    (hat : At p K [.stepping p site.X] (.release [] (.give (.stepped (.done o) script))) s n)
    (hstepped : Stepped site s site.X [] queue) (hkids : site.kids = [])
    (bounds : Nat) (tail : List StackEntry)
    (hbelow : site.below = List.replicate bounds .boundary ++ .routine site.P :: tail)
    (huser : site.script.isUser = true) :
    ∃ n', Reaches B p n (n.event? p).toList n' ∧ Receives p site queue o n' := by
  have hl := h.linked hat.scheduler
  have hX := hstepped.apart site.X (List.mem_cons_self ..)
  obtain ⟨origin, parent, hentry⟩ : ∃ origin parent,
      s.routines.find? site.X = some ⟨origin, none, parent, []⟩ := by
    cases hstepped.stepping with
    | bottom entry => exact ⟨_, _, hkids ▸ entry⟩
    | child entry lower => cases lower
  have hfinish : Finishes p K site.X o s n := Or.inl ⟨script, hat⟩
  obtain ⟨script', hsweep⟩ := hfinish.concludes (B := B)
  have hr := (Reaches.refl (B := B) (p := p) n).move
  rw [List.nil_append] at hr
  have hone : ∀ e ∈ (n.event? p).toList, e.id ≠ site.P := by
    intro e he
    simp only [event?, hat.focus, hat.control, List.cons_append, Option.mem_toList] at he
    split at he
    · cases he
      exact hX.1
    · cases he
  obtain ⟨hstack, hregister, -, -, -⟩ := conclude_childless_spec hl.sound hentry rfl script' o
  have hground := hstepped.ground.concluded hl.sound hentry rfl hX.1 hX.2 script' o
  have hl' : Linked ({ s.conclude site.X script' o with reports := [] } : Scheduler C).routines :=
    (h.reach.later hr.later).linked hsweep.scheduler (h.room _ _ _ hr hsweep.scheduler)
  obtain ⟨n₁, s₁, hr₁, hhead, hpruned⟩ := hsweep.swept hl' ((h.drops.later hr).weaken (by
    rintro _ rfl
    rwa [List.append_nil]))
  have hstack₁ : s₁.stack = queue ++ site.below := by
    rw [hpruned.shrunk.work.stack]
    exact hstack.trans hstepped.stack
  have hwork : (s.conclude site.X script' o).stack = [] ++ (queue ++ site.below) :=
    hstack.trans hstepped.stack
  have hground₁ : Ground site s₁ queue :=
    (hground.same (t := { s.conclude site.X script' o with reports := [] }) (fun _ _ => rfl)
      rfl).undisturbed hpruned.undisturbed hwork
  have hregister₁ : s₁.register = o := hpruned.shrunk.work.register.trans hregister
  have hr₂ := (hr.quietly hr₁).unseen hhead.event?_head
  cases queue with
  | nil =>
    obtain ⟨origin', parent', children, hP⟩ := hground₁.waits
    obtain ⟨reports, hpick⟩ := pick_of_boundaries (hstack₁.trans hbelow) hP rfl
    have hfed := hhead.pick (B := B) hpick
    refine ⟨_, hr₂, ?_⟩
    simp [Receives, event?, hfed.focus, hfed.control, huser, hregister₁]
  | cons w rest =>
    obtain ⟨q, k, v, rfl, hq⟩ := hground₁.queued w (List.mem_cons_self ..)
    obtain ⟨reports, hpick⟩ := pick_of_boundaries (n := 0) hstack₁ hq rfl
    have hfed := hhead.pick (B := B) hpick
    refine ⟨_, hr₂, q, k, v, rfl, ?_⟩
    simp [event?, hfed.focus, hfed.control, Script.isUser, hregister₁]

/-- A routine `P` yields a reset or a splice. While its child and what that
    spawns only reset, splice and finish, nothing is seen of `P` before the
    child is done, and the outcome of the child goes to the top of the stack:
    to the re-entry that steps of the child have queued last, and to `P` if
    they have queued none. -/
theorem outcome_goes_to_top {i : Instruction C} {x : Routine C} {reenters : Prop}
    (hat : At p K [.stepping p P] (.release [] (.give (.stepped (.yield i) script))) s m)
    (hi : (Step.yield i).continues = true) (hP : s.routines.find? P = some x)
    (huser : script.isUser = true) {site : Site C}
    (hsite : site = ⟨s.fresh, [], i.bounds ++ .routine P :: s.stack, P, script, reenters⟩)
    (h : Orderly B p K site m) {evs : List (PassEvent C)} {e : PassEvent C}
    (hr : Reaches B p m evs n) (hbefore : ∀ e ∈ evs, site.Aside e) (he : n.event? p = some e)
    (hnot : ¬ site.Aside e) :
    ∃ o queue n', e = .finished s.fresh o ∧
      (∃ s', n.scheduler? p = some s' ∧ s'.stack = queue ++ site.below) ∧
      (¬ reenters → queue = []) ∧ Reaches B p n [e] n' ∧ Receives p site queue o n' := by
  subst hsite
  obtain ⟨m₁, s₁, hr₁, hhead, hstand⟩ := h.begins hat hi hP
  obtain ⟨j, rfl, rfl⟩ := hr
  obtain ⟨k, -, hafter, htrail⟩ := hr₁.pass (Q := Site.Aside _) (List.forall_mem_nil _) he hnot
  rw [List.nil_append] at htrail
  rw [htrail] at hbefore
  rw [← hafter] at he ⊢
  obtain ⟨o, script', s', queue, rfl, hat', hstepped⟩ :=
    (h.quietly hr₁).first_about hhead hstand hbefore he hnot
  have hord := (h.quietly hr₁).later ⟨k, rfl, rfl⟩ hbefore
  obtain ⟨bounds, hbounds⟩ : ∃ bounds, i.bounds = List.replicate bounds .boundary := by
    cases i with
    | reset => exact ⟨1, rfl⟩
    | _ => exact ⟨0, rfl⟩
  obtain ⟨n', hr', hreceives⟩ := hord.delivers hat' hstepped rfl bounds s.stack
    (by rw [hbounds]) huser
  rw [he] at hr'
  exact ⟨o, queue, n', rfl, ⟨s', hat'.scheduler, hstepped.stack⟩, hstepped.ground.calm, hr',
    hreceives⟩

/-! ### Computing what is assumed -/

/-- A routine yields. -/
structure Yield (C R : Type) where
  frames : List (Frame C R)
  id : RoutineId
  instruction : Instruction C
  script : Script C
  scheduler : Scheduler C
  routine : Routine C

variable (p) in
/-- The yield in focus. -/
def yield? (m : Machine C R) : Option (Yield C R) :=
  match m.focus, m.control, m.scheduler? p with
  | .release [] (.give (.stepped (.yield i) script)), .stepping q id :: .pass q' :: K, some s =>
    if q = p ∧ q' = p then (s.routines.find? id).map (⟨K, id, i, script, s, ·⟩) else none
  | _, _, _ => none

theorem of_yield? {x : Yield C R} (h : m.yield? p = some x) :
    At p x.frames [.stepping p x.id] (.release [] (.give (.stepped (.yield x.instruction) x.script)))
        x.scheduler m ∧
      x.scheduler.routines.find? x.id = some x.routine := by
  unfold yield? at h
  split at h
  · next i script q id q' K s hfocus hcontrol hsched =>
    split at h
    · next hq =>
      obtain ⟨rfl, rfl⟩ := hq
      obtain ⟨r, hr, rfl⟩ := Option.map_eq_some_iff.mp h
      exact ⟨⟨hcontrol, hfocus, hsched⟩, hr⟩
    · cases h
  · cases h

/-- A step has come back that is done, or asks for a reset or a splice. -/
def Focus.steppedOn : Focus C R → Bool
  | .release [] (.give (.stepped step script)) => script.isUser && step.continues
  | _ => false

/-- Something has come back. -/
def Focus.given : Focus C R → Bool
  | .release [] (.give _) => true
  | _ => false

variable (B p) in
/-- The program keeps to resets and splices, and re-enters nothing. -/
def straight (fuel : Nat) (m : Machine C R) : Bool :=
  match m.focus, m.control with
  | .release (_ :: _) _, _ => false
  | .advance (.reentry _ (some _)) _, _ => false
  | .advance _ _, .stepping _ _ :: _ => answers B p Focus.steppedOn fuel m
  | .release [] (.begin _ .begin), .building _ _ _ :: _ => answers B p Focus.given fuel m
  | _, _ => true

theorem stepsReturn_of_straight {fuel : Nat} (h : straight B p fuel m = true) :
    StepsReturn B p K site m := by
  intro script input id s rest queue hf hc _ _
  have hanswered : Answered B p m fun f => ∃ step script',
      f = .release [] (.give (.stepped step script')) ∧ script'.isUser = true ∧
        step.continues = true := by
    unfold straight at h
    rw [hf, hc] at h
    split at h
    · cases h
    · cases h
    · refine answered_of_answers h ?_
      intro f hon
      unfold Focus.steppedOn at hon
      split at hon
      · exact ⟨_, _, rfl, (Bool.and_eq_true ..).mp hon⟩
      · cases hon
    · next heq _ => cases heq
    · next hnot _ => exact (hnot _ _ _ _ _ rfl rfl).elim
  exact hanswered.weaken fun s t hspared => ⟨[], hspared.reentered, Or.inl rfl⟩

theorem blocksReturn_of_straight {fuel : Nat} (h : straight B p fuel m = true) :
    BlocksReturn B p K site m := by
  intro block id origin s hf hc _ _
  unfold straight at h
  rw [hf, hc] at h
  refine answered_of_answers h ?_
  intro f hgiven
  unfold Focus.given at hgiven
  split at hgiven
  · exact ⟨_, rfl⟩
  · cases hgiven

theorem reentriesReturn_of_straight {fuel : Nat} (h : straight B p fuel m = true) :
    ReentriesReturn B p K site m := by
  intro k v input id s top work queue hf hc _ _
  unfold straight at h
  rw [hf, hc] at h
  cases h

theorem dropsReturn_of_straight {fuel : Nat} (h : straight B p fuel m = true) :
    DropsReturn B p m := by
  intro handle hs onward hf
  unfold straight at h
  rw [hf] at h
  cases h

theorem orderly_of_rehearsed {fuel fuel' : Nat} {P : RoutineId} (hreach : Reachable B m)
    (hroom : throughout B (fun _ => false) (fewSlots p) fuel m = true)
    (h : rehearsed B p (fun e => e.id = P) (straight B p fuel') fuel m = true)
    (hP : site.P = P) : Orderly B p K site m := by
  have hother : ∀ evs : List (PassEvent C), (∀ e ∈ evs, e.id ≠ site.P) →
      ∀ e ∈ evs, decide (e.id = P) = false := by
    intro evs hevs e he
    exact decide_eq_false (hP ▸ hevs e he)
  have haside : ∀ evs : List (PassEvent C), (∀ e ∈ evs, site.Aside e) →
      ∀ e ∈ evs, decide (e.id = P) = false :=
    fun evs hevs => hother evs fun e he => (hevs e he).id_ne
  exact ⟨hreach, roomy_of_fewSlots hroom,
    during_of_rehearsed h haside fun _ => stepsReturn_of_straight,
    during_of_rehearsed h haside fun _ => blocksReturn_of_straight,
    during_of_rehearsed h haside fun _ => reentriesReturn_of_straight,
    during_of_rehearsed h hother fun _ => dropsReturn_of_straight⟩

end Machine

/-- The number that somebody is fed, or (`true`) that is the end of it. -/
def PassEvent.number? {C : Type} : PassEvent C → Option (RoutineId × Bool × Int64)
  | .resumed id _ (.success (.int n)) => some (id, false, n)
  | .finished id (.success (.int n)) => some (id, true, n)
  | _ => none

theorem PassEvent.eq_resumed {C : Type} {e : PassEvent C} {id : RoutineId} {n : Int64}
    (h : e.number? = some (id, false, n)) : ∃ script, e = .resumed id script (.success (.int n)) := by
  unfold number? at h
  split at h <;> cases h
  exact ⟨_, rfl⟩

theorem PassEvent.eq_finished {C : Type} {e : PassEvent C} {id : RoutineId} {n : Int64}
    (h : e.number? = some (id, true, n)) : e = .finished id (.success (.int n)) := by
  unfold number? at h
  split at h <;> cases h
  rfl

open Machine Strand.Language in
/-- A root that resets a script, which splices another one. -/
def nested : Machine Code Running :=
  let script stages := Term.apply (.staged (stages.map .onSuccess) none) []
  let done value := Term.apply .done [.mk .outcome value]
  let child := script [.apply .splice [.mk .script (script [done (.literal (.int 1))])],
    done (.apply .add [.mk (.type .int) (.apply .input []), .mk (.type .int) (.literal (.int 10))])]
  Program.machine [] .empty
    (.apply (.evaluate (script [.apply (.reset child) [], done (.apply .input [])]))
      [.mk (.type .scheduler) (.apply (.newScheduler {}) [])])

open Machine Strand.Language in
/-- The root of `nested` yields after 28 moves, and 65 moves later the reset is
    done with 11. -/
theorem outcome_goes_to_top_nested :
    ∃ (m n n' : Machine Code Running) (x : Yield Code Running),
      m = after behavior 28 nested ∧ m.yield? 0 = some x ∧ n = after behavior 65 m ∧
      n.event? 0 = some (.finished ⟨1, 0⟩ (.success (.int 11))) ∧
      Reaches behavior 0 n [.finished ⟨1, 0⟩ (.success (.int 11))] n' ∧
      n'.event? 0 = some (.resumed x.id x.script (.success (.int 11))) := by
  let site : Site Code := ⟨⟨1, 0⟩, [], [], ⟨0, 0⟩, .staged .empty, False⟩
  have hyield : ((after behavior 28 nested).yield? 0).map
      (fun x => (x.id, x.scheduler.fresh, x.script.isUser, (Step.yield x.instruction).continues)) =
        some (⟨0, 0⟩, ⟨1, 0⟩, true, true) := by decide +kernel
  have hroom : throughout behavior (fun _ => false) (fewSlots 0) 200
      (after behavior 28 nested) = true := by decide +kernel
  have hstraight : rehearsed behavior 0 (fun e => e.id = ⟨0, 0⟩) (straight behavior 0 40) 200
      (after behavior 28 nested) = true := by decide +kernel
  have hbefore : ∀ e ∈ trail behavior 0 65 (after behavior 28 nested), site.Aside e := by
    decide +kernel
  have hevent : ((after behavior 65 (after behavior 28 nested)).event? 0).bind PassEvent.number? =
      some (⟨1, 0⟩, true, 11) := by decide +kernel
  have hreach : Reachable behavior (after behavior 28 nested) :=
    ⟨nested.focus, Reaches.later (p := 0) ⟨28, rfl, rfl⟩⟩
  refine ⟨after behavior 28 nested, after behavior 65 (after behavior 28 nested), ?_⟩
  generalize after behavior 28 nested = m at *
  obtain ⟨e, he, hfinished⟩ := Option.bind_eq_some_iff.mp hevent
  obtain ⟨x, hx, hids⟩ := Option.map_eq_some_iff.mp hyield
  simp only [Prod.mk.injEq] at hids
  obtain ⟨hid, hfresh, huser, hcontinues⟩ := hids
  obtain ⟨hat, hP⟩ := of_yield? hx
  obtain rfl := PassEvent.eq_finished hfinished
  have horderly : Orderly behavior 0 x.frames ⟨x.scheduler.fresh, [], x.instruction.bounds ++
      .routine x.id :: x.scheduler.stack, x.id, x.script, False⟩ m :=
    orderly_of_rehearsed hreach hroom hstraight hid
  obtain ⟨o, queue, n', ho, -, hqueue, hr, hreceives⟩ := outcome_goes_to_top hat hcontinues hP huser
    rfl horderly ⟨65, rfl, rfl⟩ (by
      intro e hmem
      have haside := hbefore e hmem
      cases e <;> simpa only [Site.Aside, hid, hfresh] using haside)
    he (by simp [Site.Aside, hfresh])
  obtain ⟨-, rfl⟩ := PassEvent.finished.inj ho
  rw [hqueue not_false] at hreceives
  exact ⟨n', x, rfl, hx, rfl, he, hr, hreceives⟩

open Machine Strand.Language in
/-- A root that splices a script, whose only step re-enters a continuation with
    7 and is done with 1. The continuation is that of another root, and hands on
    what it is fed. -/
def overtaken : Machine Code Running :=
  let script stages := Term.apply (.staged (stages.map .onSuccess) none) []
  let lookup name := Term.apply (.lookup name) []
  let done value := Term.apply .done [.mk .outcome value]
  let scheduler := [Operand.mk (.type .scheduler) (lookup "s")]
  let handler := HandlerTerm.mk (.apply .returning [.mk .outcome (.literal .unit)]) none none
    (some "k") (some "r")
  let captured := script [.apply (.shift handler) [], done (.apply .input [])]
  let reenter := Term.apply .reenter [.mk (.type .reenter) (lookup "r"),
    .mk (.type .continuation) (lookup "k"), .mk .any (.literal (.int 7))]
  let child := script [.sequence [reenter] (done (.literal (.int 1)))]
  Program.machine [] .empty (.sequence
    [.apply (.assign "s") [.mk .any (.apply (.newScheduler {}) [])],
      .apply (.start captured) scheduler]
    (.apply (.evaluate (script [.apply .splice [.mk .script child], done (.apply .input [])]))
      scheduler))

open Machine Strand.Language in
/-- The child is done with 1, which the re-entry is fed; the root that has
    spliced the child is fed 7. -/
theorem outcome_overtaken :
    ((after behavior 126 overtaken).yield? 0).map (fun x => (x.id, x.scheduler.fresh)) =
        some (⟨1, 1⟩, ⟨2, 0⟩) ∧
      (trail behavior 0 84 (after behavior 126 overtaken)).filterMap PassEvent.number? =
        [(⟨2, 0⟩, true, 1), (⟨3, 0⟩, false, 1), (⟨0, 0⟩, false, 7), (⟨0, 0⟩, true, 7),
          (⟨1, 1⟩, false, 7)] := by
  decide +kernel

end Strand
