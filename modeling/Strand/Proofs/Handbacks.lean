import Strand.Proofs.Courses

/-! # Handbacks — a handler that resumes at once is substitution

    A routine shifts, and its handler's only step invokes the continuation. What is
    left of that in the end is a handler that sleeps under the routine: the captured
    routines are on the stack again with their scripts, and the one that has shifted
    is fed the value (`Plays.hands_back`). -/

namespace Strand

variable {C : Type}

namespace Scheduler

variable {s t : Scheduler C} {a X : RoutineId} {x : Routine C}

/-! ### Scripts that are given back -/

theorem find?_giveBack (s : Scheduler C) (id : RoutineId) (script : Script C) (a : RoutineId) :
    (s.giveBack id script).routines.find? a =
      (s.routines.find? a).map fun x => if a = id then { x with script := some script } else x := by
  unfold giveBack
  split
  · show (s.routines.modify id _).find? a = _
    rw [Roster.find?_modify]
    split
    · rfl
    · rw [Option.map_id']
  · next hdead =>
    by_cases ha : a = id
    · subst ha
      rw [Roster.contains_iff, not_exists] at hdead
      cases hx : s.routines.find? a with
      | none => exact hx
      | some x => exact absurd hx (hdead x)
    · simp only [if_neg ha, Option.map_id']
      rfl

theorem find?_giveBackAll_congr (frames : List (Lifted C))
    (h : ∀ a, s.routines.find? a = t.routines.find? a) (a : RoutineId) :
    (s.giveBackAll frames).routines.find? a = (t.giveBackAll frames).routines.find? a := by
  induction frames generalizing s t with
  | nil => exact h a
  | cons f frames ih =>
    refine ih (s := s.giveBack f.id f.script) (t := t.giveBack f.id f.script) fun b => ?_
    rw [find?_giveBack, find?_giveBack, h]

/-- What has been lifted is given back as it was. -/
theorem find?_giveBackAll_liftFrom (stack : List StackEntry) (lifted : List (Lifted C))
    (s : Scheduler C) (a : RoutineId) :
    ((liftFrom stack lifted s).2.giveBackAll (liftFrom stack lifted s).1).routines.find? a =
      (s.giveBackAll lifted).routines.find? a := by
  induction stack generalizing lifted s with
  | nil => exact find?_giveBackAll_congr (s := { s with stack := [] }) (t := s) lifted (fun _ => rfl) a
  | cons work rest ih =>
    cases work with
    | boundary =>
      exact find?_giveBackAll_congr (s := { s with stack := rest }) (t := s) lifted (fun _ => rfl) a
    | routine id =>
      unfold liftFrom
      split
      · exact ih lifted s
      · next r hr =>
        split
        · exact ih lifted s
        · next script hscript =>
          rw [ih]
          refine find?_giveBackAll_congr lifted (fun b => ?_) a
          rw [find?_giveBack]
          show ((s.routines.modify id _).find? b).map _ = _
          rw [Roster.find?_modify]
          by_cases hb : b = id
          · subst hb
            rw [if_pos rfl, hr]
            simp [← hscript]
          · rw [if_neg hb]
            simp only [if_neg hb, Option.map_id']

/-! ### Stacks that are split at a boundary -/

theorem map_routinesOf_aboveBoundary (stack : List StackEntry) :
    (routinesOf (aboveBoundary stack)).map StackEntry.routine = aboveBoundary stack := by
  induction stack with
  | nil => rfl
  | cons work rest ih =>
    cases work with
    | boundary => rfl
    | routine id => exact congrArg (StackEntry.routine id :: ·) ih

theorem mem_routinesOf {a : RoutineId} {stack : List StackEntry} :
    a ∈ routinesOf stack ↔ .routine a ∈ stack := by
  induction stack with
  | nil => exact ⟨nofun, nofun⟩
  | cons work rest ih => cases work <;> simp [ih]

/-- Putting back what was above a boundary, and a boundary, makes up the stack again;
    if there was none, there is one now. -/
theorem above_boundary_below (stack : List StackEntry) : ∃ j,
    aboveBoundary stack ++ .boundary :: belowBoundary stack =
      stack ++ List.replicate j .boundary := by
  induction stack with
  | nil => exact ⟨1, rfl⟩
  | cons work rest ih =>
    cases work with
    | boundary => exact ⟨0, by simp [aboveBoundary, belowBoundary]⟩
    | routine id =>
      obtain ⟨j, hj⟩ := ih
      exact ⟨j, congrArg (StackEntry.routine id :: ·) hj⟩

/-- The routines that wait in `work`, beneath `X`, are live, and each is listed once. -/
structure Queued (s : Scheduler C) (X : RoutineId) (work : List StackEntry) : Prop where
  nodup : (X :: routinesOf work).Nodup
  waits : ∀ a ∈ routinesOf work, ∃ x, s.routines.find? a = some x ∧ x.script ≠ none

theorem Queued.above {work : List StackEntry} (h : Queued s X work) :
    Queued s X (aboveBoundary work) where
  nodup := List.Sublist.nodup
    (List.Sublist.cons_cons _ (List.Sublist.filterMap _ (List.takeWhile_sublist _))) h.nodup
  waits a ha := h.waits a
    (List.Sublist.subset (List.Sublist.filterMap _ (List.takeWhile_sublist _)) ha)

theorem Queued.segment (h : Queued s X (aboveBoundary s.stack)) :
    s.segment = routinesOf (aboveBoundary s.stack) := by
  refine List.filter_eq_self.mpr fun a ha => ?_
  obtain ⟨x, hx, -⟩ := h.waits a ha
  exact Roster.contains_iff.mpr ⟨x, hx⟩

/-- What a shift lifts, and what it makes of the entries once it has given the scripts
    back. -/
theorem Queued.lift (h : Queued s X (aboveBoundary s.stack)) (hX : s.routines.find? X = some x)
    (later : Script C) :
    ∃ frames t, (s.shelve X later).lift = (frames, t) ∧
      ((frames.map Lifted.id).map StackEntry.routine).reverse =
        .routine X :: aboveBoundary s.stack ∧
      (∀ f ∈ frames, f.id = X ∨ f.id ∈ routinesOf (aboveBoundary s.stack)) ∧
      t.stack = belowBoundary s.stack ∧
      ∀ a, (t.giveBackAll frames).routines.find? a = (s.shelve X later).routines.find? a := by
  obtain ⟨⟨frames, t⟩, hlift⟩ : ∃ r, (s.shelve X later).lift = r := ⟨_, rfl⟩
  obtain ⟨hids, hstack, -⟩ := live_lift hlift hX
    (fun a ha y hy => by
      rw [h.segment] at ha
      obtain ⟨z, hz, hscript⟩ := h.waits a ha
      rw [hy] at hz
      cases hz
      exact hscript)
    (h.segment.symm ▸ h.nodup)
  refine ⟨frames, t, hlift, ?_, ?_, hstack, ?_⟩
  · rw [hids, ← List.map_reverse, List.reverse_reverse, List.map_cons, h.segment,
      map_routinesOf_aboveBoundary]
  · intro f hf
    have hmem : f.id ∈ frames.map Lifted.id := List.mem_map_of_mem hf
    rw [hids, List.mem_reverse, h.segment] at hmem
    exact List.mem_cons.mp hmem
  · intro a
    have ht : t.routines = (liftFrom (s.shelve X later).stack [] (s.shelve X later)).2.routines :=
      congrArg (fun r => r.2.routines) hlift.symm
    have hframes : frames = (liftFrom (s.shelve X later).stack [] (s.shelve X later)).1 :=
      congrArg Prod.fst hlift.symm
    rw [find?_giveBackAll_congr frames (t := (liftFrom (s.shelve X later).stack []
      (s.shelve X later)).2) (fun b => by rw [ht]) a, hframes, find?_giveBackAll_liftFrom]
    rfl

/-- The routine `X` that shifts has been put back beneath its handler `H`, which is to
    sleep there. -/
theorem Worked.of_nap {shifts strict : Prop} {H : RoutineId} {stage : Stage C} {later script : Script C}
    {r : Roster (Routine C)} {j : Nat} (hshifts : shifts) (hX : s.routines.find? X = some x)
    (hout : x.script = none) (hnew : ∀ a, a.index = H.index → s.routines.find? a = none)
    (hX' : r.find? X = some { x with script := some later, children := x.children ++ [H] })
    (hentries : ∀ a, ¬ InSlots [H] a → r.find? a = (s.routines.find? a).map
      fun y => joined H X a (if a = X then { y with script := some script } else y))
    (hH : r.find? H = some ⟨.shift, none, some X, []⟩)
    (hstack : t.stack = s.stack ++ List.replicate j .boundary)
    (hroutines : t.routines = (r.modify H fun y => { y with script := some (oneStage stage 1) }).modify
      X fun y => { y with script := none }) :
    Worked shifts strict X [(H, stage)] s t := by
  have hHX : H ≠ X := by
    rintro rfl
    rw [hnew H rfl] at hX
    cases hX
  have hfind : ∀ a, t.routines.find? a = if a = X then
      some { x with children := x.children ++ [H] } else if a = H then
      some ⟨.shift, some (oneStage stage 1), some X, []⟩ else r.find? a := by
    intro a
    rw [hroutines, Roster.find?_modify, Roster.find?_modify]
    by_cases haX : a = X
    · rw [if_pos haX, if_pos haX, haX, if_neg (Ne.symm hHX), hX', ← hout]
      rfl
    · rw [if_neg haX, if_neg haX]
      by_cases haH : a = H
      · rw [if_pos haH, if_pos haH, haH, hH]
        rfl
      · rw [if_neg haH, if_neg haH]
  have hsame : ∀ a, ¬ InSlots [H] a → a ≠ X → t.routines.find? a = s.routines.find? a := by
    intro a hin haX
    have haH : a ≠ H := by
      rintro rfl
      exact hin (.of_mem (List.mem_singleton.mpr rfl))
    rw [hfind, if_neg haX, if_neg haH, hentries a hin]
    simp [joined, haX]
  refine ⟨⟨j, hstack, Or.inr hshifts⟩, Or.inr hshifts, fun y hy _ => ?_, fun nap hnap => ?_,
    fun a ha => hnew a (inSlots_singleton.mp ha).symm, .of_others (fun a y _ hy => ?_) fun a hnot => ?_⟩
  · rw [hX] at hy
    cases hy
    exact ⟨x.parent, (hfind X).trans (if_pos rfl), fun _ => rfl⟩
  · obtain rfl := List.mem_singleton.mp hnap
    rw [hfind, if_neg hHX, if_pos rfl]
  · by_cases haX : a = X
    · exact ⟨_, (hfind a).trans (if_pos haX)⟩
    · refine ⟨y, (hsame a (fun hin => ?_) haX).trans hy⟩
      rw [hnew a (inSlots_singleton.mp hin).symm] at hy
      cases hy
  · refine hsame a (fun hin => hnot (inSlots_cons.mpr (Or.inr hin))) ?_
    rintro rfl
    exact hnot (.of_mem (List.mem_cons_self ..))

end Scheduler

namespace Machine

open Scheduler

variable {R : Type} {B : Behavior C R} {p : Nat} {K : List (Frame C R)} {s t : Scheduler C}
  {m n : Machine C R} {X : RoutineId} {x : Routine C} {frames : List (Lifted C)} {handler : C}

/-! ### Captures -/

/-- The frames are copied one after the other, get their scripts back, and the handler
    is called with the continuation. -/
theorem reaches_handler (handler : C) (frames left : List (Lifted C)) (copies : List (Script C))
    (hcontrol : m.control = .pass p :: K) (hs : m.scheduler? p = some s)
    (hcopies : ∀ n, Reaches B p (m.captureNext p X handler frames copies left) [] n →
      AtLoop p K n → CopyReturns B p n) :
    ∃ n t k copies', Reaches B p (m.captureNext p X handler frames copies left) [] n ∧
      n.Calls p (.pass p :: K) X handler k ∧ s.Spared t ∧
      n.scheduler? p = some { t.giveBackAll frames with reports := [] } ∧
      copies'.length = copies.length + left.length ∧
      n.snapshot? k = some (.of p frames copies') := by
  induction left generalizing m s copies with
  | nil =>
    refine ⟨_, s, (m.onScheduler p fun s => s.giveBackAll frames).store.snapshots.cells.size, copies,
      .refl _, ⟨?_, rfl⟩, .refl s, scheduler?_onScheduler_some hs _, rfl, ?_⟩
    · show _ :: m.control = _
      rw [hcontrol]
    · exact (Table.find?_alloc _ 1 (Snapshot.of p frames copies) _).trans (if_pos rfl)
  | cons frame left ih =>
    have hcopying : (m.captureNext p X handler frames copies (frame :: left)).control =
        .capturing p X handler frames copies left :: .pass p :: K := by
      rw [← hcontrol]
      rfl
    have hat : At p K [.capturing p X handler frames copies left] (.copy frame.script) s
        (m.captureNext p X handler frames copies (frame :: left)) := ⟨hcopying, rfl, hs⟩
    obtain ⟨n, focus, t, hr, hat', ⟨a, rfl⟩, hspared⟩ := hat.answered
      (hcopies _ (.refl _) (hat.atLoop (by simp [Frame.ofLoop])) frame.script rfl)
    rw [show event? p _ = none by simp [event?, hat.focus]] at hr
    have hstep : n.step B = ({ n with control := .pass p :: K } : Machine C R).captureNext p X
        handler frames (copies ++ [a.script]) left := by
      simp only [step, hat'.focus, goOn, hat'.control]
      rfl
    have hr' : Reaches B p (m.captureNext p X handler frames copies (frame :: left)) [] (n.step B) :=
      Reaches.unseen hr (by simp [event?, hat'.focus, hat'.control])
    rw [hstep] at hr'
    obtain ⟨o, u, k, copies', hr'', hcalls, htu, hu, hlength, hk⟩ :=
      ih (m := { n with control := .pass p :: K }) _ rfl hat'.scheduler
        fun n' hn' => hcopies n' (hr'.quietly hn')
    rw [List.length_append, List.length_singleton, Nat.add_assoc, Nat.add_comm 1] at hlength
    exact ⟨o, u, k, copies', hr'.quietly hr'', hcalls, hspared.trans htu, hu, hlength, hk⟩

section Plays

variable {π : Conduct C} {N : Nat} {strict : Prop} {m₀ : Machine C R} {evs : List (PassEvent C)}
  {later : Script C} {v : Value} {k : Nat}

/-- A routine shifts, and the handler is called. -/
theorem Plays.captures (h : Plays B p K π N strict m₀) (hr : Reaches B p m₀ evs m)
    (hN : (fedIn evs).length ≤ N)
    (hat : At p K [.stepping p X] (.release [] (.give (.stepped (.yield (.shift handler)) later)))
      s m)
    (hX : s.routines.find? X = some x) (hqueued : Queued s X (aboveBoundary s.stack)) :
    ∃ n k frames copies t, Reaches B p m [] n ∧ n.Calls p (.pass p :: K) X handler k ∧
      n.scheduler? p = some t ∧ copies.length = frames.length ∧
      n.snapshot? k = some (.of p frames copies) ∧
      ((frames.map Lifted.id).map StackEntry.routine).reverse =
        .routine X :: aboveBoundary s.stack ∧
      (∀ f ∈ frames, f.id = X ∨ f.id ∈ routinesOf (aboveBoundary s.stack)) ∧
      t.stack = belowBoundary s.stack ∧
      ∀ a, t.routines.find? a =
        (s.routines.find? a).map fun y => if a = X then { y with script := some later } else y := by
  obtain ⟨frames, t, hlift, hplaces, hids, hstack, hgiven⟩ := hqueued.lift hX later
  have hshift : m.Shifts p (.pass p :: K) X later handler := ⟨hat.control, hat.focus⟩
  have hstep := hshift.step (B := B) hat.scheduler hlift
  have hs : ({ m with control := .pass p :: K } : Machine C R).scheduler? p = some s := hat.scheduler
  have hr₁ : Reaches B p m [] (m.step B) :=
    Reaches.unseen (.refl m) (by simp [event?, hat.focus, hat.control])
  rw [hstep] at hr₁
  obtain ⟨n, u, k, copies, hr₂, hcalls, hspared, hu, hlength, hk⟩ := reaches_handler (K := K) (X := X)
    (m := ({ m with control := .pass p :: K } : Machine C R).onScheduler p fun _ => t) handler frames
    frames [] rfl
    (scheduler?_onScheduler_some hs _) fun n' hn' hloop => by
      refine h.copies evs n' (hr.quietly (hr₁.quietly hn')) hN hloop
  refine ⟨n, k, frames, copies, _, hr₁.quietly hr₂, hcalls, hu, hlength.trans (Nat.zero_add _), hk,
    hplaces, hids, ?_, fun a => ?_⟩
  · show (u.giveBackAll frames).stack = _
    rw [stack_giveBackAll, ← hstack]
    obtain ⟨_, _, _, rfl⟩ := hspared
    rfl
  · rw [← find?_shelve hX, ← hgiven]
    show (u.giveBackAll frames).routines.find? a = _
    exact find?_giveBackAll_congr frames (fun b => by rw [hspared.routines]) a

/-- The step of handler `H` suspends after it has put routines back on the stack, of which
    `X` is the topmost; its parent is live. -/
theorem At.suspends_beneath {H q : RoutineId} {script stacked : Script C} {hs : List Handle}
    {fs : List (Frame C R)} {y z : Routine C} {tail : List StackEntry}
    (hat : At p K fs (Focus.replied hs) s m) (h : SuspendsAs B p K H script m)
    (hlinked : ∀ n t, Reaches B p m [] n → n.scheduler? p = some t → Linked t.routines)
    (hdrops : During B p K (· = []) (DropsReturn B p) m)
    (hstill : During B p K (· = []) (NoneUnclaimed p) m)
    (hH : s.routines.find? H = some y) (hparent : y.parent = some q)
    (hq : s.routines.find? q = some z) (hne : X ≠ H)
    (hstack : s.stack = .routine X :: tail) (hX : s.routines.find? X = some x)
    (hscript : x.script = some stacked) :
    ∃ n t, Reaches B p m [] n ∧ At p K [.stepping p X] (.advance stacked s.register) t n ∧
      t.stack = tail ∧ t.routines = (s.routines.modify H fun r => { r with script := some script }).modify
        X fun r => { r with script := none } := by
  obtain ⟨n₁, s₁, hr₁, hyield, hspared⟩ := h s hat.scheduler
  have hroutines := hspared.routines
  obtain ⟨hstack₁, hregister₁⟩ : s₁.stack = s.stack ∧ s₁.register = s.register := by
    obtain ⟨_, _, _, rfl⟩ := hspared
    exact ⟨rfl, rfl⟩
  have hsuspend : s₁.suspend H script = s₁.modify H fun r => { r with script := some script } := by
    unfold suspend
    rw [hroutines, hH]
    simp only [liveParent_eq_some.mpr ⟨hparent, z, hroutines ▸ hq⟩]
    exact giveBack_of_live (hroutines ▸ hH) script
  have hsweep := hyield.suspends (B := B)
  have hr₂ := hr₁.unseen (show n₁.event? p = none by
    simp [event?, hyield.focus, hyield.control])
  obtain ⟨n₂, s₂, hr₃, hhead, hpruned, -, hsame⟩ := hsweep.tidied
    (hlinked _ _ hr₂ hsweep.scheduler) (hdrops.quietly hr₂)
  have hroutines₂ : s₂.routines = s.routines.modify H fun r => { r with script := some script } := by
    rw [hsame (hstill.quietly hr₂), hsuspend, ← hroutines]
    rfl
  have hstack₂ : s₂.stack = List.replicate 0 .boundary ++ .routine X :: tail := by
    rw [hpruned.shrunk.work.stack, hsuspend]
    exact hstack₁.trans hstack
  have hX₂ : s₂.routines.find? X = some x := by
    rw [hroutines₂, Roster.find?_modify, if_neg hne, hX]
  obtain ⟨t, hr₄, hfed, htail, ht⟩ := hhead.feeds (B := B) hstack₂ hX₂ hscript
  have hregister₂ : s₂.register = s.register := by
    rw [hpruned.shrunk.work.register, hsuspend]
    exact hregister₁
  exact ⟨_, t, (hr₂.quietly hr₃).quietly hr₄, hregister₂ ▸ hfed, htail, by rw [ht, hroutines₂]⟩

/-- A routine shifts, and its handler hands `v` back. -/
theorem Plays.hands_back {shifts : Prop} (h : Plays B p K π N strict m₀)
    (hr : Reaches B p m₀ evs m) (hN : (fedIn evs).length < N) (hshifts : shifts) (hstrict : strict)
    (hat : At p K [.stepping p X] (.release [] (.give (.stepped (.yield (.shift handler)) later)))
      s m)
    (hX : s.routines.find? X = some x) (hout : x.script = none)
    (hqueued : Queued s X s.stack)
    (hhands : π.hands (fedIn evs) handler = some v) :
    ∃ n t nap, Reaches B p m [.resumed nap.1 (π.build (fedIn evs) handler) .unit] n ∧
      At p K [.stepping p X] (.advance later (.success v)) t n ∧ Worked shifts strict X [nap] s t := by
  obtain ⟨n₁, k, frames, copies, s₁, hr₁, hcalls, hs₁, -, hk, hplaces, hids, hstack₁, hentries₁⟩ :=
    h.captures hr (Nat.le_of_lt hN) hat hX hqueued.above
  obtain ⟨stage, hone, hbuilds, hresumes⟩ :=
    h.hands evs n₁ X handler k v (hr.quietly hr₁) hN hcalls hhands
  generalize π.build (fedIn evs) handler = script at hone hbuilds hresumes ⊢
  -- the handler builds a script, which is fed unit
  have hat₁ : At p K [.building p X .shift] (.release [] (.begin handler (.handle k p))) s₁ n₁ :=
    ⟨hcalls.control, hcalls.focus, hs₁⟩
  obtain ⟨n₂, focus, s₂, hr₂, hat₂, ⟨a, rfl, rfl⟩, hspared₂⟩ := hat₁.answered hbuilds
  rw [show event? p _ = none by simp [event?, hat₁.focus, hat₁.control]] at hr₂
  have hsweep := hat₂.builds (B := B)
  have hr₃ := hr₂.unseen (show n₂.event? p = none by simp [event?, hat₂.focus, hat₂.control])
  have hr₁₃ := hr.quietly (hr₁.quietly hr₃)
  have hroutines₂ : s₂.routines = s₁.routines := hspared₂.routines
  have hstack₂ : s₂.stack = belowBoundary s.stack := by
    rw [← hstack₁]
    obtain ⟨_, _, _, rfl⟩ := hspared₂
    rfl
  have hX₁ : s₁.routines.find? X = some { x with script := some later } := by
    rw [hentries₁, hX, Option.map_some, if_pos rfl]
  have hroom : (s₂.scheduleChild .shift a.script X).routines.slots.size ≤ 2 ^ 32 := by
    have hroom := h.room _ _ _ hr₁₃ hsweep.scheduler
    exact hroom
  have hstill : strict → During B p K (· = []) (NoneUnclaimed p) (n₂.step B) :=
    fun hs => quietly_of_fed (h.still hs) hr₁₃ (Nat.le_of_lt hN)
  obtain ⟨n₄, s₄, parent, hr₄, hat₄, hstack₄, hH, hparent, hvacant, hbeside⟩ := hsweep.feeds_child
    (h.reach.later hr₁₃.later) (hroutines₂ ▸ h.linked (hr.quietly hr₁) hs₁) hroom (hroutines₂ ▸ hX₁)
    (quietly_of_fed h.drops hr₁₃ (Nat.le_of_lt hN)) hstill
  obtain rfl := hparent hstrict
  generalize s₂.fresh = H at *
  have hnew : ∀ a, a.index = H.index → s.routines.find? a = none := by
    intro a ha
    have hnone := hvacant a ha
    rwa [hroutines₂, hentries₁, Option.map_eq_none_iff] at hnone
  have hXH : X.index ≠ H.index := by
    intro heq
    rw [hnew X heq] at hX
    cases hX
  have hentries₄ : ∀ a, ¬ InSlots [H] a → s₄.routines.find? a = (s.routines.find? a).map
      fun y => joined H X a (if a = X then { y with script := some later } else y) := by
    intro a hnot
    rw [hbeside.exact hstrict a hnot, hroutines₂, hentries₁, Option.map_map]
    rfl
  have hX₄ : s₄.routines.find? X =
      some { x with script := some later, children := x.children ++ [H] } := by
    rw [hentries₄ X fun hin => hXH (inSlots_singleton.mp hin).symm, hX, Option.map_some]
    simp [joined]
  -- its step invokes the continuation, which has its routines
  obtain ⟨n₅, fs, next, s₅, hr₅, hat₅, hspared₅, hdormant, ⟨snapshot, hk₅⟩, hthen⟩ :=
    hresumes n₄ H s₄ (hr₃.quietly hr₄) hat₄
  obtain rfl := hdormant.uninvoked hk hk₅
  have hroutines₅ : s₅.routines = s₄.routines := hspared₅.routines
  have hstack₅ : s₅.stack = belowBoundary s.stack := by
    rw [← hstack₂, ← hstack₄]
    obtain ⟨_, _, _, rfl⟩ := hspared₅
    rfl
  have hlive : ∀ id ∈ frames.map Lifted.id, s₅.routines.contains id = true := by
    intro id hid
    obtain ⟨f, hf, rfl⟩ := List.mem_map.mp hid
    rw [hroutines₅, Roster.contains_iff]
    rcases hids f hf with heq | hmem
    · exact ⟨_, heq ▸ hX₄⟩
    · obtain ⟨y, hy, -⟩ := hqueued.above.waits _ hmem
      refine ⟨_, (hentries₄ _ fun hin => ?_).trans (by rw [hy]; rfl)⟩
      rw [hnew _ (inSlots_singleton.mp hin).symm] at hy
      cases hy
  obtain ⟨n₆, hcontrol, hs₆, -, hstep⟩ := hat₅.invokes (B := B) hk₅ rfl
  have hreinstates : n₅.step B = n₆.reinstate p (frames.map Lifted.id) v :=
    hstep.trans (if_pos (List.all_eq_true.mpr hlive))
  have hat₆ := at_reinstate hcontrol hs₆ (frames.map Lifted.id) v
  rw [← hreinstates] at hat₆
  have hr₆ : Reaches B p n₅ [] (n₅.step B) := Reaches.unseen (.refl n₅) (by simp [event?, hat₅.focus])
  -- then it suspends, and `X` is on top of the stack again
  have hr₇ := hr₁₃.trans (hr₄.trans hr₅) |>.quietly hr₆
  have hN' : (fedIn (evs ++ ([] ++ [.resumed H a.script .unit]))).length ≤ N := by
    simpa using hN
  obtain ⟨j, hj⟩ := above_boundary_below s.stack
  have hplaced : (s₅.reinstate (frames.map Lifted.id) v).stack =
      .routine X :: (s.stack ++ List.replicate j .boundary) := by
    show ((frames.map Lifted.id).map StackEntry.routine).reverse ++ .boundary :: s₅.stack = _
    rw [hplaces, hstack₅, List.cons_append, hj]
  obtain ⟨n, t, hr₈, hfed, hstack, hroutines⟩ := hat₆.suspends_beneath (hthen _ _ _ hr₆ hat₆)
    (fun n' t' hn' ht' => h.linked (hr₇.quietly hn') ht')
    (quietly_of_fed h.drops hr₇ hN') (quietly_of_fed (h.still hstrict) hr₇ hN')
    (H := H) (q := X) (by show s₅.routines.find? H = _; rw [hroutines₅, hH]) rfl
    (by show s₅.routines.find? X = _; rw [hroutines₅, hX₄])
    (fun heq => hXH (congrArg RoutineId.index heq)) hplaced
    (by show s₅.routines.find? X = _; rw [hroutines₅, hX₄]) rfl
  refine ⟨n, t, (H, stage), ?_, hfed, .of_nap hshifts hX hout hnew hX₄ hentries₄ hH hstack (by rw [← hroutines₅]; exact hroutines)⟩
  exact hr₁.trans (hr₃.trans (hr₄.trans ((hr₅.trans hr₆).trans hr₈)))

end Plays

end Machine

end Strand
