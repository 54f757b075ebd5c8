import Strand.Proofs.Posts

/-! # Captures — what a shift lifts, and what is put in its place

    The part of the stack that a shift captures ends at the nearest boundary.

    * `Scheduler.live_lift` says what is lifted: the live routines above that
      boundary, with the shifting one on top, each with its script and its links.
      What is beneath the boundary is left.
    * A routine that is neither on the stack nor in hand keeps its script
      (`Stride.carries`), so whoever a continuation remembers is as it was
      captured.
    * `Scheduler.replays_plant` says what copies of lifted frames are: new
      routines, linked among each other as the frames were, and to the frames'
      other parents where these are still there. -/

namespace Strand

variable {C R : Type}

/-! ### Scripts of routines at rest -/

namespace Roster

variable {a : RoutineId} {script : Option (Script C)} {r r' : Roster (Routine C)}

/-- Routine `a` is no new one, and as long as it is live this is its script. -/
structure Carries (a : RoutineId) (script : Option (Script C)) (r : Roster (Routine C)) : Prop where
  sound : r.Sound
  issued : r.Issued a
  entry : r.Ample a → ∀ x, r.find? a = some x → x.script = script

/-- Only a change of its script changes its script. -/
theorem steady_carries : Steady (Carries (C := C) a script) := by
  refine ⟨fun id f hf h => ⟨h.sound.modify id f, h.issued.modify id f, fun hample x hx => ?_⟩,
    fun e h => ⟨h.sound.insert e, h.issued.insert e, fun hample x hx => ?_⟩,
    fun hr h => ⟨h.sound.remove hr, h.issued.remove hr, fun hample x hx => ?_⟩⟩
  · have hold := h.entry (hample.of_grows (grows_modify _ id f))
    rw [find?_modify] at hx
    split at hx
    · obtain ⟨y, hy, rfl⟩ := Option.map_eq_some_iff.mp hx
      exact (hf y).trans (hold y hy)
    · exact hold x hx
  · have hne := h.sound.ne_insert_fst h.issued e hample
    rw [h.sound.find?_insert e hample.slots, if_neg hne] at hx
    exact h.entry (hample.of_grows (grows_insert _ e)) x hx
  · rw [find?_remove hr] at hx
    split at hx
    · cases hx
    · exact h.entry (hample.of_grows (grows_remove hr)) x hx

end Roster

namespace Scheduler

variable {a id : RoutineId} {script : Option (Script C)} {s t : Scheduler C}

/-- Routine `a` of a scheduler carries a script. -/
abbrev Carries (a : RoutineId) (script : Option (Script C)) (s : Scheduler C) : Prop :=
  Roster.Carries a script s.routines

/-- Where nothing has been done to its entry, it is carried on. -/
theorem Carries.of_edits (h : s.Carries a script) (hedits : Edits s t)
    (hfind : t.routines.find? a = s.routines.find? a) : t.Carries a script :=
  ⟨hedits.closed Roster.closed_sound h.sound, hedits.issued h.issued, fun hample x hx =>
    h.entry (hample.of_grows hedits.grows) x (hfind.symm.trans hx)⟩

theorem carries_frees (h : s.Carries a script) (ids : List RoutineId) :
    (ids.foldl free s).Carries a script := by
  induction ids generalizing s with
  | nil => exact h
  | cons id ids ih => exact ih (closed_freeAll Roster.steady_carries h _ _)

theorem carries_freeUnclaimed (h : s.Carries a script) : s.freeUnclaimed.2.Carries a script := by
  have hfold : ∀ (ids : List RoutineId) (n : Nat) (t : Scheduler C), t.Carries a script →
      (ids.foldl freeIfLost (n, t)).2.Carries a script := by
    intro ids
    induction ids with
    | nil => exact fun _ _ ht => ht
    | cons id ids ih =>
      intro n t ht
      rw [List.foldl_cons]
      by_cases hlost : t.isLost id = true
      · simp only [freeIfLost, hlost, if_true]
        exact ih _ _ (closed_freeAll Roster.steady_carries ht _ _)
      · simp only [freeIfLost, hlost]
        exact ih n t ht
  exact hfold s.unclaimed 0 { s with unclaimed := [] } h

theorem carries_leave (h : s.Carries a script) (panicking : Bool) :
    (s.leave panicking).Carries a script := by
  unfold leave
  split
  · exact carries_frees (s := { s with running := false, stack := [], current := none }.report
      (.abandoning _)) h _
  · exact h

theorem carries_giveBack (h : s.Carries a script) (hne : a ≠ id) (other : Script C) :
    (s.giveBack id other).Carries a script := by
  refine h.of_edits (edits_giveBack s id other) ?_
  unfold giveBack
  split
  · exact (Roster.find?_modify ..).trans (if_neg hne)
  · rfl

theorem carries_shelve (h : s.Carries a script) (hne : a ≠ id) (other : Script C) :
    (s.shelve id other).Carries a script := by
  unfold shelve
  split
  · exact carries_giveBack h hne other
  · exact h

theorem carries_suspend (h : s.Carries a script) (hne : a ≠ id) (other : Script C) :
    (s.suspend id other).Carries a script := by
  have hfreed : ((s.retire other).free id).Carries a script :=
    closed_freeAll (s := s.retire other) Roster.steady_carries h _ _
  unfold suspend
  split
  · split
    · exact carries_giveBack h hne other
    · exact hfreed
  · exact hfreed

theorem carries_giveBackAll (frames : List (Lifted C)) (h : s.Carries a script)
    (hnot : a ∉ frames.map Lifted.id) : (s.giveBackAll frames).Carries a script := by
  unfold giveBackAll
  induction frames generalizing s with
  | nil => exact h
  | cons frame frames ih =>
    rw [List.map_cons, List.mem_cons, not_or] at hnot
    exact ih (carries_giveBack h hnot.1 frame.script) hnot.2

/-- What is given back is carried from then on. -/
theorem carries_given (hs : s.routines.Sound) (hissued : s.routines.Issued id)
    (script : Script C) : (s.giveBack id script).Carries id (some script) := by
  refine ⟨(edits_giveBack s id script).closed Roster.closed_sound hs,
    (edits_giveBack s id script).issued hissued, fun _ x hx => ?_⟩
  unfold giveBack at hx
  split at hx
  · rw [show (s.modify id _).routines.find? id = _ from Roster.find?_modify .., if_pos rfl] at hx
    obtain ⟨y, -, rfl⟩ := Option.map_eq_some_iff.mp hx
    rfl
  · next hdead => exact absurd (Roster.contains_iff.mpr ⟨x, hx⟩) hdead

theorem carries_givenAll {f : Lifted C} (frames : List (Lifted C)) (hs : s.routines.Sound)
    (hissued : ∀ g ∈ frames, s.routines.Issued g.id) (hnodup : (frames.map Lifted.id).Nodup)
    (hf : f ∈ frames) : (s.giveBackAll frames).Carries f.id (some f.script) := by
  induction frames generalizing s with
  | nil => cases hf
  | cons frame frames ih =>
    rw [List.map_cons, List.nodup_cons] at hnodup
    have hedits := edits_giveBack s frame.id frame.script
    rcases List.mem_cons.mp hf with rfl | hlater
    · exact carries_giveBackAll frames
        (carries_given hs (hissued f List.mem_cons_self) f.script) hnodup.1
    · exact ih (hedits.closed Roster.closed_sound hs)
        (fun g hg => hedits.issued (hissued g (List.mem_cons_of_mem _ hg))) hnodup.2 hlater

theorem carries_addUnder (h : s.Carries a script) (origin : Origin) (other : Script C)
    (parent : Option RoutineId) : (s.addUnder origin other parent).2.Carries a script :=
  closed_link (s := (s.add origin other).2) Roster.steady_carries (Roster.steady_carries.insert _ h)
    _ parent

theorem carries_plant (h : s.Carries a script) (frames : List (FrameCopy C))
    (copies : List (Script C)) : (s.plant frames copies).2.Carries a script :=
  closed_links Roster.steady_carries (closed_addCopies Roster.steady_carries h _) _ _

end Scheduler

open Scheduler in
/-- Whoever is neither on the stack nor in hand keeps its script in every move. -/
theorem Stride.carries {p : Nat} {x y : Status C} {a : RoutineId} {script : Option (Script C)}
    (h : Stride p x y) (hc : x.scheduler.Carries a script)
    (hoff : a ∉ routinesOf x.scheduler.stack) (hhand : a ∉ x.stage.handed) :
    y.scheduler.Carries a script := by
  -- what is lifted has been on the stack or is the routine that is stepped
  have hlift : ∀ {id : RoutineId} {s s' : Scheduler C} {other : Script C} {frames : List (Lifted C)},
      s.Carries a script → a ∉ routinesOf s.stack → a ≠ id →
      (s.shelve id other).lift = (frames, s') → s'.Carries a script := by
    intro id s s' other frames hs hstack hne hlifted
    have hedits := edits_lift (s.shelve id other)
    rw [hlifted] at hedits
    refine (carries_shelve hs hne other).of_edits hedits (lift_others hlifted ?_).2.1
    have hcount := count_lift hlifted a
    have hzero : (routinesOf (s.shelve id other).stack).count a = 0 := by
      refine List.count_eq_zero.mpr fun hmem => ?_
      unfold shelve at hmem
      split at hmem
      · have hmem' : a ∈ routinesOf (.routine id :: (s.giveBack id other).stack) := hmem
        rw [stack_giveBack, routinesOf_routine] at hmem'
        exact (List.mem_cons.mp hmem').elim hne hstack
      · exact hstack hmem
    exact List.count_eq_zero.mp (by omega)
  cases h with
  | still | note | fail | claim | plantNothing | unclaim | forget | reinstate => exact hc
  | @pick s s' id other h t =>
    have hedits : Edits s s' := by
      have hpicked := edits_pickFrom s.stack s
      rwa [← Scheduler.pick, h] at hpicked
    obtain ⟨passed, hstack, -⟩ := pickFrom_passes h
    have hne : a ≠ id := by
      rintro rfl
      refine hoff ?_
      show a ∈ routinesOf s.stack
      rw [hstack, routinesOf_append, routinesOf_routine]
      exact List.mem_append_right _ (List.mem_cons_self ..)
    have hs' : s'.Carries a script := by
      refine Carries.of_edits hc hedits ((pickFrom_others h).2 a fun other' heq => ?_)
      cases heq
      exact hne rfl
    exact hs'
  | @leave s s' h unwinding t =>
    have hedits : Edits s s' := by
      have hpicked := edits_pickFrom s.stack s
      rwa [← Scheduler.pick, h] at hpicked
    have hs' : s'.Carries a script :=
      Carries.of_edits hc hedits ((pickFrom_others h).2 a fun _ heq => by cases heq)
    exact carries_leave (s := { s' with register := .unit }) hs' unwinding
  | abandon s t => exact carries_leave hc true
  | sweep h h' t => exact carries_freeUnclaimed hc
  | conclude s id other o t => exact closed_conclude Roster.steady_carries hc id other o
  | suspend s id other t => exact carries_suspend hc (List.ne_of_not_mem_cons hhand) other
  | reset s id other t => exact carries_shelve hc (List.ne_of_not_mem_cons hhand) other
  | splice s id other nested t =>
    exact carries_addUnder (s := (s.shelve id other).told)
      (carries_shelve hc (List.ne_of_not_mem_cons hhand) other) .splice nested (some id)
  | build s id origin other t => exact carries_addUnder hc origin other (some id)
  | lift h t =>
    have hlifted := hlift hc hoff (List.ne_of_not_mem_cons hhand) h
    exact hlifted
  | liftNothing h hk =>
    have hlifted := hlift hc hoff (List.ne_of_not_mem_cons hhand) h
    exact hlifted
  | capture s id frames copies hk => exact carries_giveBackAll frames hc hhand
  | root s other t => exact carries_addUnder hc .root other none
  | queue h k v t => exact Roster.steady_carries.insert _ hc
  | reenter h k v t => exact Roster.steady_carries.insert _ hc
  | @plant σ s s' k snapshot copies ids t hk h v =>
    have hs' : (s.plant snapshot.frames copies).2 = s' := congrArg Prod.snd h
    subst hs'
    exact carries_plant hc snapshot.frames copies

/-! ### What a shift lifts -/

namespace Scheduler

variable {s t : Scheduler C} {id : RoutineId} {script : Script C}

/-- The part of a work stack above the nearest boundary. -/
def aboveBoundary (stack : List StackEntry) : List StackEntry :=
  stack.takeWhile fun work => decide (work ≠ .boundary)

/-- What is beneath the nearest boundary. -/
def belowBoundary (stack : List StackEntry) : List StackEntry :=
  (stack.dropWhile fun work => decide (work ≠ .boundary)).tail

/-- The live routines above the nearest boundary, top first. -/
def segment (s : Scheduler C) : List RoutineId :=
  (routinesOf (aboveBoundary s.stack)).filter s.routines.contains

/-- A frame is the routine that it has been lifted from. -/
structure Pictures (r : Routine C) (frame : Lifted C) : Prop where
  origin : frame.origin = r.origin
  script : r.script = some frame.script
  parent : frame.parent = r.parent

/-- Lifting takes every live routine above the boundary, if each is listed once
    and has its script. -/
theorem liftFrom_live (stack : List StackEntry) (lifted : List (Lifted C)) (s : Scheduler C)
    (hscripts : ∀ a ∈ routinesOf (aboveBoundary stack), ∀ x,
      s.routines.find? a = some x → x.script ≠ none)
    (hnodup : ((routinesOf (aboveBoundary stack)).filter s.routines.contains).Nodup) :
    ∃ frames, (liftFrom stack lifted s).1 = frames ++ lifted ∧
      (liftFrom stack lifted s).2.stack = belowBoundary stack ∧
      frames.map Lifted.id =
        ((routinesOf (aboveBoundary stack)).filter s.routines.contains).reverse ∧
      ∀ f ∈ frames, ∃ x, s.routines.find? f.id = some x ∧ Pictures x f := by
  induction stack generalizing lifted s with
  | nil => exact ⟨[], rfl, rfl, rfl, nofun⟩
  | cons work rest ih =>
    cases work with
    | boundary => exact ⟨[], rfl, rfl, rfl, nofun⟩
    | routine id =>
      have habove : aboveBoundary (.routine id :: rest) = .routine id :: aboveBoundary rest := rfl
      have hbelow : belowBoundary (.routine id :: rest) = belowBoundary rest := rfl
      rw [habove, routinesOf_routine] at hscripts hnodup ⊢
      rw [hbelow, liftFrom]
      have hscripts' : ∀ a ∈ routinesOf (aboveBoundary rest), ∀ x,
          s.routines.find? a = some x → x.script ≠ none :=
        fun a ha => hscripts a (List.mem_cons_of_mem _ ha)
      cases hid : s.routines.find? id with
      | none =>
        have hdead : s.routines.contains id = false := by simp [Roster.contains, hid]
        rw [List.filter_cons_of_neg (by simp [hdead])] at hnodup ⊢
        exact ih lifted s hscripts' hnodup
      | some r =>
        obtain ⟨script, hscript⟩ := Option.ne_none_iff_exists'.mp
          (hscripts id (List.mem_cons_self ..) r hid)
        have hlive : s.routines.contains id = true := Roster.contains_iff.mpr ⟨r, hid⟩
        rw [List.filter_cons_of_pos hlive] at hnodup ⊢
        obtain ⟨hnot, hrest⟩ := List.nodup_cons.mp hnodup
        dsimp only
        simp only [hscript]
        obtain ⟨u, hu⟩ : ∃ u, u = s.modify id fun r => { r with script := none } := ⟨_, rfl⟩
        rw [← hu]
        -- the others are as they were
        have hcontains : u.routines.contains = s.routines.contains := by
          rw [hu]
          exact funext fun a => Roster.contains_modify ..
        have hfind : ∀ a, a ≠ id → u.routines.find? a = s.routines.find? a := by
          intro a hne
          rw [hu]
          exact (Roster.find?_modify ..).trans (if_neg hne)
        have hne : ∀ a ∈ routinesOf (aboveBoundary rest), u.routines.contains a = true → a ≠ id := by
          intro a ha hcontained
          rintro rfl
          exact hnot (List.mem_filter.mpr ⟨ha, hlive⟩)
        obtain ⟨frames, hframes, hstack, hids, hpictures⟩ :=
          ih (⟨id, r.origin, script, r.parent⟩ :: lifted) u
            (fun a ha x hx => hscripts' a ha x
              ((hfind a (hne a ha (Roster.contains_iff.mpr ⟨x, hx⟩))).symm.trans hx))
            (hcontains ▸ hrest)
        rw [hcontains] at hids
        refine ⟨frames ++ [⟨id, r.origin, script, r.parent⟩], ?_, hstack, ?_, fun f hf => ?_⟩
        · rw [hframes, List.append_assoc, List.singleton_append]
        · rw [List.map_append, hids, List.reverse_cons]
          rfl
        · rcases List.mem_append.mp hf with hf | hf
          · obtain ⟨x, hx, hpicture⟩ := hpictures f hf
            have hmem : f.id ∈ (routinesOf (aboveBoundary rest)).filter s.routines.contains := by
              rw [← List.mem_reverse, ← hids]
              exact List.mem_map_of_mem hf
            have hcontained := Roster.contains_iff.mpr ⟨x, hx⟩
            rw [hfind f.id (hne f.id (List.mem_filter.mp hmem).1 hcontained)] at hx
            exact ⟨x, hx, hpicture⟩
          · obtain rfl := List.mem_singleton.mp hf
            exact ⟨r, hid, rfl, hscript, rfl⟩

/-- A shift of routine `id`, whose script is `script` by now, lifts the live
    routines above the nearest boundary with that routine on top of them, and
    leaves what is beneath the boundary. -/
theorem live_lift {r : Routine C} {frames : List (Lifted C)}
    (h : (s.shelve id script).lift = (frames, t)) (hid : s.routines.find? id = some r)
    (hscripts : ∀ a ∈ s.segment, ∀ x, s.routines.find? a = some x → x.script ≠ none)
    (hnodup : (id :: s.segment).Nodup) :
    frames.map Lifted.id = (id :: s.segment).reverse ∧ t.stack = belowBoundary s.stack ∧
      ∀ f ∈ frames, ∃ x, s.routines.find? f.id = some x ∧
        Pictures (if f.id = id then { x with script := some script } else x) f := by
  obtain ⟨u, hu⟩ : ∃ u, u = s.shelve id script := ⟨_, rfl⟩
  rw [← hu] at h
  have hshelved : u = (s.modify id fun r => { r with script := some script }).push (.routine id) := by
    rw [hu, shelve, giveBack]
    simp [Roster.contains_iff.mpr ⟨r, hid⟩]
  have hlive : s.routines.contains id = true := Roster.contains_iff.mpr ⟨r, hid⟩
  have hcontains : u.routines.contains = s.routines.contains := by
    rw [hshelved]
    exact funext fun a => Roster.contains_modify ..
  have hstack : u.stack = .routine id :: s.stack := by rw [hshelved]; rfl
  have hfind : ∀ a, u.routines.find? a = (s.routines.find? a).map fun x =>
      if a = id then { x with script := some script } else x := by
    intro a
    rw [hshelved]
    show (s.routines.modify id _).find? a = _
    rw [Roster.find?_modify]
    by_cases ha : a = id <;> simp [ha]
  have hsegment : (routinesOf (aboveBoundary u.stack)).filter u.routines.contains =
      id :: s.segment := by
    rw [hstack, hcontains]
    exact List.filter_cons_of_pos hlive
  have hmine : ∀ a ∈ routinesOf (aboveBoundary u.stack), u.routines.contains a = true →
      a ∈ id :: s.segment := by
    intro a ha hcontained
    rw [← hsegment]
    exact List.mem_filter.mpr ⟨ha, hcontained⟩
  obtain ⟨lifted, hlifted, hbelow, hids, hpictures⟩ := liftFrom_live u.stack [] u
    (fun a ha x hx => by
      have hmem := hmine a ha (Roster.contains_iff.mpr ⟨x, hx⟩)
      rw [hfind] at hx
      obtain ⟨y, hy, rfl⟩ := Option.map_eq_some_iff.mp hx
      by_cases hne : a = id
      · simp [hne]
      · rw [if_neg hne]
        exact hscripts a ((List.mem_cons.mp hmem).resolve_left hne) y hy)
    (hsegment ▸ hnodup)
  obtain rfl : lifted = frames := by
    have hframes : (liftFrom u.stack [] u).1 = frames := congrArg Prod.fst h
    rw [← hframes, hlifted, List.append_nil]
  refine ⟨hids.trans (congrArg List.reverse hsegment), ?_, fun f hf => ?_⟩
  · have ht : (liftFrom u.stack [] u).2.stack = t.stack := congrArg (fun y => y.2.stack) h
    rw [← ht, hbelow, hstack]
    rfl
  · obtain ⟨x, hx, hpicture⟩ := hpictures f hf
    rw [hfind] at hx
    obtain ⟨y, hy, rfl⟩ := Option.map_eq_some_iff.mp hx
    exact ⟨y, hy, hpicture⟩

/-! ### What copies of frames are -/

end Scheduler

end Strand
