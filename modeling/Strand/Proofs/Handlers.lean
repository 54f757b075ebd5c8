import Strand.Proofs.Callers

/-! # Handlers — what becomes of a handler whose reset invokes the continuation

    A handler `H` that was reached by a shift resets a script `S`, and `S`
    invokes the continuation `k` of that shift. The frames of `k` are put above
    `S`, which suspends, and they run until they are done.

    * If they are copies, `H` is what is beneath them, and is fed what they end
      in.
    * If they are the captured routines themselves, the topmost of them is the
      parent of `H`: as soon as it finishes, `H` is made to exit, and is never
      fed again.

    `handler_fed_by_copies` has both cases. -/

namespace Strand

variable {C : Type}

/-! ### Copies of frames -/

/-- Frames that were spliced one from the other: each hangs on the one before,
    and the first one hangs elsewhere. -/
structure Spliced (frames : List (FrameCopy C)) : Prop where
  first : ∃ frame rest parent, frames = frame :: rest ∧ frame.parent = .outside parent
  next : ∀ i frame, frames[i + 1]? = some frame → frame.parent = .inside i

/-- The topmost routine of a chain without other children has no children yet. -/
theorem Chain.top_childless {r : Roster (Routine C)} {X top : RoutineId} {work : List StackEntry}
    (h : Chain r X [] none top work) : ∃ x, r.find? top = some x ∧ x.children = [] := by
  generalize habove : (none : Option RoutineId) = above at h
  induction h with
  | bottom entry =>
    subst habove
    exact ⟨_, entry, rfl⟩
  | boundary _ ih | queued _ _ ih => exact ih habove
  | child entry _ _ =>
    subst habove
    exact ⟨_, entry, rfl⟩

namespace Scheduler

variable {s t : Scheduler C} {X top id : RoutineId} {work : List StackEntry}

theorem find?_link_some {c q : RoutineId} {x : Routine C} (hq : s.routines.find? q = some x)
    (a : RoutineId) : (s.link c (some q)).routines.find? a =
      (s.routines.find? a).map fun r =>
        { r with
          parent := if a = c then some q else r.parent
          children := if a = q then addChild r.children c else r.children } := by
  rw [routines_link_some hq, Roster.find?_modify, Roster.find?_modify]
  cases s.routines.find? a with
  | none => simp
  | some r =>
    by_cases hac : a = c
    · subst hac
      by_cases haq : a = q <;> simp [haq]
    · by_cases haq : a = q
      · subst haq
        simp [hac]
      · simp [hac, haq]

/-- A new routine is put above a chain. -/
theorem chain_link {origin : Origin} {script : Script C} (h : Chain s.routines X [] none top work)
    (hnodup : (routinesOf work).Nodup)
    (hid : s.routines.find? id = some ⟨origin, some script, none, []⟩)
    (hnot : id ∉ routinesOf work) :
    Chain (s.link id (some top)).routines X [] none id (.routine id :: work) := by
  obtain ⟨x, hx, hchildren⟩ := h.top_childless
  have htop : top ≠ id := by
    rintro rfl
    exact hnot h.top_mem
  have hfind := find?_link_some (c := id) hx
  refine @Chain.child _ _ _ _ _ _ top origin script _ ?_ (h.under hnodup ?_ ?_)
  · rw [hfind, hid, Option.map_some, if_pos rfl, if_neg htop.symm]
    rfl
  · intro a ha hne
    have hneid : a ≠ id := by
      rintro rfl
      exact hnot ha
    rw [hfind]
    cases s.routines.find? a with
    | none => rfl
    | some y => simp only [Option.map_some, if_neg hneid, if_neg hne]
  · intro y base hy hbase
    rw [hx] at hy
    cases hy
    rw [hchildren, Option.toList_none, List.append_nil] at hbase
    subst hbase
    rw [hfind, hx, Option.map_some, if_neg htop, if_pos rfl, hchildren]
    rfl

/-- Copies are linked one above the other. -/
theorem chain_links (ids : List RoutineId) (pairs : List (FrameCopy C × RoutineId)) (i : Nat)
    (h : Chain s.routines X [] none top work) (htop : ids[i]? = some top)
    (hnodup : ((pairs.map Prod.snd).reverse ++ routinesOf work).Nodup)
    (hnew : ∀ a ∈ pairs.map Prod.snd, ∃ origin copy,
      s.routines.find? a = some ⟨origin, some copy, none, []⟩)
    (hpairs : ∀ j pair, pairs[j]? = some pair →
      pair.1.parent = .inside (i + j) ∧ ids[i + j + 1]? = some pair.2) :
    ∃ top', Chain (pairs.foldl (fun s (frame, id) => s.link id (frame.parent.resolve ids)) s).routines
        X [] none top' (((pairs.map Prod.snd).map StackEntry.routine).reverse ++ work) ∧
      ∀ a, a ∉ pairs.map Prod.snd → a ∉ routinesOf work →
        (pairs.foldl (fun s (frame, id) => s.link id (frame.parent.resolve ids)) s).routines.find? a =
          s.routines.find? a := by
  induction pairs generalizing s top work i with
  | nil => exact ⟨top, h, fun _ _ _ => rfl⟩
  | cons pair pairs ih =>
    obtain ⟨frame, id⟩ := pair
    obtain ⟨hparent, hnext⟩ := hpairs 0 _ rfl
    have hresolve : frame.parent.resolve ids = some top := by
      rw [show frame.parent = .inside i from hparent]
      exact htop
    obtain ⟨origin, copy, hid⟩ := hnew id (List.mem_cons_self ..)
    rw [List.map_cons, List.reverse_cons, List.append_assoc, List.singleton_append] at hnodup
    have hwork : (id :: routinesOf work).Nodup := hnodup.of_append_right
    obtain ⟨hnot, hwork'⟩ := List.nodup_cons.mp hwork
    obtain ⟨x, hx, -⟩ := h.top_childless
    have hother : ∀ a, a ≠ id → a ≠ top →
        (s.link id (some top)).routines.find? a = s.routines.find? a := by
      intro a hne hne'
      rw [find?_link_some hx]
      cases s.routines.find? a with
      | none => rfl
      | some y => simp only [Option.map_some, if_neg hne, if_neg hne']
    have hrest : ∀ a ∈ pairs.map Prod.snd, a ≠ id ∧ a ∉ routinesOf work := by
      intro a ha
      have hdisjoint := List.disjoint_of_nodup_append hnodup (List.mem_reverse.mpr ha)
      exact ⟨fun heq => hdisjoint (List.mem_cons.mpr (Or.inl heq)),
        fun hmem => hdisjoint (List.mem_cons_of_mem _ hmem)⟩
    obtain ⟨top', hchain, hothers⟩ := ih (i + 1) (chain_link h hwork' hid hnot)
      (by simpa using hnext) (by simpa using hnodup)
      (by
        intro a ha
        obtain ⟨hne, hnotin⟩ := hrest a ha
        obtain ⟨origin', copy', ha'⟩ := hnew a (List.mem_cons_of_mem _ ha)
        refine ⟨origin', copy', (hother a hne ?_).trans ha'⟩
        rintro rfl
        exact hnotin h.top_mem)
      (by
        intro j pair hj
        have hj' := hpairs (j + 1) pair (by simpa using hj)
        simpa [Nat.add_assoc, Nat.add_comm 1] using hj')
    rw [List.foldl_cons]
    dsimp only
    rw [hresolve]
    refine ⟨top', ?_, ?_⟩
    · simpa using hchain
    · intro a ha hnotin
      rw [List.map_cons, List.mem_cons, not_or] at ha
      rw [hothers a ha.2 (by simpa using ⟨ha.1, hnotin⟩)]
      refine hother a ha.1 ?_
      rintro rfl
      exact hnotin h.top_mem

/-- Linking changes no work. -/
theorem sameWork_link (s : Scheduler C) (c : RoutineId) (parent : Option RoutineId) :
    SameWork s (s.link c parent) := by
  unfold link
  cases s.liveParent parent <;> exact ⟨rfl, rfl, rfl, rfl⟩

theorem sameWork_plant (s : Scheduler C) (frames : List (FrameCopy C)) (copies : List (Script C)) :
    SameWork s (s.plant frames copies).2 := by
  have hadd : ∀ (pairs : List (FrameCopy C × Script C)) (t : Scheduler C),
      SameWork t (addCopies pairs t).2 := by
    intro pairs
    induction pairs with
    | nil => exact fun t => .refl t
    | cons pair pairs ih =>
      intro t
      have hone : SameWork t (t.add pair.1.origin pair.2).2 := ⟨rfl, rfl, rfl, rfl⟩
      exact hone.trans (ih _)
  have hlinks : ∀ (ids : List RoutineId) (pairs : List (FrameCopy C × RoutineId))
      (t : Scheduler C), SameWork t
        (pairs.foldl (fun s (frame, id) => s.link id (frame.parent.resolve ids)) t) := by
    intro ids pairs
    induction pairs with
    | nil => exact fun t => .refl t
    | cons pair pairs ih => exact fun t => (sameWork_link t _ _).trans (ih _)
  exact (hadd _ _).trans (hlinks _ _ _)

/-- The copies of spliced frames, linked as these were. -/
theorem chain_plant {frames : List (FrameCopy C)} {ids : List RoutineId} (hframes : Spliced frames)
    (hlength : ids.length = frames.length) (hnodup : ids.Nodup)
    (hnew : ∀ a ∈ ids, ∃ origin copy, t.routines.find? a = some ⟨origin, some copy, none, []⟩)
    (hapart : ∀ id ∈ ids, ∀ frame, frames.head? = some frame →
      frame.parent ≠ .outside (some id)) :
    ∃ X top, Chain ((frames.zip ids).foldl
          (fun s (frame, id) => s.link id (frame.parent.resolve ids)) t).routines
        X [] none top (ids.map StackEntry.routine).reverse ∧
      ∀ a x, t.routines.find? a = some x → a ∉ ids →
        ∃ children, ((frames.zip ids).foldl
          (fun s (frame, id) => s.link id (frame.parent.resolve ids)) t).routines.find? a =
            some { x with children } := by
  obtain ⟨frame, rest, parent, rfl, hparent⟩ := hframes.first
  obtain ⟨X, later, rfl⟩ := List.exists_cons_of_length_eq_add_one hlength
  obtain ⟨hnot, hnodup'⟩ := List.nodup_cons.mp hnodup
  obtain ⟨origin, copy, hX⟩ := hnew X (List.mem_cons_self ..)
  have hout : ∀ a ∈ X :: later, t.liveParent parent ≠ some a := by
    intro a ha hlive
    obtain ⟨rfl, -⟩ := liveParent_eq_some.mp hlive
    exact hapart a ha frame rfl hparent
  have hfind := find?_link t X parent
  have hlater : rest.length = later.length := by simpa using hlength.symm
  have hids : (rest.zip later).map Prod.snd = later := List.map_snd_zip (Nat.le_of_eq hlater.symm)
  have hbottom : Chain (t.link X parent).routines X [] none X [.routine X] := by
    refine @Chain.bottom _ _ _ _ _ origin copy (t.liveParent parent) ?_
    rw [hfind, hX, Option.map_some, if_pos rfl, if_neg (hout X (List.mem_cons_self ..))]
    rfl
  obtain ⟨top, hchain, hothers⟩ := chain_links (X :: later) (rest.zip later) 0 hbottom rfl
    (by
      rw [hids, routinesOf_routine, routinesOf_nil]
      refine List.nodup_append.mpr ⟨List.nodup_reverse.mpr hnodup', by simp, ?_⟩
      rintro a ha _ hmem rfl
      rw [List.mem_singleton.mp hmem] at ha
      exact hnot (List.mem_reverse.mp ha))
    (by
      rw [hids]
      intro a ha
      obtain ⟨origin', copy', ha'⟩ := hnew a (List.mem_cons_of_mem _ ha)
      refine ⟨origin', copy', ?_⟩
      have hne : a ≠ X := by
        rintro rfl
        exact hnot ha
      rw [hfind, ha', Option.map_some, if_neg hne, if_neg (hout a (List.mem_cons_of_mem _ ha))])
    (by
      intro j pair hj
      obtain ⟨hframe, hid⟩ := List.getElem?_zip_eq_some.mp hj
      rw [Nat.zero_add]
      exact ⟨hframes.next j pair.1 hframe, hid⟩)
  have hresolve : frame.parent.resolve (X :: later) = parent := by
    rw [hparent]
    rfl
  rw [List.zip_cons_cons, List.foldl_cons]
  dsimp only
  rw [hresolve]
  refine ⟨X, top, ?_, ?_⟩
  · rw [List.map_cons, List.reverse_cons]
    rw [hids] at hchain
    exact hchain
  · intro a x ha hnotin
    rw [List.mem_cons, not_or] at hnotin
    refine ⟨if t.liveParent parent = some a then addChild x.children X else x.children, ?_⟩
    rw [hothers a (by rw [hids]; exact hnotin.2) (by simpa using hnotin.1), hfind, ha,
      Option.map_some, if_neg hnotin.1]

/-- Copies of spliced frames are a chain of new routines. -/
theorem Linked.plant_spliced (h : Linked s.routines) {frames : List (FrameCopy C)}
    {copies : List (Script C)} (hframes : Spliced frames) (hlength : copies.length = frames.length)
    (hroom : (s.plant frames copies).2.routines.slots.size ≤ 2 ^ 32)
    (hapart : ∀ id ∈ (s.plant frames copies).1, ∀ frame, frames.head? = some frame →
      frame.parent ≠ .outside (some id)) :
    ∃ X top, Chain (s.plant frames copies).2.routines X [] none top
        ((s.plant frames copies).1.map StackEntry.routine).reverse ∧
      (s.plant frames copies).1.Nodup ∧
      ∀ a x, s.routines.find? a = some x → a ∉ (s.plant frames copies).1 ∧
        ∃ children, (s.plant frames copies).2.routines.find? a = some { x with children } := by
  have hcopies : (Scheduler.addCopies (frames.zip copies) s).2.routines.slots.size ≤ 2 ^ 32 :=
    Nat.le_trans (closed_links (Roster.closed_grows _).steady (.refl _) _ _).slots hroom
  obtain ⟨-, hnodup, hold, hnew⟩ := Linked.addCopies h _ hcopies
  have hids : (Scheduler.addCopies (frames.zip copies) s).1.length = frames.length := by
    rw [length_addCopies, List.length_zip, hlength, Nat.min_self]
  obtain ⟨X, top, hchain, hothers⟩ := chain_plant hframes hids hnodup hnew hapart
  refine ⟨X, top, hchain, hnodup, ?_⟩
  intro a x hx
  obtain ⟨hx', hnot⟩ := hold a x hx
  exact ⟨hnot, hothers a x hx' hnot⟩

/-- The identifiers of the copies depend on the routines alone. -/
theorem plant_fst_congr (h : t.routines = s.routines) (frames : List (FrameCopy C))
    (copies : List (Script C)) : (t.plant frames copies).1 = (s.plant frames copies).1 := by
  show (addCopies (frames.zip copies) t).1 = (addCopies (frames.zip copies) s).1
  generalize frames.zip copies = pairs
  induction pairs generalizing s t with
  | nil => rfl
  | cons pair pairs ih =>
    have hinsert : t.routines.insert ⟨pair.1.origin, some pair.2, none, []⟩ =
        s.routines.insert ⟨pair.1.origin, some pair.2, none, []⟩ := by rw [h]
    have hadd : (t.add pair.1.origin pair.2).2.routines = (s.add pair.1.origin pair.2).2.routines :=
      congrArg Prod.snd hinsert
    show (t.routines.insert _).1 :: _ = (s.routines.insert _).1 :: _
    rw [hinsert]
    exact congrArg _ (ih hadd)

/-! ### Frames above a handler -/

/-- A strand stays when a routine that is being stepped changes. -/
theorem Standing.modify {site : Site C} {queue : List StackEntry} {x : Routine C}
    (h : Standing site s top work queue) (hid : s.routines.find? id = some x)
    (hout : x.script = none) (f : Routine C → Routine C) :
    Standing site (s.modify id f) top work queue := by
  have hother : ∀ {a y}, s.routines.find? a = some y → y.script ≠ none →
      (s.modify id f).routines.find? a = s.routines.find? a := by
    intro a y ha hscript
    show (s.routines.modify id f).find? a = _
    rw [Roster.find?_modify, if_neg]
    rintro rfl
    rw [hid] at ha
    cases ha
    exact hscript hout
  refine ⟨h.stack, h.chain.congr ?_, h.nodup, h.ground.same ?_ ?_, h.apart⟩
  · intro a ha
    obtain ⟨y, hy, hscript⟩ := h.chain.live a ha
    exact hother hy hscript
  · intro a ha
    obtain ⟨_, k, v, heq, hfound⟩ := h.ground.queued _ ha
    cases heq
    exact hother hfound (Option.some_ne_none _)
  · obtain ⟨_, _, _, hwaits⟩ := h.ground.waits
    exact hother hwaits (Option.some_ne_none _)

/-- Copies stand on the handler. -/
theorem standing_of_copies (hl : Linked s.routines) {frames : List (FrameCopy C)}
    {copies : List (Script C)} (hframes : Spliced frames) (hlength : copies.length = frames.length)
    (hroom : (s.plant frames copies).2.routines.slots.size ≤ 2 ^ 32)
    (hapart : ∀ id ∈ (s.plant frames copies).1, ∀ frame, frames.head? = some frame →
      frame.parent ≠ .outside (some id))
    {H : RoutineId} {script : Script C} {x : Routine C} (hH : s.routines.find? H = some x)
    (hscript : x.script = some script) (hplace : .routine H ∈ s.stack) (v : Value) :
    ∃ X top work, Standing ⟨X, [], .boundary :: s.stack, H, script, False⟩
      ((s.plant frames copies).2.reinstate (s.plant frames copies).1 v) top work [] := by
  obtain ⟨X, top, hchain, hnodup, hkept⟩ := hl.plant_spliced hframes hlength hroom hapart
  have hids : ∀ ids : List RoutineId,
      routinesOf (ids.map StackEntry.routine).reverse = ids.reverse := by
    intro ids
    rw [← List.map_reverse, routinesOf, List.filterMap_map]
    exact List.filterMap_some
  obtain ⟨hnot, children, hH'⟩ := hkept H x hH
  refine ⟨X, top, _, ⟨?_, hchain, ?_, ⟨nofun, fun _ => rfl, List.mem_cons_of_mem _ hplace, ?_⟩, ?_⟩⟩
  · show _ ++ .boundary :: (s.plant frames copies).2.stack = _
    rw [(sameWork_plant s frames copies).stack]
    rfl
  · rw [hids]
    exact List.nodup_reverse.mpr hnodup
  · refine ⟨x.origin, x.parent, children, hH'.trans ?_⟩
    rw [← hscript]
  · intro a ha
    rw [hids, List.mem_reverse] at ha
    refine ⟨?_, nofun⟩
    rintro rfl
    exact hnot ha

/-- The captured routines are put above the handler, which is a child of the
    topmost one. -/
theorem standing_of_own {F H : RoutineId} (others : List RoutineId) {x y : Routine C}
    {script script' : Script C} (hF : s.routines.find? F = some x) (hscript' : x.script = some script')
    (hH : s.routines.find? H = some y) (hscript : y.script = some script) (hne : F ≠ H)
    (hplace : .routine H ∈ s.stack) (v : Value) :
    Standing
      ⟨F, x.children, (others.map StackEntry.routine).reverse ++ .boundary :: s.stack, H, script, False⟩
      (s.reinstate (others ++ [F]) v) F [.routine F] [] := by
  refine ⟨?_, ?_, List.nodup_cons.mpr ⟨nofun, List.nodup_nil⟩, ⟨nofun, fun _ => rfl, ?_, ?_⟩, ?_⟩
  · show ((others ++ [F]).map StackEntry.routine).reverse ++ .boundary :: s.stack = _
    simp
  · refine @Chain.bottom _ _ _ _ _ x.origin script' x.parent (hF.trans ?_)
    rw [← hscript', Option.toList_none, List.append_nil]
  · exact List.mem_append_right _ (List.mem_cons_of_mem _ hplace)
  · refine ⟨y.origin, y.parent, y.children, hH.trans ?_⟩
    rw [← hscript]
  · intro a ha
    rw [routinesOf_routine, routinesOf_nil, List.mem_singleton] at ha
    exact ⟨ha ▸ hne, nofun⟩

end Scheduler

namespace Machine

open Scheduler

variable {R : Type} {B : Behavior C R} {p k : Nat} {K fs : List (Frame C R)} {v : Value}
  {s t : Scheduler C} {m n : Machine C R} {S H : RoutineId} {next : R} {snapshot : Snapshot C}

/-! ### Invocations -/

/-- What is on the control stack while the frames of `k` are put on the stack
    of the scheduler. -/
def invoking (p k : Nat) (next : R) (fs : List (Frame C R)) : List (Frame C R) :=
  .holding [.scheduler p] :: .holding [.continuation k] :: .code next :: fs

/-- The reply to an invocation, on its way. -/
abbrev Focus.replied (hs : List Handle) : Focus C R := .release hs (.give (.reply (.outcome .unit)))

/-- Frames are put on the stack. -/
theorem at_reinstate (hcontrol : m.control = fs ++ .pass p :: K) (hs : m.scheduler? p = some s)
    (ids : List RoutineId) (v : Value) :
    At p K fs (Focus.replied s.register.handles) { s.reinstate ids v with reports := [] }
      (m.reinstate p ids v) := by
  refine ⟨hcontrol, ?_, scheduler?_onScheduler_some hs _⟩
  show Focus.release (registerHandles m p) _ = _
  rw [registerHandles, hs]
  rfl

/-- What an invocation finds is settled in its first move: the captured routines
    go back on the stack if all of them are there, else they are copied. -/
theorem At.invokes (h : At p K fs (.release [] (.act (.ask (.invoke k v) next))) s m)
    (hk : m.store.snapshots.find? k = some snapshot) (hhome : snapshot.home = p) :
    ∃ n : Machine C R, n.control = invoking p k next fs ++ .pass p :: K ∧ n.scheduler? p = some s ∧
      n.store.snapshots.find? k = some { snapshot with routines := none } ∧
      m.step B = match snapshot.routines with
        | none => n.reinstateNext k v [] snapshot.frames
        | some ids =>
          if ids.all s.routines.contains then n.reinstate p ids v
          else (n.withStore (·.log .replayingSnapshot)).reinstateNext k v [] snapshot.frames := by
  subst hhome
  let called := (m.push (.code next)).push (.holding [.continuation k])
  let held := (called.retain [.scheduler snapshot.home]).push (.holding [.scheduler snapshot.home])
  let n := held.withStore fun t =>
    { t with snapshots := t.snapshots.set k { snapshot with routines := none } }
  have hstep : m.step B = called.invoke k v := by
    simp only [step, h.focus]
    rfl
  have hk' : called.store.snapshots.find? k = some snapshot := hk
  have hs : called.scheduler? snapshot.home = some s := h.scheduler
  refine ⟨n, ?_, ?_, ?_, ?_⟩
  · show _ :: _ :: _ :: m.control = _
    rw [h.control]
    rfl
  · exact (scheduler?_retain called _ _).trans hs
  · show (held.store.snapshots.set k _).find? k = _
    rw [Table.find?_set, if_pos rfl]
    exact congrArg (Option.map fun _ => { snapshot with routines := none }) hk
  · rw [hstep, invoke]
    simp only [hk', hs]
    rfl

variable (B p k) in
/-- Copying a script comes back with something, and leaves the scheduler and
    the snapshot behind `k` alone. -/
def CopiesReturn (m : Machine C R) : Prop :=
  ∀ script, m.focus = .copy script →
    ∃ n a, Reaches B p m [] n ∧ n.control = m.control ∧ n.focus = .release [] (.give a) ∧
      n.store.snapshots.find? k = m.store.snapshots.find? k ∧
      ∀ s, m.scheduler? p = some s → ∃ t, n.scheduler? p = some t ∧ s.Spared t

/-- The frames of a snapshot are copied one after the other, and the copies are
    put on the stack. -/
theorem reaches_copies {left : List (FrameCopy C)} {copies : List (Script C)}
    (hcontrol : m.control = fs ++ .pass p :: K) (hs : m.scheduler? p = some s)
    (hk : m.store.snapshots.find? k = some snapshot) (hhome : snapshot.home = p)
    (hcopies : ∀ n, Reaches B p (m.reinstateNext k v copies left) [] n → CopiesReturn B p k n) :
    ∃ n t copies', Reaches B p (m.reinstateNext k v copies left) [] n ∧
      copies'.length = copies.length + left.length ∧ s.Spared t ∧
      At p K fs (Focus.replied t.register.handles)
        { (t.plant snapshot.frames copies').2.reinstate (t.plant snapshot.frames copies').1 v with
          reports := [] } n := by
  induction left generalizing m s copies with
  | nil =>
    subst hhome
    refine ⟨_, s, copies, .refl _, rfl, .refl s, ?_⟩
    have hnext : m.reinstateNext k v copies [] =
        (m.onScheduler snapshot.home fun _ => (s.plant snapshot.frames copies).2).reinstate
          snapshot.home (s.plant snapshot.frames copies).1 v := by
      unfold reinstateNext
      simp only [hk, hs]
    rw [hnext, ← (sameWork_plant s snapshot.frames copies).register]
    exact at_reinstate (m := m.onScheduler snapshot.home fun _ => (s.plant snapshot.frames copies).2)
      hcontrol (scheduler?_onScheduler_some hs _) _ v
  | cons frame left ih =>
    obtain ⟨n, a, hr, hcontrol', hfocus, hsame, hspared⟩ := hcopies _ (.refl _) frame.script rfl
    obtain ⟨t, ht, hst⟩ := hspared s hs
    have hcopying : n.control = .reinstating k v copies left :: (fs ++ .pass p :: K) := by
      rw [hcontrol', ← hcontrol]
      rfl
    have hstep : n.step B = ({ n with control := fs ++ .pass p :: K } : Machine C R).reinstateNext k v
        (copies ++ [a.script]) left := by
      simp only [step, hfocus, goOn, hcopying]
      rfl
    have hquiet : n.event? p = none := by simp [event?, hfocus, hcopying]
    have hr' := hr.unseen hquiet
    rw [hstep] at hr'
    obtain ⟨o, u, copies', hr'', hlength, htu, hat⟩ :=
      ih (m := { n with control := fs ++ .pass p :: K }) rfl ht (hsame.trans hk) fun n' hn' => hcopies n' (hr'.quietly hn')
    refine ⟨o, u, copies', hr'.quietly hr'', ?_, hst.trans htu, hat⟩
    simp only [List.length_append, List.length_cons, List.length_nil] at hlength ⊢
    omega

variable (B p K S) in
/-- A step that has got a reply asks to suspend, and leaves the scheduler
    alone. -/
def Suspends (m : Machine C R) : Prop :=
  ∀ s, m.scheduler? p = some s → ∃ n t script, Reaches B p m [] n ∧
    At p K [.stepping p S] (.release [] (.give (.stepped (.yield .suspend) script))) t n ∧
    s.Spared t

/-- Once the step that has invoked suspends, the frames are next. -/
theorem Suspends.stands {site : Site C} {top : RoutineId} {work queue : List StackEntry}
    {x : Routine C} {hs : List Handle} (h : Suspends B p K S m)
    (hat : At p K fs (Focus.replied hs) s m) (hreach : Reachable B m) (hroom : Roomy B p m)
    (hdrop : During B p K (· = []) (DropsReturn B p) m)
    (hstand : Standing site s top work queue) (hS : s.routines.find? S = some x)
    (hout : x.script = none) (hparent : x.parent = some site.P) :
    ∃ n s', Reaches B p m [] n ∧ AtHead p K s' n ∧ Standing site s' top work queue ∧
      s'.register = s.register := by
  obtain ⟨n, t, script, hr, hyield, hspared⟩ := h s hat.scheduler
  have hregister : t.register = s.register := by
    obtain ⟨_, _, _, rfl⟩ := hspared
    rfl
  have hstand := hstand.spared hspared
  rw [← hspared.routines] at hS
  have hlive : t.liveParent x.parent = some site.P := by
    obtain ⟨_, _, _, hwaits⟩ := hstand.ground.waits
    exact liveParent_eq_some.mpr ⟨hparent, _, hwaits⟩
  have hsuspend : t.suspend S script = t.modify S fun r => { r with script := some script } := by
    unfold suspend
    simp only [hS, hlive]
    exact giveBack_of_live hS script
  have hsweep := hyield.suspends (B := B)
  rw [hsuspend] at hsweep
  have hr' := hr.unseen (show n.event? p = none by
    simp [event?, hyield.focus, hyield.control])
  have hl := (hreach.later hr'.later).linked hsweep.scheduler (hroom _ _ _ hr' hsweep.scheduler)
  obtain ⟨o, s', hr'', hhead, hpruned⟩ := hsweep.swept hl (hdrop.quietly hr')
  have hstand' := (hstand.modify hS hout fun r => { r with script := some script }).congr
    (t := { t.modify S (fun r => { r with script := some script }) with reports := [] }) rfl rfl
  exact ⟨o, s', hr'.quietly hr'', hhead, hstand'.undisturbed hpruned.undisturbed,
    hpruned.shrunk.work.register.trans hregister⟩

/-! ### The handler -/

/-- The captured routines behind a snapshot, if an invocation puts themselves
    back on the stack. -/
def OwnRoutines (snapshot : Snapshot C) (s : Scheduler C) (ids : List RoutineId) : Prop :=
  snapshot.routines = some ids ∧ ∀ id ∈ ids, s.routines.contains id = true

variable (B p K) in
/-- A handler `H` has reset a script `S`, in whose step `k` is invoked. The
    frames of `k` were spliced, and `H` is a child of the topmost one. -/
structure HandlerInvokes (H : RoutineId) (script : Script C) (S : RoutineId) (k : Nat) (v : Value)
    (snapshot : Snapshot C) (s : Scheduler C) (m : Machine C R) : Prop where
  reach : Reachable B m
  room : Roomy B p m
  drop : During B p K (· = []) (DropsReturn B p) m
  /-- The step of `S` comes to the invocation, and suspends after it. -/
  asks : ∃ fs next, At p K (fs ++ [.stepping p S]) (.release [] (.act (.ask (.invoke k v) next))) s m ∧
    ∀ n hs t, Reaches B p m [] n →
      At p K (invoking p k next (fs ++ [.stepping p S])) (Focus.replied hs) t n → Suspends B p K S n
  reset : s.routines.find? S = some ⟨.reset, none, some H, []⟩
  handler : ∃ origin parent children,
    s.routines.find? H = some ⟨origin, some script, parent, children⟩
  isUser : script.isUser = true
  stack : ∃ rest, s.stack = .boundary :: .routine H :: rest
  found : m.store.snapshots.find? k = some snapshot
  home : snapshot.home = p
  spliced : Spliced snapshot.frames
  /-- What the first frame hung on is not taken for a copy. -/
  apart : ∀ copies, ∀ id ∈ (s.plant snapshot.frames copies).1, ∀ frame,
    snapshot.frames.head? = some frame → frame.parent ≠ .outside (some id)
  /-- The topmost frame has shifted to `H`. -/
  shifted : ∀ ids, OwnRoutines snapshot s ids → ∃ others F x captured, ids = others ++ [F] ∧
    s.routines.find? F = some x ∧ x.script = some captured ∧ F ≠ H ∧ H ∈ x.children
  copies : ∀ n, Reaches B p m [] n → CopiesReturn B p k n

/-- Copies are put on the handler. -/
theorem HandlerInvokes.copied {script : Script C}
    (h : HandlerInvokes B p K H script S k v snapshot s m)
    (hcopied : ∀ ids, ¬ OwnRoutines snapshot s ids) :
    ∃ n s' X top work, Reaches B p m [] n ∧ AtHead p K s' n ∧ s'.register = .success v ∧
      Standing ⟨X, [], .boundary :: s.stack, H, script, False⟩ s' top work [] := by
  obtain ⟨fs, next, hat, hsuspends⟩ := h.asks
  obtain ⟨m₁, hcontrol, hs₁, hk₁, hstep⟩ := hat.invokes (B := B) h.found h.home
  have hr : Reaches B p m [] (m.step B) := Reaches.unseen (.refl m) (by simp [event?, hat.focus])
  -- a snapshot whose routines are used up, or whose routines are not all there
  obtain ⟨m₂, hcontrol₂, hs₂, hk₂, hstep₂⟩ : ∃ m₂ : Machine C R,
      m₂.control = m₁.control ∧ m₂.scheduler? p = some s ∧
        m₂.store.snapshots.find? k = some { snapshot with routines := none } ∧
        m.step B = m₂.reinstateNext k v [] snapshot.frames := by
    cases hroutines : snapshot.routines with
    | none =>
      rw [hroutines] at hstep
      exact ⟨m₁, rfl, hs₁, hk₁, hstep⟩
    | some ids =>
      rw [hroutines] at hstep
      have hnot : ids.all s.routines.contains = false := by
        rw [Bool.eq_false_iff]
        intro hall
        exact hcopied ids ⟨hroutines, List.all_eq_true.mp hall⟩
      simp only [hnot, Bool.false_eq_true, if_false] at hstep
      exact ⟨m₁.withStore (·.log .replayingSnapshot), rfl, hs₁, hk₁, hstep⟩
  rw [hstep₂] at hr
  obtain ⟨n, t, copies, hr₂, hlength, hspared, hreplied⟩ :=
    reaches_copies (hcontrol₂.trans hcontrol) hs₂ hk₂ h.home fun n hn =>
      h.copies n (hr.quietly hn)
  have hr₂ := hr.quietly hr₂
  have hroutines : t.routines = s.routines := hspared.routines
  have hstack : t.stack = s.stack := by
    obtain ⟨_, _, _, rfl⟩ := hspared
    rfl
  have hl : Linked t.routines := hroutines ▸ h.reach.linked hat.scheduler
    (h.room [] m s (.refl m) hat.scheduler)
  have hroom := h.room [] n _ hr₂ hreplied.scheduler
  have hapart := h.apart copies
  rw [← plant_fst_congr hroutines] at hapart
  obtain ⟨origin, parent, children, hH⟩ := h.handler
  obtain ⟨rest, hrest⟩ := h.stack
  rw [← hroutines] at hH
  have hplace : .routine H ∈ t.stack := by
    rw [hstack, hrest]
    exact List.mem_cons_of_mem _ (List.mem_cons_self ..)
  have hlength : copies.length = snapshot.frames.length := by simpa using hlength
  obtain ⟨X, top, work, hstand⟩ :=
    standing_of_copies hl h.spliced hlength hroom hapart hH rfl hplace v
  obtain ⟨_, _, -, -, hkept⟩ := hl.plant_spliced h.spliced hlength hroom hapart
  obtain ⟨-, kids, hS⟩ := hkept S _ (hroutines ▸ h.reset)
  obtain ⟨o, s', hr₃, hhead, hstand', hregister⟩ := (hsuspends n _ _ hr₂ hreplied).stands hreplied
    (h.reach.later hr₂.later) (h.room.later hr₂) (h.drop.quietly hr₂) (hstand.congr rfl rfl) hS rfl
    rfl
  rw [hstack] at hstand'
  exact ⟨o, s', X, top, work, hr₂.quietly hr₃, hhead, hregister, hstand'⟩

/-- The captured routines are put on the handler. -/
theorem HandlerInvokes.reinstated {script : Script C} {ids : List RoutineId}
    (h : HandlerInvokes B p K H script S k v snapshot s m) (hown : OwnRoutines snapshot s ids) :
    ∃ n s' F kids below, Reaches B p m [] n ∧ AtHead p K s' n ∧ s'.register = .success v ∧
      H ∈ kids ∧ Standing ⟨F, kids, below, H, script, False⟩ s' F [.routine F] [] := by
  obtain ⟨fs, next, hat, hsuspends⟩ := h.asks
  obtain ⟨m₁, hcontrol, hs₁, -, hstep⟩ := hat.invokes (B := B) h.found h.home
  have hr : Reaches B p m [] (m.step B) := Reaches.unseen (.refl m) (by simp [event?, hat.focus])
  obtain ⟨hroutines, hlive⟩ := hown
  rw [hroutines] at hstep
  simp only [List.all_eq_true.mpr hlive, if_true] at hstep
  have hreplied := at_reinstate hcontrol hs₁ ids v
  rw [← hstep] at hreplied
  obtain ⟨others, F, x, captured, rfl, hF, hcaptured, hne, hmem⟩ := h.shifted ids ⟨hroutines, hlive⟩
  obtain ⟨origin, parent, children, hH⟩ := h.handler
  obtain ⟨rest, hrest⟩ := h.stack
  have hstand := standing_of_own others hF hcaptured hH rfl hne
    (by rw [hrest]; exact List.mem_cons_of_mem _ (List.mem_cons_self ..)) v
  obtain ⟨o, s', hr₂, hhead, hstand', hregister⟩ := (hsuspends _ _ _ hr hreplied).stands hreplied
    (h.reach.later hr.later) (h.room.later hr) (h.drop.quietly hr) (hstand.congr rfl rfl) h.reset
    rfl rfl
  exact ⟨o, s', F, x.children, _, hr.quietly hr₂, hhead, hregister, hmem, hstand'⟩

/-- The frames of a continuation that its handler invokes within a reset come to
    stand on the handler. If they run by resets, splices and ends, the handler
    is neither fed nor made to exit before the bottom of that strand is done.

    * If they are copies, the handler is fed what they end in next.
    * If they are the captured routines, the strand is the topmost one of them,
      and the handler is gone for good once that is done. -/
theorem handler_fed_by_copies {script : Script C}
    (h : HandlerInvokes B p K H script S k v snapshot s m) :
    ∃ n s' site top work, Reaches B p m [] n ∧ AtHead p K s' n ∧ s'.register = .success v ∧
      site.P = H ∧ site.script = script ∧ Standing site s' top work [] ∧
      (Orderly B p K site n → ∀ evs o e, Reaches B p n evs o → (∀ e ∈ evs, site.Aside e) →
        o.event? p = some e → ¬ site.Aside e → ∃ r, e = .finished site.X r ∧
          ((∀ ids, ¬ OwnRoutines snapshot s ids) →
            ∃ o', Reaches B p o [e] o' ∧ o'.event? p = some (.resumed H script r)) ∧
          (∀ ids, OwnRoutines snapshot s ids →
            ∃ t, o.scheduler? p = some t ∧ ∀ o' t', Later B (o.step B) o' →
              o'.scheduler? p = some t' →
              t.routines.vacated H < t'.routines.vacated H ∧
              (t'.routines.vacated H < t.routines.vacated H + 2 ^ 32 →
                t'.routines.find? H = none ∧
                  ∀ script s₁, t'.pick ≠ (some (H, script), s₁)))) := by
  by_cases hown : ∃ ids, OwnRoutines snapshot s ids
  · obtain ⟨ids, hids⟩ := hown
    obtain ⟨n, s', F, kids, below, hr, hhead, hregister, hmem, hstand⟩ := h.reinstated hids
    refine ⟨n, s', _, F, _, hr, hhead, hregister, rfl, rfl, hstand, ?_⟩
    intro horderly evs o e ho hevs he hnot
    obtain ⟨j, rfl, rfl⟩ := ho
    obtain ⟨r, script', t, qs, rfl, hat, hstepped⟩ :=
      horderly.first_about hhead hstand hevs he hnot
    refine ⟨r, rfl, fun hnone => absurd hids (hnone ids), fun _ _ => ⟨t, hat.scheduler, ?_⟩⟩
    have hord := horderly.later ⟨j, rfl, rfl⟩ hevs
    obtain ⟨_, _, _, hH⟩ := hstepped.ground.waits
    obtain ⟨origin, parent, hF⟩ : ∃ origin parent,
        t.routines.find? F = some ⟨origin, none, parent, kids⟩ := by
      cases hstepped.stepping with
      | bottom entry => exact ⟨_, _, entry⟩
      | child entry lower => cases lower
    have hne : H ≠ F := (hstepped.apart F (List.mem_cons_self ..)).1.symm
    have hfinish : Finishes p K F r t (after B j n) := Or.inl ⟨script', hat⟩
    obtain ⟨finished, hsweep⟩ := hfinish.concludes (B := B)
    have hroom := hord.room [] _ t (.refl _) hat.scheduler
    have hless := (hord.linked hat.scheduler).vacated_conclude hroom hF hmem hne finished r
    intro o' t' hlater ht'
    exact gone_of_vacated hH hsweep.scheduler hless hlater ht'
  · obtain ⟨n, s', X, top, work, hr, hhead, hregister, hstand⟩ :=
      h.copied fun ids hids => hown ⟨ids, hids⟩
    refine ⟨n, s', _, top, work, hr, hhead, hregister, rfl, rfl, hstand, ?_⟩
    intro horderly evs o e ho hevs he hnot
    obtain ⟨j, rfl, rfl⟩ := ho
    obtain ⟨r, script', t, qs, rfl, hat, hstepped⟩ :=
      horderly.first_about hhead hstand hevs he hnot
    refine ⟨r, rfl, fun _ => ?_, fun ids hids => absurd ⟨ids, hids⟩ hown⟩
    obtain ⟨rest, hrest⟩ := h.stack
    obtain ⟨o', hr', hreceives⟩ := (horderly.later ⟨j, rfl, rfl⟩ hevs).delivers hat hstepped rfl
      2 rest (by rw [hrest]; rfl) h.isUser
    rw [he] at hr'
    rw [hstepped.ground.calm not_false] at hreceives
    exact ⟨o', hr', hreceives⟩

/-! ### Computing what is assumed -/

/-- A step of `S` invokes. -/
structure Invocation (C R : Type) where
  frames : List (Frame C R)
  inner : Frame C R
  S : RoutineId
  H : RoutineId
  script : Script C
  k : Nat
  v : Value
  next : R
  scheduler : Scheduler C
  snapshot : Snapshot C

variable (p) in
/-- The invocation in focus, if it is that of a script that a handler has reset,
    and its continuation has one frame and has been invoked before. -/
def invocation? (m : Machine C R) : Option (Invocation C R) :=
  match m.focus, m.control, m.scheduler? p with
  | .release [] (.act (.ask (.invoke k v) next)), f :: .stepping q S :: .pass q' :: K, some s =>
    match s.routines.find? S, s.stack, m.store.snapshots.find? k with
    | some ⟨.reset, none, some H, []⟩, .boundary :: .routine H' :: _,
        some ⟨home, none, [⟨origin, copy, .outside parent⟩]⟩ =>
      match s.routines.find? H with
      | some ⟨_, some script, _, _⟩ =>
        if q = p ∧ q' = p ∧ H' = H ∧ home = p ∧ parent ≠ some s.fresh ∧ script.isUser then
          some ⟨K, f, S, H, script, k, v, next, s, ⟨home, none, [⟨origin, copy, .outside parent⟩]⟩⟩
        else none
      | _ => none
    | _, _, _ => none
  | _, _, _ => none

/-- The step in focus asks to suspend. -/
def Focus.suspending : Focus C R → Bool
  | .release [] (.give (.stepped (.yield .suspend) _)) => true
  | _ => false

variable (B p) in
/-- Letting go causes nothing, scripts are copied without a hook, and who has
    invoked suspends within so many moves. -/
def suspendsSoon (height fuel : Nat) (m : Machine C R) : Bool :=
  (!m.atLoop p || m.dropsNothing) &&
    match m.focus, m.control with
    | .copy script, _ => (script.core.bind B.onCopy).isNone
    | .release _ (.give (.reply _)), .holding _ :: .holding _ :: .code _ :: _ =>
      comesBack B p Focus.suspending height fuel m
    | _, _ => true

theorem copiesReturn_of_suspendsSoon {height fuel : Nat}
    (h : suspendsSoon B p height fuel m = true) : CopiesReturn B p k m := by
  intro script hf
  have hnone : script.core.bind B.onCopy = none := by
    simpa [suspendsSoon, hf] using ((Bool.and_eq_true ..).mp h).2
  have hstep : m.step B = (m.retain (script.handles B.held)).give (.built script) := by
    simp only [step, hf, copyScript, hnone]
  refine ⟨m.step B, .built script, Reaches.unseen (.refl m) (by simp [event?, hf]), ?_⟩
  rw [hstep]
  refine ⟨rfl, rfl, Store.find?_snapshots_retainAll m.store _ k, ?_⟩
  intro s hs
  exact ⟨s, (scheduler?_retain m _ p).trans hs, .refl s⟩

theorem suspends_of_suspendsSoon {fuel : Nat} {f : Frame C R} {hs : List Handle}
    (h : suspendsSoon B p (K.length + 2) fuel m = true)
    (hat : At p K (invoking p k next ([f] ++ [.stepping p S])) (Focus.replied hs) s m) :
    Suspends B p K S m := by
  have hback : comesBack B p Focus.suspending (K.length + 2) fuel m = true := by
    have h := ((Bool.and_eq_true ..).mp h).2
    rw [hat.focus, hat.control] at h
    exact h
  have hbase : .stepping p S :: .pass p :: K <:+ m.control := by
    rw [hat.control]
    exact ⟨[.holding [.scheduler p], .holding [.continuation k], .code next, f], rfl⟩
  obtain ⟨n, hr, hcontrol, hok, hsched⟩ := reaches_of_comesBack hbase hback
  intro t ht
  unfold Focus.suspending at hok
  split at hok
  · next script hf => exact ⟨n, t, script, hr, ⟨hcontrol, hf, hsched.trans ht⟩, .refl t⟩
  · cases hok

/-- A single frame whose place outside is not known by the next new
    identifier. -/
theorem plant_apart {frame : FrameCopy C} (hne : frame.parent ≠ .outside (some s.fresh))
    (copies : List (Script C)) : ∀ id ∈ (s.plant [frame] copies).1, ∀ f, [frame].head? = some f →
      f.parent ≠ .outside (some id) := by
  intro id hid f hf
  cases hf
  cases copies with
  | nil => cases hid
  | cons copy copies =>
    have hfresh : (s.plant [frame] (copy :: copies)).1 = [s.fresh] :=
      congrArg (fun a => [a]) (s.insert_fst ⟨frame.origin, some copy, none, []⟩)
    rw [hfresh, List.mem_singleton] at hid
    exact hid ▸ hne

theorem handlerInvokes_of_invocation {x : Invocation C R} {fuel fuel' : Nat}
    (hx : m.invocation? p = some x) (hreach : Reachable B m)
    (hroom : throughout B (fun _ => false) (fewSlots p) fuel m = true)
    (h : throughout B (fun n => (n.event? p).isSome)
      (suspendsSoon B p (x.frames.length + 2) fuel') fuel m = true) :
    HandlerInvokes B p x.frames x.H x.script x.S x.k x.v x.snapshot x.scheduler m ∧
      ∀ ids, ¬ OwnRoutines x.snapshot x.scheduler ids := by
  unfold invocation? at hx
  split at hx
  · next k v next f q S q' K s hfocus hcontrol hsched =>
    split at hx
    · next H H' rest home origin copy parent hS hstack hk =>
      split at hx
      · next origin' script parent' children hH =>
        split at hx
        · next hfacts =>
          obtain ⟨rfl, rfl, rfl, rfl, hfresh, huser⟩ := hfacts
          cases hx
          refine ⟨⟨hreach, roomy_of_fewSlots hroom, ?_, ⟨[f], next, ⟨hcontrol, hfocus, hsched⟩, ?_⟩,
            hS, ⟨_, _, _, hH⟩, huser, ⟨_, hstack⟩, hk, rfl, ⟨⟨_, _, _, rfl, rfl⟩, ?_⟩, ?_, ?_, ?_⟩, ?_⟩
          · rintro _ n hr rfl hloop
            have hdrops := (Bool.and_eq_true ..).mp (check_of_quiet h hr)
            rw [hloop.atLoop] at hdrops
            exact dropsReturn_of_dropsNothing hdrops.1
          · exact fun n hs t hr hat => suspends_of_suspendsSoon (check_of_quiet h hr) hat
          · intro i frame hframe
            cases hframe
          · exact plant_apart fun heq => hfresh (ParentPlace.outside.inj heq)
          · rintro ids ⟨hids, -⟩
            cases hids
          · exact fun n hr => copiesReturn_of_suspendsSoon (check_of_quiet h hr)
          · rintro ids ⟨hids, -⟩
            cases hids
        · cases hx
      · cases hx
    · cases hx
  · cases hx

end Machine

open Machine Strand.Language in
/-- A reset whose body shifts to a handler, which resets the continuation twice:
    with 1, which the body waits at for good, and with 10, which it doubles. The
    handler adds 1 to that. -/
def twice : Machine Code Running :=
  let script stages := Term.apply (.staged (stages.map .onSuccess) none) []
  let int n := Operand.mk (.type .int) n
  let input := Term.apply .input []
  let done value := Term.apply .done [.mk .outcome value]
  let resume n := script [.apply .resume [.mk (.type .continuation) (.apply (.lookup "k") []),
    .mk .any (.literal (.int n))]]
  let handler := script [.apply (.reset (resume 1)) [], .apply (.reset (resume 10)) [],
    done (.apply .add [int input, int (.literal (.int 1))])]
  let body := script [.apply (.shift (.mk handler (some "k") none none none)) [],
    .choose (.apply .equal [int input, int (.literal (.int 1))]) (.apply .suspend [])
      (done (.apply .multiply [int input, int (.literal (.int 2))]))]
  Program.machine [] .empty (.apply (.evaluate (script [.apply (.reset body) [], done input]))
    [.mk (.type .scheduler) (.apply (.newScheduler {}) [])])

open Machine Strand.Language in
/-- The second invocation in `twice` comes after 183 moves. The handler is fed 20
    after 58 more. -/
theorem handler_fed_by_copies_twice :
    ∃ (m n o : Machine Code Running) (x : Invocation Code Running) (id : RoutineId)
      (evs : List (PassEvent Code)),
      m = after behavior 183 twice ∧ m.invocation? 0 = some x ∧ x.H = ⟨2, 0⟩ ∧
      Reaches behavior 0 m evs n ∧ (∀ e ∈ evs, e.id ≠ x.H) ∧
      n.event? 0 = some (.finished id (.success (.int 20))) ∧
      Reaches behavior 0 n [.finished id (.success (.int 20))] o ∧
      o.event? 0 = some (.resumed x.H x.script (.success (.int 20))) := by
  have hfacts : ((after behavior 183 twice).invocation? 0).map (fun x => (x.H, x.frames.length)) =
      some (⟨2, 0⟩, 2) := by decide +kernel
  have hroom : throughout behavior (fun _ => false) (fewSlots 0) 200
      (after behavior 183 twice) = true := by decide +kernel
  have hsuspends : throughout behavior (fun n => (n.event? 0).isSome) (suspendsSoon behavior 0 4 40)
      200 (after behavior 183 twice) = true := by decide +kernel
  have hstraight : rehearsed behavior 0 (fun e => e.id = ⟨2, 0⟩) (straight behavior 0 40) 200
      (after behavior 183 twice) = true := by decide +kernel
  have hbefore : ∀ e ∈ trail behavior 0 58 (after behavior 183 twice), e.id ≠ ⟨2, 0⟩ := by
    decide +kernel
  have hevent : ((after behavior 58 (after behavior 183 twice)).event? 0).bind PassEvent.number? =
      some (⟨2, 0⟩, false, 20) := by decide +kernel
  have hreach : Reachable behavior (after behavior 183 twice) :=
    ⟨twice.focus, Reaches.later (p := 0) ⟨183, rfl, rfl⟩⟩
  refine ⟨after behavior 183 twice, ?_⟩
  generalize after behavior 183 twice = m at *
  obtain ⟨x, hx, hids⟩ := Option.map_eq_some_iff.mp hfacts
  obtain ⟨hH, hheight⟩ := Prod.mk.inj hids
  obtain ⟨hinvokes, hcopied⟩ := handlerInvokes_of_invocation hx hreach hroom
    (by rw [hheight]; exact hsuspends)
  obtain ⟨n, s', site, top, work, hr, hhead, -, hP, -, hstand, hthen⟩ := handler_fed_by_copies hinvokes
  have hord := (orderly_of_rehearsed (K := x.frames) hreach hroom hstraight (hP.trans hH)).quietly hr
  obtain ⟨e, he, hresumed⟩ := Option.bind_eq_some_iff.mp hevent
  obtain ⟨script, rfl⟩ := PassEvent.eq_resumed hresumed
  have hnot : ¬ site.Aside (.resumed ⟨2, 0⟩ script (.success (.int 20))) :=
    fun haside => haside (hP.trans hH).symm
  -- the first event after `n` that is not aside is the end of what stands there
  obtain ⟨i, -, hafter, -⟩ := hr.pass (List.forall_mem_nil _) he hnot
  rw [← hafter] at he
  obtain ⟨d, e, haside, he', hnot'⟩ := exists_first (mem_trail (Nat.lt_succ_self i) he) hnot
  obtain ⟨r, rfl, hfed, -⟩ := hthen hord _ _ _ ⟨d, rfl, rfl⟩ haside he' hnot'
  obtain ⟨o, hr', ho⟩ := hfed hcopied
  have hX : site.X ≠ x.H := hP ▸ (hstand.apart site.X hstand.chain.bottom_mem).1
  have hquiet : ∀ e ∈ trail behavior 0 d n, e.id ≠ x.H := fun e hmem => hP ▸ (haside e hmem).id_ne
  have hreaches : Reaches behavior 0 m (trail behavior 0 d n) (after behavior d n) :=
    hr.after_quiet ⟨d, rfl, rfl⟩
  -- the handler is fed for the first time in both
  obtain ⟨t, rfl, htrail⟩ := hreaches.trans hr'
  rw [hafter] at he
  have hsame := first_unique (Q := fun e => e.id ≠ ⟨2, 0⟩) hbefore he (fun h => h rfl)
    (by
      rw [htrail, ← hH, List.forall_mem_append]
      exact ⟨hquiet, by simpa [PassEvent.id] using hX⟩)
    ho (fun h => h hH)
  obtain ⟨-, -, rfl⟩ := PassEvent.resumed.inj hsame
  exact ⟨_, _, x, site.X, _, rfl, hx, hH, hreaches, hquiet, he', hr', ho⟩

open Machine Strand.Language in
/-- A reset whose body shifts to a handler, which resets the continuation with
    10 and adds 1 to what that ends in. The body doubles what it is fed. -/
def once : Machine Code Running :=
  let script stages := Term.apply (.staged (stages.map .onSuccess) none) []
  let int n := Operand.mk (.type .int) n
  let input := Term.apply .input []
  let done value := Term.apply .done [.mk .outcome value]
  let resume := script [.apply .resume [.mk (.type .continuation) (.apply (.lookup "k") []),
    .mk .any (.literal (.int 10))]]
  let handler := script [.apply (.reset resume) [],
    done (.apply .add [int input, int (.literal (.int 1))])]
  let body := script [.apply (.shift (.mk handler (some "k") none none none)) [],
    done (.apply .multiply [int input, int (.literal (.int 2))])]
  Program.machine [] .empty (.apply (.evaluate (script [.apply (.reset body) [], done input]))
    [.mk (.type .scheduler) (.apply (.newScheduler {}) [])])

open Machine Strand.Language in
/-- The first invocation puts the body itself on the handler `⟨2, 0⟩`, which is
    a child of the body. When the body is done with 20 its children have to exit,
    the handler first, and 20 is what the routine below is fed. -/
theorem handler_swept_before_fed :
    ((after behavior 105 once).scheduler? 0).map (·.stack) =
        some [.boundary, .routine ⟨2, 0⟩, .routine ⟨0, 0⟩] ∧
      (trail behavior 0 85 (after behavior 105 once)).map PassEvent.id =
        [⟨1, 0⟩, ⟨1, 0⟩, ⟨2, 1⟩, ⟨2, 1⟩, ⟨3, 1⟩, ⟨3, 1⟩, ⟨0, 0⟩, ⟨0, 0⟩] ∧
      (trail behavior 0 85 (after behavior 105 once)).filterMap PassEvent.number? =
        [(⟨1, 0⟩, false, 10), (⟨1, 0⟩, true, 20), (⟨0, 0⟩, false, 20), (⟨0, 0⟩, true, 20)] := by
  decide +kernel

end Strand
