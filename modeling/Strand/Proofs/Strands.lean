import Strand.Proofs.Spawning
import Strand.Proofs.Turns

/-! # Strands — a routine and what it spawns by resets and splices

    A strand is a routine `X` with the routines above it on the stack, each of
    which is a child of the one below. It stands on a ground: re-entries that
    were queued while `X` was stepped, and beneath them a routine `P` that
    waits.

    * `Chain` and `Strand` describe a strand between two turns, `Stepped` one
      whose topmost routine is being stepped.
    * As long as the routines yield nothing but resets and splices, a strand
      stays one until `X` finishes (`first_about`). -/

namespace Strand

variable {C : Type}

/-- The routines among some entries of the stack. -/
def routinesOf (work : List StackEntry) : List RoutineId := work.filterMap StackEntry.routine?

@[simp] theorem routinesOf_nil : routinesOf [] = [] := rfl

@[simp] theorem routinesOf_boundary (work : List StackEntry) :
    routinesOf (.boundary :: work) = routinesOf work := rfl

@[simp] theorem routinesOf_routine (id : RoutineId) (work : List StackEntry) :
    routinesOf (.routine id :: work) = id :: routinesOf work := rfl

@[simp] theorem routinesOf_boundaries (n : Nat) (work : List StackEntry) :
    routinesOf (List.replicate n .boundary ++ work) = routinesOf work := by
  induction n with
  | zero => rfl
  | succ n ih => exact ih

theorem mem_stack_of_routinesOf {a : RoutineId} {work : List StackEntry}
    (h : a ∈ routinesOf work) :
    .routine a ∈ work := by
  obtain ⟨w, hw, ha⟩ := List.mem_filterMap.mp h
  cases w with
  | routine id =>
    cases ha
    exact hw
  | boundary => cases ha

/-! ### Chains -/

/-- These entries are a chain over `X`, with `top` the topmost of its routines
    and `above` the only child of that apart from the `kids` that `X` has
    anyway. Re-entries may have been queued in between. -/
inductive Chain (r : Roster (Routine C)) (X : RoutineId) (kids : List RoutineId) :
    Option RoutineId → RoutineId → List StackEntry → Prop
  | bottom {above : Option RoutineId} {origin : Origin} {script : Script C}
      {parent : Option RoutineId}
      (entry : r.find? X = some ⟨origin, some script, parent, kids ++ above.toList⟩) :
      Chain r X kids above X [.routine X]
  | boundary {above : Option RoutineId} {top : RoutineId} {rest : List StackEntry}
      (lower : Chain r X kids above top rest) : Chain r X kids above top (.boundary :: rest)
  | queued {above : Option RoutineId} {id top : RoutineId} {k : Nat} {v : Value}
      {rest : List StackEntry}
      (entry : r.find? id = some ⟨.reenter, some (.reentry k (some v)), none, []⟩)
      (lower : Chain r X kids above top rest) : Chain r X kids above top (.routine id :: rest)
  | child {above : Option RoutineId} {id q : RoutineId} {origin : Origin} {script : Script C}
      {rest : List StackEntry}
      (entry : r.find? id = some ⟨origin, some script, some q, above.toList⟩)
      (lower : Chain r X kids (some id) q rest) : Chain r X kids above id (.routine id :: rest)

/-- The topmost routine of a chain over `X` is being stepped; `rest` is the
    chain beneath it. -/
inductive Stepping (r : Roster (Routine C)) (X : RoutineId) (kids : List RoutineId) :
    RoutineId → List StackEntry → Prop
  | bottom {origin : Origin} {parent : Option RoutineId}
      (entry : r.find? X = some ⟨origin, none, parent, kids⟩) : Stepping r X kids X []
  | child {id q : RoutineId} {origin : Origin} {rest : List StackEntry}
      (entry : r.find? id = some ⟨origin, none, some q, []⟩)
      (lower : Chain r X kids (some id) q rest) : Stepping r X kids id rest

variable {r r' : Roster (Routine C)} {X top : RoutineId} {kids : List RoutineId}
  {above above' : Option RoutineId} {work : List StackEntry}

theorem Chain.top_mem (h : Chain r X kids above top work) : top ∈ routinesOf work := by
  induction h with
  | bottom => exact List.mem_cons_self ..
  | boundary _ ih => exact ih
  | queued _ _ ih => exact List.mem_cons_of_mem _ ih
  | child => exact List.mem_cons_self ..

theorem Chain.bottom_mem (h : Chain r X kids above top work) : X ∈ routinesOf work := by
  induction h with
  | bottom => exact List.mem_cons_self ..
  | boundary _ ih => exact ih
  | queued _ _ ih => exact List.mem_cons_of_mem _ ih
  | child _ _ ih => exact List.mem_cons_of_mem _ ih

theorem Chain.live (h : Chain r X kids above top work) :
    ∀ a ∈ routinesOf work, ∃ x, r.find? a = some x ∧ x.script ≠ none := by
  induction h with
  | bottom entry =>
    intro a ha
    rw [routinesOf_routine, routinesOf_nil, List.mem_singleton] at ha
    exact ⟨_, ha ▸ entry, Option.some_ne_none _⟩
  | boundary _ ih => exact ih
  | queued entry _ ih | child entry _ ih =>
    intro a ha
    rcases List.mem_cons.mp ha with rfl | ha
    · exact ⟨_, entry, Option.some_ne_none _⟩
    · exact ih a ha

/-- A chain depends on the entries of its routines alone. -/
theorem Chain.congr (h : Chain r X kids above top work)
    (hfind : ∀ a ∈ routinesOf work, r'.find? a = r.find? a) : Chain r' X kids above top work := by
  induction h with
  | bottom entry => exact .bottom ((hfind _ (List.mem_cons_self ..)).trans entry)
  | boundary _ ih => exact .boundary (ih hfind)
  | queued entry _ ih =>
    exact .queued ((hfind _ (List.mem_cons_self ..)).trans entry)
      (ih fun a ha => hfind a (List.mem_cons_of_mem _ ha))
  | child entry _ ih =>
    exact .child ((hfind _ (List.mem_cons_self ..)).trans entry)
      (ih fun a ha => hfind a (List.mem_cons_of_mem _ ha))

/-- A chain under another child. -/
theorem Chain.under (h : Chain r X kids above top work) (hnodup : (routinesOf work).Nodup)
    (hfind : ∀ a ∈ routinesOf work, a ≠ top → r'.find? a = r.find? a)
    (htop : ∀ x base, r.find? top = some x → x.children = base ++ above.toList →
      r'.find? top = some { x with children := base ++ above'.toList }) :
    Chain r' X kids above' top work := by
  induction h with
  | bottom entry => exact .bottom (htop _ _ entry rfl)
  | boundary _ ih => exact .boundary (ih hnodup hfind htop)
  | queued entry lower ih =>
    obtain ⟨hnot, hnodup⟩ := List.nodup_cons.mp hnodup
    refine .queued ((hfind _ (List.mem_cons_self ..) ?_).trans entry)
      (ih hnodup (fun a ha => hfind a (List.mem_cons_of_mem _ ha)) htop)
    rintro rfl
    exact hnot lower.top_mem
  | child entry lower _ =>
    refine .child (htop _ [] entry rfl) (lower.congr ?_)
    intro a ha
    refine hfind a (List.mem_cons_of_mem _ ha) ?_
    rintro rfl
    exact (List.nodup_cons.mp hnodup).1 ha

/-- Re-entries are queued above a chain. -/
theorem Chain.queue {qs : List StackEntry} (h : Chain r X kids above top work)
    (hqs : ∀ w ∈ qs, ∃ id k v, w = .routine id ∧
      r.find? id = some ⟨.reenter, some (.reentry k (some v)), none, []⟩) :
    Chain r X kids above top (qs ++ work) := by
  induction qs with
  | nil => exact h
  | cons w qs ih =>
    obtain ⟨id, k, v, rfl, entry⟩ := hqs w (List.mem_cons_self ..)
    exact .queued entry (ih fun w hw => hqs w (List.mem_cons_of_mem _ hw))

/-- The topmost entry of a chain that is picked: a re-entry, or the topmost
    routine of the chain. -/
theorem Chain.split (h : Chain r X kids none top work) :
    ∃ n id rest, work = List.replicate n .boundary ++ .routine id :: rest ∧
      ((∃ k v, r.find? id = some ⟨.reenter, some (.reentry k (some v)), none, []⟩ ∧
          Chain r X kids none top rest) ∨
        id = top ∧ ∃ x script, r.find? top = some x ∧ x.script = some script ∧
          ∀ r' : Roster (Routine C), r'.find? top = some { x with script := none } →
            (∀ a ∈ routinesOf rest, r'.find? a = r.find? a) → Stepping r' X kids top rest) := by
  generalize habove : (none : Option RoutineId) = above at h
  induction h with
  | @bottom above origin script parent entry =>
    subst habove
    refine ⟨0, X, [], rfl, Or.inr ⟨rfl, _, script, entry, rfl, ?_⟩⟩
    intro r' hr' _
    refine @Stepping.bottom _ _ _ _ origin parent ?_
    rw [hr', Option.toList_none, List.append_nil]
  | boundary _ ih =>
    obtain ⟨n, id, rest, rfl, hx⟩ := ih habove
    exact ⟨n + 1, id, rest, rfl, hx⟩
  | @queued above id top k v rest entry lower _ =>
    subst habove
    exact ⟨0, id, rest, rfl, Or.inl ⟨k, v, entry, lower⟩⟩
  | @child above id q origin script rest entry lower _ =>
    subst habove
    refine ⟨0, id, rest, rfl, Or.inr ⟨rfl, _, script, entry, rfl, ?_⟩⟩
    intro r' hr' hfind
    exact .child hr' (lower.congr hfind)

theorem Stepping.entry {id : RoutineId} {rest : List StackEntry} (h : Stepping r X kids id rest) :
    ∃ x, r.find? id = some x ∧ x.script = none := by
  cases h with
  | bottom entry => exact ⟨_, entry, rfl⟩
  | child entry _ => exact ⟨_, entry, rfl⟩

theorem Stepping.live {id : RoutineId} {rest : List StackEntry} (h : Stepping r X kids id rest) :
    ∀ a ∈ routinesOf rest, ∃ x, r.find? a = some x := by
  cases h with
  | bottom => exact nofun
  | child _ lower =>
    intro a ha
    obtain ⟨x, hx, -⟩ := lower.live a ha
    exact ⟨x, hx⟩

/-- Entries that are found again carry the same strand. -/
theorem Stepping.congr {id : RoutineId} {rest : List StackEntry} (h : Stepping r X kids id rest)
    (hfind : ∀ a ∈ id :: routinesOf rest, r'.find? a = r.find? a) :
    Stepping r' X kids id rest := by
  cases h with
  | bottom entry => exact .bottom ((hfind _ (List.mem_cons_self ..)).trans entry)
  | child entry lower =>
    exact .child ((hfind _ (List.mem_cons_self ..)).trans entry)
      (lower.congr fun a ha => hfind a (List.mem_cons_of_mem _ ha))

/-- A stepped routine is shelved again. -/
theorem Stepping.shelved {id : RoutineId} {rest : List StackEntry} {script : Script C}
    (h : Stepping r X kids id rest) (hnodup : (id :: routinesOf rest).Nodup) :
    Chain (r.modify id fun x => { x with script := some script }) X kids none id
      (.routine id :: rest) := by
  have hself : ∀ x, r.find? id = some x →
      (r.modify id fun x => { x with script := some script }).find? id =
        some { x with script := some script } := by
    intro x hx
    rw [Roster.find?_modify, if_pos rfl, hx, Option.map_some]
  cases h with
  | @bottom origin parent entry =>
    refine @Chain.bottom _ _ _ _ _ origin script parent ?_
    rw [hself _ entry, Option.toList_none, List.append_nil]
  | child entry lower =>
    refine .child (hself _ entry) (lower.congr ?_)
    intro a ha
    rw [Roster.find?_modify, if_neg]
    rintro rfl
    exact (List.nodup_cons.mp hnodup).1 ha

/-! ### Strands on the stack -/

/-- Where a strand stands. -/
structure Site (C : Type) where
  /-- The routine at its bottom. -/
  X : RoutineId
  /-- The children that `X` has apart from the strand. -/
  kids : List RoutineId
  /-- What was on the stack before. -/
  below : List StackEntry
  /-- A routine that waits there. -/
  P : RoutineId
  script : Script C
  /-- Whether steps of `X` may re-enter. -/
  reenters : Prop

namespace Scheduler

variable {site : Site C} {s t : Scheduler C} {top id : RoutineId}
  {work rest queue : List StackEntry}

/-- What a strand stands on: re-entries that were queued, and `P`. -/
structure Ground (site : Site C) (s : Scheduler C) (queue : List StackEntry) : Prop where
  queued : ∀ w ∈ queue, ∃ id k v, w = .routine id ∧
    s.routines.find? id = some ⟨.reenter, some (.reentry k (some v)), none, []⟩
  calm : ¬ site.reenters → queue = []
  place : .routine site.P ∈ site.below
  waits : ∃ origin parent children,
    s.routines.find? site.P = some ⟨origin, some site.script, parent, children⟩

/-- A strand between two turns. -/
structure Standing (site : Site C) (s : Scheduler C) (top : RoutineId)
    (work queue : List StackEntry) : Prop where
  stack : s.stack = work ++ (queue ++ site.below)
  chain : Chain s.routines site.X site.kids none top work
  nodup : (routinesOf work).Nodup
  ground : Ground site s queue
  apart : ∀ a ∈ routinesOf work, a ≠ site.P ∧ .routine a ∉ queue

/-- A strand whose topmost routine `id` is being stepped. -/
structure Stepped (site : Site C) (s : Scheduler C) (id : RoutineId)
    (rest queue : List StackEntry) : Prop where
  stack : s.stack = rest ++ (queue ++ site.below)
  stepping : Stepping s.routines site.X site.kids id rest
  nodup : (id :: routinesOf rest).Nodup
  ground : Ground site s queue
  apart : ∀ a ∈ id :: routinesOf rest, a ≠ site.P ∧ .routine a ∉ queue

theorem Ground.update (h : Ground site s queue)
    (hqueue : ∀ id, .routine id ∈ queue → ∀ x, s.routines.find? id = some x → x.parent = none →
      x.children = [] → t.routines.find? id = some x)
    (hP : ∀ x, s.routines.find? site.P = some x →
      ∃ parent children, t.routines.find? site.P = some { x with parent, children }) :
    Ground site t queue := by
  refine ⟨?_, h.calm, h.place, ?_⟩
  · intro w hw
    obtain ⟨id, k, v, rfl, hid⟩ := h.queued w hw
    exact ⟨id, k, v, rfl, hqueue id hw _ hid rfl rfl⟩
  · obtain ⟨origin, _, _, hwaits⟩ := h.waits
    obtain ⟨parent, children, hwaits'⟩ := hP _ hwaits
    exact ⟨origin, parent, children, hwaits'⟩

theorem Ground.same (h : Ground site s queue)
    (hqueue : ∀ id, .routine id ∈ queue → t.routines.find? id = s.routines.find? id)
    (hP : t.routines.find? site.P = s.routines.find? site.P) : Ground site t queue :=
  h.update (fun id hid _ hx _ _ => (hqueue id hid).trans hx) fun x hx =>
    ⟨x.parent, x.children, hP.trans hx⟩

/-- A strand stays when its routines, the queue and `P` do. -/
theorem Standing.congr (h : Standing site s top work queue) (hstack : t.stack = s.stack)
    (hroutines : t.routines = s.routines) : Standing site t top work queue where
  stack := hstack.trans h.stack
  chain := hroutines ▸ h.chain
  nodup := h.nodup
  ground := h.ground.same (fun _ _ => by rw [hroutines]) (by rw [hroutines])
  apart := h.apart

/-! ### Picking -/

/-- The topmost routine is picked, whatever boundaries are above it. -/
theorem pick_of_boundaries {n : Nat} {tail : List StackEntry} {x : Routine C} {script : Script C}
    (hstack : s.stack = List.replicate n .boundary ++ .routine id :: tail)
    (hid : s.routines.find? id = some x) (hscript : x.script = some script) :
    ∃ reports, s.pick = (some (id, script),
      { s with
        stack := tail
        current := some id
        routines := s.routines.modify id fun r => { r with script := none }
        reports }) := by
  have hfrom : ∀ n (t : Scheduler C), t.routines.find? id = some x →
      ∃ reports, pickFrom (List.replicate n .boundary ++ .routine id :: tail) t =
        (some (id, script),
          { t with
            stack := tail
            current := some id
            routines := t.routines.modify id fun r => { r with script := none }
            reports }) := by
    intro n
    induction n with
    | zero =>
      intro t ht
      refine ⟨.resuming x.origin id :: t.reports, ?_⟩
      rw [List.replicate_zero, List.nil_append, pickFrom]
      simp only [ht, hscript]
      rfl
    | succ n ih =>
      intro t ht
      obtain ⟨reports, h⟩ := ih (t.report .boundaryConsumed) ht
      exact ⟨reports, h⟩
  rw [pick, hstack]
  exact hfrom n s hid

/-- A chain and what it stands on, for all that a routine above is picked. -/
theorem Ground.picked (h : Ground site s queue) (hP : id ≠ site.P) (hqueue : .routine id ∉ queue)
    {stack : List StackEntry} {current : Option RoutineId} {reports : List Report} :
    Ground site
      { s with
        stack
        current
        routines := s.routines.modify id fun r => { r with script := none }
        reports } queue := by
  have hother : ∀ a, a ≠ id →
      (s.routines.modify id fun r => { r with script := none }).find? a = s.routines.find? a := by
    intro a ha
    rw [Roster.find?_modify, if_neg ha]
  refine h.same ?_ (hother _ hP.symm)
  intro a ha
  refine hother a ?_
  rintro rfl
  exact hqueue ha

/-- What is on top of a strand is picked: a re-entry that was queued on it, or
    its topmost routine. -/
theorem Standing.picked (h : Standing site s top work queue) :
    ∃ id script s₁ rest, s.pick = (some (id, script), s₁) ∧ id ≠ site.P ∧
      ((∃ k v, script = .reentry k (some v) ∧ Standing site s₁ top rest queue) ∨
        Stepped site s₁ id rest queue) := by
  obtain ⟨n, id, rest, rfl, hsplit⟩ := h.chain.split
  have hroutines : routinesOf (List.replicate n .boundary ++ .routine id :: rest) =
      id :: routinesOf rest := routinesOf_boundaries n _
  have hnodup := h.nodup
  have hapart := h.apart
  rw [hroutines] at hnodup hapart
  obtain ⟨hnot, hnodup'⟩ := List.nodup_cons.mp hnodup
  have hid := hapart id (List.mem_cons_self ..)
  have hstack : s.stack =
      List.replicate n .boundary ++ .routine id :: (rest ++ (queue ++ site.below)) := by
    rw [h.stack, List.append_assoc, List.cons_append]
  have hother : ∀ a ∈ routinesOf rest,
      (s.routines.modify id fun r => { r with script := none }).find? a = s.routines.find? a := by
    intro a ha
    rw [Roster.find?_modify, if_neg]
    rintro rfl
    exact hnot ha
  rcases hsplit with ⟨k, v, hentry, hchain⟩ | ⟨rfl, x, script, hx, hscript, hstep⟩
  · obtain ⟨reports, hpick⟩ := pick_of_boundaries hstack hentry rfl
    exact ⟨id, _, _, rest, hpick, hid.1, Or.inl ⟨k, v, rfl, rfl, hchain.congr hother, hnodup',
      h.ground.picked hid.1 hid.2, fun a ha => hapart a (List.mem_cons_of_mem _ ha)⟩⟩
  · obtain ⟨reports, hpick⟩ := pick_of_boundaries hstack hx hscript
    refine ⟨id, script, _, rest, hpick, hid.1, Or.inr ⟨rfl, hstep _ ?_ hother, hnodup,
      h.ground.picked hid.1 hid.2, hapart⟩⟩
    rw [Roster.find?_modify, if_pos rfl, hx, Option.map_some]

/-! ### Shelving and spawning -/

theorem Stepped.shelved (h : Stepped site s id rest queue) (script : Script C) :
    Standing site (s.shelve id script) id (.routine id :: rest) queue := by
  obtain ⟨x, hx, -⟩ := h.stepping.entry
  rw [shelve_of_live hx]
  have hid := h.apart id (List.mem_cons_self ..)
  refine ⟨?_, h.stepping.shelved h.nodup, h.nodup, ?_, h.apart⟩
  · show _ :: s.stack = _
    rw [h.stack]
    rfl
  · have hother : ∀ a, a ≠ id →
        (s.routines.modify id fun r => { r with script := some script }).find? a =
          s.routines.find? a := by
      intro a ha
      rw [Roster.find?_modify, if_neg ha]
    refine h.ground.same ?_ (hother _ hid.1.symm)
    intro a ha
    refine hother a ?_
    rintro rfl
    exact hid.2 ha

theorem Standing.bounded (h : Standing site s top work queue) :
    Standing site (s.push .boundary) top (.boundary :: work) queue where
  stack := congrArg (StackEntry.boundary :: ·) h.stack
  chain := .boundary h.chain
  nodup := h.nodup
  ground := h.ground.same (fun _ _ => rfl) rfl
  apart := h.apart

/-- The topmost routine spawns a child. -/
theorem Standing.spawned (h : Standing site s top work queue) (hl : Linked s.routines)
    {origin : Origin} {script : Script C}
    (hroom : (s.scheduleChild origin script top).routines.slots.size ≤ 2 ^ 32) :
    Standing site (s.scheduleChild origin script top) s.fresh (.routine s.fresh :: work) queue := by
  obtain ⟨x, hx, -⟩ := h.chain.live top h.chain.top_mem
  obtain ⟨hdead, routines, reports, heq, hfind⟩ := scheduleChild_spec hl hroom hx
  have hlive : ∀ {a y}, s.routines.find? a = some y → a ≠ s.fresh := by
    rintro a y ha rfl
    rw [hdead] at ha
    cases ha
  have hother : ∀ {a y}, s.routines.find? a = some y → a ≠ top →
      routines.find? a = s.routines.find? a := by
    intro a y ha hne
    rw [hfind, if_neg (hlive ha), if_neg hne]
  have hwork : s.fresh ∉ routinesOf work := by
    intro hmem
    obtain ⟨y, hy, -⟩ := h.chain.live _ hmem
    exact hlive hy rfl
  have hP : s.fresh ≠ site.P := by
    obtain ⟨origin, parent, children, hwaits⟩ := h.ground.waits
    exact (hlive hwaits).symm
  have hqueue : .routine s.fresh ∉ queue := by
    intro hmem
    obtain ⟨id, k, v, hid, hfound⟩ := h.ground.queued _ hmem
    cases hid
    exact hlive hfound rfl
  have htop := h.apart top h.chain.top_mem
  rw [heq]
  refine ⟨?_, ?_, List.nodup_cons.mpr ⟨hwork, h.nodup⟩, ?_, ?_⟩
  · show _ :: s.stack = _
    rw [h.stack]
    rfl
  · refine @Chain.child _ _ _ _ _ _ _ origin script _ ?_ (h.chain.under h.nodup ?_ ?_)
    · show routines.find? _ = _
      rw [hfind, if_pos rfl]
      rfl
    · intro a ha hne
      obtain ⟨y, hy, -⟩ := h.chain.live a ha
      exact hother hy hne
    · intro y base hy hbase
      show routines.find? _ = _
      rw [hx] at hy
      cases hy
      rw [hfind, if_neg (hlive hx), if_pos rfl, hbase, Option.toList_none, List.append_nil]
      rfl
  · refine h.ground.same ?_ ?_
    · intro id hmem
      obtain ⟨_, k, v, hid, hfound⟩ := h.ground.queued _ hmem
      cases hid
      refine hother hfound ?_
      rintro rfl
      exact htop.2 hmem
    · obtain ⟨_, _, _, hwaits⟩ := h.ground.waits
      exact hother hwaits htop.1.symm
  · intro a ha
    rcases List.mem_cons.mp ha with rfl | ha
    · exact ⟨hP, hqueue⟩
    · exact h.apart a ha

/-! ### What the program does meanwhile -/

/-- All that has happened to the scheduler is that re-entries were queued. -/
structure Reentered (qs : List StackEntry) (s t : Scheduler C) : Prop where
  stack : t.stack = qs ++ s.stack
  register : t.register = s.register
  settings : t.settings = s.settings
  kept : ∀ a x, s.routines.find? a = some x → t.routines.find? a = some x
  added : ∀ w ∈ qs, ∃ id k v, w = .routine id ∧ s.routines.find? id = none ∧
    t.routines.find? id = some ⟨.reenter, some (.reentry k (some v)), none, []⟩
  distinct : (routinesOf qs).Nodup

theorem Spared.reentered (h : Spared s t) : Reentered [] s t := by
  obtain ⟨_, _, _, rfl⟩ := h
  exact ⟨rfl, rfl, rfl, fun _ _ hx => hx, List.forall_mem_nil _, List.nodup_nil⟩

theorem Standing.spared (h : Standing site s top work queue) (hst : Spared s t) :
    Standing site t top work queue := by
  obtain ⟨_, _, _, rfl⟩ := hst
  exact h.congr rfl rfl

/-- Re-entries that were queued in a step are beneath the routine that is
    stepped: on the ground of the strand if that is its bottom, else on the
    strand. -/
theorem Stepped.reentered {qs : List StackEntry} (h : Stepped site s id rest queue)
    (hst : Reentered qs s t) (hqs : qs = [] ∨ id ≠ site.X ∨ site.reenters) :
    ∃ rest' queue', Stepped site t id rest' queue' := by
  have hsame : ∀ {a y}, s.routines.find? a = some y →
      t.routines.find? a = s.routines.find? a := by
    intro a y ha
    rw [ha, hst.kept a y ha]
  have hlive : ∀ a ∈ id :: routinesOf rest, ∃ x, s.routines.find? a = some x := by
    intro a ha
    rcases List.mem_cons.mp ha with rfl | ha
    · obtain ⟨x, hx, -⟩ := h.stepping.entry
      exact ⟨x, hx⟩
    · exact h.stepping.live a ha
  have hnew : ∀ {a y}, .routine a ∈ qs → s.routines.find? a ≠ some y := by
    intro a y ha hy
    obtain ⟨_, _, _, heq, hdead, -⟩ := hst.added _ ha
    cases heq
    rw [hdead] at hy
    cases hy
  have hqueued : ∀ w ∈ queue, ∃ a k v, w = .routine a ∧
      t.routines.find? a = some ⟨.reenter, some (.reentry k (some v)), none, []⟩ := by
    intro w hw
    obtain ⟨a, k, v, rfl, ha⟩ := h.ground.queued w hw
    exact ⟨a, k, v, rfl, (hsame ha).trans ha⟩
  have hadded : ∀ w ∈ qs, ∃ a k v, w = .routine a ∧
      t.routines.find? a = some ⟨.reenter, some (.reentry k (some v)), none, []⟩ := by
    intro w hw
    obtain ⟨a, k, v, rfl, -, ha⟩ := hst.added w hw
    exact ⟨a, k, v, rfl, ha⟩
  have hwaits : ∃ origin parent children,
      t.routines.find? site.P = some ⟨origin, some site.script, parent, children⟩ := by
    obtain ⟨origin, parent, children, hwaits⟩ := h.ground.waits
    exact ⟨origin, parent, children, (hsame hwaits).trans hwaits⟩
  have hstepping : Stepping t.routines site.X site.kids id rest := h.stepping.congr fun a ha => by
    obtain ⟨x, hx⟩ := hlive a ha
    exact hsame hx
  have hstack := hst.stack
  rw [h.stack] at hstack
  cases hstepping with
  | bottom entry =>
    refine ⟨[], qs ++ queue, ?_, .bottom entry, h.nodup, ⟨?_, ?_, h.ground.place, hwaits⟩, ?_⟩
    · rw [hstack, List.append_assoc]
      rfl
    · intro w hw
      rcases List.mem_append.mp hw with hw | hw
      · exact hadded w hw
      · exact hqueued w hw
    · intro hcalm
      rw [h.ground.calm hcalm, List.append_nil]
      rcases hqs with hnil | hne | hreenters
      · exact hnil
      · exact absurd rfl hne
      · exact absurd hreenters hcalm
    · intro a ha
      refine ⟨(h.apart a ha).1, ?_⟩
      intro hmem
      rcases List.mem_append.mp hmem with hmem | hmem
      · obtain ⟨x, hx⟩ := hlive a ha
        exact hnew hmem hx
      · exact (h.apart a ha).2 hmem
  | child entry lower =>
    have hroutines : routinesOf (qs ++ rest) = routinesOf qs ++ routinesOf rest :=
      List.filterMap_append
    obtain ⟨hnot, hnodup⟩ := List.nodup_cons.mp h.nodup
    refine ⟨qs ++ rest, queue, ?_, .child entry (lower.queue hadded), ?_,
      ⟨hqueued, h.ground.calm, h.ground.place, hwaits⟩, ?_⟩
    · rw [hstack, List.append_assoc]
    · rw [hroutines, List.nodup_cons, List.mem_append, not_or, List.nodup_append]
      refine ⟨⟨?_, hnot⟩, hst.distinct, hnodup, ?_⟩
      · intro hmem
        obtain ⟨x, hx⟩ := hlive id (List.mem_cons_self ..)
        exact hnew (mem_stack_of_routinesOf hmem) hx
      · rintro a ha _ hmem rfl
        obtain ⟨x, hx⟩ := hlive a (List.mem_cons_of_mem _ hmem)
        exact hnew (mem_stack_of_routinesOf ha) hx
    · intro a ha
      rw [hroutines] at ha
      rcases List.mem_cons.mp ha with rfl | ha
      · exact h.apart a (List.mem_cons_self ..)
      · rcases List.mem_append.mp ha with ha | ha
        · have ha := mem_stack_of_routinesOf ha
          refine ⟨?_, ?_⟩
          · rintro rfl
            obtain ⟨_, _, _, hP⟩ := h.ground.waits
            exact hnew ha hP
          · intro hmem
            obtain ⟨_, _, _, heq, hfound⟩ := h.ground.queued _ hmem
            cases heq
            exact hnew ha hfound
        · exact h.apart a (List.mem_cons_of_mem _ ha)

/-! ### Finishing -/

/-- Entries that stay, for all that a routine without children is taken out. -/
theorem Ground.concluded (h : Ground site s queue) (hs : s.routines.Sound) {x : Routine C}
    (hid : s.routines.find? id = some x) (hchildren : x.children = []) (hP : id ≠ site.P)
    (hqueue : .routine id ∉ queue) (script : Script C) (o : Outcome Value) :
    Ground site (s.conclude id script o) queue := by
  obtain ⟨-, -, -, -, hfind⟩ := conclude_childless_spec hs hid hchildren script o
  refine h.update ?_ ?_
  · intro a ha y hy _ hnil
    have hne : a ≠ id := by
      rintro rfl
      exact hqueue ha
    rw [hfind, if_neg hne, hy, Option.map_some, hnil]
    cases y
    cases hnil
    split <;> rfl
  · intro y hy
    refine ⟨y.parent, if x.parent = some site.P then y.children.erase id else y.children, ?_⟩
    rw [hfind, if_neg hP.symm, hy, Option.map_some]

/-- A routine above `X` finishes. -/
theorem Stepped.concluded (h : Stepped site s id rest queue) (hl : Linked s.routines)
    (hne : rest ≠ []) (script : Script C) (o : Outcome Value) :
    ∃ q, Standing site (s.conclude id script o) q rest queue ∧
      (s.conclude id script o).register = o := by
  have hstepping := h.stepping
  have hnodup := h.nodup
  have hapart := h.apart
  cases hstepping with
  | bottom => exact absurd rfl hne
  | @child _ q origin _ entry lower =>
    have hid := hapart id (List.mem_cons_self ..)
    obtain ⟨hstack, hregister, -, -, hfind⟩ :=
      conclude_childless_spec hl.sound entry rfl script o
    obtain ⟨hnotin, hnodup⟩ := List.nodup_cons.mp hnodup
    refine ⟨q, ⟨hstack.trans h.stack, ?_, hnodup,
      h.ground.concluded hl.sound entry rfl hid.1 hid.2 script o, ?_⟩, hregister⟩
    · refine lower.under hnodup ?_ ?_
      · intro a ha hneq
        have hneid : a ≠ id := by
          rintro rfl
          exact hnotin ha
        have hnotq : ¬ some q = some a := fun heq => hneq (Option.some.inj heq).symm
        rw [hfind, if_neg hneid]
        simp only [if_neg hnotq]
        cases s.routines.find? a <;> rfl
      · intro x base hx hbase
        have hneid : q ≠ id := by
          rintro rfl
          exact hnotin lower.top_mem
        have hnotbase : id ∉ base := by
          have hchildren := hl.nodup hx
          rw [hbase, Option.toList_some] at hchildren
          intro hmem
          exact (List.nodup_append.mp hchildren).2.2 id hmem id (List.mem_singleton.mpr rfl) rfl
        rw [hfind, if_neg hneid, hx, Option.map_some, if_pos rfl, hbase, Option.toList_some,
          List.erase_append_right _ hnotbase, List.erase_cons_head, Option.toList_none]
    · exact fun a ha => hapart a (List.mem_cons_of_mem _ ha)

/-! ### What happens beside a strand -/

/-- What is on the stack has been left alone. At most, a routine there has lost
    a parent that nothing anchored. -/
structure Undisturbed (s t : Scheduler C) : Prop where
  stack : t.stack = s.stack
  keeps : ∀ a x, s.routines.find? a = some x → .routine a ∈ s.stack →
    t.routines.find? a = some x ∨
      (t.routines.find? a = some { x with parent := none } ∧
        ∀ q, x.parent = some q → ¬ Anchored s q)

/-- A sweep leaves alone what is on the stack. -/
theorem Pruned.undisturbed (h : Pruned s t) : Undisturbed s t where
  stack := h.shrunk.work.stack
  keeps a x hx hon := h.keeps a x (.onStack hx (List.contains_iff_mem.mpr hon)) hx

theorem Ground.undisturbed (h : Ground site s queue) (hst : Undisturbed s t)
    {work : List StackEntry} (hstack : s.stack = work ++ (queue ++ site.below)) :
    Ground site t queue := by
  refine h.update ?_ ?_
  · intro a ha x hx hnone _
    have hon : .routine a ∈ s.stack := by
      rw [hstack]
      exact List.mem_append_right _ (List.mem_append_left _ ha)
    rcases hst.keeps a x hx hon with hx' | ⟨hx', -⟩
    · exact hx'
    · rw [hx', ← hnone]
  · intro x hx
    have hon : .routine site.P ∈ s.stack := by
      rw [hstack]
      exact List.mem_append_right _ (List.mem_append_right _ h.place)
    rcases hst.keeps _ x hx hon with hx' | ⟨hx', -⟩
    · exact ⟨x.parent, x.children, hx'⟩
    · exact ⟨none, x.children, hx'⟩

/-- A chain stays: the parents in it are on the stack. -/
theorem Undisturbed.chain {above : Option RoutineId}
    (h : Chain s.routines site.X site.kids above top work) (hst : Undisturbed s t)
    (hon : ∀ a ∈ routinesOf work, .routine a ∈ s.stack) :
    Chain t.routines site.X site.kids above top work := by
  induction h with
  | bottom entry =>
    rcases hst.keeps _ _ entry (hon _ (List.mem_cons_self ..)) with hx | ⟨hx, -⟩
    · exact .bottom hx
    · exact .bottom hx
  | boundary _ ih => exact .boundary (ih hon)
  | queued entry _ ih =>
    have hlower := ih fun a ha => hon a (List.mem_cons_of_mem _ ha)
    rcases hst.keeps _ _ entry (hon _ (List.mem_cons_self ..)) with hx | ⟨hx, -⟩
    · exact .queued hx hlower
    · exact .queued hx hlower
  | child entry lower ih =>
    have hlower := ih fun a ha => hon a (List.mem_cons_of_mem _ ha)
    rcases hst.keeps _ _ entry (hon _ (List.mem_cons_self ..)) with hx | ⟨-, hnot⟩
    · exact .child hx hlower
    · obtain ⟨x, hx, -⟩ := lower.live _ lower.top_mem
      have hq := hon _ (List.mem_cons_of_mem _ lower.top_mem)
      exact absurd (.onStack hx (List.contains_iff_mem.mpr hq)) (hnot _ rfl)

theorem Standing.undisturbed (h : Standing site s top work queue) (hst : Undisturbed s t) :
    Standing site t top work queue where
  stack := hst.stack.trans h.stack
  chain := hst.chain h.chain fun a ha => by
    rw [h.stack]
    exact List.mem_append_left _ (mem_stack_of_routinesOf ha)
  nodup := h.nodup
  ground := h.ground.undisturbed hst h.stack
  apart := h.apart

end Scheduler

/-- A step that is done, or asks for a reset or a splice. -/
def Step.continues : Step C → Bool
  | .done _ => true
  | .yield (.reset _) => true
  | .yield (.splice _) => true
  | .yield _ => false

/-- An event that is neither about `P` nor the end of `X`. -/
def Site.Aside (site : Site C) : PassEvent C → Prop
  | .resumed id _ _ => id ≠ site.P
  | .finished id _ | .exiting id _ | .exited id _ => id ≠ site.P ∧ id ≠ site.X

instance (site : Site C) : (e : PassEvent C) → Decidable (site.Aside e)
  | .resumed _ _ _ => inferInstanceAs (Decidable (¬ _ = _))
  | .finished _ _ | .exiting _ _ | .exited _ _ => inferInstanceAs (Decidable (_ ∧ _))

theorem Site.Aside.id_ne {site : Site C} {e : PassEvent C} (h : site.Aside e) :
    e.id ≠ site.P := by
  cases e with
  | resumed id script input => exact h
  | finished id o | exiting id script | exited id o => exact h.1

namespace Machine

open Scheduler

variable {R : Type}

/-! ### What the program answers -/

section Calls

variable (B : Behavior C R) (p : Nat) (K : List (Frame C R))

/-- The step of a routine of the strand is done, or asks for a reset or a
    splice. It may have re-entered meanwhile; `site.reenters` says whether
    steps of `X` may, too. -/
def StepsReturn (site : Site C) (m : Machine C R) : Prop :=
  ∀ script input id s rest queue, m.focus = .advance script input →
    m.control = .stepping p id :: .pass p :: K → m.scheduler? p = some s →
    Stepped site s id rest queue →
    AnsweredBy B p
      (fun s t => ∃ qs, Reentered qs s t ∧ (qs = [] ∨ id ≠ site.X ∨ site.reenters)) m
      fun f => ∃ step script', f = .release [] (.give (.stepped step script')) ∧
        script'.isUser = true ∧ step.continues = true

/-- A block of the strand builds a script, and leaves the scheduler alone. So
    does the block that the strand comes from, if `P` has yielded one. -/
def BlocksReturn (site : Site C) (m : Machine C R) : Prop :=
  ∀ block id origin s, m.focus = .release [] (.begin block .begin) →
    m.control = .building p id origin :: .pass p :: K → m.scheduler? p = some s →
    (id = site.P ∨ ∃ work queue, Standing site s id work queue) →
    Answered B p m fun f => ∃ a, f = .release [] (.give a)

/-- What is re-entered on the strand comes to its end there, and leaves alone
    what is beneath. -/
def ReentriesReturn (site : Site C) (m : Machine C R) : Prop :=
  ∀ k v input id s top work queue, m.focus = .advance (.reentry k (some v)) input →
    m.control = .stepping p id :: .pass p :: K → m.scheduler? p = some s →
    Standing site s top work queue →
    ∃ evs n t, Reaches B p m evs n ∧ (∀ e ∈ evs, site.Aside e) ∧ AtHead p K t n ∧
      Undisturbed s t

/-- The program keeps to resets and splices while it is about the strand. -/
structure Orderly (site : Site C) (m : Machine C R) : Prop where
  reach : Reachable B m
  room : Roomy B p m
  steps : During B p K (fun evs => ∀ e ∈ evs, site.Aside e) (StepsReturn B p K site) m
  blocks : During B p K (fun evs => ∀ e ∈ evs, site.Aside e) (BlocksReturn B p K site) m
  reentries : During B p K (fun evs => ∀ e ∈ evs, site.Aside e) (ReentriesReturn B p K site) m
  drops : During B p K (fun evs => ∀ e ∈ evs, e.id ≠ site.P) (DropsReturn B p) m

end Calls

variable {B : Behavior C R} {p : Nat} {K : List (Frame C R)} {site : Site C}
  {s : Scheduler C} {m n : Machine C R} {top id : RoutineId} {work rest queue : List StackEntry}
  {evs : List (PassEvent C)}

theorem Orderly.later (h : Orderly B p K site m) (hr : Reaches B p m evs n)
    (hevs : ∀ e ∈ evs, site.Aside e) : Orderly B p K site n := by
  have happ : ∀ evs' : List (PassEvent C), (∀ e ∈ evs', site.Aside e) →
      ∀ e ∈ evs ++ evs', site.Aside e := by
    intro evs' hevs' e he
    rcases List.mem_append.mp he with he | he
    · exact hevs e he
    · exact hevs' e he
  refine ⟨h.reach.later hr.later, h.room.later hr, (h.steps.later hr).weaken happ,
    (h.blocks.later hr).weaken happ, (h.reentries.later hr).weaken happ,
    (h.drops.later hr).weaken ?_⟩
  intro evs' hevs' e he
  rcases List.mem_append.mp he with he | he
  · exact (hevs e he).id_ne
  · exact hevs' e he

theorem Orderly.quietly (h : Orderly B p K site m) (hr : Reaches B p m [] n) :
    Orderly B p K site n :=
  h.later hr (List.forall_mem_nil _)

theorem Orderly.drop (h : Orderly B p K site m) :
    During B p K (· = []) (DropsReturn B p) m :=
  h.drops.weaken (by rintro _ rfl; exact List.forall_mem_nil _)

theorem Orderly.linked (h : Orderly B p K site m) (hs : m.scheduler? p = some s) :
    Linked s.routines :=
  h.reach.linked hs (h.room [] m s (.refl m) hs)

/-! ### Turns of a strand -/

/-- A sweep leaves a strand standing. -/
theorem Orderly.swept {hs : List Handle} (h : Orderly B p K site m)
    (hat : At p K [.sweeping p] (.release hs (.give .nothing)) s m)
    (hstand : Standing site s top work queue) :
    ∃ n s', Reaches B p m [] n ∧ AtHead p K s' n ∧ Standing site s' top work queue ∧
      s'.register = s.register := by
  obtain ⟨n, s', hr, hhead, hpruned⟩ := hat.swept (h.linked hat.scheduler) h.drop
  exact ⟨n, s', hr, hhead, hstand.undisturbed hpruned.undisturbed, hpruned.shrunk.work.register⟩

/-- A child is spawned on a strand, and the pass is back at its head. -/
theorem Orderly.spawned {hs : List Handle} {origin : Origin} {script : Script C}
    (h : Orderly B p K site m) (hl : Linked s.routines)
    (hat : At p K [.sweeping p] (.release hs (.give .nothing))
      { s.scheduleChild origin script top with reports := [] } m)
    (hstand : Standing site s top work queue) :
    ∃ n s' top', Reaches B p m [] n ∧ AtHead p K s' n ∧
      Standing site s' top' (.routine top' :: work) queue := by
  have hroom : (s.scheduleChild origin script top).routines.slots.size ≤ 2 ^ 32 :=
    h.room [] m { s.scheduleChild origin script top with reports := [] } (.refl m) hat.scheduler
  have hspawned := (hstand.spawned hl hroom).congr
    (t := { s.scheduleChild origin script top with reports := [] }) rfl rfl
  obtain ⟨n, s', hr, hhead, hstand', -⟩ := h.swept hat hspawned
  exact ⟨n, s', _, hr, hhead, hstand'⟩

/-- The first half of a turn: the topmost routine is stepped, unless there was
    a re-entry above it. -/
theorem Orderly.stepped (h : Orderly B p K site m) (hat : AtHead p K s m)
    (hstand : Standing site s top work queue) :
    ∃ evs n s', Reaches B p (m.step B) evs n ∧ (∀ e ∈ evs, site.Aside e) ∧
      ((∃ work', AtHead p K s' n ∧ Standing site s' top work' queue) ∨
        ∃ id rest queue' step script,
          At p K [.stepping p id] (.release [] (.give (.stepped step script))) s' n ∧
          Stepped site s' id rest queue' ∧ script.isUser = true ∧ step.continues = true) := by
  obtain ⟨id, script, s₁, rest, hpick, hid, hcase⟩ := hstand.picked
  have hfed := hat.pick (B := B) hpick
  have hr := (Reaches.refl (B := B) (p := p) m).unseen hat.event?_head
  have hloop := hfed.atLoop (by simp [Frame.ofLoop])
  rcases hcase with ⟨k, v, rfl, hstand'⟩ | hstepped
  · have hstand' := hstand'.congr (t := { s₁ with register := .unit, reports := [] }) rfl rfl
    obtain ⟨evs, n, t, hr', hevs, hhead, hst⟩ := h.reentries [] _ hr (List.forall_mem_nil _) hloop
      k v _ id _ top rest queue hfed.focus hfed.control hfed.scheduler hstand'
    exact ⟨evs, n, t, hr', hevs, Or.inl ⟨rest, hhead, hstand'.undisturbed hst⟩⟩
  · have hstepped : Stepped site { s₁ with register := .unit, reports := [] } id rest queue :=
      ⟨hstepped.stack, hstepped.stepping, hstepped.nodup,
        hstepped.ground.same (fun _ _ => rfl) rfl, hstepped.apart⟩
    have hcall := h.steps [] _ hr (List.forall_mem_nil _) hloop script _ id _ rest queue hfed.focus hfed.control
      hfed.scheduler hstepped
    obtain ⟨n, focus, s', hr', hat', ⟨step, script', rfl, huser, hcontinues⟩, qs, hqs, hwho⟩ :=
      hfed.answered hcall
    obtain ⟨rest', queue', hstepped'⟩ := hstepped.reentered hqs hwho
    refine ⟨_, n, s', hr', ?_, Or.inr ⟨id, rest', queue', step, script', hat', hstepped', huser,
      hcontinues⟩⟩
    intro e he
    simp only [event?, hfed.focus, hfed.control, List.cons_append, Option.mem_toList] at he
    split at he
    · cases he
      exact hid
    · cases he

/-- The second half: unless `X` is done, the strand stands again. -/
theorem Orderly.turned {step : Step C} {script : Script C} (h : Orderly B p K site m)
    (hat : At p K [.stepping p id] (.release [] (.give (.stepped step script))) s m)
    (hstepped : Stepped site s id rest queue) (hcontinues : step.continues = true)
    (hmore : rest = [] → ∀ o, step ≠ .done o) :
    ∃ evs n s' top' work', Reaches B p m evs n ∧ (∀ e ∈ evs, site.Aside e) ∧ AtHead p K s' n ∧
      Standing site s' top' work' queue := by
  have hid := (hstepped.apart id (List.mem_cons_self ..)).1
  cases step with
  | done o =>
    have hne : rest ≠ [] := fun hnil => hmore hnil o rfl
    have hX : id ≠ site.X := by
      rintro rfl
      cases hstepped.stepping with
      | bottom => exact hne rfl
      | child entry lower => exact (List.nodup_cons.mp hstepped.nodup).1 lower.bottom_mem
    have hfinish : Finishes p K id o s m := Or.inl ⟨script, hat⟩
    obtain ⟨script', hsweep⟩ := hfinish.concludes (B := B)
    have hone : ∀ e ∈ (m.event? p).toList, site.Aside e := by
      intro e he
      simp only [event?, hat.focus, hat.control, List.cons_append, Option.mem_toList] at he
      split at he
      · cases he
        exact ⟨hid, hX⟩
      · cases he
    have hr := (Reaches.refl (B := B) (p := p) m).move
    rw [List.nil_append] at hr
    obtain ⟨q, hstand, -⟩ := hstepped.concluded (h.linked hat.scheduler) hne script' o
    have hstand := hstand.congr (t := { s.conclude id script' o with reports := [] }) rfl rfl
    obtain ⟨n, s', hr', hhead, hstand', -⟩ := (h.later hr hone).swept hsweep hstand
    exact ⟨_, n, s', q, rest, hr.quietly hr', hone, hhead, hstand'⟩
  | yield i =>
    have hquiet : m.event? p = none := by simp [event?, hat.focus, hat.control]
    have hr := (Reaches.refl (B := B) (p := p) m).unseen hquiet
    have hord := h.quietly hr
    have hshelved := hstepped.shelved script
    cases i with
    | shift handler => cases hcontinues
    | suspend => cases hcontinues
    | await c => cases hcontinues
    | splice nested =>
      have hsweep := hat.yields_splice (B := B)
      have hl : Linked ({ s.shelve id script with reports := [] } : Scheduler C).routines := by
        obtain ⟨x, hx, -⟩ := hstepped.stepping.entry
        rw [shelve_of_live hx]
        exact (h.linked hat.scheduler).modify id (fun _ => rfl) fun _ => rfl
      obtain ⟨n, s', top', hr', hhead, hstand⟩ :=
        hord.spawned hl hsweep (hshelved.congr rfl rfl)
      exact ⟨[], n, s', top', _, hr.quietly hr', List.forall_mem_nil _, hhead, hstand⟩
    | reset block =>
      have hbuilding := hat.yields_reset (B := B)
      have hstand := hshelved.bounded.congr
        (t := { (s.shelve id script).push .boundary with reports := [] }) rfl rfl
      have hcall := hord.blocks [] _ (.refl _) (List.forall_mem_nil _) (hbuilding.atLoop (by simp [Frame.ofLoop]))
        block id .reset _ hbuilding.focus hbuilding.control hbuilding.scheduler
        (Or.inr ⟨_, _, hstand⟩)
      obtain ⟨n₁, focus, t, hr₁, hat₁, ⟨a, rfl⟩, hspared⟩ := hbuilding.answered hcall
      rw [show event? p _ = none by simp [event?, hbuilding.focus, hbuilding.control]] at hr₁
      have hr₁ := hr.quietly hr₁
      have hstand := hstand.spared hspared
      have hr₂ := hr₁.unseen (by simp [event?, hat₁.focus, hat₁.control])
      have hord₁ := h.quietly hr₁
      obtain ⟨n, s', top', hr', hhead, hstand'⟩ :=
        (h.quietly hr₂).spawned (hord₁.linked hat₁.scheduler) hat₁.builds hstand
      exact ⟨[], n, s', top', _, hr₂.quietly hr', List.forall_mem_nil _, hhead, hstand'⟩

/-- The first event that is not aside is the end of `X`: it is done, and has
    nothing above it. -/
theorem Orderly.first_about {j : Nat} {e : PassEvent C} (h : Orderly B p K site m)
    (hat : AtHead p K s m) (hstand : Standing site s top work queue)
    (hbefore : ∀ e ∈ trail B p j m, site.Aside e) (he : (after B j m).event? p = some e)
    (hnot : ¬ site.Aside e) :
    ∃ o script s' qs, e = .finished site.X o ∧
      At p K [.stepping p site.X] (.release [] (.give (.stepped (.done o) script))) s'
        (after B j m) ∧
      Stepped site s' site.X [] qs := by
  induction j using Nat.strongRecOn generalizing m s top work queue with
  | _ j ih =>
    cases j with
    | zero =>
      rw [show after B 0 m = m from rfl, hat.event?_head] at he
      cases he
    | succ j =>
      have hr := (Reaches.refl (B := B) (p := p) m).unseen hat.event?_head
      obtain ⟨evs, n, s₁, hr₁, hevs, hcase⟩ := h.stepped hat hstand
      obtain ⟨i, hi, hafter, htrail⟩ := hr₁.pass hevs (j := j) he hnot
      have hord := (h.quietly hr).later hr₁ hevs
      have hbefore : ∀ e ∈ trail B p i n, site.Aside e := by
        intro e hmem
        refine hbefore e ?_
        rw [trail, hat.event?_head, htrail]
        exact List.mem_append_right _ (List.mem_append_right _ hmem)
      have hsame : after B i n = after B (j + 1) m := hafter
      rw [← hsame] at he ⊢
      rcases hcase with ⟨work', hhead, hstand'⟩ | ⟨id, rest, qs, step, script, hat₁, hstepped,
        huser, hcontinues⟩
      · exact ih i (Nat.lt_succ_of_le hi) hord hhead hstand' hbefore he
      by_cases hend : rest = [] ∧ ∃ o, step = .done o
      · obtain ⟨rfl, o, rfl⟩ := hend
        cases hstepped.stepping with
        | child entry lower => cases lower
        | bottom entry =>
          have hev : n.event? p = some (.finished site.X o) := by
            simp [event?, hat₁.focus, hat₁.control, huser]
          cases i with
          | zero =>
            rw [show after B 0 n = n from rfl, hev] at he
            cases he
            exact ⟨o, script, s₁, qs, rfl, hat₁, hstepped⟩
          | succ i =>
            have hmem := hbefore (.finished site.X o) (by
              rw [trail, hev]
              exact List.mem_append_left _ (List.mem_singleton.mpr rfl))
            exact absurd rfl hmem.2
      · obtain ⟨evs₂, n₂, s₂, top', work', hr₂, hevs₂, hhead, hstand'⟩ :=
          hord.turned hat₁ hstepped hcontinues fun hnil o ho => hend ⟨hnil, o, ho⟩
        obtain ⟨i₂, hi₂, hafter₂, htrail₂⟩ := hr₂.pass hevs₂ he hnot
        rw [← hafter₂] at he ⊢
        refine ih i₂ (Nat.lt_succ_of_le (Nat.le_trans hi₂ hi)) (hord.later hr₂ hevs₂) hhead hstand'
          ?_ he
        intro e hmem
        refine hbefore e ?_
        rw [htrail₂]
        exact List.mem_append_right _ hmem

end Machine

end Strand
