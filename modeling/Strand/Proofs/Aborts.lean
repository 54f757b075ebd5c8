import Strand.Proofs.Captives
import Strand.Proofs.Sequential

/-! # Aborts — a handler that drops its continuation

    A shift takes a chain of routines off the stack, and its handler is fed in their
    place. If nobody ever invokes the continuation, what the handler comes to goes to
    the routine beneath the nearest boundary.

    * **Chains** (`Link`, `Brood.hang`): routines of which each is the youngest child of
      the one before.
    * **Exits of a chain** (`SweptTo.chain`): when the routine above a chain finishes,
      the chain is made to exit from the top down, whatever the other descendants do
      after that.
    * **Abandoned chains**: until then they stay live under a live parent; without one
      they are freed (`LaterWhile.adrift`). -/

namespace Strand

variable {C : Type}

/-! ### Chains -/

/-- A routine of a chain, with its script. `older` are its children but for the next
    routine of the chain, which is the youngest. -/
structure Link (C : Type) where
  id : RoutineId
  script : Script C
  older : Brood C

namespace Brood

/-- One more sibling, the youngest. -/
def snoc : Brood C → RoutineId → Script C → Brood C → Brood C
  | nil, id, script, children => cons id script children nil
  | cons a s inner later, id, script, children => cons a s inner (later.snoc id script children)

/-- The siblings `older`, with a chain hanging from the youngest one. -/
def hang (older : Brood C) : List (Link C) → Brood C
  | [] => older
  | l :: ls => older.snoc l.id l.script (hang l.older ls)

theorem mem_ids_snoc {b : Brood C} {id : RoutineId} {script : Script C} {children : Brood C}
    {a : RoutineId} : a ∈ (b.snoc id script children).ids ↔ a ∈ b.ids ∨ a = id ∨ a ∈ children.ids := by
  induction b with
  | nil => simp [snoc, ids]
  | cons c s inner later _ ih =>
    simp only [snoc, ids, List.mem_cons, List.mem_append, ih]
    tauto

theorem ofBrood_snoc (b : Brood C) (id : RoutineId) (script : Script C) (children : Brood C) :
    SweepItem.ofBrood (b.snoc id script children) =
      .exit id.next script children :: SweepItem.ofBrood b := by
  induction b with
  | nil => rfl
  | cons a s inner later _ ih => rw [snoc, SweepItem.ofBrood, ih, SweepItem.ofBrood, List.cons_append]

theorem mem_ids_hang {older : Brood C} {ls : List (Link C)} {l : Link C} (h : l ∈ ls) :
    l.id ∈ (older.hang ls).ids := by
  induction ls generalizing older with
  | nil => cases h
  | cons l' ls ih =>
    rw [hang, mem_ids_snoc]
    rcases List.mem_cons.mp h with rfl | h
    · exact Or.inr (Or.inl rfl)
    · exact Or.inr (Or.inr (ih h))

/-- A routine is not among its own descendants. -/
theorem Stands.notMem {s : Scheduler C} {T : Brood C} {q : RoutineId} (h : T.Stands s.routines q)
    (hforest : s.Forest) : q ∉ T.ids := by
  have habove : ∀ {T : Brood C} {q : RoutineId}, T.Stands s.routines q →
      ∀ a ∈ T.ids, Relation.TransGen s.ParentOf q a := by
    intro T
    induction T with
    | nil => exact nofun
    | cons id script children later ihc ihl =>
      intro q ⟨⟨origin, hid⟩, hchildren, hlater⟩ a ha
      have hparent : s.ParentOf q id := ⟨_, hid, rfl⟩
      rcases List.mem_cons.mp ha with rfl | ha
      · exact .single hparent
      · rcases List.mem_append.mp ha with hmem | hmem
        · exact .head hparent (ihc hchildren a hmem)
        · exact ihl hlater a hmem
  intro hmem
  obtain ⟨x, hx⟩ := h.live q hmem
  exact (hforest q x hx).not_above_itself (habove h q hmem)

end Brood

namespace Scheduler

/-- Each of these routines is live and a child of the one before, and the parent of the
    first one is `top`. -/
def Descends (s : Scheduler C) : Option RoutineId → List RoutineId → Prop
  | _, [] => True
  | top, a :: as => (∃ x, s.routines.find? a = some x ∧ x.parent = top) ∧ s.Descends (some a) as

theorem Descends.parent {s : Scheduler C} {top : Option RoutineId} {as : List RoutineId}
    (h : s.Descends top as) {a q : RoutineId} {x : Routine C} (ha : a ∈ as)
    (hx : s.routines.find? a = some x) (hq : x.parent = some q) : top = some q ∨ q ∈ as := by
  induction as generalizing top with
  | nil => cases ha
  | cons b as ih =>
    obtain ⟨⟨y, hy, hparent⟩, hbelow⟩ := h
    rcases List.mem_cons.mp ha with rfl | ha
    · rw [hy] at hx
      cases hx
      exact Or.inl (hparent.symm.trans hq)
    · rcases ih hbelow ha with heq | hmem
      · exact Or.inr (Option.some.inj heq ▸ List.mem_cons_self ..)
      · exact Or.inr (List.mem_cons_of_mem _ hmem)

theorem Descends.congr {s t : Scheduler C} {top : Option RoutineId} {as : List RoutineId}
    (h : s.Descends top as) (hsame : ∀ a, t.routines.find? a = s.routines.find? a) :
    t.Descends top as := by
  induction as generalizing top with
  | nil => trivial
  | cons a as ih => exact ⟨hsame a ▸ h.1, ih h.2⟩

/-- Routines on top of a stack, above a boundary or nothing. -/
theorem above_of_routines (ids : List RoutineId) {bottom : List StackEntry}
    (h : bottom = [] ∨ ∃ rest, bottom = .boundary :: rest) :
    aboveBoundary (ids.map StackEntry.routine ++ bottom) = ids.map StackEntry.routine ∧
      belowBoundary (ids.map StackEntry.routine ++ bottom) = bottom.tail := by
  have hall : ∀ work ∈ ids.map StackEntry.routine, decide (work ≠ .boundary) = true := by
    intro work hwork
    obtain ⟨a, -, rfl⟩ := List.mem_map.mp hwork
    rfl
  rw [aboveBoundary, belowBoundary, List.takeWhile_append_of_pos hall,
    List.dropWhile_append_of_pos hall]
  rcases h with rfl | ⟨rest, rfl⟩
  · simp
  · simp

variable {strict : Prop} {slots base : RoutineId → Prop}
  {f : RoutineId → Routine C → Routine C} {s t : Scheduler C}

/-- What becomes of descendants of a routine from which parent links lead up to one that
    stays. -/
theorem Beside.descendant (h : Beside strict slots base f s t) {T : Brood C} {q : RoutineId}
    (hT : T.Stands s.routines q) (hq : Under slots base s q) (hout : ∀ a ∈ T.ids, ¬ slots a) :
    ∀ a ∈ T.ids, ∀ x, s.routines.find? a = some x →
      t.routines.find? a = some { f a x with parent := x.parent } := by
  induction T generalizing q with
  | nil => exact nofun
  | cons id script children later ihc ihl =>
    obtain ⟨⟨origin, hid⟩, hchildren, hlater⟩ := hT
    have hnot : ¬ slots id := hout id (List.mem_cons_self ..)
    have hunder : Under slots base s id := .hangs hid hnot rfl hq
    intro a ha x hx
    rcases List.mem_cons.mp ha with rfl | ha
    · obtain ⟨parent, hy, hsame⟩ := h.waiting a x hnot hunder hx
      rw [hid] at hx
      cases hx
      rw [hy, hsame q rfl hq]
    · rcases List.mem_append.mp ha with hmem | hmem
      · exact ihc hchildren hunder
          (fun b hb => hout b (List.mem_cons_of_mem _ (List.mem_append_left _ hb))) a hmem x hx
      · exact ihl hlater hq
          (fun b hb => hout b (List.mem_cons_of_mem _ (List.mem_append_right _ hb))) a hmem x hx

end Scheduler

/-! ### Exits of a chain -/

namespace Machine

open Scheduler

variable {R : Type} {B : Behavior C R} {p : Nat} {K : List (Frame C R)} {s t : Scheduler C}
  {m n : Machine C R} {items : List (SweepItem C)} {rest : List StackEntry}

theorem SweptTo.refl (h : AtHead p K s m) (haw : Awaits s items rest) :
    SweptTo B p K s m [] items rest s.register m s where
  reaches := .refl m
  head := h
  awaits := haw
  register := rfl
  slots := rfl

theorem itemsOf_eq (b : Brood C) (id : RoutineId) (o : Outcome Value) :
    ∃ items, itemsOf b id o = SweepItem.ofBrood b ++ items := by
  unfold itemsOf
  split
  · exact ⟨[], rfl⟩
  · exact ⟨_, rfl⟩

/-- The routines of a chain are made to exit from the top down, if that is what is on
    top of the stack. -/
theorem SweptTo.chain {older : Brood C} {links : List (Link C)} {items : List (SweepItem C)}
    (h : AtHead p K s m) (hreach : Reachable B m)
    (haw : Awaits s (SweepItem.ofBrood (older.hang links) ++ items) rest)
    (hroom : s.routines.slots.size ≤ 2 ^ 32)
    (hexits : During B p K (fun evs => evs.length < 2 * links.length ∧ ExitsOnly evs)
      (fun n => ∀ l ∈ links, ExitReturns B p (fun _ => True) l.script n) m)
    (hdrops : During B p K (fun evs => evs.length ≤ 2 * links.length ∧ ExitsOnly evs)
      (DropsReturn B p) m) :
    ∃ (calls : List (ExitCall C)) (n : Machine C R) (s' : Scheduler C)
        (items' : List (SweepItem C)) (o : Outcome Value),
      calls.map (fun c => (c.id, c.script)) = links.map (fun l => (l.id.next, l.script)) ∧
      SweptTo B p K s m (calls.flatMap ExitCall.events) items' rest o n s' ∧
      ∀ l ∈ links, s.routines.vacated l.id < s'.routines.vacated l.id := by
  induction links generalizing m s older items with
  | nil => exact ⟨[], m, s, _, _, rfl, .refl h haw, List.forall_mem_nil _⟩
  | cons l links ih =>
    rw [Brood.hang, Brood.ofBrood_snoc, List.cons_append] at haw
    have hpair : ∀ {evs : List (PassEvent C)}, evs.length ≤ 2 ∧ ExitsOnly evs →
        evs.length ≤ 2 * (l :: links).length ∧ ExitsOnly evs := by
      intro evs hevs
      rw [List.length_cons]
      exact ⟨by omega, hevs.2⟩
    have hfirst : During B p K (· = []) (ExitReturns B p (fun _ => True) l.script) m :=
      (hexits.weaken (by
        rintro _ rfl
        exact ⟨Nat.mul_pos Nat.two_pos (Nat.succ_pos _), List.forall_mem_nil _⟩)).imp
          fun n hn => hn l (List.mem_cons_self ..)
    obtain ⟨out, n₁, s₁, -, hswept, hless, -⟩ := SweptTo.exit h hreach haw hroom hfirst
      (hdrops.weaken fun _ => hpair) False.elim
    have hr := hswept.reaches
    have hevs : ∀ {evs : List (PassEvent C)}, ExitsOnly evs →
        ExitsOnly ([PassEvent.exiting l.id.next l.script, .exited l.id.next out] ++ evs) :=
      fun hevs => List.forall_mem_cons.mpr ⟨rfl, List.forall_mem_cons.mpr ⟨rfl, hevs⟩⟩
    -- the next routine of the chain is on top now, if there is one
    obtain ⟨items₁, hitems⟩ :=
      itemsOf_eq (Brood.hang l.older links) l.id.next (exitResult s.register out)
    have hwaits := hswept.awaits
    rw [hitems, List.append_assoc] at hwaits
    obtain ⟨calls, n, s', items', o, hcalls, hswept', hless'⟩ := ih hswept.head
      (hreach.later hr.later) hwaits (Nat.le_trans (Nat.le_of_eq hswept.slots) hroom)
      (((hexits.later hr).weaken fun evs hlt => by
        rw [List.length_append, List.length_cons]
        exact ⟨by simp only [List.length_cons, List.length_nil]; omega, hevs hlt.2⟩).imp
          fun n hn l' hl' => hn l' (List.mem_cons_of_mem _ hl'))
      ((hdrops.later hr).weaken fun evs hle => by
        rw [List.length_append, List.length_cons]
        exact ⟨by simp only [List.length_cons, List.length_nil]; omega, hevs hle.2⟩)
    refine ⟨⟨l.id.next, l.script, out⟩ :: calls, n, s', items', o, ?_, ?_, ?_⟩
    · rw [List.map_cons, hcalls, List.map_cons]
    · exact hswept.trans hswept'
    · rw [List.forall_mem_cons]
      refine ⟨?_, fun l' hl' => ?_⟩
      · exact Nat.lt_of_lt_of_le (hless l.id.next (List.mem_cons_self ..))
          (hswept'.vacated hswept.head.scheduler l.id)
      · exact Nat.lt_of_le_of_lt (hswept.vacated h.scheduler l'.id) (hless' l' hl')

/-- A routine finishes with a chain among its descendants, which is made to exit. -/
theorem Finishes.chain {P : RoutineId} {o : Outcome Value} {origin : Origin}
    {parent : Option RoutineId} {older : Brood C} {links : List (Link C)} (h : Finishes p K P o s m)
    (hreach : Reachable B m) (hroom : s.routines.slots.size ≤ 2 ^ 32)
    (hP : s.routines.find? P = some ⟨origin, none, parent, (older.hang links).roots⟩)
    (hT : (older.hang links).Stands s.routines P)
    (hexits : During B p K (fun evs => evs.length < 2 * links.length ∧ ExitsOnly evs)
      (fun n => ∀ l ∈ links, ExitReturns B p (fun _ => True) l.script n) (m.step B))
    (hdrops : During B p K (fun evs => evs.length ≤ 2 * links.length ∧ ExitsOnly evs)
      (DropsReturn B p) (m.step B)) :
    ∃ (calls : List (ExitCall C)) (n : Machine C R) (s' : Scheduler C),
      calls.map (fun c => (c.id, c.script)) = links.map (fun l => (l.id.next, l.script)) ∧
      Reaches B p (m.step B) (calls.flatMap ExitCall.events) n ∧ AtHead p K s' n ∧
      ∀ l ∈ links, s.routines.vacated l.id < s'.routines.vacated l.id := by
  have hlinked := hreach.linked h.scheduler hroom
  obtain ⟨hnodup, hparent⟩ := hT.tree hlinked hP rfl rfl
  have haw : Awaits s [] s.stack := ⟨rfl, List.forall_mem_nil _, List.nodup_nil⟩
  obtain ⟨n₁, s₁, hswept, -, -⟩ := h.swept hreach haw hroom hP rfl hT
    (by simpa using hnodup) (by simpa using hparent)
    (hdrops.weaken (by rintro _ rfl; exact ⟨Nat.zero_le _, List.forall_mem_nil _⟩)) False.elim
  have hlater : Later B m n₁ := Later.trans (.step .refl) hswept.reaches.later
  obtain ⟨items, hitems⟩ := itemsOf_eq (older.hang links) P o
  have hwaits := hswept.awaits
  rw [hitems, List.append_nil] at hwaits
  obtain ⟨calls, n, s', _, _, hcalls, hswept', hless⟩ := SweptTo.chain hswept.head
    (hreach.later hlater) hwaits (Nat.le_trans (Nat.le_of_eq hswept.slots) hroom)
    (hexits.later hswept.reaches) (hdrops.later hswept.reaches)
  refine ⟨calls, n, s', hcalls, hswept.reaches.trans hswept'.reaches, hswept'.head, fun l hl => ?_⟩
  exact Nat.lt_of_le_of_lt ((hlater.grows h.scheduler hswept.head.scheduler).vacated l.id)
    (hless l hl)

/-! ### The continuation and its captives -/

/-- Continuation `k` of scheduler `p` has been made of these routines, the outermost one
    first, and has not been invoked. -/
def Captures (p k : Nat) (ids : List RoutineId) (m : Machine C R) : Prop :=
  ∃ snapshot, m.snapshot? k = some snapshot ∧ snapshot.home = p ∧ snapshot.routines = some ids ∧
    snapshot.frames.length = ids.length

/-- What a continuation remembers is remembered nowhere else, if it is live, and is not on
    the stack. -/
theorem Captures.captive {k : Nat} {ids : List RoutineId} {a : RoutineId} {x : Routine C}
    (h : m.Captures p k ids) (hreach : Reachable B m) (hs : m.scheduler? p = some s)
    (hroom : ∀ a, s.routines.Ample a) (ha : a ∈ ids) (hx : s.routines.find? a = some x) :
    Captive k a ⟨m.stage p, s, (m.realm p).captures⟩ := by
  obtain ⟨snapshot, hk, hhome, hids, -⟩ := h
  obtain ⟨lost, hposted⟩ := hreach.posted hs hroom
  have hmine : originals ((m.realm p).captures k) = ids := by
    have hfound : (m.realm p).captures k = some snapshot :=
      Option.filter_eq_some_iff.mpr ⟨hk, by simpa using hhome⟩
    rw [originals, hfound, Option.bind_some, hids]
    rfl
  have hcount : ∀ n, k < n →
      (Strand.remembered (Function.update (m.realm p).captures k none) n).count a + ids.count a =
        (Strand.remembered (m.realm p).captures n).count a := by
    intro n hn
    have hsum := count_remembered_update (m.realm p).captures k none n a
    rw [if_pos hn, if_pos hn, hmine, show originals (none : Option (Snapshot C)) = [] from rfl,
      List.count_nil, Nat.add_zero] at hsum
    exact hsum
  have hpos : 0 < ids.count a := List.count_pos_iff.mpr ha
  have honce := fun n => count_posts (⟨m.stage p, s, (m.realm p).captures⟩ : Status C) n a ▸
    hposted.once a x hx n
  have hfirst := honce (k + 1)
  have hat := hcount (k + 1) (Nat.lt_succ_self k)
  refine ⟨Or.inl (Roster.contains_iff.mpr ⟨x, hx⟩), fun hmem => ?_, fun hmem => ?_, fun j hj hmem => ?_⟩
  · have hstack : 0 < (routinesOf s.stack).count a := List.count_pos_iff.mpr hmem
    simp only at hfirst
    omega
  · have hhanded : 0 < (m.stage p).handed.count a := List.count_pos_iff.mpr hmem
    simp only at hfirst
    omega
  · -- another continuation that remembers it would count once more
    have hlt : j < max (j + 1) (k + 1) := by omega
    have hsecond := honce (max (j + 1) (k + 1))
    have hat' := hcount (max (j + 1) (k + 1)) (by omega)
    have hother := count_remembered_update (Function.update (m.realm p).captures k none) j none
      (max (j + 1) (k + 1)) a
    rw [if_pos hlt, if_pos hlt, Function.update_of_ne hj, show originals none = [] from rfl,
      List.count_nil] at hother
    have hmine : 0 < (originals ((m.realm p).captures j)).count a := List.count_pos_iff.mpr hmem
    simp only at hsecond
    omega

section Plays

variable {π : Conduct C} {N : Nat} {strict : Prop} {m₀ : Machine C R} {evs : List (PassEvent C)}
  {handler : C} {script later : Script C} {X : RoutineId} {x : Routine C} {fs : List RoutineId}

/-- A routine shifts, and its handler builds a script, which is fed unit in a child of that
    routine. -/
theorem Plays.handles (h : Plays B p K π N strict m₀) (hr : Reaches B p m₀ evs m)
    (hN : (fedIn evs).length ≤ N)
    (hat : At p K [.stepping p X] (.release [] (.give (.stepped (.yield (.shift handler)) later)))
      s m)
    (hX : s.routines.find? X = some x) (hqueued : Queued s X (aboveBoundary s.stack))
    (hstack : aboveBoundary s.stack = (fs.map StackEntry.routine).reverse)
    (hbuilds : ∀ n k, Reaches B p m [] n → n.Calls p (.pass p :: K) X handler k →
      Answered B p n (Focus.builds (n.catches p) script)) :
    ∃ n k t, Reaches B p m [] n ∧ n.Calls p (.pass p :: K) X handler k ∧
      n.Captures p k (fs ++ [X]) ∧ n.scheduler? p = some t ∧ t.stack = belowBoundary s.stack ∧
      (∀ a, t.routines.find? a = (s.shelve X later).routines.find? a) ∧
      ∃ n' t' H parent, Reaches B p n [] n' ∧ At p K [.stepping p H] (.advance script .unit) t' n' ∧
        t'.stack = t.stack ∧ t'.routines.find? H = some ⟨.shift, none, parent, []⟩ ∧
        (∀ a, a.index = H.index → t.routines.find? a = none) ∧
        Scheduler.Beside strict (InSlots [H]) (Apart (InSlots [H]) t.stack) (joined H X) t t' := by
  obtain ⟨n, k, frames, copies, t, hr₁, hcalls, hs, hlength, hk, hplaces, -, hbelow, hentries⟩ :=
    h.captures hr hN hat hX hqueued
  have hids : frames.map Lifted.id = fs ++ [X] := by
    have hinj : Function.Injective StackEntry.routine := fun _ _ heq => StackEntry.routine.inj heq
    refine List.map_injective_iff.mpr hinj ?_
    rw [← List.reverse_inj, hplaces, hstack, List.map_append, List.reverse_append]
    rfl
  have hentries' : ∀ a, t.routines.find? a = (s.shelve X later).routines.find? a := fun a =>
    (hentries a).trans (find?_shelve hX later a).symm
  refine ⟨n, k, t, hr₁, hcalls, ⟨_, hk, rfl, congrArg some hids, ?_⟩, hs, hbelow, hentries', ?_⟩
  · rw [← hids]
    simp [Snapshot.of, hlength]
  have hat₁ : At p K [.building p X .shift] (.release [] (.begin handler (.handle k p))) t n :=
    ⟨hcalls.control, hcalls.focus, hs⟩
  obtain ⟨n₂, focus, t₂, hr₂, hat₂, hok, hspared⟩ := hat₁.answered (hbuilds n k hr₁ hcalls)
  rw [show event? p _ = none by simp [event?, hat₁.focus, hat₁.control]] at hr₂
  have hcatches : n.catches p = t₂.settings.catchPanics := by
    rw [catches, hs]
    obtain ⟨_, _, _, rfl⟩ := hspared
    rfl
  rw [hcatches] at hok
  obtain ⟨hquiet, hsweep⟩ := hat₂.built (B := B) hok
  have hr₃ := hr₂.unseen hquiet
  have hr₁₃ := hr.quietly (hr₁.quietly hr₃)
  have hroutines : t₂.routines = t.routines := hspared.routines
  have hstack₂ : t₂.stack = t.stack := by
    obtain ⟨_, _, _, rfl⟩ := hspared
    rfl
  have hX₂ : t₂.routines.find? X = some { x with script := some later } := by
    rw [hroutines, hentries, hX, Option.map_some, if_pos rfl]
  have hroom : (t₂.scheduleChild .shift script X).routines.slots.size ≤ 2 ^ 32 := by
    have hroom := h.room _ _ _ hr₁₃ hsweep.scheduler
    exact hroom
  obtain ⟨n', t', parent, hr₄, hfed, hstack', hH, -, hvacant, hbeside⟩ := hsweep.feeds_child
    (h.reach.later hr₁₃.later) (hroutines ▸ h.linked (hr.quietly hr₁) hs) hroom hX₂
    (quietly_of_fed h.drops hr₁₃ hN) fun hstrict => quietly_of_fed (h.still hstrict) hr₁₃ hN
  rw [hstack₂] at hbeside
  refine ⟨n', t', t₂.fresh, parent, hr₃.quietly hr₄, hfed, hstack'.trans hstack₂, hH, ?_, ?_⟩
  · rw [← hroutines]
    exact hvacant
  · exact (Scheduler.Beside.of_same hroutines).comp hbeside fun _ _ _ _ => rfl

/-- A routine without descendants makes nobody exit. -/
theorem childless_exits {good : Outcome Value → Prop} {φ : List (PassEvent C) → Prop} :
    During B p K φ (fun n => ∀ c ∈ (Brood.nil : Brood C).exits, ExitReturns B p good c.2 n) m :=
  fun _ _ _ _ _ _ hc => absurd hc List.not_mem_nil

/-- The handler is done, and what it comes to is fed to the routine that waits beneath the
    boundary. What has been captured hangs on that as before. -/
theorem Plays.feeds_beneath {H P : RoutineId} {T : Brood C} {parent : Option RoutineId}
    {y : Routine C} {stacked : Script C} {fed : List (Feed C)} {o : Outcome Value}
    (h : Plays B p K π N False m₀) (hr : Reaches B p m₀ evs m)
    (hN : (fedIn evs).length + fed.length ≤ N)
    (hrun : Runs π False (fedIn evs) script .unit fed o)
    (hat : At p K [.stepping p H] (.advance script .unit) t m) (hsame : t.stack = s.stack)
    (hstack : s.stack = .routine P :: rest)
    (hH : t.routines.find? H = some ⟨.shift, none, parent, []⟩)
    (hvacant : ∀ a, a.index = H.index → s.routines.find? a = none)
    (hspawned : Scheduler.Beside False (InSlots [H]) (Apart (InSlots [H]) s.stack) (joined H X) s t)
    (hT : T.Stands s.routines P) (hX : X ∈ T.ids) (hP : s.routines.find? P = some y)
    (hscript : y.script = some stacked) (hnot : P ∉ T.ids) :
    ∃ evs' n u parent', Reaches B p m evs' n ∧ fedIn evs' = fed ∧
      (∀ script input, .resumed P script input ∉ evs') ∧
      At p K [.stepping p P] (.advance stacked o) u n ∧
      u.routines.find? P = some ⟨y.origin, none, parent', y.children⟩ ∧ T.Stands u.routines P := by
  obtain ⟨evs₁, n₁, t₁, naps, hr₁, hshows, hfinish, hwork⟩ :=
    Runs.finishes hrun False.elim h hr rfl hN hat hH rfl False.elim
  obtain rfl : naps = [] := hwork.shifted.resolve_right id
  obtain ⟨parent₁, hH₁, -⟩ := hwork.entry _ hH rfl
  obtain ⟨j, hstack₁, hj⟩ := hwork.stack
  obtain rfl : j = 0 := hj.resolve_right id
  rw [List.replicate_zero, List.append_nil, hsame] at hstack₁
  have hfree : ∀ {a z}, s.routines.find? a = some z → ¬ InSlots [H] a := by
    intro a z hz hin
    rw [hvacant a (inSlots_singleton.mp hin).symm] at hz
    cases hz
  have hout : ∀ a ∈ T.ids, ¬ InSlots [H] a := fun a ha => (hT.live a ha).elim fun _ hz => hfree hz
  have hon : Apart (InSlots [H]) s.stack P := ⟨hstack ▸ List.mem_cons_self .., hfree hP⟩
  have hunder : Under (InSlots [H]) (Apart (InSlots [H]) s.stack) s P := .on hP hon
  -- while the handler is at work its parent is `X`
  have hworked : Scheduler.Beside False (InSlots [H]) (Apart (InSlots [H]) s.stack) (joined H X) s t₁ :=
    hspawned.comp (hwork.beside.mono (fun _ ha => ha) fun a _ _ ha => Or.inr (hsame ▸ ha.1))
      fun _ _ _ _ => rfl
  obtain ⟨x, hx⟩ := hT.live X hX
  have hparent : parent₁ = some X := by
    have hX₁ := hworked.descendant hT hunder hout X hX x hx
    obtain ⟨z, hz, hparent⟩ := (h.linked (hr.trans hr₁) hfinish.scheduler).child hX₁ (c := H)
      (by simp [joined])
    rw [hH₁] at hz
    cases hz
    exact hparent
  subst hparent
  have hN₁ : (fedIn (evs ++ evs₁)).length ≤ N := by
    rw [fedIn_append, hshows.fed, List.length_append]
    exact hN
  obtain ⟨evs₂, n₂, t₂, hr₂, hfed₂, -, hhead, hregister, hstack₂, hturned⟩ :=
    h.empties (T := .nil) (hr.trans hr₁) hN₁ hfinish hH₁ trivial childless_exits
  -- and then it is struck off again
  have hdone : Scheduler.Beside False (InSlots [H]) (Apart (InSlots [H]) s.stack)
      (fun a z => struck H (some X) a (joined H X a z)) s t₂ :=
    hworked.comp (hturned.beside.mono (fun _ ha => ha) fun a _ _ ha => ⟨hstack₁ ▸ ha.1, ha.2⟩)
      fun _ _ _ _ => rfl
  have hnew : H ∉ x.children := by
    intro hmem
    obtain ⟨z, hz⟩ := hT.live H (hT.child X hX x hx H hmem)
    rw [hvacant H rfl] at hz
    cases hz
  have hstays : ∀ a ∈ T.ids, t₂.routines.find? a = s.routines.find? a := by
    intro a ha
    obtain ⟨z, hz⟩ := hT.live a ha
    rw [hdone.descendant hT hunder hout a ha z hz, hz]
    by_cases haX : a = X
    · subst haX
      obtain rfl : x = z := Option.some.inj (hx.symm.trans hz)
      simp [struck, joined, List.erase_append_right _ hnew]
    · simp [struck, joined, haX, Ne.symm haX]
  have hPX : P ≠ X := fun heq => hnot (heq ▸ hX)
  obtain ⟨parent', hP₂, -⟩ := hdone.entry hon.2 hon hP
  have hP₂' : t₂.routines.find? P = some { y with parent := parent' } := by
    rw [hP₂]
    simp [struck, joined, hPX, Ne.symm hPX]
  obtain ⟨u, hr₃, hfed, -, hroutines⟩ := hhead.feeds (B := B) (j := 0)
    (hstack₂.trans (hstack₁.trans hstack)) hP₂' hscript
  rw [hregister] at hfed
  refine ⟨evs₁ ++ evs₂, _, u, parent', hr₁.trans (hr₂.quietly hr₃), ?_, ?_, hfed, ?_, ?_⟩
  · rw [fedIn_append, hshows.fed, hfed₂, List.append_nil]
  · intro script input hmem
    rcases List.mem_append.mp hmem with hmem | hmem
    · obtain ⟨z, hz⟩ := hspawned.stays P y hon hP
      refine hshows.waits P z script input hz (hsame ▸ hon.1) ?_ hmem
      rintro rfl
      exact hon.2 (.of_mem (List.mem_singleton_self _))
    · have := mem_fedIn hmem
      rw [hfed₂] at this
      cases this
  · rw [hroutines, Roster.find?_modify, if_pos rfl, hP₂']
    rfl
  · refine hT.congr fun a ha => ?_
    rw [hroutines, Roster.find?_modify, if_neg (by rintro rfl; exact hnot ha), hstays a ha]

/-- A routine finishes, and whatever hung on it still does. -/
theorem Plays.finishes_above {P : RoutineId} {T : Brood C} {origin : Origin}
    {parent : Option RoutineId} {input o : Outcome Value} {fed : List (Feed C)}
    (h : Plays B p K π N False m₀) (hr : Reaches B p m₀ evs m)
    (hN : (fedIn evs).length + fed.length ≤ N)
    (hrun : Runs π False (fedIn evs) script input fed o)
    (hat : At p K [.stepping p P] (.advance script input) s m)
    (hP : s.routines.find? P = some ⟨origin, none, parent, T.roots⟩) (hT : T.Stands s.routines P) :
    ∃ evs' n t parent', Reaches B p m evs' n ∧ fedIn evs' = fed ∧ Finishes p K P o t n ∧
      t.routines.find? P = some ⟨origin, none, parent', T.roots⟩ ∧ T.Stands t.routines P := by
  obtain ⟨evs', n, t, naps, hr', hshows, hfinish, hwork⟩ :=
    Runs.finishes hrun False.elim h hr rfl hN hat hP rfl False.elim
  obtain rfl : naps = [] := hwork.shifted.resolve_right id
  obtain ⟨parent', hP', -⟩ := hwork.entry _ hP rfl
  have hnodup := (hT.tree (h.linked hr hat.scheduler) hP rfl rfl).1
  have hout : ∀ a ∈ T.ids, ¬ InSlots [P] a := by
    intro a ha hin
    obtain ⟨z, hz⟩ := hT.live a ha
    obtain rfl := Roster.eq_of_index_eq hP hz (inSlots_singleton.mp hin)
    exact (List.nodup_cons.mp hnodup).1 ha
  refine ⟨evs', n, t, parent', hr', hshows.fed, hfinish, ?_, hT.congr fun a ha => ?_⟩
  · rw [hP']
    simp
  · obtain ⟨z, hz⟩ := hT.live a ha
    rw [hwork.beside.descendant hT (.on hP (Or.inl rfl)) hout a ha z hz, hz]

end Plays

/-- Who is live before and after is live in between. -/
theorem live_between {o : Machine C R} {u : Scheduler C} {a : RoutineId} {x y : Routine C}
    (h : Later B m n) (h' : Later B n o) (hs : m.scheduler? p = some s)
    (ht : n.scheduler? p = some t) (hu : o.scheduler? p = some u) (hx : s.routines.find? a = some x)
    (hy : u.routines.find? a = some y) (hroom : u.routines.Ample a) :
    ∃ z, t.routines.find? a = some z :=
  live_of_issued (h'.grows ht hu)
    ((h.edits hs ht).issued (Or.inl (Roster.contains_iff.mpr ⟨x, hx⟩))) hy hroom

/-- What a run reaches by machines that are all such that `Q`. -/
theorem Reaches.laterWhile {Q : Machine C R → Prop} {evs : List (PassEvent C)}
    (h : Reaches B p m evs n) (hQ : ∀ evs n, Reaches B p m evs n → Q n) : LaterWhile B Q m n := by
  obtain ⟨j, rfl, -⟩ := h
  exact laterWhile_after fun i _ => hQ _ _ ⟨i, rfl, rfl⟩

/-- Captured routines that hang on nobody else are adrift. -/
theorem Captures.adrift {k : Nat} {ids : List RoutineId} (h : m.Captures p k ids)
    (hreach : Reachable B m) (hs : m.scheduler? p = some s) (hroom : ∀ a, s.routines.Ample a)
    (hlive : ∀ a ∈ ids, ∃ x, s.routines.find? a = some x ∧ x.script ≠ none)
    (hdescends : s.Descends none ids) :
    Adrift k ids ⟨m.stage p, s, (m.realm p).captures⟩ := by
  have hcaptures := h
  obtain ⟨snapshot, hk, hhome, hids, -⟩ := h
  have hfound : (m.realm p).captures k = some snapshot :=
    Option.filter_eq_some_iff.mpr ⟨hk, by simpa using hhome⟩
  refine ⟨fun a ha => ?_, fun a ha r q hr hq => ?_, ?_⟩
  · obtain ⟨x, hx, -⟩ := hlive a ha
    exact hcaptures.captive hreach hs hroom ha hx
  · exact (hdescends.parent ha hr hq).resolve_left nofun
  · obtain ⟨focus, hlater⟩ := hreach
    have hacc := hlater.accounted hs hroom
    refine ⟨fun {a r} hr _ => ?_, fun {a r} hr hscript => ?_, hacc.forest, hacc.current,
      hacc.snapshots, hacc.lifted⟩
    · by_cases ha : a ∈ ids
      · exact Or.inl (Or.inr (Or.inr (Or.inl ⟨k, snapshot, ids, hfound, hids, ha⟩)))
      · exact Or.inr ha
    · refine Or.inr fun ha => ?_
      obtain ⟨x, hx, hx'⟩ := hlive a ha
      rw [hx] at hr
      cases hr
      exact hx' hscript

/-- A continuation is as deep as it has frames. -/
theorem depth_replies {k : Nat} {next : R} {ids : List RoutineId} (h : m.Captures p k ids)
    (hlater : LaterWhile B (Has k) m n) (hn : n.Has k)
    (hfocus : n.focus = .release [] (.act (.ask (.depth k) next))) :
    (n.step B).focus = .release [.continuation k]
      (.give (.reply (.outcome (.success (.int (Int64.ofNat ids.length)))))) := by
  obtain ⟨snapshot, hk, -, -, hlength⟩ := h
  obtain ⟨snapshot', hk'⟩ := hn
  have hframes := (hlater.frames hk hk').2.1
  have hfound : n.store.snapshots.find? k = some snapshot' := hk'
  simp only [step, hfocus, goOn, act, perform, push]
  simp only [hfound, Option.map_some, Option.getD_some, hframes, hlength]
  rfl

section Plays

variable {π : Conduct C} {N : Nat} {m₀ : Machine C R} {evs : List (PassEvent C)}
  {script : Script C}

/-- The handler is done, and nobody waits beneath it: the pass is to end. -/
theorem Plays.ends_alone {H : RoutineId} {parent : Option RoutineId} {fed : List (Feed C)}
    {o : Outcome Value} (h : Plays B p K π N False m₀) (hr : Reaches B p m₀ evs m)
    (hN : (fedIn evs).length + fed.length ≤ N)
    (hrun : Runs π False (fedIn evs) script .unit fed o)
    (hat : At p K [.stepping p H] (.advance script .unit) s m) (hstack : s.stack = [])
    (hH : s.routines.find? H = some ⟨.shift, none, parent, []⟩) :
    ∃ evs' n t, Reaches B p m evs' n ∧ fedIn evs' = fed ∧ Unforced evs' ∧ AtHead p K t n ∧
      t.register = o ∧ t.stack = [] ∧ t.Tidy := by
  obtain ⟨evs₁, n₁, t₁, naps, hr₁, hshows, hfinish, hwork⟩ :=
    Runs.finishes hrun False.elim h hr rfl hN hat hH rfl False.elim
  obtain rfl : naps = [] := hwork.shifted.resolve_right id
  obtain ⟨parent₁, hH₁, -⟩ := hwork.entry _ hH rfl
  obtain ⟨j, hstack₁, hj⟩ := hwork.stack
  obtain rfl : j = 0 := hj.resolve_right id
  rw [List.replicate_zero, List.append_nil, hstack] at hstack₁
  have hN₁ : (fedIn (evs ++ evs₁)).length ≤ N := by
    rw [fedIn_append, hshows.fed, List.length_append]
    exact hN
  obtain ⟨evs₂, n₂, t₂, hr₂, hfed₂, hunforced, hhead, hregister, hstack₂, hturned⟩ :=
    h.empties (T := .nil) (hr.trans hr₁) hN₁ hfinish hH₁ trivial childless_exits
  refine ⟨evs₁ ++ evs₂, n₂, t₂, hr₁.trans hr₂, ?_, ?_, hhead, hregister, hstack₂.trans hstack₁,
    hturned.tidy⟩
  · rw [fedIn_append, hshows.fed, hfed₂, List.append_nil]
  · intro e he
    rcases List.mem_append.mp he with he | he
    · exact hshows.unforced.resolve_left id e he
    · exact hunforced rfl e he

/-- A routine `X` shifts, and `fs` wait above a boundary or nothing, each for the next one
    and the last for `X`. The handler builds a script that comes to `o`, and nobody invokes
    the continuation `k`, which is as deep as there are routines. None of them is ever
    stepped again. If there is a boundary, the routine `P` beneath it is next fed `o`, and
    until that finishes all of them are live; then they are made to exit, from the top down.
    If there is none, evaluation replies `o`, nobody is made to exit, and all are freed. -/
theorem dropped_continuation_aborts {K : List (Frame C R)} {handler : C} {later : Script C}
    {X : RoutineId} {fs : List RoutineId} {bottom : List StackEntry} {fed : List (Feed C)}
    {o : Outcome Value} (hplays : Plays B p K π N False m)
    (hroom : ∀ evs n u, Reaches B p m evs n → n.scheduler? p = some u → ∀ a, u.routines.Ample a)
    (hat : At p K [.stepping p X] (.release [] (.give (.stepped (.yield (.shift handler)) later)))
      s m)
    (hX : s.routines.contains X = true) (hqueued : Queued s X (fs.map StackEntry.routine).reverse)
    (hstack : s.stack = (fs.map StackEntry.routine).reverse ++ bottom)
    (hbottom : bottom = [] ∨ ∃ rest, bottom = .boundary :: rest)
    (hbuilds : ∀ n k, Reaches B p m [] n → n.Calls p (.pass p :: K) X handler k →
      Answered B p n (Focus.builds (n.catches p) script))
    (hrun : Runs π False [] script .unit fed o) (hN : fed.length ≤ N) :
    ∃ n₀ k, Reaches B p m [] n₀ ∧ n₀.Calls p (.pass p :: K) X handler k ∧
      (∀ n next, LaterWhile B (Has k) n₀ n → n.Has k →
        n.focus = .release [] (.act (.ask (.depth k) next)) →
        (n.step B).focus = .release [.continuation k]
          (.give (.reply (.outcome (.success (.int (Int64.ofNat (fs.length + 1)))))))) ∧
      (∀ n u e, LaterWhile B (LetsLie k) n₀ n → n.scheduler? p = some u →
        (∀ a, u.routines.Ample a) → n.event? p = some e → e.id ∉ fs ++ [X]) ∧
      (∀ (P : RoutineId) (rest : List StackEntry) (older : Brood C) (links : List (Link C))
          (origin : Origin) (parent : Option RoutineId) (stacked : Script C),
        bottom = .boundary :: .routine P :: rest → links.map Link.id = fs ++ [X] →
        (s.shelve X later).routines.find? P =
          some ⟨origin, some stacked, parent, (older.hang links).roots⟩ →
        (older.hang links).Stands (s.shelve X later).routines P →
        ∃ evs n u, Reaches B p n₀ evs n ∧ fedIn evs = fed ∧
          (∀ script input, .resumed P script input ∉ evs) ∧
          At p K [.stepping p P] (.advance stacked o) u n ∧
          ∀ fed' o', Runs π False fed stacked o fed' o' → fed.length + fed'.length ≤ N →
            ∃ evs' n' v, Reaches B p n evs' n' ∧ fedIn evs' = fed' ∧ Finishes p K P o' v n' ∧
              (∀ evs₁ evs₂ n₁ w, Reaches B p n₀ evs₁ n₁ → Reaches B p n₁ evs₂ n' →
                n₁.scheduler? p = some w → ∀ a ∈ fs ++ [X], w.routines.contains a = true) ∧
              (During B p K (fun evs => evs.length < 2 * links.length ∧ ExitsOnly evs)
                (fun n => ∀ l ∈ links, ExitReturns B p (fun _ => True) l.script n) (n'.step B) →
                ∃ (calls : List (ExitCall C)) (n'' : Machine C R),
                  calls.map (fun c => (c.id, c.script)) =
                    links.map (fun l => (l.id.next, l.script)) ∧
                  Reaches B p (n'.step B) (calls.flatMap ExitCall.events) n'' ∧
                  ∀ n₁ w, Later B n'' n₁ → n₁.scheduler? p = some w → ∀ a ∈ fs ++ [X],
                    v.routines.vacated a < w.routines.vacated a ∧
                    (w.routines.vacated a < v.routines.vacated a + 2 ^ 32 →
                      w.routines.find? a = none ∧ ∀ script u, w.pick ≠ (some (a, script), u)))) ∧
      (∀ next K₀, bottom = [] → K = .holding [.scheduler p] :: .code next :: K₀ →
        (s.shelve X later).Descends none (fs ++ [X]) →
        (∀ evs n, Reaches B p n₀ evs n → n.LetsLie k) →
        (∀ evs n u, Reaches B p n₀ evs n → AtHead p K u n → u.stack = [] →
          n.snapshot? k = none) →
        (∀ evs n, Reaches B p n₀ evs n → n.control = .code next :: K₀ →
          n.focus = .release [.scheduler p] (.give (.outcome o)) → n.lightly (.scheduler p) = true) →
        ∃ evs n u, Reaches B p n₀ evs n ∧ fedIn evs = fed ∧ Unforced evs ∧ n.control = K₀ ∧
          n.focus = .release [] (.tell next (.reply (.outcome o))) ∧ n.scheduler? p = some u ∧
          ∀ a ∈ fs ++ [X], u.routines.find? a = none) := by
  obtain ⟨x, hx⟩ := Roster.contains_iff.mp hX
  rw [← List.map_reverse] at hstack
  obtain ⟨habove, hbelow⟩ := above_of_routines fs.reverse hbottom
  rw [← hstack] at habove hbelow
  have habove' : aboveBoundary s.stack = (fs.map StackEntry.routine).reverse :=
    habove.trans List.map_reverse
  obtain ⟨n₀, k, t, hr₀, hcalls, hcaptures, hs₀, hstack₀, hentries, n₁, t₁, H, parentH, hr₁, hfed₁,
    hstack₁, hH, hvacant, hspawned⟩ := hplays.handles (.refl m) (Nat.zero_le _) hat hx (habove' ▸ hqueued)
      habove' hbuilds
  have hreach₀ := hplays.reach.later hr₀.later
  have hroom₀ := hroom _ _ _ hr₀ hs₀
  have hr₀₁ := hr₀.quietly hr₁
  have hlive : ∀ a ∈ fs ++ [X], ∃ y, t.routines.find? a = some y ∧ y.script ≠ none := by
    intro a ha
    rw [hentries, find?_shelve hx]
    rcases List.mem_append.mp ha with ha | ha
    · obtain ⟨y, hy, hscript⟩ := hqueued.waits a (by simpa [mem_routinesOf] using ha)
      rw [hy, Option.map_some]
      split
      · exact ⟨_, rfl, Option.some_ne_none _⟩
      · exact ⟨_, rfl, hscript⟩
    · rw [List.mem_singleton.mp ha, hx, Option.map_some, if_pos rfl]
      exact ⟨_, rfl, Option.some_ne_none _⟩
  refine ⟨n₀, k, hr₀, hcalls, fun n next hlater hn hfocus => ?_, fun n u e hlater hu hample he hmem => ?_,
    fun P rest older links origin parent stacked hP hlinks hentry hT => ?_,
    fun next K₀ hnil hK hdescends hunused hgone hothers => ?_⟩
  · have hdepth := depth_replies hcaptures hlater hn hfocus
    rwa [List.length_append] at hdepth
  · obtain ⟨y, hy, -⟩ := hlive e.id hmem
    have hcaptive := hlater.captive hreach₀ hs₀
      (hcaptures.captive hreach₀ hs₀ hroom₀ hmem hy) hu hample
    exact Captive.unseen hcaptive (hreach₀.later hlater.later) hu he rfl
  · -- the chain hangs on `P`, which waits
    subst hP
    have hT₀ : (older.hang links).Stands t.routines P := hT.congr fun a _ => hentries a
    have hmem : ∀ a ∈ fs ++ [X], a ∈ (older.hang links).ids := by
      intro a ha
      rw [← hlinks] at ha
      obtain ⟨l, hl, rfl⟩ := List.mem_map.mp ha
      exact Brood.mem_ids_hang hl
    have hnot : P ∉ (older.hang links).ids := by
      obtain ⟨focus, hlater⟩ := hreach₀
      exact hT₀.notMem (hlater.accounted hs₀ hroom₀).forest
    obtain ⟨evs₂, n₂, u₂, parent₂, hr₂, hfed₂, hunfed, hat₂, hP₂, hT₂⟩ := hplays.feeds_beneath hr₀₁
      (Nat.le_trans (Nat.le_of_eq (Nat.zero_add _)) hN) hrun hfed₁ hstack₁ (hstack₀.trans hbelow)
      hH hvacant hspawned hT₀ (hmem X (by simp)) ((hentries P).trans hentry) rfl hnot
    refine ⟨evs₂, n₂, u₂, hr₁.trans hr₂, hfed₂, hunfed, hat₂, fun fed' o' hrun' hN' => ?_⟩
    have hr₀₂ := hr₀₁.trans hr₂
    obtain ⟨evs₃, n₃, v, parent₃, hr₃, hfed₃, hfinish, hP₃, hT₃⟩ := hplays.finishes_above hr₀₂
      (by simpa [hfed₂] using hN') (by simpa [hfed₂] using hrun') hat₂ hP₂ hT₂
    have hr₀₃ := hr₀₂.trans hr₃
    have hroom₃ := hroom _ _ _ hr₀₃ hfinish.scheduler
    refine ⟨evs₃, n₃, v, hr₃, hfed₃, hfinish, fun evs₁ evs₂ n w hn hn' hw a ha => ?_, fun hexits => ?_⟩
    · obtain ⟨y, hy, -⟩ := hlive a ha
      obtain ⟨z, hz⟩ := hT₃.live a (hmem a ha)
      exact Roster.contains_iff.mpr
        (live_between hn.later hn'.later hs₀ hw hfinish.scheduler hy hz (hroom₃ a))
    · have hone : Reaches B p n₃ (n₃.event? p).toList (n₃.step B) := by
        simpa using (Reaches.refl (B := B) (p := p) n₃).move
      have hr₀₄ := hr₀₃.trans hone
      obtain ⟨calls, n₄, s', hcalls, hr₄, hhead, hless⟩ := hfinish.chain
        (hplays.reach.later hr₀₃.later) (hroom₃ default).slots hP₃ hT₃ hexits
        ((hplays.drops.later hr₀₄).weaken fun evs hevs => by
          rw [fedIn_append, fedIn_of_exits hevs.2]
          simpa [hfed₂, hfed₃, hfinish.fedIn] using hN')
      refine ⟨calls, n₄, hcalls, hr₄, fun n w hlater hw a ha => ?_⟩
      obtain ⟨z, hz⟩ := hT₃.live a (hmem a ha)
      rw [← hlinks] at ha
      obtain ⟨l, hl, rfl⟩ := List.mem_map.mp ha
      exact gone_of_vacated hz hhead.scheduler (hless l hl) hlater hw
  · -- nobody waits, and the chain is adrift
    subst hnil hK
    have hadrift := hcaptures.adrift hreach₀ hs₀ hroom₀ hlive (hdescends.congr hentries)
    obtain ⟨evs₂, n₂, u, hr₂, hfed₂, hunforced, hhead, hregister, hempty, htidy⟩ :=
      hplays.ends_alone hr₀₁ (Nat.le_trans (Nat.le_of_eq (Nat.zero_add _)) hN) hrun hfed₁
        (hstack₁.trans (hstack₀.trans hbelow)) hH
    have hr₀₂ := hr₁.trans hr₂
    have hroom₂ := hroom _ _ _ (hr₀.trans hr₀₂) hhead.scheduler
    have hstage : n₂.stage p = .head := by
      rw [stage, hhead.control, hhead.focus]
      simp [stageFrom, Frame.isPass, Above.stage]
    have hadrift₂ := (hr₀₂.laterWhile hunused).adrift hreach₀ hs₀ hadrift hhead.scheduler hroom₂
    rw [hstage] at hadrift₂
    have hdead := hadrift₂.dead ((hplays.reach.later (hr₀.trans hr₀₂).later).linked hhead.scheduler
      (hroom₂ default).slots) htidy.unclaimed
      (by simp [realm, show n₂.store.snapshots.find? k = none from hgone _ _ _ hr₀₂ hhead hempty])
    obtain ⟨hcontrol, hfocus, hsched⟩ := hhead.ends (B := B) (j := 0) hempty htidy.current
    rw [hregister] at hfocus
    have hr₀₃ := hr₀₂.unseen hhead.event?_head
    obtain ⟨n₄, hr₄, hcontrol₄, hfocus₄, hsched₄⟩ := replies (B := B) hcontrol hfocus
      fun n hn => hothers _ n (hr₀₃.quietly hn)
    exact ⟨_, n₄, _, hr₀₃.quietly hr₄, hfed₂, hunforced, hcontrol₄, hfocus₄, hsched₄.trans hsched, hdead⟩

end Plays

/-! ### Computing what is assumed -/

/-- A shift within a pass, with what is left of the script that shifts. -/
structure Shifting (C R : Type) where
  frames : List (Frame C R)
  id : RoutineId
  handler : C
  later : Script C
  scheduler : Scheduler C

/-- The shift that the loop of scheduler `p` is about to take. -/
def shift? (p : Nat) (m : Machine C R) : Option (Shifting C R) :=
  match m.control, m.focus, m.scheduler? p with
  | .stepping q id :: .pass q' :: K,
      .release [] (.give (.stepped (.yield (.shift handler)) later)), some s =>
    if q = p ∧ q' = p then some ⟨K, id, handler, later, s⟩ else none
  | _, _, _ => none

theorem at_of_shift? {x : Shifting C R} (h : m.shift? p = some x) :
    At p x.frames [.stepping p x.id]
      (.release [] (.give (.stepped (.yield (.shift x.handler)) x.later))) x.scheduler m := by
  unfold shift? at h
  split at h
  · next hcontrol hfocus hsched =>
    split at h
    · next hq =>
      obtain ⟨rfl, rfl⟩ := hq
      cases h
      exact ⟨hcontrol, hfocus, hsched⟩
    · cases h
  · cases h

/-- Whether a routine has its script, and its parent and children. -/
def kin? (s : Scheduler C) (a : RoutineId) : Option (Bool × Option RoutineId × List RoutineId) :=
  (s.routines.find? a).map fun x => (x.script.isSome, x.parent, x.children)

theorem of_kin? {a : RoutineId} {waits : Bool} {parent : Option RoutineId}
    {children : List RoutineId} (h : kin? s a = some (waits, parent, children)) :
    ∃ origin script, s.routines.find? a = some ⟨origin, script, parent, children⟩ ∧
      script.isSome = waits := by
  obtain ⟨⟨origin, script, _, _⟩, hx, hkin⟩ := Option.map_eq_some_iff.mp h
  simp only [Prod.mk.injEq] at hkin
  obtain ⟨hscript, rfl, rfl⟩ := hkin
  exact ⟨origin, script, hx, hscript⟩

/-- The slots of the scheduler are few, and none has been vacated often. -/
def allYoung (p : Nat) (m : Machine C R) : Bool := (m.scheduler? p).all fun s => s.routines.young

theorem ample_of_allYoung {fuel : Nat}
    (h : throughout B (fun _ => false) (allYoung p) fuel m = true) :
    ∀ evs n u, Reaches B p m evs n → n.scheduler? p = some u → ∀ a, u.routines.Ample a := by
  rintro _ _ u ⟨i, rfl, rfl⟩ hu
  have hcheck := check_after h i fun _ _ => rfl
  rw [allYoung, hu] at hcheck
  exact Roster.ample_of_young hcheck

/-- The next move invokes no continuation. -/
def invokesNothing (m : Machine C R) : Bool :=
  match m.focus with
  | .release [] (.act (.ask (.invoke _ _) _)) | .advance (.reentry _ (some _)) _ => false
  | _ => true

theorem letsLie_of_invokesNothing {k : Nat} (h : m.invokesNothing = true) : m.LetsLie k := by
  rintro v (⟨next, hf⟩ | ⟨input, hf⟩) <;> simp [invokesNothing, hf] at h

/-- At the head of the loop, if the stack is empty, there is no continuation. -/
def remembersNothing (p : Nat) (m : Machine C R) : Bool :=
  match m.control, m.focus, m.scheduler? p with
  | .pass _ :: _, .release [] (.give .nothing), some s =>
    !s.stack.isEmpty ||
      (List.range m.store.snapshots.cells.size).all fun k => (m.snapshot? k).isNone
  | _, _, _ => true

theorem snapshot?_of_remembersNothing {k : Nat} (hhead : AtHead p K s m) (hempty : s.stack = [])
    (h : m.remembersNothing p = true) : m.snapshot? k = none := by
  simp only [remembersNothing, hhead.control, hhead.focus, hhead.scheduler, hempty, List.nil_append,
    List.isEmpty_nil, Bool.not_true, Bool.false_or, List.all_eq_true, List.mem_range] at h
  by_cases hk : k < m.store.snapshots.cells.size
  · exact Option.isNone_iff_eq_none.mp (h k hk)
  · simp [snapshot?, Table.find?, Table.cell?, Array.getElem?_eq_none (Nat.le_of_not_lt hk)]

/-- Beneath the pass is an evaluation. -/
def beneathEvaluation (p : Nat) : List (Frame C R) → Bool
  | .holding [.scheduler q] :: .code _ :: _ => q = p
  | _ => false

theorem of_beneathEvaluation (h : beneathEvaluation p K = true) :
    ∃ next K₀, K = .holding [.scheduler p] :: .code next :: K₀ := by
  unfold beneathEvaluation at h
  split at h
  · rw [← of_decide_eq_true h]
    exact ⟨_, _, rfl⟩
  · cases h

section Dropping

variable {π : Conduct C} {fuel fuel' : Nat}

/-- A run in which no handler hands back a number. -/
theorem plays_of_dropping {N : Nat}
    (hπ : π = Moment.conduct (moments B p fuel fuel' m) fun _ _ => none) (hreach : Reachable B m)
    (hyoung : throughout B (fun _ => false) (allYoung p) fuel' m = true)
    (hcomposed : throughout B (fun _ => false) (composed B p fuel) fuel' m = true)
    (hspaced : Moment.spaced (moments B p fuel fuel' m) = true) : Plays B p K π N False m := by
  rw [hπ]
  exact plays_of_moments hreach
    (fun evs n u hr hu => (ample_of_allYoung hyoung evs n u hr hu default).slots)
    hcomposed hspaced False.elim fun _ _ _ _ _ _ _ _ hv => (Option.some_ne_none _ hv.symm).elim

theorem builds_of_dropping {X : RoutineId} {handler : C}
    (hπ : π = Moment.conduct (moments B p fuel fuel' m) fun _ _ => none)
    (hcomposed : throughout B (fun _ => false) (composed B p fuel) fuel' m = true)
    (hspaced : Moment.spaced (moments B p fuel fuel' m) = true) :
    ∀ n k, Reaches B p m [] n → n.Calls p (.pass p :: K) X handler k →
      Answered B p n (Focus.builds (n.catches p) (π.build [] handler)) := by
  intro n k hr hcalls
  obtain ⟨g, hg, hbuilt⟩ := built_of_moment (fun _ _ => none) hcalls.control hcalls.focus
    (Or.inl ⟨_, _, rfl⟩) hcomposed hspaced hr handler
  rw [hπ]
  exact builds_of_answer? hg hbuilt

/-- What the handler of a shift comes to, and what routine `P` comes to if it is fed that. -/
def outcomes? (π : Conduct C) (fuel : Nat) (P : RoutineId) (x : Shifting C R) :
    Option (Script C × (List (Feed C) × Outcome Value) × List (Feed C) × Outcome Value) := do
  let y ← x.scheduler.routines.find? P
  let stacked ← y.script
  let r ← π.run? fuel [] (π.build [] x.handler) .unit
  let r' ← π.run? fuel r.1 stacked r.2
  pure (stacked, r, r')

theorem runs_of_outcomes? {fuel : Nat} {P : RoutineId} {x : Shifting C R}
    {stacked : Script C} {fed fed' : List (Feed C)} {o o' : Outcome Value}
    (hπ : ∀ fed handler, π.hands fed handler = none)
    (h : outcomes? π fuel P x = some (stacked, (fed, o), fed', o')) :
    (∃ y, x.scheduler.routines.find? P = some y ∧ y.script = some stacked) ∧
      Runs π False [] (π.build [] x.handler) .unit fed o ∧ Runs π False fed stacked o fed' o' := by
  obtain ⟨y, hy, h⟩ := Option.bind_eq_some_iff.mp h
  obtain ⟨script, hscript, h⟩ := Option.bind_eq_some_iff.mp h
  obtain ⟨r, hr, h⟩ := Option.bind_eq_some_iff.mp h
  obtain ⟨r', hr', h⟩ := Option.bind_eq_some_iff.mp h
  cases h
  exact ⟨⟨y, hy, hscript⟩, runs_of_run? (.inr hπ) hr, runs_of_run? (.inr hπ) hr'⟩

end Dropping

end Machine

open Strand.Language in
/-- A body splices a script that shifts, and the handler of that drops the continuation and
    comes to 7. If it is `enclosed`, a root resets it, and adds 1 to what it is fed then. -/
def aborting (enclosed : Bool) : Machine Code Running :=
  let script stages := Term.apply (.staged (stages.map .onSuccess) none) []
  let int n := Operand.mk (.type .int) (.literal (.int n))
  let input := Operand.mk (.type .int) (.apply .input [])
  let done t := Term.apply .done [.mk .outcome t]
  let handler := script [done (.literal (.int 7))]
  let shift := Term.apply (.shift (.mk handler (some "k") none none none)) []
  let inner := script [shift, done (.literal (.int 0))]
  let body := script [.apply .splice [.mk .script inner], done (.literal (.int 0))]
  let root := script [.apply (.reset body) [], done (.apply .add [input, int 1])]
  Program.machine [] .empty (.bind "s" (.apply (.newScheduler {}) [])
    (.apply (.evaluate (if enclosed then root else body))
      [.mk (.type .scheduler) (.apply (.lookup "s") [])]))

open Machine Strand.Language in
/-- Enclosed, the spliced script shifts after 76 moves. The root is fed 7 and comes to 8
    while both captured routines are live; then they are made to exit, the body first. Not
    enclosed, it shifts after 54 moves. The evaluation replies 7, and both are freed. -/
theorem dropped_continuation_aborts_spliced :
    (∃ (m n n' : Machine Code Running) (K : List (Frame Code Running))
      (evs : List (PassEvent Code)) (s : Scheduler Code) (calls : List (ExitCall Code)),
      m = after behavior 76 (aborting true) ∧ Reaches behavior 0 m evs n ∧ (fedIn evs).length = 2 ∧
      Finishes 0 K ⟨0, 0⟩ (.success (.int 8)) s n ∧
      (∀ a ∈ [⟨1, 0⟩, ⟨2, 0⟩], s.routines.contains a = true) ∧
      calls.map ExitCall.id = [⟨1, 1⟩, ⟨2, 1⟩] ∧
      Reaches behavior 0 (n.step behavior) (calls.flatMap ExitCall.events) n') ∧
    ∃ (m n : Machine Code Running) (next : Running) (evs : List (PassEvent Code))
      (s : Scheduler Code),
      m = after behavior 54 (aborting false) ∧ Reaches behavior 0 m evs n ∧
      (fedIn evs).length = 1 ∧ Unforced evs ∧
      n.focus = .release [] (.tell next (.reply (.outcome (.success (.int 7))))) ∧
      n.scheduler? 0 = some s ∧ ∀ a ∈ [⟨0, 0⟩, ⟨1, 0⟩], s.routines.find? a = none := by
  constructor
  · -- the root waits beneath the boundary
    obtain ⟨m, hm⟩ : ∃ m, m = after behavior 76 (aborting true) := ⟨_, rfl⟩
    obtain ⟨π, hπ⟩ : ∃ π, π = Moment.conduct (moments behavior 0 60 140 m) fun _ _ => none :=
      ⟨_, rfl⟩
    have hreach : Reachable behavior m := by
      rw [hm]
      exact ⟨_, Reaches.later (p := 0) ⟨76, rfl, rfl⟩⟩
    have hcomposed : throughout behavior (fun _ => false) (composed behavior 0 60) 140 m = true := by
      rw [hm]
      decide +kernel
    have hspaced : Moment.spaced (moments behavior 0 60 140 m) = true := by
      rw [hm]
      decide +kernel
    have hyoung : throughout behavior (fun _ => false) (allYoung 0) 140 m = true := by
      rw [hm]
      decide +kernel
    have hexits : throughout behavior (fun _ => false) (exitsAtOnce behavior 0 60) 140 m = true := by
      rw [hm]
      decide +kernel
    have hshift : (m.shift? 0).map (fun x => (x.id, x.scheduler.stack)) =
        some (⟨2, 0⟩, [.routine ⟨1, 0⟩, .boundary, .routine ⟨0, 0⟩]) := by
      rw [hm]
      decide +kernel
    have hkin : (m.shift? 0).map (fun x => [⟨0, 0⟩, ⟨1, 0⟩, ⟨2, 0⟩].map (kin? x.scheduler)) =
        some [some (true, none, [⟨1, 0⟩]), some (true, some ⟨0, 0⟩, [⟨2, 0⟩]),
          some (false, some ⟨1, 0⟩, [])] := by
      rw [hm]
      decide +kernel
    have houtcomes : (m.shift? 0).bind (fun x => (outcomes? π 20 ⟨0, 0⟩ x).map fun r =>
        (r.2.1.1.length, r.2.1.2.int?, r.2.2.1.length, r.2.2.2.int?)) =
          some (1, some 7, 1, some 8) := by
      rw [hπ, hm]
      decide +kernel
    obtain ⟨⟨K, X, handler, later, s⟩, hx, hdata⟩ := Option.map_eq_some_iff.mp hshift
    obtain ⟨rfl, hstack⟩ := Prod.mk.inj hdata
    rw [hx] at hkin houtcomes
    simp only [Option.map_some, Option.some.injEq, List.map_cons, List.map_nil, List.cons.injEq,
      and_true] at hkin
    obtain ⟨hrootkin, hbodykin, hsplicedkin⟩ := hkin
    obtain ⟨_, _, hroot, -⟩ := of_kin? hrootkin
    obtain ⟨_, bodyScript, hbody, hbodyscript⟩ := of_kin? hbodykin
    obtain ⟨_, _, hspliced, -⟩ := of_kin? hsplicedkin
    obtain ⟨bodyLater, rfl⟩ := Option.isSome_iff_exists.mp hbodyscript
    obtain ⟨⟨stacked, ⟨fed, o⟩, fed', o'⟩, houts, hresults⟩ := Option.map_eq_some_iff.mp houtcomes
    obtain ⟨⟨y, hy, hstacked⟩, hruns, hruns'⟩ :=
      runs_of_outcomes? (by rw [hπ]; exact fun _ _ => rfl) houts
    obtain rfl := Option.some.inj (hroot.symm.trans hy)
    obtain rfl := hstacked
    simp only [Prod.mk.injEq] at hresults
    obtain ⟨hlength, -, hlength', ho'⟩ := hresults
    obtain rfl := Outcome.int?_eq_some ho'
    have hplays := plays_of_dropping (K := K) (N := 2) hπ hreach hyoung hcomposed hspaced
    have hqueued : Scheduler.Queued s ⟨2, 0⟩ ([⟨1, 0⟩].map StackEntry.routine).reverse :=
      ⟨by decide, fun a ha => by
        obtain rfl := List.mem_singleton.mp ha
        exact ⟨_, hbody, Option.some_ne_none _⟩⟩
    have hwaits : s.stack =
        ([⟨1, 0⟩].map StackEntry.routine).reverse ++ [.boundary, .routine ⟨0, 0⟩] := hstack
    have hfind := find?_shelve hspliced later
    obtain ⟨n₀, k, hr₀, -, -, -, hwaited, -⟩ := dropped_continuation_aborts hplays
      (ample_of_allYoung hyoung) (at_of_shift? hx) (Roster.contains_iff.mpr ⟨_, hspliced⟩) hqueued
      hwaits (Or.inr ⟨_, rfl⟩) (builds_of_dropping hπ hcomposed hspaced) hruns (by omega)
    obtain ⟨evs, n, u, hr, hfed, -, -, hfinishes⟩ := hwaited ⟨0, 0⟩ [] .nil
      [⟨⟨1, 0⟩, bodyLater, .nil⟩, ⟨⟨2, 0⟩, later, .nil⟩] _ none stacked rfl rfl
      (by rw [hfind, hroot]; rfl)
      ⟨⟨_, by rw [hfind, hbody]; rfl⟩, ⟨⟨_, by rw [hfind, hspliced]; rfl⟩, trivial, trivial⟩, trivial⟩
    obtain ⟨evs', n', v, hr', hfed', hfinish, hkept, hswept⟩ := hfinishes _ _ hruns' (by omega)
    have hr₁ := (hr₀.trans hr).trans hr'
    obtain ⟨calls, n'', hcalls, hr'', -⟩ := hswept fun evs₂ n₂ hr₂ _ _ l _ => by
      obtain ⟨i, rfl, -⟩ := hr₁.move.trans hr₂
      exact (exitsReturn_of_exitsAtOnce (check_after hexits i fun _ _ => rfl)).exit l.script
    refine ⟨m, n', n'', K, _, v, calls, hm, hr₁, ?_, hfinish, hkept _ _ n' v (hr.trans hr')
      (.refl n') hfinish.scheduler, ?_, hr''⟩
    · simp [hfed, hfed', hlength, hlength']
    · simpa [RoutineId.next, Function.comp_def] using congrArg (List.map Prod.fst) hcalls
  · -- the body is the root, and nobody waits beneath the chain
    obtain ⟨m, hm⟩ : ∃ m, m = after behavior 54 (aborting false) := ⟨_, rfl⟩
    obtain ⟨π, hπ⟩ : ∃ π, π = Moment.conduct (moments behavior 0 60 140 m) fun _ _ => none :=
      ⟨_, rfl⟩
    have hreach : Reachable behavior m := by
      rw [hm]
      exact ⟨_, Reaches.later (p := 0) ⟨54, rfl, rfl⟩⟩
    have hcomposed : throughout behavior (fun _ => false) (composed behavior 0 60) 140 m = true := by
      rw [hm]
      decide +kernel
    have hspaced : Moment.spaced (moments behavior 0 60 140 m) = true := by
      rw [hm]
      decide +kernel
    have hyoung : throughout behavior (fun _ => false) (allYoung 0) 140 m = true := by
      rw [hm]
      decide +kernel
    have hnothing : throughout behavior (fun _ => false) (fun n => n.invokesNothing &&
        n.remembersNothing 0 && n.heldElsewhere) 140 m = true := by
      rw [hm]
      decide +kernel
    have hshift : (m.shift? 0).map
        (fun x => (x.id, x.scheduler.stack, beneathEvaluation 0 x.frames)) =
          some (⟨1, 0⟩, [.routine ⟨0, 0⟩], true) := by
      rw [hm]
      decide +kernel
    have hkin : (m.shift? 0).map (fun x => [⟨0, 0⟩, ⟨1, 0⟩].map (kin? x.scheduler)) =
        some [some (true, none, [⟨1, 0⟩]), some (false, some ⟨0, 0⟩, [])] := by
      rw [hm]
      decide +kernel
    have houtcome : (m.shift? 0).bind (fun x => (π.run? 20 [] (π.build [] x.handler) .unit).map
        fun r => (r.1.length, r.2.int?)) = some (1, some 7) := by
      rw [hπ, hm]
      decide +kernel
    obtain ⟨⟨K, X, handler, later, s⟩, hx, hdata⟩ := Option.map_eq_some_iff.mp hshift
    simp only [Prod.mk.injEq] at hdata
    obtain ⟨rfl, hstack, hbeneath⟩ := hdata
    obtain ⟨next, K₀, rfl⟩ := of_beneathEvaluation hbeneath
    rw [hx] at hkin houtcome
    simp only [Option.map_some, Option.some.injEq, List.map_cons, List.map_nil, List.cons.injEq,
      and_true] at hkin
    obtain ⟨hbodykin, hsplicedkin⟩ := hkin
    obtain ⟨_, bodyScript, hbody, hbodyscript⟩ := of_kin? hbodykin
    obtain ⟨_, _, hspliced, -⟩ := of_kin? hsplicedkin
    obtain ⟨bodyLater, rfl⟩ := Option.isSome_iff_exists.mp hbodyscript
    obtain ⟨⟨fed, o⟩, hrun, hresult⟩ := Option.map_eq_some_iff.mp houtcome
    obtain ⟨hlength, ho⟩ := Prod.mk.inj hresult
    obtain rfl := Outcome.int?_eq_some ho
    have hruns : Runs π False [] (π.build [] handler) .unit fed (.success (.int 7)) :=
      runs_of_run? (.inr fun _ _ => by rw [hπ]; rfl) hrun
    have hplays := plays_of_dropping (K := .holding [.scheduler 0] :: .code next :: K₀) (N := 1)
      hπ hreach hyoung hcomposed hspaced
    have hqueued : Scheduler.Queued s ⟨1, 0⟩ ([⟨0, 0⟩].map StackEntry.routine).reverse :=
      ⟨by decide, fun a ha => by
        obtain rfl := List.mem_singleton.mp ha
        exact ⟨_, hbody, Option.some_ne_none _⟩⟩
    have hwaits : s.stack = ([⟨0, 0⟩].map StackEntry.routine).reverse ++ [] := hstack
    have hfind := find?_shelve hspliced later
    obtain ⟨n₀, k, hr₀, -, -, -, -, halone⟩ := dropped_continuation_aborts hplays
      (ample_of_allYoung hyoung) (at_of_shift? hx) (Roster.contains_iff.mpr ⟨_, hspliced⟩) hqueued
      hwaits (Or.inl rfl) (builds_of_dropping hπ hcomposed hspaced) hruns (Nat.le_of_eq hlength)
    have hchecks : ∀ {evs n}, Reaches behavior 0 n₀ evs n →
        (n.invokesNothing = true ∧ n.remembersNothing 0 = true) ∧ n.heldElsewhere = true := by
      intro evs n hr
      obtain ⟨i, rfl, -⟩ := hr₀.trans hr
      have hcheck := check_after hnothing i fun _ _ => rfl
      rwa [Bool.and_eq_true, Bool.and_eq_true] at hcheck
    obtain ⟨evs, n, u, hr, hfed, hunforced, -, hreply, hu, hfreed⟩ := halone next K₀ rfl rfl
      ⟨⟨_, by rw [hfind, hbody]; rfl, rfl⟩, ⟨_, by rw [hfind, hspliced]; rfl, rfl⟩, trivial⟩
      (fun _ _ hr => letsLie_of_invokesNothing (hchecks hr).1.1)
      (fun _ _ _ hr hhead hempty => snapshot?_of_remembersNothing hhead hempty (hchecks hr).1.2)
      fun _ n hr _ hf => by
        have hcheck := (hchecks hr).2
        rw [heldElsewhere, hf] at hcheck
        exact hcheck
    refine ⟨m, n, next, evs, u, hm, hr₀.trans hr, by simp [hfed, hlength], hunforced, hreply, hu, ?_⟩
    simpa using hfreed

end Strand
