import Strand.Proofs.Oneshot
import Strand.Proofs.Whereabouts

/-! # Journeys — what becomes of a task

    A task is started, built and resumed. It awaits completions one after the other, is
    told how each has settled and is resumed with that, until it ends.

    * `Spot` is where a task is, and what waits for it there; `Works.Stays` finds it.
    * `Exchange` lists which tasks a deed takes from their spots, and where it puts them
      (`Does.exchange`).
    * `Passage` says what that is to one of the tasks, if none is in two places: it goes
      from one spot to the next (`Advances`), it ends, or the bridge loses sight of it
      (`Does.passage`). -/

namespace Strand

variable {C R : Type}

/-- Where a task is. -/
inductive Spot where
  /-- An action, to be built. -/
  | fresh
  | building
  /-- An action, to be resumed with this; the first time with nothing. -/
  | ready (input : Option (Outcome Value))
  | stepping
  /-- It awaits the completion `k`. -/
  | waiting (k : Nat)
  /-- It is still to be told. -/
  | told (o : Outcome Value)

def Action.spot : Action C → Nat × Spot
  | .start _ c => (c, .fresh)
  | .resume task o => (task.settler, .ready o)

def Seat.spots : Seat C → List (Nat × Spot)
  | .loop => []
  | .building c => [(c, .building)]
  | .stepping c => [(c, .stepping)]
  | .telling tasks o => tasks.map fun task => (task.settler, .told o)

def Wait.spots (k : Nat) : Wait C → List (Nat × Spot)
  | .pending tasks => tasks.map fun task => (task.settler, .waiting k)
  | .settled _ => []

def TaskEvent.task : TaskEvent → Nat
  | .started c => c
  | .resumed c _ => c
  | .awaits c _ => c
  | .ended c _ => c

namespace Works

/-- The task that settles `c` is at this spot. -/
inductive Stays (u : Works C) (c : Nat) (s : Spot) : Prop where
  | queued {a : Action C} (ha : a ∈ u.stack) (hs : a.spot = (c, s))
  | seated {x : Seat C} (hx : x ∈ u.seats) (hs : (c, s) ∈ x.spots)
  | waits {k : Nat} {x : Wait C} (hk : u.waits k = some x) (hs : (c, s) ∈ x.spots k)

/-- All tasks that are anywhere, those among them that await one of the first `n`
    completions last. -/
def roll (n : Nat) (u : Works C) : List (Nat × Spot) :=
  u.stack.map Action.spot ++ (u.seats.flatMap Seat.spots ++
    (List.range n).flatMap fun k => ((u.waits k).map (Wait.spots k)).getD [])

end Works

@[simp] theorem Action.fst_spot (a : Action C) : a.spot.1 = a.settler := by cases a <;> rfl

@[simp] theorem Seat.fst_spots (x : Seat C) : x.spots.map Prod.fst = x.settlers := by
  cases x <;> simp [Seat.spots, Seat.settlers]

@[simp] theorem Wait.fst_spots (k : Nat) (x : Wait C) : (x.spots k).map Prod.fst = x.settlers := by
  cases x <;> simp [Wait.spots, Wait.settlers]

namespace Works

variable {u v : Works C} {c k n : Nat} {s s' : Spot}

theorem Stays.holds (h : u.Stays c s) : u.Holds c := by
  cases h with
  | @queued a ha hs => exact .queued ha (by rw [← a.fst_spot, hs])
  | @seated x hx hs => exact .seated hx (by rw [← x.fst_spots]; exact List.mem_map_of_mem hs)
  | @waits k x hk hs => exact .waiting hk (by rw [← x.fst_spots k]; exact List.mem_map_of_mem hs)

theorem Holds.stays (h : u.Holds c) : ∃ s, u.Stays c s := by
  cases h with
  | @queued a ha hc => exact ⟨a.spot.2, .queued ha (by rw [← hc, ← a.fst_spot])⟩
  | @seated x hx hc =>
    rw [← x.fst_spots] at hc
    obtain ⟨⟨c', s⟩, hs, rfl⟩ := List.mem_map.mp hc
    exact ⟨s, .seated hx hs⟩
  | @waiting k x hk hc =>
    rw [← x.fst_spots k] at hc
    obtain ⟨⟨c', s⟩, hs, rfl⟩ := List.mem_map.mp hc
    exact ⟨s, .waits hk hs⟩

theorem Stays.mem_roll (h : u.Stays c s) (hn : ∀ k x, u.waits k = some x → k < n) :
    (c, s) ∈ u.roll n := by
  cases h with
  | queued ha hs => exact List.mem_append_left _ (List.mem_map.mpr ⟨_, ha, hs⟩)
  | seated hx hs =>
    exact List.mem_append_right _ (List.mem_append_left _ (List.mem_flatMap.mpr ⟨_, hx, hs⟩))
  | @waits k x hk hs =>
    refine List.mem_append_right _ (List.mem_append_right _ (List.mem_flatMap.mpr
      ⟨k, List.mem_range.mpr (hn k x hk), ?_⟩))
    rw [hk]
    exact hs

theorem stays_of_mem_roll (h : (c, s) ∈ u.roll n) : u.Stays c s := by
  rcases List.mem_append.mp h with h | h
  · obtain ⟨a, ha, hs⟩ := List.mem_map.mp h
    exact .queued ha hs
  · rcases List.mem_append.mp h with h | h
    · obtain ⟨x, hx, hs⟩ := List.mem_flatMap.mp h
      exact .seated hx hs
    · obtain ⟨k, -, hs⟩ := List.mem_flatMap.mp h
      cases hk : u.waits k with
      | none => simp [hk] at hs
      | some x =>
        rw [hk] at hs
        exact .waits hk hs

theorem holds_iff_mem (hn : ∀ k x, u.waits k = some x → k < n) :
    u.Holds c ↔ c ∈ (u.roll n).map Prod.fst := by
  rw [List.mem_map]
  constructor
  · intro h
    obtain ⟨s, hs⟩ := h.stays
    exact ⟨_, hs.mem_roll hn, rfl⟩
  · rintro ⟨⟨_, s⟩, hs, rfl⟩
    exact (stays_of_mem_roll hs).holds

/-! ### From spot to spot -/

/-- The tasks that await one of the first `n` completions. -/
def waiting (n : Nat) (w : Nat → Option (Wait C)) : List (Nat × Spot) :=
  (List.range n).flatMap fun k => ((w k).map (Wait.spots k)).getD []

/-- Where one completion changes, those who await the others stay. -/
theorem waiting_update {w : Nat → Option (Wait C)} (hk : k < n) (x : Option (Wait C)) :
    ∃ rest, (waiting n w).Perm (((w k).map (Wait.spots k)).getD [] ++ rest) ∧
      (waiting n (Function.update w k x)).Perm ((x.map (Wait.spots k)).getD [] ++ rest) := by
  obtain ⟨l, l', hrange⟩ := List.append_of_mem (List.mem_range.mpr hk)
  have hnodup : (l ++ k :: l').Nodup := hrange ▸ List.nodup_range
  have hnot : ∀ j ∈ l ++ l', j ≠ k := by
    rintro j hj rfl
    have hperm : (l ++ j :: l').Perm (j :: (l ++ l')) := List.perm_middle
    exact (List.nodup_cons.mp (hperm.nodup_iff.mp hnodup)).1 hj
  have hsame (l₁ : List Nat) (h : ∀ j ∈ l₁, j ∈ l ++ l') :
      (l₁.flatMap fun j => ((Function.update w k x j).map (Wait.spots j)).getD []) =
        l₁.flatMap fun j => ((w j).map (Wait.spots j)).getD [] :=
    List.flatMap_congr fun j hj => by rw [Function.update_of_ne (hnot j (h j hj))]
  refine ⟨(l ++ l').flatMap fun j => ((w j).map (Wait.spots j)).getD [], ?_, ?_⟩
  · rw [waiting, hrange, List.flatMap_append, List.flatMap_cons, List.flatMap_append]
    exact List.perm_append_comm_assoc ..
  · rw [waiting, hrange, List.flatMap_append, List.flatMap_cons, List.flatMap_append,
      hsame l fun j hj => List.mem_append_left _ hj, hsame l' fun j hj => List.mem_append_right _ hj,
      Function.update_self]
    exact List.perm_append_comm_assoc ..

end Works

/-- Which tasks are taken from their spots, and where they are put. `w` is what completions
    were to the bridge, and `w'` what they are to it now; `lost` says that it may lose sight
    of tasks. -/
inductive Exchange (w w' : Nat → Option (Wait C)) (lost : Prop) :
    Option TaskEvent → List (Nat × Spot) → List (Nat × Spot) → Prop where
  | still : Exchange w w' lost none [] []
  | start {c : Nat} (hc : w c = none) : Exchange w w' lost (some (.started c)) [] [(c, .fresh)]
  | build (c : Nat) : Exchange w w' lost none [(c, .fresh)] [(c, .building)]
  | built (c : Nat) : Exchange w w' lost none [(c, .building)] [(c, .ready none)]
  | resume (c : Nat) (o : Option (Outcome Value)) :
      Exchange w w' lost (some (.resumed c (o.getD .unit))) [(c, .ready o)] [(c, .stepping)]
  | awaits (c : Nat) {k : Nat} {tasks : List (Task C)} (hk : w' k = some (.pending tasks)) :
      Exchange w w' lost (some (.awaits c k)) [(c, .stepping)] [(c, .waiting k)]
  | awaitsSettled (c : Nat) {k : Nat} {o : Outcome Value} (hk : w k = some (.settled o)) :
      Exchange w w' lost (some (.awaits c k)) [(c, .stepping)] [(c, .ready (some o))]
  | settle {k : Nat} {o : Outcome Value} (cs : List Nat) (hk : w' k = some (.settled o)) :
      Exchange w w' lost none (cs.map (·, .waiting k)) (cs.map (·, .told o))
  | tell (c : Nat) (o : Outcome Value) :
      Exchange w w' lost none [(c, .told o)] [(c, .ready (some o))]
  | ended {c : Nat} {s : Spot} (hs : s = .building ∨ s = .stepping) {o : Outcome Value}
      (cs : List Nat) (hc : w' c = some (.settled o)) :
      Exchange w w' lost (some (.ended c o)) ((c, s) :: cs.map (·, .waiting c)) (cs.map (·, .told o))
  | lose (h : lost) (out : List (Nat × Spot)) : Exchange w w' lost none out []

/-- What a deed exchanges; `rest` stays. -/
def Exchanges (n : Nat) (lost : Prop) (e : Option TaskEvent) (u v : Works C) : Prop :=
  ∃ out into rest, Exchange u.waits v.waits lost e out into ∧
    (u.roll n).Perm (out ++ rest) ∧ (v.roll n).Perm (into ++ rest)

section Exchange

variable {n : Nat} {entered panics astray lost : Prop} {e : Option TaskEvent} {u v : Works C}
  {x x' : Option (Bridge C)} {top top' : List (Seat C)} {w w' : Nat → Option (Wait C)}
  {out into : List (Nat × Spot)}

/-- The tasks at the bridge and at its seats. -/
def Works.near (x : Option (Bridge C)) (top : List (Seat C)) : List (Nat × Spot) :=
  ((x.map (·.stack)).getD []).map Action.spot ++ top.flatMap Seat.spots

theorem Works.roll_eq (n : Nat) (x : Option (Bridge C)) (top : List (Seat C))
    (w : Nat → Option (Wait C)) : (⟨x, top, w⟩ : Works C).roll n = near x top ++ waiting n w :=
  (List.append_assoc ..).symm

open Works

/-- Everybody who awaits a completion stays. -/
theorem Exchanges.of_near (rest : List (Nat × Spot)) (h : Exchange w w lost e out into) (hout : (near x top).Perm (out ++ rest))
    (hinto : (near x' top').Perm (into ++ rest)) : Exchanges n lost e ⟨x, top, w⟩ ⟨x', top', w⟩ := by
  refine ⟨out, into, rest ++ waiting n w, h, ?_, ?_⟩
  · rw [roll_eq, ← List.append_assoc]
    exact hout.append_right _
  · rw [roll_eq, ← List.append_assoc]
    exact hinto.append_right _

/-- Those who await other completions than `k` stay. -/
theorem Exchanges.of_waiting {k : Nat} (hk : k < n) (after : Option (Wait C))
    (rest : List (Nat × Spot)) (h : Exchange w (Function.update w k after) lost e out into)
    (hout : (near x top ++ ((w k).map (Wait.spots k)).getD []).Perm (out ++ rest))
    (hinto : (near x' top' ++ (after.map (Wait.spots k)).getD []).Perm (into ++ rest)) :
    Exchanges n lost e ⟨x, top, w⟩ ⟨x', top', Function.update w k after⟩ := by
  obtain ⟨others, hw, hw'⟩ := waiting_update (w := w) hk after
  refine ⟨out, into, rest ++ others, h, ?_, ?_⟩
  · rw [roll_eq, ← List.append_assoc]
    refine (hw.append_left _).trans ?_
    rw [← List.append_assoc]
    exact hout.append_right others
  · rw [roll_eq, ← List.append_assoc]
    refine (hw'.append_left _).trans ?_
    rw [← List.append_assoc]
    exact hinto.append_right others

/-- A completion that nobody awaits yet comes or goes. -/
theorem Exchanges.of_unawaited {k : Nat} (hk : k < n) {after : Option (Wait C)}
    (hbefore : ((w k).map (Wait.spots k)).getD [] = []) (hafter : (after.map (Wait.spots k)).getD [] = []) :
    Exchanges n lost none ⟨x, [], w⟩ ⟨x, [], Function.update w k after⟩ :=
  .of_waiting hk after _ .still (by rw [hbefore, List.append_nil]; rfl)
    (by rw [hafter, List.append_nil]; rfl)

@[simp] theorem Works.near_wake (x : Bridge C) (a : Action C) (top : List (Seat C)) :
    near (some (x.wake a)) (x.entry ++ top) = a.spot :: near (some x) top := by
  have hentry : x.entry.flatMap Seat.spots = [] := by
    unfold Bridge.entry
    split <;> rfl
  simp [near, Bridge.wake, hentry]

theorem Works.near_seat (x : Option (Bridge C)) (s : Seat C) :
    (near x [s]).Perm (s.spots ++ near x []) := by
  simpa [near] using List.perm_append_comm

theorem Works.near_telling (x : Option (Bridge C)) (tasks : List (Task C)) (o : Outcome Value) :
    (near x [.telling tasks o]).Perm ((tasks.map (·.settler)).map (·, .told o) ++ near x []) := by
  rw [List.map_map]
  exact near_seat x (.telling tasks o)

/-- Every deed is an exchange. -/
theorem Deed.exchanges (h : Deed entered panics astray e u v)
    (hu : ∀ k x, u.waits k = some x → k < n) (hv : ∀ k x, v.waits k = some x → k < n) :
    Exchanges n (panics ∨ astray ∨ u.stack ≠ [] ∧ v.bridge = none) e u v := by
  cases h with
  | still => exact ⟨[], [], _, .still, .refl _, .refl _⟩
  | make => exact .of_near _ .still (.refl _) (.refl _)
  | scrap x w =>
    by_cases hstack : x.stack = []
    · exact .of_near _ .still (.of_eq (by simp [near, hstack])) (.refl _)
    · exact .of_near _ (.lose (Or.inr (Or.inr ⟨hstack, rfl⟩)) _) (.of_eq (List.append_nil _).symm) (.refl _)
  | @«open» x c w hc =>
    exact .of_unawaited (hv c _ (Function.update_self ..)) (by rw [hc]; rfl) rfl
  | @preset x c w hc o =>
    exact .of_unawaited (hv c _ (Function.update_self ..)) (by rw [hc]; rfl) rfl
  | @forget x c o w hc => exact .of_unawaited (hu c _ hc) (by rw [hc]; rfl) rfl
  | @settle x c tasks w hc o =>
    refine .of_waiting (hu c _ hc) _ (near x [])
      (.settle (tasks.map (·.settler)) (Function.update_self ..)) ?_ ?_
    · rw [hc, Option.map_some, Option.getD_some, Wait.spots, List.map_map]
      exact List.perm_append_comm
    · rw [Option.map_some, Option.getD_some, Wait.spots, List.append_nil]
      exact near_telling x tasks o
  | tell x task tasks o w hx =>
    refine .of_near (near (some x) [.telling tasks o]) (.tell task.settler o) ?_ ?_
    · have hrest := List.Perm.cons (task.settler, Spot.told o) (near_seat (some x) (.telling tasks o)).symm
      exact (near_seat (some x) (.telling (task :: tasks) o)).trans hrest
    · rw [near_wake]
      rfl
  | told x o w => exact .of_near _ .still (.refl _) (.refl _)
  | @run x c w hc code hx =>
    refine .of_waiting (hv c _ (Function.update_self ..)) _ (near (some x) []) (.start hc) ?_ ?_
    · rw [hc, Option.map_none, Option.getD_none, List.append_nil]
      rfl
    · rw [← List.append_nil x.entry, near_wake]
      simp [Wait.spots, Action.spot]
  | @build x code c stack hx w =>
    refine .of_near (near (some { x with stack }) []) (.build c) ?_ (near_seat _ (.building c))
    simp [near, hx, Action.spot, Seat.spots]
  | @resume x task o stack hx w =>
    refine .of_near (near (some { x with stack }) []) (.resume task.settler o) ?_
      (near_seat _ (.stepping task.settler))
    simp [near, hx, Action.spot, Seat.spots]
  | rest hx w => exact .of_near _ .still (.refl _) (.refl _)
  | built x task nextId w =>
    refine .of_near (near (some x) []) (.built task.settler) (near_seat ..) ?_
    simp [near, Action.spot]
  | @awaits x task c tasks w hc =>
    refine .of_waiting (hu c _ hc) _ (near x [] ++ Wait.spots c (.pending tasks))
      (.awaits task.settler (Function.update_self ..)) ?_ ?_
    · rw [hc, Option.map_some, Option.getD_some, ← List.append_assoc]
      exact (near_seat ..).append_right _
    · rw [Option.map_some, Option.getD_some, Wait.spots, Wait.spots, List.map_append,
        ← List.append_assoc]
      exact List.perm_append_comm
  | @awaitsSettled x task c o w hc hx =>
    refine .of_near (near (some x) []) (.awaitsSettled task.settler hc) (near_seat ..) ?_
    rw [← List.append_nil x.entry, near_wake]
    rfl
  | @ended x s c hs tasks w hc o =>
    have hspot : ∃ spot, (spot = .building ∨ spot = .stepping) ∧ s.spots = [(c, spot)] := by
      rcases hs with rfl | rfl
      · exact ⟨_, Or.inl rfl, rfl⟩
      · exact ⟨_, Or.inr rfl, rfl⟩
    obtain ⟨spot, hspot, hspots⟩ := hspot
    refine .of_waiting (hu c _ hc) _ (near x [])
      (.ended hspot (tasks.map (·.settler)) (Function.update_self ..)) ?_ ?_
    · rw [hc, Option.map_some, Option.getD_some, Wait.spots, List.map_map]
      refine ((near_seat x s).append_right _).trans ?_
      rw [hspots]
      exact .cons _ List.perm_append_comm
    · rw [Option.map_some, Option.getD_some, Wait.spots, List.append_nil]
      exact near_telling x tasks o
  | stray h x c w => exact .of_near _ (.lose (Or.inr (Or.inl h)) _) (near_seat ..) (.refl _)
  | shed h x s hs w => exact .of_near _ (.lose (Or.inl h) _) (near_seat ..) (.refl _)
  | leave h x w => exact .of_near _ .still (.refl _) (.refl _)

theorem Does.exchanges (h : Does entered panics astray e u v)
    (hu : ∀ k x, u.waits k = some x → k < n) (hv : ∀ k x, v.waits k = some x → k < n) :
    Exchanges n (panics ∨ astray ∨ u.stack ≠ [] ∧ v.bridge = none) e u v := by
  obtain ⟨x, seats, w⟩ := u
  obtain ⟨x', seats', w'⟩ := v
  obtain ⟨top, top', below, htop, htop', hdeed⟩ := h
  obtain rfl : seats = top ++ below := htop
  obtain rfl : seats' = top' ++ below := htop'
  obtain ⟨out, into, rest, hexchange, hout, hinto⟩ := hdeed.exchanges (n := n) hu hv
  have hroll (x : Option (Bridge C)) (top : List (Seat C)) (w : Nat → Option (Wait C)) :
      ((⟨x, top ++ below, w⟩ : Works C).roll n).Perm
        (below.flatMap Seat.spots ++ (⟨x, top, w⟩ : Works C).roll n) := by
    rw [roll_eq, roll_eq, near, near, List.flatMap_append]
    simp only [List.append_assoc]
    refine (List.Perm.append_left _ (List.perm_append_comm_assoc ..)).trans ?_
    exact List.perm_append_comm_assoc ..
  refine ⟨out, into, below.flatMap Seat.spots ++ rest, hexchange, ?_, ?_⟩
  · exact ((hroll ..).trans (hout.append_left _)).trans (List.perm_append_comm_assoc ..)
  · exact ((hroll ..).trans (hinto.append_left _)).trans (List.perm_append_comm_assoc ..)

end Exchange

/-! ### One task -/

/-- A task goes from one spot to the next; with most moves of the machine it stays where it
    is. -/
inductive Advances (w w' : Nat → Option (Wait C)) (c : Nat) :
    Option TaskEvent → Spot → Spot → Prop where
  | stay {e : Option TaskEvent} (he : ∀ x ∈ e, x.task ≠ c) (s : Spot) : Advances w w' c e s s
  | build : Advances w w' c none .fresh .building
  | built : Advances w w' c none .building (.ready none)
  | resume (o : Option (Outcome Value)) :
      Advances w w' c (some (.resumed c (o.getD .unit))) (.ready o) .stepping
  | awaits {k : Nat} {tasks : List (Task C)} (hk : w' k = some (.pending tasks)) :
      Advances w w' c (some (.awaits c k)) .stepping (.waiting k)
  | awaitsSettled {k : Nat} {o : Outcome Value} (hk : w k = some (.settled o)) :
      Advances w w' c (some (.awaits c k)) .stepping (.ready (some o))
  | settle {e : Option TaskEvent} (he : ∀ x ∈ e, x.task ≠ c) {k : Nat} {o : Outcome Value}
      (hk : w' k = some (.settled o)) : Advances w w' c e (.waiting k) (.told o)
  | tell (o : Outcome Value) : Advances w w' c none (.told o) (.ready (some o))

/-- What a deed is to one task. -/
inductive Passage (lost : Prop) (c : Nat) (e : Option TaskEvent) (u v : Works C) : Prop where
  | absent (he : ∀ x ∈ e, x.task ≠ c) (hu : ¬ u.Holds c) (hv : ¬ v.Holds c)
  | starts (he : e = some (.started c)) (hu : ¬ u.Holds c) (hv : v.Stays c .fresh)
  | goes {s s' : Spot} (h : Advances u.waits v.waits c e s s') (hu : u.Stays c s)
      (hv : v.Stays c s')
  | ends {s : Spot} (hs : s = .building ∨ s = .stepping) {o : Outcome Value}
      (he : e = some (.ended c o)) (hc : v.waits c = some (.settled o)) (hu : u.Stays c s)
      (hv : ¬ v.Holds c)
  | lose (h : lost) (he : e = none) {s : Spot} (hu : u.Stays c s) (hv : ¬ v.Holds c)

section Passage

variable {n : Nat} {entered panics astray lost : Prop} {e : Option TaskEvent} {u v : Works C}
  {c : Nat} {s s' : Spot} {out into rest : List (Nat × Spot)}

namespace Works

/-- The bridge knows of no more tasks than this, and of none twice. -/
structure Rolled (n : Nat) (u : Works C) : Prop where
  below : ∀ k x, u.waits k = some x → k < n
  once : ((u.roll n).map Prod.fst).Nodup

variable (hu : u.Rolled n)

theorem Rolled.stays_of_mem {l l' : List (Nat × Spot)} (hperm : (u.roll n).Perm (l ++ l'))
    (h : (c, s) ∈ l ∨ (c, s) ∈ l') : u.Stays c s :=
  stays_of_mem_roll (hperm.mem_iff.mpr (List.mem_append.mpr h))

include hu

theorem Rolled.holds_iff {l l' : List (Nat × Spot)} (hperm : (u.roll n).Perm (l ++ l')) :
    u.Holds c ↔ c ∈ l.map Prod.fst ∨ c ∈ l'.map Prod.fst := by
  rw [holds_iff_mem hu.below, (hperm.map Prod.fst).mem_iff, List.map_append, List.mem_append]

theorem Rolled.not_mem {l l' : List (Nat × Spot)} (hperm : (u.roll n).Perm (l ++ l'))
    (h : c ∈ l.map Prod.fst) : c ∉ l'.map Prod.fst := by
  intro h'
  have hnodup := (hperm.map Prod.fst).nodup_iff.mp hu.once
  rw [List.map_append, List.nodup_append] at hnodup
  exact hnodup.2.2 c h c h' rfl

/-- Who is somewhere is nowhere else. -/
theorem Rolled.unique (hs : u.Stays c s) (hs' : u.Stays c s') : s = s' := by
  obtain ⟨l, l', hl⟩ := List.append_of_mem (hs.mem_roll hu.below)
  have hnot := hu.not_mem (c := c) (l := [(c, s)]) (hl ▸ List.perm_middle) (by simp)
  have hmem := hs'.mem_roll hu.below
  rw [hl, List.perm_middle.mem_iff, List.mem_cons] at hmem
  rcases hmem with heq | hmem
  · exact (Prod.mk.inj heq).2.symm
  · exact absurd (List.mem_map_of_mem hmem) hnot

end Works

open Works

/-- Whom an exchange does not concern stays where it is. -/
theorem Passage.of_other (hu : u.Rolled n) (hv : v.Rolled n) (hout : (u.roll n).Perm (out ++ rest))
    (hinto : (v.roll n).Perm (into ++ rest)) (he : ∀ x ∈ e, x.task ≠ c)
    (hnot : c ∉ out.map Prod.fst) (hnot' : c ∉ into.map Prod.fst) : Passage lost c e u v := by
  by_cases hrest : c ∈ rest.map Prod.fst
  · obtain ⟨⟨_, s⟩, hs, rfl⟩ := List.mem_map.mp hrest
    exact .goes (.stay he s) (Rolled.stays_of_mem hout (Or.inr hs))
      (Rolled.stays_of_mem hinto (Or.inr hs))
  · refine .absent he ?_ ?_
    · rw [hu.holds_iff hout]
      exact fun h => h.elim hnot hrest
    · rw [hv.holds_iff hinto]
      exact fun h => h.elim hnot' hrest

theorem map_fst_pair (cs : List Nat) (s : Spot) : (cs.map (·, s)).map Prod.fst = cs := by
  rw [List.map_map]
  exact List.map_id cs

/-- Tasks that go from one spot to the next together. -/
theorem Passage.of_moved (cs : List Nat) (hu : u.Rolled n) (hv : v.Rolled n)
    (hout : (u.roll n).Perm (cs.map (·, s) ++ rest)) (hinto : (v.roll n).Perm (cs.map (·, s') ++ rest))
    (h : c ∈ cs → Advances u.waits v.waits c e s s') (he : ∀ x ∈ e, x.task ∈ cs) :
    Passage lost c e u v := by
  by_cases hc : c ∈ cs
  · exact .goes (h hc) (Rolled.stays_of_mem hout (Or.inl (List.mem_map_of_mem hc)))
      (Rolled.stays_of_mem hinto (Or.inl (List.mem_map_of_mem hc)))
  · refine .of_other hu hv hout hinto (fun x hx heq => hc (heq ▸ he x hx)) ?_ ?_
    · rwa [map_fst_pair]
    · rwa [map_fst_pair]

/-- A deed is one thing to each task. -/
theorem Exchanges.passage (h : Exchanges n lost e u v) (hu : u.Rolled n) (hv : v.Rolled n) (c : Nat) :
    Passage lost c e u v := by
  obtain ⟨out, into, rest, hexchange, hout, hinto⟩ := h
  have hone {c' : Nat} {e : TaskEvent} (htask : e.task = c') : ∀ x ∈ some e, x.task ∈ [c'] := by
    rintro x hx
    cases hx
    rw [htask]
    exact List.mem_singleton_self c'
  cases hexchange with
  | still => exact .of_other hu hv hout hinto (by simp) (by simp) (by simp)
  | @start c' hc' =>
    by_cases hc : c = c'
    · subst hc
      refine .starts rfl ?_ (Rolled.stays_of_mem hinto (Or.inl (List.mem_singleton_self _)))
      rw [hu.holds_iff hout]
      exact fun h => h.elim (by simp) (hv.not_mem hinto (by simp))
    · exact .of_other hu hv hout hinto (by simpa [TaskEvent.task] using Ne.symm hc) (by simp) (by simpa)
  | build c' =>
    exact .of_moved [c'] hu hv hout hinto (fun _ => .build) (by simp)
  | built c' =>
    exact .of_moved [c'] hu hv hout hinto (fun _ => .built) (by simp)
  | resume c' o =>
    refine .of_moved [c'] hu hv hout hinto (fun hc => ?_) (hone rfl)
    rw [List.mem_singleton.mp hc]
    exact .resume o
  | awaits c' hk =>
    refine .of_moved [c'] hu hv hout hinto (fun hc => ?_) (hone rfl)
    rw [List.mem_singleton.mp hc]
    exact .awaits hk
  | awaitsSettled c' hk =>
    refine .of_moved [c'] hu hv hout hinto (fun hc => ?_) (hone rfl)
    rw [List.mem_singleton.mp hc]
    exact .awaitsSettled hk
  | settle cs hk => exact .of_moved cs hu hv hout hinto (fun _ => .settle (by simp) hk) (by simp)
  | tell c' o => exact .of_moved [c'] hu hv hout hinto (fun _ => .tell o) (by simp)
  | @ended c' s hs o cs hc' =>
    by_cases hc : c = c'
    · subst hc
      refine .ends hs rfl hc' (Rolled.stays_of_mem hout (Or.inl (List.mem_cons_self ..))) ?_
      have hnot : c ∉ (cs.map (·, Spot.waiting c) ++ rest).map Prod.fst :=
        hu.not_mem (l := [(c, s)]) hout (by simp)
      rw [List.map_append, List.mem_append, map_fst_pair] at hnot
      rw [hv.holds_iff hinto, map_fst_pair]
      exact hnot
    · -- the tasks that have waited for this one are told
      have hperm : (u.roll n).Perm (cs.map (·, .waiting c') ++ ((c', s) :: rest)) :=
        hout.trans List.perm_middle.symm
      by_cases hcs : c ∈ cs
      · exact .goes (.settle (by simpa [TaskEvent.task] using Ne.symm hc) hc')
          (Rolled.stays_of_mem hperm (Or.inl (List.mem_map_of_mem hcs)))
          (Rolled.stays_of_mem hinto (Or.inl (List.mem_map_of_mem hcs)))
      · refine .of_other hu hv hout hinto (by simpa [TaskEvent.task] using Ne.symm hc) ?_ ?_
        · rw [List.map_cons, map_fst_pair]
          simp [hc, hcs]
        · rwa [map_fst_pair]
  | lose h out =>
    by_cases hc : c ∈ out.map Prod.fst
    · obtain ⟨⟨_, s⟩, hs, rfl⟩ := List.mem_map.mp hc
      refine .lose h rfl (Rolled.stays_of_mem hout (Or.inl hs)) ?_
      rw [hv.holds_iff hinto]
      exact fun h => h.elim (by simp) (hu.not_mem hout hc)
    · exact .of_other hu hv hout hinto (by simp) hc (by simp)

end Passage

end Strand
