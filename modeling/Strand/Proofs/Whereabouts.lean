import Strand.Proofs.Deeds
import Strand.Proofs.Histories

/-! # Whereabouts — where the tasks of a bridge are

    A task is an action of its bridge, or it is built or advanced, or it listens to a
    completion, or it is about to be told how this has settled. `headcount` counts all
    these places. Wherever a task is, it holds the settler of its completion. So it is in
    one place at most (`headcount_le_one`), and its completion is pending
    (`pending_of_headcount`).

    A bridge is at work as long as its loop is on the control stack, and the loop is there
    only once (`Seated`). -/

namespace Strand

variable {C R : Type}

def Action.settler : Action C → Nat
  | .start _ c => c
  | .resume task _ => task.settler

def Seat.settlers : Seat C → List Nat
  | .loop => []
  | .building c => [c]
  | .stepping c => [c]
  | .telling tasks _ => tasks.map (·.settler)

def Wait.settlers : Wait C → List Nat
  | .pending tasks => tasks.map (·.settler)
  | .settled _ => []

/-- The seats of a bridge that is at work, or is not: what is told may be anywhere. A task
    that is built or advanced is so by the loop. -/
def Seated : Bool → List (Seat C) → Prop
  | running, [] => running = false
  | running, .telling _ _ :: rest => Seated running rest
  | running, .loop :: rest => running = true ∧ Seated false rest
  | running, .building _ :: .loop :: rest => running = true ∧ Seated false rest
  | running, .stepping _ :: .loop :: rest => running = true ∧ Seated false rest
  | _, _ => False

namespace Works

/-- The actions of the bridge. -/
def stack (u : Works C) : List (Action C) := (u.bridge.map (·.stack)).getD []

def running (u : Works C) : Bool := (u.bridge.map (·.running)).getD false

/-- The task that settles `c` is somewhere. -/
inductive Holds (u : Works C) (c : Nat) : Prop where
  | queued {a : Action C} (ha : a ∈ u.stack) (hc : a.settler = c)
  | seated {s : Seat C} (hs : s ∈ u.seats) (hc : c ∈ s.settlers)
  | waiting {k : Nat} {x : Wait C} (hk : u.waits k = some x) (hc : c ∈ x.settlers)

end Works

@[simp] theorem seated_building {running : Bool} {c : Nat} {rest : List (Seat C)} :
    Seated running (.building c :: rest) ↔
      running = true ∧ ∃ below, rest = .loop :: below ∧ Seated false below := by
  rcases rest with - | ⟨s, rest⟩
  · simp [Seated]
  · cases s <;> simp [Seated]

@[simp] theorem seated_stepping {running : Bool} {c : Nat} {rest : List (Seat C)} :
    Seated running (.stepping c :: rest) ↔
      running = true ∧ ∃ below, rest = .loop :: below ∧ Seated false below := by
  rcases rest with - | ⟨s, rest⟩
  · simp [Seated]
  · cases s <;> simp [Seated]

theorem Seated.loop_mem {seats : List (Seat C)} (h : Seated true seats) : .loop ∈ seats := by
  induction seats with
  | nil => cases h
  | cons s rest ih =>
    cases s with
    | loop => exact List.mem_cons_self ..
    | telling tasks o => exact List.mem_cons_of_mem _ (ih h)
    | building c =>
      obtain ⟨-, below, rfl, -⟩ := seated_building.mp h
      exact List.mem_cons_of_mem _ (List.mem_cons_self ..)
    | stepping c =>
      obtain ⟨-, below, rfl, -⟩ := seated_stepping.mp h
      exact List.mem_cons_of_mem _ (List.mem_cons_self ..)

/-- A bridge that is put to work enters its loop, unless it has been in it. -/
theorem Seated.entry {x : Bridge C} {seats : List (Seat C)} (h : Seated x.running seats) :
    Seated true (x.entry ++ seats) := by
  unfold Bridge.entry
  split
  · next hrunning => rwa [hrunning] at h
  · next hrunning =>
    rw [Bool.not_eq_true] at hrunning
    rw [hrunning] at h
    exact ⟨rfl, h⟩

/-- A deed keeps the seats in order. -/
theorem Does.seated {entered panics astray : Prop} {e : Option TaskEvent} {u v : Works C}
    (h : Does entered panics astray e u v) (hu : Seated u.running u.seats)
    (hthere : .loop ∈ v.seats → v.bridge ≠ none) : Seated v.running v.seats := by
  obtain ⟨ub, us, uw⟩ := u
  obtain ⟨vb, vs, vw⟩ := v
  obtain ⟨top, top', below, htop, htop', hdeed⟩ := h
  dsimp only at htop htop' hdeed hthere
  subst htop htop'
  cases hdeed with
  | scrap x =>
    have hrunning : x.running = false := by
      by_contra hrunning
      rw [Bool.not_eq_false] at hrunning
      have hbelow : Seated x.running below := hu
      rw [hrunning] at hbelow
      exact hthere hbelow.loop_mem rfl
    have hbelow : Seated x.running below := hu
    rwa [hrunning] at hbelow
  | tell x task tasks o w hx =>
    have hbelow : Seated x.running below := hu
    have hentry : Seated true (x.entry ++ (.telling tasks o :: below)) := .entry hbelow
    rwa [← List.singleton_append, ← List.append_assoc] at hentry
  | run x hc code hx => exact Seated.entry (x := x) hu
  | awaitsSettled x task hc hx =>
    obtain ⟨hrunning, rest, rfl, hrest⟩ := seated_stepping.mp hu
    exact Seated.entry (x := x) ⟨hrunning, hrest⟩
  | ended x hs hc o =>
    rcases hs with rfl | rfl
    · obtain ⟨hrunning, rest, rfl, hrest⟩ := seated_building.mp hu
      exact ⟨hrunning, hrest⟩
    · obtain ⟨hrunning, rest, rfl, hrest⟩ := seated_stepping.mp hu
      exact ⟨hrunning, hrest⟩
  | shed _ x s hs =>
    cases s with
    | loop => exact absurd rfl hs
    | telling tasks o => exact hu
    | building c =>
      obtain ⟨hrunning, rest, rfl, hrest⟩ := seated_building.mp hu
      exact ⟨hrunning, hrest⟩
    | stepping c =>
      obtain ⟨hrunning, rest, rfl, hrest⟩ := seated_stepping.mp hu
      exact ⟨hrunning, hrest⟩
  | built x task nextId =>
    obtain ⟨hrunning, rest, rfl, hrest⟩ := seated_building.mp hu
    exact ⟨hrunning, hrest⟩
  | awaits x task hc =>
    obtain ⟨hrunning, rest, rfl, hrest⟩ := seated_stepping.mp hu
    exact ⟨hrunning, hrest⟩
  | stray _ x c =>
    obtain ⟨hrunning, rest, rfl, hrest⟩ := seated_stepping.mp hu
    exact ⟨hrunning, hrest⟩
  | rest hx => exact hu.2
  | leave _ x => exact hu.2
  | build hx | resume hx => exact hu
  | _ => exact hu

/-! ### How often a task is about -/

theorem Table.total_mono {α : Type} (t : Table α) {g g' : α → Nat} (h : ∀ a, g a ≤ g' a) :
    t.total g ≤ t.total g' := by
  refine Finset.sum_le_sum fun i _ => ?_
  cases t.find? i with
  | none => exact Nat.le_refl _
  | some a => exact h a

/-- Each task of the action holds its own settler. -/
theorem Action.count_shares (held : C → List Handle) (a : Action C) (c : Nat) :
    (a.shares held).count (.task c) = if a.settler = c then 1 else 0 := by
  have hown (c' : Nat) (hs : List Handle) :
      (Share.task c' :: loose hs).count (.task c) = if c' = c then 1 else 0 := by
    by_cases hc : c' = c <;> simp [hc]
  cases a with
  | start code c' => exact hown c' _
  | resume task o =>
    rw [Action.shares, Task.shares, List.count_append, count_loose_task, Nat.add_zero]
    exact hown task.settler _

theorem Listener.count_shares (held : C → List Handle) (b : Nat) (w : Listener C) (c : Nat) :
    ((w.task? b).toList.map (·.settler)).count c ≤ (w.shares held).count (.task c) := by
  cases w with
  | call code => simp [Listener.task?]
  | resume b' task =>
    by_cases hb : b' = b <;> simp [Listener.task?, Listener.shares, Task.shares, List.count_cons, hb]

theorem count_listeners (held : C → List Handle) (b : Nat) (ws : List (Listener C)) (c : Nat) :
    ((ws.filterMap (Listener.task? b)).map (·.settler)).count c ≤
      (ws.flatMap (Listener.shares held)).count (.task c) := by
  induction ws with
  | nil => simp
  | cons w rest ih =>
    have hw := w.count_shares held b c
    rw [List.flatMap_cons, List.count_append]
    cases ht : w.task? b with
    | none =>
      rw [List.filterMap_cons_none ht]
      omega
    | some task =>
      rw [List.filterMap_cons_some ht, List.map_cons, List.count_cons]
      rw [ht] at hw
      simp only [Option.toList_some, List.map_cons, List.map_nil, List.count_cons, List.count_nil] at hw
      omega

theorem Frame.count_shares (B : Behavior C R) (b : Nat) (f : Frame C R) (c : Nat) :
    ((f.seat? b).toList.flatMap Seat.settlers).count c ≤ (f.shares B).count (.task c) := by
  cases f with
  | starting b' c' | resuming b' id c' =>
    by_cases hb : b' = b <;> simp [Frame.seat?, Frame.shares, Seat.settlers, hb, List.count_cons]
  | driving b' => by_cases hb : b' = b <;> simp [Frame.seat?, Seat.settlers, hb]
  | notifying ws o =>
    simpa [Frame.seat?, Frame.shares, Seat.settlers] using count_listeners B.held b ws c
  | _ => simp [Frame.seat?]

namespace Machine

variable {B : Behavior C R} {b c : Nat} {m : Machine C R}

/-- In how many places the task that settles `c` is. -/
def headcount (b c : Nat) (m : Machine C R) : Nat :=
  ((m.works b).stack.map Action.settler).count c + ((m.works b).seats.flatMap Seat.settlers).count c +
    m.store.completions.total fun k => (k.progress.wait b).settlers.count c

theorem count_seats (B : Behavior C R) (b c : Nat) (K : List (Frame C R)) :
    ((K.filterMap (Frame.seat? b)).flatMap Seat.settlers).count c ≤
      (K.flatMap (Frame.shares B)).count (.task c) := by
  induction K with
  | nil => simp
  | cons f K ih =>
    have hf := f.count_shares B b c
    rw [List.flatMap_cons, List.count_append]
    cases hs : f.seat? b with
    | none =>
      rw [List.filterMap_cons_none hs]
      omega
    | some s =>
      rw [List.filterMap_cons_some hs, List.flatMap_cons, List.count_append]
      rw [hs] at hf
      simp only [Option.toList_some, List.flatMap_cons, List.flatMap_nil, List.append_nil] at hf
      omega

theorem count_stack (held : C → List Handle) (as : List (Action C)) (c : Nat) :
    (as.map Action.settler).count c = (as.flatMap (Action.shares held)).count (.task c) := by
  induction as with
  | nil => rfl
  | cons a as ih =>
    rw [List.map_cons, List.count_cons, List.flatMap_cons, List.count_append, ih,
      Action.count_shares]
    simp only [beq_iff_eq]
    omega

/-- Each place is one in which the settler is held. -/
theorem headcount_le (B : Behavior C R) (b c : Nat) (m : Machine C R) (ys : List Share) :
    m.headcount b c ≤ holdings B m.store m.control ys (.task c) := by
  have hseats := count_seats B b c m.control
  have hstack : ((m.works b).stack.map Action.settler).count c ≤
      m.store.bridges.total fun x => (x.shares B.held).count (.task c) := by
    rw [count_stack B.held]
    cases hx : m.store.bridges.find? b with
    | none => simp [Works.stack, works, hx]
    | some x =>
      have hle := Table.le_total hx fun x => (x.shares B.held).count (.task c)
      simpa [Works.stack, works, hx, Bridge.shares] using hle
  have hwaits : (m.store.completions.total fun k => (k.progress.wait b).settlers.count c) ≤
      m.store.completions.total fun k => (k.progress.shares B.held).count (.task c) := by
    refine Table.total_mono _ fun k => ?_
    cases hk : k.progress with
    | pending ws => exact count_listeners B.held b ws c
    | settled o => exact Nat.zero_le _
  have hseats' : ((m.works b).seats.flatMap Seat.settlers).count c ≤ _ := hseats
  simp only [headcount, holdings, Store.held]
  omega

/-- No task is in two places. -/
theorem headcount_le_one (h : Balanced B m) (b c : Nat) : m.headcount b c ≤ 1 := by
  have hle := headcount_le B b c m (m.focus.shares B)
  by_contra hmore
  obtain ⟨n, htally⟩ := h.covered.own c (by omega)
  have hafford := h.covered.afford.completions c
  rw [htally] at hafford
  have hsettlers : worth (holdings B m.store m.control (m.focus.shares B)) (.settler c) ≤ 1 :=
    hafford.2
  simp only [worth] at hsettlers
  omega

theorem headcount_pos (hc : (m.works b).Holds c) : 0 < m.headcount b c := by
  unfold headcount
  cases hc with
  | queued ha hc =>
    have hpos := List.count_pos_iff.mpr (List.mem_map.mpr ⟨_, ha, hc⟩)
    omega
  | seated hs hc =>
    have hpos := List.count_pos_iff.mpr (List.mem_flatMap.mpr ⟨_, hs, hc⟩)
    omega
  | @waiting k x hk hc =>
    obtain ⟨y, hy, rfl⟩ := Option.map_eq_some_iff.mp hk
    have hle := Table.le_total hy fun k => (k.progress.wait b).settlers.count c
    have hpos := List.count_pos_iff.mpr hc
    omega

/-- As long as a task is somewhere, its completion is pending. -/
theorem pending_of_holds (h : Balanced B m) (hc : (m.works b).Holds c) :
    ∃ tasks, (m.works b).waits c = some (.pending tasks) := by
  have hheld := Nat.lt_of_lt_of_le (headcount_pos hc) (headcount_le B b c m (m.focus.shares B))
  obtain ⟨listeners, n, hk⟩ := pending_of_task h.covered hheld
  exact ⟨_, waits_of_find? hk⟩

/-! ### The loop -/

theorem backed_of_append {frames? : Nat → Option (List (FrameCopy C))} {K L : List (Frame C R)}
    (h : Backed B frames? (K ++ L)) : Backed B frames? L := by
  induction K with
  | nil => exact h
  | cons f K ih => exact ih h.2

theorem bridge_of_loop (h : Balanced B m) (hloop : .loop ∈ (m.works b).seats) :
    (m.works b).bridge ≠ none := by
  obtain ⟨f, hf, hseat⟩ := List.mem_filterMap.mp hloop
  have hdriving : f = .driving b := by
    cases f with
    | driving b' =>
      by_cases hb : b' = b
      · rw [hb]
      · simp [Frame.seat?, hb] at hseat
    | starting b' c | resuming b' id c =>
      by_cases hb : b' = b <;> simp [Frame.seat?, hb] at hseat
    | notifying ws o => simp [Frame.seat?] at hseat
    | _ => cases hseat
  subst hdriving
  obtain ⟨K, L, hcontrol⟩ := List.append_of_mem hf
  have hbacked := h.covered.backed
  rw [hcontrol] at hbacked
  have hheld : .loose (.bridge b) ∈ m.control.flatMap (Frame.shares B) := by
    rw [hcontrol, List.flatMap_append, List.flatMap_cons]
    exact List.mem_append_right _ (List.mem_append_right _ (backed_of_append hbacked).1)
  obtain ⟨x, hx⟩ := bridge_of_backed h.covered hheld
  exact fun hnone => by cases hx.symm.trans hnone

/-- A bridge is at work if and only if it is in its loop. -/
theorem History.seated {past : List (Machine C R)} (hB : B.Honest) (h : History B past m) (b : Nat) :
    Seated (m.works b).running (m.works b).seats := by
  induction h with
  | begin onward => exact rfl
  | move h ih => exact (does_step (h.balanced hB)).seated ih (bridge_of_loop (h.move.balanced hB))
  | @anew past m h ended events hs onward =>
    have hsame : (⟨{ m.store with events }, [], .release hs onward⟩ : Machine C R).works b =
        m.works b := by
      simp only [works, ended]
    rwa [hsame]

end Machine

end Strand
