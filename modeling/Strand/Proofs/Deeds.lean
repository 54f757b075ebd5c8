import Strand.Proofs.Duties
import Strand.Proofs.Settlements

/-! # Deeds — what a move can do to the tasks of a bridge

    A task is known by the completion that it settles. It comes to a bridge as an
    action, is built and advanced by frames of the control stack, and leaves the
    bridge as a listener of a completion that it awaits, to come back as an
    action.

    * `Works` is all of a machine that concerns the tasks of one bridge.
    * `TaskEvent` is what can be seen of a task: it is started, resumed, awaits
      something, and ends.
    * `Deed` lists what a move can do, with the event that is seen.
      `does_step` says that every move of a balanced machine does one such deed. -/

namespace Strand

variable {C R : Type}

/-- What is seen of a task. The task settles `c`. -/
inductive TaskEvent where
  | started (c : Nat)
  /-- The task is resumed with this input. -/
  | resumed (c : Nat) (input : Outcome Value)
  /-- The task awaits the completion `awaited`. -/
  | awaits (c awaited : Nat)
  /-- The task has not been built, is done, or has panicked. -/
  | ended (c : Nat) (o : Outcome Value)

/-- What a frame does for the tasks of a bridge. -/
inductive Seat (C : Type) where
  | loop
  | building (c : Nat)
  | stepping (c : Nat)
  /-- These tasks are still to be told how what they await has settled. -/
  | telling (tasks : List (Task C)) (o : Outcome Value)

/-- What a completion is to the tasks of a bridge. -/
inductive Wait (C : Type) where
  | pending (tasks : List (Task C))
  | settled (o : Outcome Value)

/-- All that concerns the tasks of one bridge. -/
structure Works (C : Type) where
  bridge : Option (Bridge C)
  /-- Topmost first. -/
  seats : List (Seat C)
  waits : Nat → Option (Wait C)

/-- The task of bridge `b` that listens. -/
def Listener.task? (b : Nat) : Listener C → Option (Task C)
  | .call _ => none
  | .resume b' task => if b' = b then some task else none

def Progress.wait (b : Nat) : Progress C → Wait C
  | .pending listeners => .pending (listeners.filterMap (Listener.task? b))
  | .settled o => .settled o

def Frame.seat? (b : Nat) : Frame C R → Option (Seat C)
  | .driving b' => if b' = b then some .loop else none
  | .starting b' c => if b' = b then some (.building c) else none
  | .resuming b' _ c => if b' = b then some (.stepping c) else none
  | .notifying listeners o => some (.telling (listeners.filterMap (Listener.task? b)) o)
  | _ => none

theorem Frame.seat?_of_not_seated {f : Frame C R} (hf : f.seated = false) (b : Nat) :
    f.seat? b = none := by
  cases f <;> first
    | rfl
    | cases hf

/-- The event that is seen when the action is taken from the stack. -/
def Action.event? : Action C → Option TaskEvent
  | .start _ _ => none
  | .resume task o => some (.resumed task.settler (o.getD .unit))

/-- The event that is seen when the program asks; `c` is the number of the next
    completion. -/
def Request.taskEvent? (b c : Nat) : Request C → Option TaskEvent
  | .run b' _ => if b' = b then some (.started c) else none
  | _ => none

/-- The event that is seen when the frame is handed an answer. -/
def Frame.answered? (b : Nat) (bridge : Option (Bridge C)) (a : Answer C) :
    Frame C R → Option TaskEvent
  | .driving b' =>
    if b' = b then bridge.bind fun x => x.stack.head?.bind Action.event? else none
  | .starting b' c =>
    match a with
    | .outcome (.failure e) => if b' = b then some (.ended c (.failure e)) else none
    | _ => none
  | .resuming b' _ c =>
    match a with
    | .stepped (.done o) _ => if b' = b then some (.ended c o) else none
    | .stepped (.yield (.await awaited)) _ => if b' = b then some (.awaits c awaited) else none
    | _ => none
  | _ => none

/-- The event that is seen when a panic passes the frame. -/
def Frame.unwound? (b : Nat) (catches : Bool) (payload : Payload) : Frame C R → Option TaskEvent
  | .starting b' c | .resuming b' _ c =>
    if b' = b ∧ catches = true then some (.ended c (.failure (.panicked payload.message))) else none
  | _ => none

/-- A panic that passes the frame is not caught, and takes off a seat of the bridge. -/
def Frame.sheds (b : Nat) (catches : Bool) : Frame C R → Bool
  | .notifying _ _ => true
  | .driving b' => b' = b
  | .starting b' _ | .resuming b' _ _ => b' = b ∧ catches = false
  | _ => false

namespace Bridge

/-- An action is put on the bridge, which is then at work. -/
def wake (x : Bridge C) (a : Action C) : Bridge C := { x with stack := a :: x.stack, running := true }

/-- The loop that is entered for it, unless the bridge has been at work. -/
def entry (x : Bridge C) : List (Seat C) := if x.running then [] else [.loop]

end Bridge

/-- What can be done to the tasks of a bridge. `entered` says that its loop has
    just been entered, `panics` that a panic takes off the seat on top, `astray` that
    a task has returned something that a bridge cannot act on. -/
inductive Deed (entered panics astray : Prop) : Option TaskEvent → Works C → Works C → Prop where
  | still (u : Works C) : Deed entered panics astray none u u
  | make (settings : Settings) (w : Nat → Option (Wait C)) :
      Deed entered panics astray none ⟨none, [], w⟩ ⟨some ⟨settings, [], false, 0⟩, [], w⟩
  | scrap (x : Bridge C) (w : Nat → Option (Wait C)) :
      Deed entered panics astray none ⟨some x, [], w⟩ ⟨none, [], w⟩
  -- completions
  | open (x : Option (Bridge C)) {c : Nat} {w : Nat → Option (Wait C)} (hc : w c = none) :
      Deed entered panics astray none ⟨x, [], w⟩
        ⟨x, [], Function.update w c (some (.pending []))⟩
  | preset (x : Option (Bridge C)) {c : Nat} {w : Nat → Option (Wait C)} (hc : w c = none)
      (o : Outcome Value) :
      Deed entered panics astray none ⟨x, [], w⟩
        ⟨x, [], Function.update w c (some (.settled o))⟩
  | forget (x : Option (Bridge C)) {c : Nat} {o : Outcome Value} {w : Nat → Option (Wait C)}
      (hc : w c = some (.settled o)) :
      Deed entered panics astray none ⟨x, [], w⟩ ⟨x, [], Function.update w c none⟩
  | settle (x : Option (Bridge C)) {c : Nat} {tasks : List (Task C)} {w : Nat → Option (Wait C)}
      (hc : w c = some (.pending tasks)) (o : Outcome Value) :
      Deed entered panics astray none ⟨x, [], w⟩
        ⟨x, [.telling tasks o], Function.update w c (some (.settled o))⟩
  -- listeners
  /-- A task is told, and comes back to the bridge. -/
  | tell (x : Bridge C) (task : Task C) (tasks : List (Task C)) (o : Outcome Value)
      (w : Nat → Option (Wait C)) (hx : x.running = false → entered) :
      Deed entered panics astray none ⟨some x, [.telling (task :: tasks) o], w⟩
        ⟨some (x.wake (.resume task (some o))), x.entry ++ [.telling tasks o], w⟩
  | told (x : Option (Bridge C)) (o : Outcome Value) (w : Nat → Option (Wait C)) :
      Deed entered panics astray none ⟨x, [.telling [] o], w⟩ ⟨x, [], w⟩
  -- the loop
  | run (x : Bridge C) {c : Nat} {w : Nat → Option (Wait C)} (hc : w c = none) (code : C)
      (hx : x.running = false → entered) :
      Deed entered panics astray (some (.started c)) ⟨some x, [], w⟩
        ⟨some (x.wake (.start code c)), x.entry, Function.update w c (some (.pending []))⟩
  | build {x : Bridge C} {code : C} {c : Nat} {rest : List (Action C)}
      (hx : x.stack = .start code c :: rest) (w : Nat → Option (Wait C)) :
      Deed entered panics astray none ⟨some x, [.loop], w⟩
        ⟨some { x with stack := rest }, [.building c, .loop], w⟩
  | resume {x : Bridge C} {task : Task C} {o : Option (Outcome Value)} {rest : List (Action C)}
      (hx : x.stack = .resume task o :: rest) (w : Nat → Option (Wait C)) :
      Deed entered panics astray (some (.resumed task.settler (o.getD .unit)))
        ⟨some x, [.loop], w⟩ ⟨some { x with stack := rest }, [.stepping task.settler, .loop], w⟩
  | rest {x : Bridge C} (hx : x.stack = []) (w : Nat → Option (Wait C)) :
      Deed entered panics astray none ⟨some x, [.loop], w⟩
        ⟨some { x with running := false }, [], w⟩
  -- tasks
  | built (x : Bridge C) (task : Task C) (nextId : UInt64) (w : Nat → Option (Wait C)) :
      Deed entered panics astray none ⟨some x, [.building task.settler], w⟩
        ⟨some { x with stack := .resume task none :: x.stack, nextId }, [], w⟩
  | awaits (x : Option (Bridge C)) (task : Task C) {c : Nat} {tasks : List (Task C)}
      {w : Nat → Option (Wait C)} (hc : w c = some (.pending tasks)) :
      Deed entered panics astray (some (.awaits task.settler c))
        ⟨x, [.stepping task.settler], w⟩
        ⟨x, [], Function.update w c (some (.pending (tasks ++ [task])))⟩
  | awaitsSettled (x : Bridge C) (task : Task C) {c : Nat} {o : Outcome Value}
      {w : Nat → Option (Wait C)} (hc : w c = some (.settled o))
      (hx : x.running = false → entered) :
      Deed entered panics astray (some (.awaits task.settler c))
        ⟨some x, [.stepping task.settler], w⟩
        ⟨some (x.wake (.resume task (some o))), x.entry, w⟩
  /-- A task comes to its end, and settles its completion. -/
  | ended (x : Option (Bridge C)) {s : Seat C} {c : Nat} (hs : s = .building c ∨ s = .stepping c)
      {tasks : List (Task C)} {w : Nat → Option (Wait C)} (hc : w c = some (.pending tasks))
      (o : Outcome Value) :
      Deed entered panics astray (some (.ended c o)) ⟨x, [s], w⟩
        ⟨x, [.telling tasks o], Function.update w c (some (.settled o))⟩
  | stray (h : astray) (x : Option (Bridge C)) (c : Nat) (w : Nat → Option (Wait C)) :
      Deed entered panics astray none ⟨x, [.stepping c], w⟩ ⟨x, [], w⟩
  -- panics
  | shed (h : panics) (x : Option (Bridge C)) (s : Seat C) (hs : s ≠ .loop)
      (w : Nat → Option (Wait C)) :
      Deed entered panics astray none ⟨x, [s], w⟩ ⟨x, [], w⟩
  | leave (h : panics) (x : Bridge C) (w : Nat → Option (Wait C)) :
      Deed entered panics astray none ⟨some x, [.loop], w⟩
        ⟨some { x with running := false }, [], w⟩

/-- At most one deed is done, with the topmost of the seats. -/
def Does (entered panics astray : Prop) (e : Option TaskEvent) (u v : Works C) : Prop :=
  ∃ top top' below, u.seats = top ++ below ∧ v.seats = top' ++ below ∧
    Deed entered panics astray e ⟨u.bridge, top, u.waits⟩ ⟨v.bridge, top', v.waits⟩

theorem Does.still {entered panics astray : Prop} {u v : Works C} (h : v = u) :
    Does entered panics astray none u v := by
  subst h
  exact ⟨[], [], v.seats, rfl, rfl, .still _⟩

section Does

variable {entered panics astray : Prop} {e : Option TaskEvent} {u v : Works C}
  {x x' : Option (Bridge C)} {w w' : Nat → Option (Wait C)} {s : Seat C} {top below : List (Seat C)}

/-- Something is done from outside of the seats. -/
theorem Does.of_outside (hu : u = ⟨x, below, w⟩)
    (h : Deed entered panics astray e ⟨x, [], w⟩ ⟨x', top, w'⟩) (hv : v = ⟨x', top ++ below, w'⟩) :
    Does entered panics astray e u v := by
  subst hu hv
  exact ⟨[], top, below, rfl, rfl, h⟩

/-- A seat is taken off. -/
theorem Does.of_seat (hu : u = ⟨x, s :: below, w⟩)
    (h : Deed entered panics astray e ⟨x, [s], w⟩ ⟨x', top, w'⟩) (hv : v = ⟨x', top ++ below, w'⟩) :
    Does entered panics astray e u v := by
  subst hu hv
  exact ⟨[s], top, below, rfl, rfl, h⟩

end Does

namespace Machine

variable {b : Nat} (m : Machine C R)

def works (b : Nat) (m : Machine C R) : Works C where
  bridge := m.store.bridges.find? b
  seats := m.control.filterMap (Frame.seat? b)
  waits c := (m.store.completions.find? c).map fun k => k.progress.wait b

/-- What is seen of the tasks of the bridge in the next move. -/
def taskEvent? (b : Nat) (m : Machine C R) : Option TaskEvent :=
  match m.focus with
  | .release [] (.act (.ask request _)) => request.taskEvent? b m.store.completions.cells.size
  | .release [] (.give a) =>
    m.control.head?.bind (Frame.answered? b (m.store.bridges.find? b) a)
  | .release [] (.unwind payload _) =>
    m.control.head?.bind (Frame.unwound? b (m.bridgeCatches b) payload)
  | _ => none

/-- The loop of the bridge is on top, and has been handed nothing. -/
def Entered (b : Nat) (m : Machine C R) : Prop :=
  ∃ K, m.control = .driving b :: K ∧ m.focus = .release [] (.give .nothing)

/-- A panic is about to pass the top frame, which is a seat of the bridge and does not
    catch it. -/
def Sheds (b : Nat) (m : Machine C R) : Prop :=
  ∃ payload salvage f K, m.control = f :: K ∧
    m.focus = .release [] (.unwind payload salvage) ∧ f.sheds b (m.bridgeCatches b) = true

/-- A task of the bridge has returned something else than a step, or a step that
    neither is the last one nor awaits a completion. -/
def Astray (b : Nat) (m : Machine C R) : Prop :=
  ∃ id c K a, m.control = .resuming b id c :: K ∧ m.focus = .release [] (.give a) ∧
    (∀ o script, a ≠ .stepped (.done o) script) ∧
    ∀ c' script, a ≠ .stepped (.yield (.await c')) script

/-! ### Moves that are no business of a bridge -/

theorem works_eq {m n : Machine C R} (hbridge : n.store.bridges.find? b = m.store.bridges.find? b)
    (hcontrol : n.control.filterMap (Frame.seat? b) = m.control.filterMap (Frame.seat? b))
    (hwaits : ∀ c, n.progress? c = m.progress? c) : n.works b = m.works b := by
  have hwait (o : Machine C R) (c : Nat) :
      (o.works b).waits c = (o.progress? c).map (Progress.wait b) := by
    rw [progress?, Option.map_map]
    rfl
  simp only [works, hbridge, hcontrol, Works.mk.injEq, true_and]
  refine funext fun c => (hwait n c).trans ?_
  rw [hwaits c]
  exact (hwait m c).symm

theorem Untouched.works {m n : Machine C R} (h : Untouched m n) : n.works b = m.works b := by
  obtain ⟨fs, hcontrol, hquiet⟩ := h.control
  refine works_eq (h.bridges b) ?_ h.progress
  rw [hcontrol, List.filterMap_append, List.append_left_eq_self, List.filterMap_eq_nil_iff]
  exact fun f hf => Frame.seat?_of_not_seated (hquiet f hf) b

@[simp] theorem works_retain (hs : List Handle) : (m.retain hs).works b = m.works b :=
  (untouched_retain m hs).works

@[simp] theorem works_bridgeReport (b' : Nat) (r : Report) :
    (m.withStore (·.bridgeReport b' r)).works b = m.works b :=
  (untouched_bridgeReport m b' r).works

theorem works_push_of_none {f : Frame C R} (hf : f.seat? b = none) :
    (m.push f).works b = m.works b := by
  simp only [works, push, List.filterMap_cons, hf]

theorem works_push_of_some {f : Frame C R} {s : Seat C} (hf : f.seat? b = some s) :
    (m.push f).works b = { m.works b with seats := s :: (m.works b).seats } := by
  simp only [works, push, List.filterMap_cons, hf]

/-- Frames that do nothing for a bridge may be put on and taken off. -/
theorem works_pushed {f : Frame C R} {n : Machine C R} (hf : f.seat? b = none)
    (h : n.works b = m.works b) : (n.push f).works b = m.works b :=
  (works_push_of_none n hf).trans h

/-! ### Completions and bridges -/

variable {m}

theorem waits_of_find? {c : Nat} {k : Completion C} (hc : m.store.completions.find? c = some k) :
    (m.works b).waits c = some (k.progress.wait b) := by
  simp only [works, hc, Option.map_some]

variable (m)

theorem works_setCompletion {c : Nat} {k : Completion C}
    (hc : m.store.completions.find? c = some k) (k' : Completion C) :
    (m.setCompletion c k').works b =
      { m.works b with waits := Function.update (m.works b).waits c (some (k'.progress.wait b)) } := by
  refine congrArg (Works.mk _ _) (funext fun c' => ?_)
  show ((m.store.completions.set c k').find? c').map _ = _
  rw [Table.find?_set, Function.update_apply]
  split
  · next heq => rw [heq, hc]; rfl
  · rfl

/-- A pending completion settles. -/
theorem works_settle {c n : Nat} {listeners : List (Listener C)}
    (hc : m.store.completions.find? c = some ⟨.pending listeners, n⟩) (o : Outcome Value) :
    (m.settle c o).works b =
      ⟨(m.works b).bridge,
        .telling (listeners.filterMap (Listener.task? b)) o :: (m.works b).seats,
        Function.update (m.works b).waits c (some (.settled o))⟩ := by
  have hprogress := m.store.progress_retainAll o.handles c
  rw [hc, Option.map_some] at hprogress
  obtain ⟨k, hk, -⟩ := Option.map_eq_some_iff.mp hprogress
  have hset := works_setCompletion (b := b) (m.retain o.handles) hk ⟨.settled o, n⟩
  rw [works_retain] at hset
  simp only [settle, hc]
  refine Eq.trans (b := ((m.retain o.handles).setCompletion c ⟨.settled o, n⟩ |>.push
    (.notifying listeners o)).works b) rfl ?_
  rw [works_push_of_some _ rfl, hset]
  rfl

/-- A completion that has settled, or is gone, does not settle again. -/
theorem works_settle_idle {c : Nat}
    (hc : ∀ listeners n, m.store.completions.find? c ≠ some ⟨.pending listeners, n⟩)
    (o : Outcome Value) : (m.settle c o).works b = m.works b := by
  unfold settle
  split
  · next listeners n h => exact absurd h (hc listeners n)
  · rfl

section Does

variable {entered panics astray : Prop} {e : Option TaskEvent}

theorem does_settle (c : Nat) (o : Outcome Value) :
    Does entered panics astray none (m.works b) ((m.settle c o).works b) := by
  by_cases hc : ∃ listeners n, m.store.completions.find? c = some ⟨.pending listeners, n⟩
  · obtain ⟨listeners, n, hc⟩ := hc
    exact .of_outside rfl (.settle _ (waits_of_find? hc) o) (works_settle m hc o)
  · exact .still (works_settle_idle m (fun listeners n h => hc ⟨listeners, n, h⟩) o)

end Does

theorem works_onBridge (b' : Nat) (f : Bridge C → Bridge C) :
    (m.onBridge b' f).works b =
      if b = b' then { m.works b with bridge := (m.works b).bridge.map f } else m.works b := by
  have hfind : (m.onBridge b' f).store.bridges.find? b =
      if b = b' then (m.store.bridges.find? b).map f else m.store.bridges.find? b :=
    Table.find?_modify m.store.bridges b' f b
  split
  · next heq =>
    rw [if_pos heq] at hfind
    simp only [works, hfind]
    rfl
  · next hne =>
    rw [if_neg hne] at hfind
    exact works_eq hfind rfl fun _ => rfl

theorem bridgeRunning_of_find? {x : Bridge C} (hx : m.store.bridges.find? b = some x) :
    m.bridgeRunning b = x.running := by simp [bridgeRunning, hx]

theorem works_enterBridge_of_ne {b' : Nat} (h : b' ≠ b) :
    (m.enterBridge b').works b = m.works b := by
  show ((m.onBridge b' _).push (.driving b')).works b = _
  rw [works_push_of_none (f := .driving b') _ (if_neg h), works_onBridge, if_neg (Ne.symm h)]

/-- The loop of the bridge is entered. -/
theorem works_enterBridge :
    (m.enterBridge b).works b =
        ⟨(m.works b).bridge.map fun x => { x with running := true }, .loop :: (m.works b).seats,
          (m.works b).waits⟩ ∧ (m.enterBridge b).Entered b := by
  refine ⟨?_, _, rfl, rfl⟩
  show ((m.onBridge b _).push (.driving b)).works b = _
  rw [works_push_of_some (f := .driving b) _ (if_pos rfl), works_onBridge, if_pos rfl]

/-- An action is put on the bridge, which goes on or begins to work. -/
theorem works_pushAction {x : Bridge C} (hx : m.store.bridges.find? b = some x) (a : Action C) :
    (m.pushAction b a).works b = { m.works b with bridge := some { x with stack := a :: x.stack } } ∧
      (m.pushAction b a).bridgeRunning b = x.running := by
  have hpushed : (m.pushAction b a).works b =
      { m.works b with bridge := some { x with stack := a :: x.stack } } := by
    rw [pushAction, works_onBridge, if_pos rfl]
    simp only [works, hx, Option.map_some]
  exact ⟨hpushed, bridgeRunning_of_find? _ (x := { x with stack := a :: x.stack })
    (congrArg Works.bridge hpushed)⟩

/-- A task comes back to its bridge. -/
theorem works_wakeTask {x : Bridge C} (hx : m.store.bridges.find? b = some x) (task : Task C)
    (o : Outcome Value) :
    (m.wakeTask b task o).works b =
        ⟨some (x.wake (.resume task (some o))), x.entry ++ (m.works b).seats, (m.works b).waits⟩ ∧
      (x.running = false → (m.wakeTask b task o).Entered b) := by
  obtain ⟨hpushed, hrunning⟩ := works_pushAction m hx (.resume task (some o))
  unfold wakeTask
  dsimp only
  rw [hrunning]
  cases hrun : x.running with
  | true =>
    refine ⟨?_, fun h => by cases h⟩
    refine Eq.trans (b := (m.pushAction b (.resume task (some o))).works b) rfl (hpushed.trans ?_)
    simp [Bridge.wake, Bridge.entry, hrun]
  | false =>
    obtain ⟨hentered, hat⟩ := works_enterBridge (b := b)
      (((m.pushAction b (.resume task (some o))).withStore (·.bridgeReport b .drivingAgain)).push
        (.holding [.bridge b]))
    refine ⟨hentered.trans ?_, fun _ => hat⟩
    rw [works_push_of_none _ rfl, works_bridgeReport, hpushed]
    simp [Bridge.wake, Bridge.entry, hrun]

theorem works_wakeTask_of_ne {b' : Nat} (h : b' ≠ b) (task : Task C) (o : Outcome Value) :
    (m.wakeTask b' task o).works b = m.works b := by
  have hpushed : (m.pushAction b' (.resume task (some o))).works b = m.works b := by
    rw [pushAction, works_onBridge, if_neg (Ne.symm h)]
  unfold wakeTask
  dsimp only
  split
  · exact hpushed
  · refine (works_enterBridge_of_ne _ h).trans ?_
    exact works_pushed m rfl ((works_bridgeReport _ _ _).trans hpushed)

/-- A new completion has a number that none has had before. -/
theorem works_alloc (n : Nat) (k : Completion C) :
    (m.withStore fun s => { s with completions := (m.store.completions.alloc n k).2 }).works b =
        { m.works b with
          waits := Function.update (m.works b).waits m.store.completions.cells.size
            (some (k.progress.wait b)) } ∧
      (m.works b).waits m.store.completions.cells.size = none := by
  constructor
  · refine congrArg (Works.mk _ _) (funext fun c => ?_)
    show ((m.store.completions.alloc n k).2.find? c).map _ = _
    rw [Table.find?_alloc, Function.update_apply]
    split <;> rfl
  · have hnone : m.store.completions.find? m.store.completions.cells.size = none := by
      simp [Table.find?, Table.cell?_size]
    simp [works, hnone]

section Does

variable {entered panics astray : Prop} {e : Option TaskEvent}

theorem does_newCompletion :
    Does entered panics astray none (m.works b) (m.newCompletion.2.works b) := by
  obtain ⟨hworks, hnew⟩ := works_alloc (b := b) m 2 ⟨.pending [], 1⟩
  exact .of_outside rfl (.open _ hnew) hworks

theorem does_newSettled (o : Outcome Value) :
    Does entered panics astray none (m.works b) ((m.newSettled o).2.works b) := by
  obtain ⟨hworks, hnew⟩ := works_alloc (b := b) m 1 ⟨.settled o, 0⟩
  exact .of_outside rfl (.preset _ hnew o) hworks

theorem does_runJob (job : Job C) :
    Does entered panics astray none (m.works b) ((m.runJob job).works b) := by
  cases job with
  | call code => exact .still rfl
  | settle c o => exact does_settle (m.push (.holding [.settler c])) c o

theorem does_drainNext (q ran : Nat) :
    Does entered panics astray none (m.works b) ((m.drainNext q ran).works b) := by
  unfold drainNext
  split
  · next job rest _ =>
    exact does_runJob ((m.withStore fun s =>
      { s with queues := s.queues.set q rest }).push (.draining q (ran + 1))) job
  · exact .still rfl

theorem does_rootStepped (settler : Nat) (inner : Script C) (step : Step C) :
    Does entered panics astray none (m.works b) ((m.rootStepped settler inner step).works b) := by
  cases step with
  | done o =>
    have hdoes : Does entered panics astray none _ _ := does_settle (b := b)
      ((m.retain o.handles).push (.reporting inner settler o)) settler o
    rwa [works_push_of_none _ rfl, works_retain] at hdoes
  | yield i => exact .still rfl

theorem does_start (held : C → List Handle) (p : Nat) (code : C) :
    Does entered panics astray none (m.works b) ((m.start held p code).works b) := by
  unfold start
  dsimp only
  split
  · exact does_newSettled (m.push (.holding [.scheduler p])) _
  · exact does_newCompletion (m.push (.holding [.scheduler p]))

/-! ### Listeners -/

/-- A pending completion gets another listener. -/
theorem works_await {c n : Nat} {listeners : List (Listener C)}
    (hc : m.store.completions.find? c = some ⟨.pending listeners, n⟩) (held : C → List Handle)
    (w : Listener C) :
    (m.await held c w).works b =
      { m.works b with
        waits := Function.update (m.works b).waits c
          (some (.pending ((listeners ++ [w]).filterMap (Listener.task? b)))) } := by
  simp only [await, hc]
  exact works_setCompletion m hc ⟨.pending (listeners ++ [w]), n⟩

/-- A callback of the program does nothing to the tasks of a bridge. -/
theorem works_await_call (held : C → List Handle) (c : Nat) (code : C) :
    (m.await held c (.call code)).works b = m.works b := by
  by_cases hc : ∃ listeners n, m.store.completions.find? c = some ⟨.pending listeners, n⟩
  · obtain ⟨listeners, n, hc⟩ := hc
    rw [works_await m hc, List.filterMap_append]
    have hsame : (m.works b).waits c = some (.pending (listeners.filterMap (Listener.task? b))) :=
      waits_of_find? hc
    simp only [List.filterMap_cons, Listener.task?, List.filterMap_nil, List.append_nil, ← hsame,
      Function.update_eq_self]
  · unfold await
    split
    · next listeners n h => exact absurd ⟨listeners, n, h⟩ hc
    · exact works_retain m _
    · rfl

/-- The next listener is told. Its bridge is there. -/
theorem does_notify (listeners : List (Listener C)) (o : Outcome Value)
    (halive : ∀ task rest, listeners = .resume b task :: rest →
      ∃ x, m.store.bridges.find? b = some x) :
    Does ((m.notify listeners o).Entered b) panics astray none
      ((m.push (.notifying listeners o)).works b) ((m.notify listeners o).works b) := by
  have hseat (listeners : List (Listener C)) (n : Machine C R) :
      (n.push (.notifying listeners o)).works b =
        ⟨(n.works b).bridge, .telling (listeners.filterMap (Listener.task? b)) o :: (n.works b).seats,
          (n.works b).waits⟩ := works_push_of_some n rfl
  cases listeners with
  | nil => exact .of_seat (hseat _ m) (.told _ o _) rfl
  | cons w rest =>
    have hrest : ((m.retain o.handles).push (.notifying rest o)).works b =
        ⟨(m.works b).bridge, .telling (rest.filterMap (Listener.task? b)) o :: (m.works b).seats,
          (m.works b).waits⟩ := by rw [hseat, works_retain]
    cases w with
    | call code => exact .still (hrest.trans (hseat (.call code :: rest) m).symm)
    | resume b' task =>
      by_cases hb : b' = b
      · subst hb
        obtain ⟨x, hx⟩ := halive task rest rfl
        obtain ⟨hwoken, hentered⟩ := works_wakeTask (b := b')
          ((m.retain o.handles).push (.notifying rest o)) (x := x)
          ((find?_bridges_retainAll m.store o.handles b').trans hx) task o
        rw [hrest] at hwoken
        have hentered : x.running = false →
            (m.notify (.resume b' task :: rest) o).Entered b' := hentered
        have htask : (Listener.resume b' task :: rest).filterMap (Listener.task? b') =
            task :: rest.filterMap (Listener.task? b') := by simp [Listener.task?]
        have hbefore : (m.push (.notifying (.resume b' task :: rest) o)).works b' =
            ⟨some x, .telling (task :: rest.filterMap (Listener.task? b')) o :: (m.works b').seats,
              (m.works b').waits⟩ := by
          rw [hseat, htask]
          simp only [works, hx]
        refine .of_seat hbefore
          (.tell x task (rest.filterMap (Listener.task? b')) o (m.works b').waits hentered)
          (hwoken.trans ?_)
        simp
      · refine .still ((works_wakeTask_of_ne _ hb task o).trans (hrest.trans ?_))
        rw [hseat]
        simp [Listener.task?, hb]

/-! ### Tasks -/

/-- A task awaits a completion, which is there. -/
theorem does_await (held : C → List Handle) {c : Nat} {k : Completion C}
    (hc : m.store.completions.find? c = some k) {x : Bridge C}
    (hx : m.store.bridges.find? b = some x) (task : Task C) :
    Does ((m.await held c (.resume b task)).Entered b) panics astray
      (some (.awaits task.settler c))
      ⟨(m.works b).bridge, .stepping task.settler :: (m.works b).seats, (m.works b).waits⟩
      ((m.await held c (.resume b task)).works b) := by
  have hwait := waits_of_find? (b := b) hc
  obtain ⟨progress, n⟩ := k
  cases progress with
  | pending listeners =>
    refine .of_seat rfl (.awaits _ task hwait) ((works_await m hc held _).trans ?_)
    simp [List.filterMap_append, Listener.task?]
  | settled o =>
    have htold : m.await held c (.resume b task) =
        ((m.retain o.handles).push (.replying .unit)).wakeTask b task o := by
      simp only [await, hc, tellListener]
    obtain ⟨hwoken, hentered⟩ := works_wakeTask (b := b)
      ((m.retain o.handles).push (.replying .unit)) (x := x)
      ((find?_bridges_retainAll m.store o.handles b).trans hx) task o
    rw [works_push_of_none _ rfl, works_retain] at hwoken
    rw [htold]
    refine .of_seat (x := some x) ?_ (.awaitsSettled x task hwait hentered) hwoken
    simp only [works, hx]

/-- Awaiting does nothing to the tasks of other bridges. -/
theorem works_await_of_ne (held : C → List Handle) (c : Nat) {b' : Nat} (h : b' ≠ b) (task : Task C) :
    (m.await held c (.resume b' task)).works b = m.works b := by
  by_cases hc : ∃ listeners n, m.store.completions.find? c = some ⟨.pending listeners, n⟩
  · obtain ⟨listeners, n, hc⟩ := hc
    rw [works_await m hc, List.filterMap_append]
    have hsame : (m.works b).waits c = some (.pending (listeners.filterMap (Listener.task? b))) :=
      waits_of_find? hc
    simp only [List.filterMap_cons, Listener.task?, if_neg h, List.filterMap_nil, List.append_nil,
      ← hsame, Function.update_eq_self]
  · unfold await
    split
    · next listeners n h => exact absurd ⟨listeners, n, h⟩ hc
    · next o _ _ =>
      refine (works_wakeTask_of_ne _ h task o).trans ?_
      exact works_pushed m rfl (works_retain m _)
    · rfl

/-- A task comes to its end; its completion is pending. -/
theorem does_ended {s : Seat C} {c n : Nat} {listeners : List (Listener C)}
    (hs : s = .building c ∨ s = .stepping c)
    (hc : m.store.completions.find? c = some ⟨.pending listeners, n⟩) (o : Outcome Value) :
    Does entered panics astray (some (.ended c o))
      ⟨(m.works b).bridge, s :: (m.works b).seats, (m.works b).waits⟩ ((m.settle c o).works b) :=
  .of_seat rfl (.ended _ hs (waits_of_find? hc) o) (works_settle m hc o)

theorem does_taskNotBuilt {c n : Nat} {listeners : List (Listener C)}
    (hc : m.store.completions.find? c = some ⟨.pending listeners, n⟩) (error : Error) :
    Does entered panics astray (some (.ended c (.failure error)))
      ⟨(m.works b).bridge, .building c :: (m.works b).seats, (m.works b).waits⟩
      ((m.taskNotBuilt b c error).works b) := by
  have hstore : (m.store.bridgeReport b (.taskNotStarted error)).completions =
      m.store.completions := by
    unfold Store.bridgeReport
    split <;> rfl
  have hfound : ((m.withStore (·.bridgeReport b (.taskNotStarted error))).push
      (.holding [.settler c])).store.completions.find? c = some ⟨.pending listeners, n⟩ :=
    (congrArg (Table.find? · c) hstore).trans hc
  have hdoes : Does entered panics astray _ _ _ :=
    does_ended (b := b) _ (s := .building c) (Or.inl rfl) hfound (.failure error)
  rwa [works_push_of_none _ rfl, works_bridgeReport] at hdoes

theorem works_onBridge_self {x : Bridge C} (hx : m.store.bridges.find? b = some x)
    (f : Bridge C → Bridge C) :
    (m.onBridge b f).works b = ⟨some (f x), (m.works b).seats, (m.works b).waits⟩ := by
  rw [works_onBridge, if_pos rfl]
  simp only [works, hx, Option.map_some]

theorem does_taskBuilt {x : Bridge C} (hx : m.store.bridges.find? b = some x) (c : Nat)
    (script : Script C) :
    Does entered panics astray none
      ⟨(m.works b).bridge, .building c :: (m.works b).seats, (m.works b).waits⟩
      ((m.taskBuilt b c script).works b) := by
  let x' : Bridge C := { x with nextId := x.nextId + 1 }
  let n := (m.onBridge b fun x' => { x' with nextId := x.nextId + 1 }).withStore
    (·.bridgeReport b (.taskStarted x.nextId))
  have hn : n.works b = ⟨some x', (m.works b).seats, (m.works b).waits⟩ :=
    (works_bridgeReport _ b _).trans (works_onBridge_self m hx _)
  have hx' : n.store.bridges.find? b = some x' := congrArg Works.bridge hn
  have hbuilt : m.taskBuilt b c script =
      (n.pushAction b (.resume ⟨x.nextId, script, c⟩ none)).give .nothing := by
    simp only [taskBuilt, hx]
    rfl
  have hbridge : (m.works b).bridge = some x := hx
  rw [hbuilt, hbridge]
  refine .of_seat rfl (.built x ⟨x.nextId, script, c⟩ (x.nextId + 1) _)
    ((works_onBridge_self n hx' _).trans ?_)
  rw [hn]
  rfl

theorem does_bridgeHead {x : Bridge C} (hx : m.store.bridges.find? b = some x) :
    Does entered panics astray (x.stack.head?.bind Action.event?)
      ⟨(m.works b).bridge, .loop :: (m.works b).seats, (m.works b).waits⟩
      ((m.bridgeHead b).works b) := by
  have hbridge : (m.works b).bridge = some x := hx
  simp only [bridgeHead, hx]
  rw [hbridge]
  split
  · next hstack =>
    rw [hstack]
    exact .of_seat rfl (.rest hstack _) (works_onBridge_self m hx _)
  · next action rest hstack =>
    have hloop : ((m.onBridge b fun x => { x with stack := rest }).push (.driving b)).works b =
        ⟨some { x with stack := rest }, .loop :: (m.works b).seats, (m.works b).waits⟩ := by
      rw [works_push_of_some (f := .driving b) _ (if_pos rfl), works_onBridge_self m hx]
    rw [hstack]
    cases action with
    | start code c =>
      refine .of_seat rfl (.build hstack _) ?_
      show ((((m.onBridge b _).push (.driving b)).push (.starting b c)).works b) = _
      rw [works_push_of_some (f := .starting b c) _ (if_pos rfl), hloop]
      rfl
    | resume task o =>
      refine .of_seat rfl (.resume hstack _) ?_
      show ((((m.onBridge b _).push (.driving b)).push (.resuming b task.id task.settler)).works b) = _
      rw [works_push_of_some (f := .resuming b task.id task.settler) _ (if_pos rfl), hloop]
      rfl

theorem works_bridgeHead_of_ne {b' : Nat} (h : b' ≠ b) :
    (m.bridgeHead b').works b = m.works b := by
  have hsame (f : Bridge C → Bridge C) : (m.onBridge b' f).works b = m.works b := by
    rw [works_onBridge, if_neg (Ne.symm h)]
  unfold bridgeHead
  split
  · rfl
  · split
    · exact hsame _
    · next action rest _ =>
      have hloop := works_pushed (b := b) (f := .driving b') m (if_neg h)
        (hsame fun x => { x with stack := rest })
      cases action with
      | start code c => exact works_pushed (f := .starting b' c) m (if_neg h) hloop
      | resume task o =>
        exact works_pushed (f := .resuming b' task.id task.settler) m (if_neg h) hloop

theorem works_taskBuilt_of_ne {b' : Nat} (h : b' ≠ b) (c : Nat) (script : Script C) :
    (m.taskBuilt b' c script).works b = m.works b := by
  unfold taskBuilt
  split
  · rfl
  · have hsame (n : Machine C R) (f : Bridge C → Bridge C) :
        (n.onBridge b' f).works b = n.works b := by
      rw [works_onBridge, if_neg (Ne.symm h)]
    exact (hsame _ _).trans ((works_bridgeReport _ b' _).trans (hsame m _))

theorem does_runTask {x : Bridge C} (hx : m.store.bridges.find? b = some x) (code : C) :
    Does ((m.runTask b code).Entered b) panics astray
      (some (.started m.store.completions.cells.size)) (m.works b)
      ((m.runTask b code).works b) := by
  obtain ⟨c, hc⟩ : ∃ c, m.store.completions.cells.size = c := ⟨_, rfl⟩
  obtain ⟨hworks, hnew⟩ := works_alloc (b := b) m 2 ⟨.pending [], 1⟩
  rw [hc] at hworks hnew ⊢
  let n := (m.newCompletion.2.push (.holding [.bridge b])).push
    (.replying (.handle (.completion c)))
  have hn : n.works b = ⟨some x, (m.works b).seats,
      Function.update (m.works b).waits c (some (.pending []))⟩ := by
    refine Eq.trans (b := m.newCompletion.2.works b) rfl (hworks.trans ?_)
    simp only [works, hx]
    rfl
  have hx' : n.store.bridges.find? b = some x := congrArg Works.bridge hn
  obtain ⟨hpushed, hrunning⟩ := works_pushAction n hx' (.start code c)
  have hrun : m.runTask b code =
      if (n.pushAction b (.start code c)).bridgeRunning b then
        (n.pushAction b (.start code c)).give .nothing
      else (n.pushAction b (.start code c)).enterBridge b := by
    subst hc
    rfl
  rw [hrun, hrunning]
  have hbefore : m.works b = ⟨some x, (m.works b).seats, (m.works b).waits⟩ := by
    simp only [works, hx]
  cases hrunning : x.running with
  | true =>
    refine .of_outside hbefore (.run x hnew code fun h => ?_) (hpushed.trans ?_)
    · rw [hrunning] at h
      cases h
    · rw [hn]
      simp [Bridge.wake, Bridge.entry, hrunning]
  | false =>
    obtain ⟨hentered, hat⟩ := works_enterBridge (b := b) (n.pushAction b (.start code c))
    refine .of_outside hbefore (.run x hnew code fun _ => hat) (hentered.trans ?_)
    rw [hpushed, hn]
    simp [Bridge.wake, Bridge.entry, hrunning]

theorem does_runTask_of_ne {b' : Nat} (h : b' ≠ b) (code : C) :
    Does entered panics astray none (m.works b) ((m.runTask b' code).works b) := by
  have hsame : (m.runTask b' code).works b = m.newCompletion.2.works b := by
    have hpushed (n : Machine C R) (a : Action C) : (n.pushAction b' a).works b = n.works b := by
      rw [pushAction, works_onBridge, if_neg (Ne.symm h)]
    unfold runTask
    dsimp only
    split
    · exact (hpushed _ _).trans rfl
    · exact (works_enterBridge_of_ne _ h).trans (hpushed _ _)
  rw [hsame]
  exact does_newCompletion m

/-- A task has been advanced: it is done, or awaits a completion that is there. -/
theorem does_taskStepped {B : Behavior C R} {x : Bridge C} (hx : m.store.bridges.find? b = some x)
    {c n : Nat} {listeners : List (Listener C)}
    (hc : m.store.completions.find? c = some ⟨.pending listeners, n⟩) (id : UInt64)
    (script : Script C) (step : Step C)
    (hawaited : ∀ c', step = .yield (.await c') → ∃ k, m.store.completions.find? c' = some k)
    (hastray : (∀ o, step ≠ .done o) → (∀ c', step ≠ .yield (.await c')) → astray) :
    Does ((m.taskStepped B.held b id c script step).Entered b) panics astray
      ((Frame.resuming b id c : Frame C R).answered? b (m.store.bridges.find? b)
        (.stepped step script))
      ⟨(m.works b).bridge, .stepping c :: (m.works b).seats, (m.works b).waits⟩
      ((m.taskStepped B.held b id c script step).works b) := by
  have hreport (r : Report) : (m.store.bridgeReport b r).completions = m.store.completions ∧
      (m.store.bridgeReport b r).bridges = m.store.bridges := by
    unfold Store.bridgeReport
    split <;> exact ⟨rfl, rfl⟩
  cases step with
  | done o =>
    have hfound : ((m.withStore (·.bridgeReport b (.taskFinished id o.isSuccess))).push
        (.holding (.settler c :: script.handles B.held))).store.completions.find? c =
          some ⟨.pending listeners, n⟩ := (congrArg (Table.find? · c) (hreport _).1).trans hc
    have hdoes : Does ((m.taskStepped B.held b id c script (.done o)).Entered b) panics astray
      _ _ _ := does_ended (b := b) _ (s := .stepping c) (Or.inr rfl) hfound o
    rw [works_push_of_none _ rfl, works_bridgeReport] at hdoes
    simp only [Frame.answered?, if_true]
    exact hdoes
  | yield i =>
    cases i with
    | await c' =>
      obtain ⟨k, hk⟩ := hawaited c' rfl
      let n := ((m.withStore (·.bridgeReport b (.taskAwaiting id))).retain [.bridge b]).push
        (.holding [.completion c'])
      have hn : n.works b = m.works b :=
        works_pushed m rfl ((works_retain _ _).trans (works_bridgeReport m b _))
      have hx' : n.store.bridges.find? b = some x := (congrArg Works.bridge hn).trans hx
      obtain ⟨k', hk', -⟩ := Option.map_eq_some_iff.mp
        ((congrArg (fun u : Works C => u.waits c') hn).trans (waits_of_find? hk))
      have hdoes : Does _ panics astray _ _ _ := does_await n B.held hk' hx' ⟨id, script, c⟩
      rw [hn] at hdoes
      simp only [Frame.answered?, if_true]
      exact hdoes
    | _ =>
      exact .of_seat rfl (.stray (hastray (fun o h => by cases h) fun c' h => by cases h) _ c _) rfl

end Does

/-! ### Letting go -/

section LetGo

variable {B : Behavior C R} {entered panics astray : Prop} {st : Store C} {K : List (Frame C R)}
  {focus focus' : Focus C R} {ys : List Share} {c : Nat}

/-- A reader goes away. -/
theorem does_letGoReader (h : Covered B st K (.loose (.completion c) :: ys)) :
    Does entered panics astray none (works b (⟨st, K, focus⟩ : Machine C R))
      (works b (⟨(st.letGoReader B.held c).2, K, focus'⟩ : Machine C R)) := by
  have hother (c' : Nat) (hne : c' ≠ c) :
      (st.letGoReader B.held c).2.completions.find? c' = st.completions.find? c' :=
    (Table.find?_letGo st.completions c c').resolve_right fun hgone => hne hgone.1
  have hsame (hc : (st.completions.letGo c).2.find? c = st.completions.find? c) :
      works b (⟨(st.letGoReader B.held c).2, K, focus'⟩ : Machine C R) =
        works b (⟨st, K, focus⟩ : Machine C R) := by
    refine works_eq rfl rfl fun c' => ?_
    by_cases heq : c' = c
    · subst heq
      exact congrArg (Option.map Completion.progress) hc
    · exact congrArg (Option.map Completion.progress) (hother c' heq)
  rcases Table.find?_letGo st.completions c c with hc | ⟨-, hgone⟩
  · exact .still (hsame hc)
  · cases hk : st.completions.find? c with
    | none => exact .still (hsame (hgone.trans hk.symm))
    | some k =>
      obtain ⟨o, ho⟩ := settled_of_emptied h hk hgone
      have hbefore : (works b (⟨st, K, focus⟩ : Machine C R)).waits c = some (.settled o) := by
        rw [waits_of_find? (m := ⟨st, K, focus⟩) hk, ho]
        rfl
      have hafter : (works b (⟨(st.letGoReader B.held c).2, K, focus'⟩ : Machine C R)).waits =
          Function.update (works b (⟨st, K, focus⟩ : Machine C R)).waits c none := by
        refine funext fun c' => ?_
        rw [Function.update_apply]
        dsimp only [works]
        split
        · next heq =>
          subst heq
          exact congrArg _ hgone
        · next hne => exact congrArg _ (hother c' hne)
      exact .of_outside rfl (.forget _ hbefore) (congrArg (Works.mk _ _) hafter)

/-- A handle is let go of. -/
theorem does_letGo {m : Machine C R} {x : Handle}
    (h : Covered B m.store m.control (.loose x :: ys)) (rest : List Handle) (onward : Onward C R) :
    Does entered panics astray none (m.works b) ((m.letGo B x rest onward).works b) := by
  cases x with
  | completion c =>
    have hdoes : Does entered panics astray none (m.works b)
        (works b ⟨(m.store.letGoReader B.held c).2, m.control, m.focus⟩) := does_letGoReader h
    exact hdoes
  | settler c =>
    obtain ⟨k, hk⟩ : ∃ k, m.store.completions.find? c = some k :=
      h.alive (x := .settler c) (by simp [holdings]) rfl
    have hless : (m.setCompletion c ⟨k.progress, k.settlers - 1⟩).works b = m.works b := by
      have hsame := waits_of_find? (b := b) hk
      rw [works_setCompletion m hk, ← hsame, Function.update_eq_self]
    have hreader : (k.progress.isPending = true → 2 ≤ k.settlers) →
        Does entered panics astray none (m.works b)
          (works b ⟨((m.setCompletion c ⟨k.progress, k.settlers - 1⟩).store.letGoReader B.held c).2,
            m.control, m.focus⟩) := by
      intro hmore
      have hdown := h.stepDown hk [] (fun y => rfl) (fun h => h) hmore
      rw [← hless]
      exact does_letGoReader hdown
    unfold letGo Store.letGo
    simp only [hk]
    cases hprogress : k.progress with
    | settled o =>
      rw [hprogress] at hreader
      exact hreader fun h => by cases h
    | pending listeners =>
      rw [hprogress] at hreader hless
      dsimp only
      by_cases hlast : k.settlers ≤ 1
      · rw [if_pos hlast]
        rw [← hless]
        exact does_settle (((m.setCompletion c ⟨.pending listeners, k.settlers - 1⟩)).push
          (.releasing (.completion c :: rest) onward)) c (.failure .abandoned)
      · rw [if_neg hlast]
        exact hreader fun _ => by omega
  | bridge b' =>
    have hother (hsame : (m.store.bridges.letGo b').2.find? b = m.store.bridges.find? b) :
        Does entered panics astray none (m.works b) ((m.letGo B (.bridge b') rest onward).works b) :=
      .still (works_eq hsame rfl fun _ => rfl)
    rcases Table.find?_letGo m.store.bridges b' b with hsame | ⟨rfl, hgone⟩
    · exact hother hsame
    · cases hx : m.store.bridges.find? b with
      | none => exact hother (hgone.trans hx.symm)
      | some x =>
        have hbefore : m.works b = ⟨some x, (m.works b).seats, (m.works b).waits⟩ := by
          simp only [works, hx]
        exact .of_outside hbefore (.scrap x _) (congrArg (Works.mk · _ _) hgone)
  | _ => exact .still (untouched_letGo m B rfl rest onward).works

end LetGo

/-! ### Requests, answers and panics -/

section Moves

variable {B : Behavior C R} {panics astray : Prop} {m : Machine C R} {st : Store C}
  {K : List (Frame C R)} {ys : List Share} {c : Nat}

theorem does_perform (request : Request C)
    (halive : ∀ code, request = .run b code → ∃ x, m.store.bridges.find? b = some x) :
    Does ((m.perform B request).Entered b) panics astray
      (request.taskEvent? b m.store.completions.cells.size) (m.works b)
      ((m.perform B request).works b) := by
  cases request with
  | newCompletion => exact does_newCompletion m
  | settledCompletion o => exact does_newSettled m o
  | settle c o => exact does_settle (m.push (.holding [.settler c])) c o
  | onSettle c code =>
    exact .still ((works_await_call (m.push (.holding [.completion c])) B.held c code).trans rfl)
  | settleLater q o => exact does_newCompletion m
  | newBridge settings =>
    have hafter : (m.perform B (.newBridge settings)).works b =
        ⟨(m.store.bridges.alloc 1 ⟨settings, [], false, 0⟩).2.find? b, (m.works b).seats,
          (m.works b).waits⟩ := rfl
    rw [Table.find?_alloc] at hafter
    split at hafter
    · next heq =>
      have hnone : m.store.bridges.find? b = none := by
        rw [heq]
        simp [Table.find?, Table.cell?_size]
      have hbefore : m.works b = ⟨none, (m.works b).seats, (m.works b).waits⟩ := by
        simp only [works, hnone]
      exact .of_outside hbefore (.make settings _) hafter
    · exact .still hafter
  | run b' code =>
    by_cases hb : b' = b
    · subst hb
      obtain ⟨x, hx⟩ := halive code rfl
      simp only [Request.taskEvent?, if_true]
      exact does_runTask m hx code
    · simp only [Request.taskEvent?, if_neg hb]
      exact does_runTask_of_ne m hb code
  | start p code => exact does_start m B.held p code
  | _ => exact .still (untouched_perform m B rfl).works

theorem works_seat {f : Frame C R} {seat : Seat C} (hf : f.seat? b = some seat) :
    (m.push f).works b = ⟨(m.works b).bridge, seat :: (m.works b).seats, (m.works b).waits⟩ :=
  works_push_of_some m hf

/-- The loop of a bridge goes on. -/
theorem does_driving {b' : Nat} {a : Answer C}
    (h : Balanced B ⟨m.store, .driving b' :: m.control, .release [] (.give a)⟩) {entered : Prop} :
    Does entered panics astray
      ((Frame.driving b' : Frame C R).answered? b (m.store.bridges.find? b) a)
      ((m.push (.driving b')).works b) ((m.bridgeHead b').works b) := by
  by_cases hb : b' = b
  · subst hb
    obtain ⟨x, hx⟩ := bridge_of_backed h.covered.pop h.covered.backed.1
    have hdoes : Does entered panics astray _ _ _ := does_bridgeHead m hx
    rw [works_seat (f := .driving b') (if_pos rfl)]
    simpa only [Frame.answered?, if_true, hx, Option.bind_some] using hdoes
  · rw [works_push_of_none (f := .driving b') m (if_neg hb)]
    simp only [Frame.answered?, if_neg hb]
    exact .still (works_bridgeHead_of_ne m hb)

/-- A task of another bridge has not been built. -/
theorem does_taskNotBuilt_of_ne {entered : Prop} (b' c : Nat) (error : Error) :
    Does entered panics astray none (m.works b) ((m.taskNotBuilt b' c error).works b) := by
  have hdoes : Does entered panics astray none _ _ := does_settle (b := b)
    ((m.withStore (·.bridgeReport b' (.taskNotStarted error))).push (.holding [.settler c])) c
    (.failure error)
  rwa [works_push_of_none _ rfl, works_bridgeReport] at hdoes

/-- A task of another bridge has been advanced. -/
theorem does_taskStepped_of_ne {entered : Prop} {b' : Nat} (hb : b' ≠ b) (id : UInt64) (c : Nat)
    (script : Script C) (step : Step C) :
    Does entered panics astray none (m.works b)
      ((m.taskStepped B.held b' id c script step).works b) := by
  cases step with
  | done o =>
    have hdoes : Does entered panics astray none _ _ := does_settle (b := b)
      ((m.withStore (·.bridgeReport b' (.taskFinished id o.isSuccess))).push
        (.holding (.settler c :: script.handles B.held))) c o
    rwa [works_push_of_none _ rfl, works_bridgeReport] at hdoes
  | yield i =>
    cases i with
    | await c' =>
      refine .still ((works_await_of_ne _ B.held c' hb _).trans ?_)
      exact works_pushed m rfl ((works_retain _ _).trans (works_bridgeReport m b' _))
    | _ => exact .still rfl

/-- A task has been built, or not. -/
theorem does_starting {b' : Nat} {a : Answer C}
    (h : Balanced B ⟨m.store, .starting b' c :: m.control, .release [] (.give a)⟩) {entered : Prop} :
    Does entered panics astray
      ((Frame.starting b' c : Frame C R).answered? b (m.store.bridges.find? b) a)
      ((m.push (.starting b' c)).works b) ((m.deliver B a (.starting b' c)).works b) := by
  obtain ⟨x, hx⟩ := bridge_of_backed h.covered.pop h.covered.backed.1
  obtain ⟨listeners, n, hc⟩ := pending_of_task (c := c) h.covered.pop (by
    simp only [holdings, Frame.shares, List.singleton_append, List.count_cons_self]
    omega)
  by_cases hfailed : ∃ e, a = .outcome (.failure e)
  · obtain ⟨e, rfl⟩ := hfailed
    by_cases hb : b' = b
    · subst hb
      rw [works_seat (f := .starting b' c) (if_pos rfl)]
      simp only [Frame.answered?, if_true]
      exact does_taskNotBuilt m hc e
    · rw [works_push_of_none (f := .starting b' c) m (if_neg hb)]
      simp only [Frame.answered?, if_neg hb]
      exact does_taskNotBuilt_of_ne b' c e
  · have hbuilt : m.deliver B a (.starting b' c) = m.taskBuilt b' c a.script ∧
        (Frame.starting b' c : Frame C R).answered? b (m.store.bridges.find? b) a = none := by
      cases a with
      | outcome o =>
        cases o with
        | failure e => exact absurd ⟨e, rfl⟩ hfailed
        | success v => exact ⟨rfl, rfl⟩
      | _ => exact ⟨rfl, rfl⟩
    rw [hbuilt.1, hbuilt.2]
    by_cases hb : b' = b
    · subst hb
      rw [works_seat (f := .starting b' c) (if_pos rfl)]
      exact does_taskBuilt m hx c a.script
    · rw [works_push_of_none (f := .starting b' c) m (if_neg hb)]
      exact .still (works_taskBuilt_of_ne m hb c a.script)

/-- A task has been advanced. -/
theorem does_resuming {b' : Nat} {id : UInt64} {a : Answer C}
    (h : Balanced B ⟨m.store, .resuming b' id c :: m.control, .release [] (.give a)⟩) :
    Does ((m.deliver B a (.resuming b' id c)).Entered b) panics
      ((⟨m.store, .resuming b' id c :: m.control, .release [] (.give a)⟩ : Machine C R).Astray b)
      ((Frame.resuming b' id c : Frame C R).answered? b (m.store.bridges.find? b) a)
      ((m.push (.resuming b' id c)).works b) ((m.deliver B a (.resuming b' id c)).works b) := by
  obtain ⟨x, hx⟩ := bridge_of_backed h.covered.pop h.covered.backed.1
  obtain ⟨listeners, n, hc⟩ := pending_of_task (c := c) h.covered.pop (by
    simp only [holdings, Frame.shares, List.singleton_append, List.count_cons_self]
    omega)
  by_cases hstepped : ∃ step script, a = .stepped step script
  · obtain ⟨step, script, rfl⟩ := hstepped
    by_cases hb : b' = b
    · subst hb
      rw [works_seat (f := .resuming b' id c) (if_pos rfl)]
      refine does_taskStepped m hx hc id script step (fun c' hstep => ?_) fun hdone hawait => ?_
      · -- what the task awaits is held by its answer
        subst hstep
        refine h.covered.pop.alive (x := .completion c') ?_ rfl
        simp only [holdings, Focus.shares, Onward.handles, Answer.handles, Step.handles,
          Instruction.handles, List.nil_append, List.singleton_append, loose_cons,
          List.count_append, List.count_cons_self]
        omega
      · refine ⟨id, c, m.control, _, rfl, rfl, fun o script' heq => ?_, fun c' script' heq => ?_⟩
        · exact hdone o (Answer.stepped.inj heq).1
        · exact hawait c' (Answer.stepped.inj heq).1
    · rw [works_push_of_none (f := .resuming b' id c) m (if_neg hb)]
      have hnone : (Frame.resuming b' id c : Frame C R).answered? b (m.store.bridges.find? b)
          (.stepped step script) = none := by
        unfold Frame.answered?
        dsimp only
        split <;> first
          | exact if_neg hb
          | rfl
      rw [hnone]
      exact does_taskStepped_of_ne hb id c script step
  · have hdropped : m.deliver B a (.resuming b' id c) =
          m.drop (.settler c :: a.handles B.held) .nothing ∧
        (Frame.resuming b' id c : Frame C R).answered? b (m.store.bridges.find? b) a = none := by
      cases a with
      | stepped step script => exact absurd ⟨step, script, rfl⟩ hstepped
      | _ => exact ⟨rfl, rfl⟩
    rw [hdropped.1, hdropped.2]
    by_cases hb : b' = b
    · subst hb
      rw [works_seat (f := .resuming b' id c) (if_pos rfl)]
      refine .of_seat rfl (.stray ⟨id, c, m.control, a, rfl, rfl, ?_, ?_⟩ _ c _) rfl
      · exact fun o script heq => hstepped ⟨_, _, heq⟩
      · exact fun c' script heq => hstepped ⟨_, _, heq⟩
    · rw [works_push_of_none (f := .resuming b' id c) m (if_neg hb)]
      exact .still rfl

theorem does_deliver {f : Frame C R} {a : Answer C}
    (h : Balanced B ⟨m.store, f :: m.control, .release [] (.give a)⟩) :
    Does ((m.deliver B a f).Entered b) panics
      ((⟨m.store, f :: m.control, .release [] (.give a)⟩ : Machine C R).Astray b)
      (f.answered? b (m.store.bridges.find? b) a) ((m.push f).works b)
      ((m.deliver B a f).works b) := by
  cases f with
  | inRoot settler =>
    unfold deliver
    dsimp only
    split
    · exact does_rootStepped m settler _ _
    · exact .still rfl
  | notifying listeners o =>
    refine does_notify m listeners o fun task rest hlisteners => ?_
    refine bridge_of_covered h.covered.pop ?_
    subst hlisteners
    simp only [holdings, Frame.shares, Listener.shares, List.flatMap_cons, List.cons_append,
      List.count_cons_self]
    omega
  | draining q ran => exact does_drainNext m q ran
  | driving b' => exact does_driving h
  | starting b' c => exact does_starting h
  | resuming b' id c => exact does_resuming h
  | _ => exact .still (untouched_deliver m B a rfl).works

/-- A task panics while it is built. -/
theorem does_unwind_starting {b' : Nat} {payload : Payload} {salvage : Option (Script C)}
    (h : Balanced B ⟨m.store, .starting b' c :: m.control, .release [] (.unwind payload salvage)⟩)
    (hpanics : (Frame.starting b' c : Frame C R).sheds b (m.bridgeCatches b) = true → panics)
    {entered : Prop} :
    Does entered panics astray
      ((Frame.starting b' c : Frame C R).unwound? b (m.bridgeCatches b) payload)
      ((m.push (.starting b' c)).works b)
      ((m.unwindFrame B payload salvage (.starting b' c)).works b) := by
  obtain ⟨listeners, n, hc⟩ := pending_of_task (c := c) h.covered.pop (by
    simp only [holdings, Frame.shares, List.singleton_append, List.count_cons_self]
    omega)
  by_cases hb : b' = b
  · subst hb
    rw [works_seat (f := .starting b' c) (if_pos rfl)]
    unfold unwindFrame Frame.unwound?
    dsimp only
    by_cases hcatches : m.bridgeCatches b' = true
    · rw [if_pos hcatches, if_pos ⟨rfl, hcatches⟩]
      exact does_taskNotBuilt m hc _
    · rw [if_neg hcatches, if_neg fun hand => hcatches hand.2]
      have hsheds : panics := hpanics (decide_eq_true ⟨rfl, Bool.eq_false_iff.mpr hcatches⟩)
      exact .of_seat rfl (.shed hsheds _ _ (fun h => by cases h) _) rfl
  · have hnone : (Frame.starting b' c : Frame C R).unwound? b (m.bridgeCatches b) payload = none :=
      if_neg fun hand => hb hand.1
    rw [works_push_of_none (f := .starting b' c) m (if_neg hb), hnone]
    unfold unwindFrame
    dsimp only
    split
    · exact does_taskNotBuilt_of_ne b' c _
    · exact .still rfl

/-- A task panics while it is advanced. -/
theorem does_unwind_resuming {b' : Nat} {id : UInt64} {payload : Payload}
    {salvage : Option (Script C)}
    (h : Balanced B ⟨m.store, .resuming b' id c :: m.control, .release [] (.unwind payload salvage)⟩)
    (hpanics : (Frame.resuming b' id c : Frame C R).sheds b (m.bridgeCatches b) = true → panics) :
    Does ((m.unwindFrame B payload salvage (.resuming b' id c)).Entered b) panics astray
      ((Frame.resuming b' id c : Frame C R).unwound? b (m.bridgeCatches b) payload)
      ((m.push (.resuming b' id c)).works b)
      ((m.unwindFrame B payload salvage (.resuming b' id c)).works b) := by
  obtain ⟨x, hx⟩ := bridge_of_backed h.covered.pop h.covered.backed.1
  obtain ⟨listeners, n, hc⟩ := pending_of_task (c := c) h.covered.pop (by
    simp only [holdings, Frame.shares, List.singleton_append, List.count_cons_self]
    omega)
  by_cases hb : b' = b
  · subst hb
    rw [works_seat (f := .resuming b' id c) (if_pos rfl)]
    unfold unwindFrame Frame.unwound?
    dsimp only
    by_cases hcatches : m.bridgeCatches b' = true
    · rw [if_pos hcatches, if_pos ⟨rfl, hcatches⟩]
      have hdoes : Does _ panics astray _ _ _ := does_taskStepped (B := B) m hx hc id
        (salvage.getD (.returning .unit)) (failed payload) (fun c' h => by cases h)
        fun hdone => absurd rfl (hdone _)
      simpa only [Frame.answered?, failed, if_true] using hdoes
    · rw [if_neg hcatches, if_neg fun hand => hcatches hand.2]
      have hsheds : panics := hpanics (decide_eq_true ⟨rfl, Bool.eq_false_iff.mpr hcatches⟩)
      exact .of_seat rfl (.shed hsheds _ _ (fun h => by cases h) _) rfl
  · have hnone : (Frame.resuming b' id c : Frame C R).unwound? b (m.bridgeCatches b) payload = none :=
      if_neg fun hand => hb hand.1
    rw [works_push_of_none (f := .resuming b' id c) m (if_neg hb), hnone]
    unfold unwindFrame
    dsimp only
    split
    · exact does_taskStepped_of_ne hb id c _ _
    · exact .still rfl

theorem does_unwindFrame {f : Frame C R} {payload : Payload} {salvage : Option (Script C)}
    (h : Balanced B ⟨m.store, f :: m.control, .release [] (.unwind payload salvage)⟩)
    (hpanics : f.sheds b (m.bridgeCatches b) = true → panics) :
    Does ((m.unwindFrame B payload salvage f).Entered b) panics astray
      (f.unwound? b (m.bridgeCatches b) payload) ((m.push f).works b)
      ((m.unwindFrame B payload salvage f).works b) := by
  cases f with
  | notifying listeners o =>
    exact .of_seat (works_seat rfl) (.shed (hpanics rfl) _ _ (fun h => by cases h) _) rfl
  | driving b' =>
    by_cases hb : b' = b
    · subst hb
      obtain ⟨x, hx⟩ := bridge_of_backed h.covered.pop h.covered.backed.1
      have hbridge : (m.works b').bridge = some x := hx
      rw [works_seat (f := .driving b') (if_pos rfl), hbridge]
      exact .of_seat rfl (.leave (hpanics (decide_eq_true rfl)) x _) (works_onBridge_self m hx _)
    · rw [works_push_of_none (f := .driving b') m (if_neg hb)]
      refine .still ?_
      show (m.onBridge b' _).works b = _
      rw [works_onBridge, if_neg (Ne.symm hb)]
  | starting b' c => exact does_unwind_starting h hpanics
  | resuming b' id c => exact does_unwind_resuming h hpanics
  | _ => exact .still (untouched_unwindFrame m B payload salvage rfl).works

/-- Every move does one deed to the tasks of a bridge. -/
theorem does_step (h : Balanced B m) :
    Does ((m.step B).Entered b) (m.Sheds b) (m.Astray b) (m.taskEvent? b) (m.works b)
      ((m.step B).works b) := by
  obtain ⟨st, K, focus⟩ := m
  cases focus with
  | advance script input => exact .still (untouched_advanceScript ⟨st, K, .advance script input⟩ B script input).works
  | exit script => exact .still (untouched_exitScript ⟨st, K, .exit script⟩ B script).works
  | copy script => exact .still (untouched_copyScript ⟨st, K, .copy script⟩ B script).works
  | aborted => exact .still rfl
  | release hs onward =>
    cases hs with
    | cons x rest => exact does_letGo (m := ⟨st, K, _⟩) h.covered rest onward
    | nil =>
      cases onward with
      | begin code entry => exact .still (untouched_startCode ⟨st, K, _⟩ B code entry).works
      | tell state signal => exact .still (untouched_tell ⟨st, K, _⟩ B state signal).works
      | act reaction =>
        cases reaction with
        | ask request next =>
          refine does_perform (m := Machine.push ⟨st, K, _⟩ (.code next)) request fun code hrun => ?_
          subst hrun
          refine bridge_of_covered h.covered ?_
          simp only [holdings, Focus.shares, Onward.handles, Reaction.handles, Request.handles,
            List.nil_append, List.cons_append, loose_cons, List.count_cons_self]
          omega
        | _ => exact .still rfl
      | give a =>
        cases K with
        | nil => exact .still rfl
        | cons f K => exact does_deliver (m := ⟨st, K, _⟩) h
      | unwind payload salvage =>
        cases K with
        | nil => exact .still rfl
        | cons f K =>
          exact does_unwindFrame (m := ⟨st, K, _⟩) h fun hsheds => ⟨payload, salvage, f, K, rfl, rfl, hsheds⟩

end Moves

end Machine

end Strand
