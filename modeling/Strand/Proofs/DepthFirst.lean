import Strand.Proofs.Closures
import Strand.Proofs.Oneshot
import Strand.Proofs.Whereabouts

/-! # Depth first — tasks that call each other

    A task that finishes, awaits what has settled already, or starts a child and awaits it
    in the same step behaves as a recursive procedure. `Doing` is what such a task does in
    a step, a finite tree: with each outcome that it may be fed it goes on in one way.

    * `Doing.result` and `Doing.trace` evaluate the tree directly: each child is run to its
      end, and its outcome is fed back.
    * `Performs` says that the tasks of a run do what the tree says. The bridge is free to
      take them in any order, and to feed them anything.
    * `runs_depth_first` says that the bridge does what the direct evaluation does. -/

namespace Strand

variable {C R : Type}

mutual

/-- What a task does in a step, and from then on. -/
inductive Doing where
  | finish (o : Outcome Value)
  /-- It awaits the completion `k`, which has settled already. -/
  | await (k : Nat) (next : Outcome Value → Doing)
  /-- It starts a child, which settles `k`, and awaits `k`. -/
  | call (k : Nat) (child : Birth) (next : Outcome Value → Doing)

/-- What comes of a task that is started. -/
inductive Birth where
  | refused (e : Error)
  | built (run : Outcome Value → Doing)

end

section Evaluation

variable (known : Nat → Outcome Value)

mutual

/-- The final outcome of a task. -/
def Doing.result : Doing → Outcome Value
  | .finish o => o
  | .await k next => (next (known k)).result
  | .call _ child next => (next child.result).result

def Birth.result : Birth → Outcome Value
  | .refused e => .failure e
  | .built run => (run .unit).result

end

mutual

/-- What is seen of the task that settles `c`, and of its children. -/
def Doing.trace (c : Nat) : Doing → List TaskEvent
  | .finish o => [.ended c o]
  | .await k next => .awaits c k :: .resumed c (known k) :: (next (known k)).trace c
  | .call k child next => .started k :: .awaits c k :: (child.trace k ++
      .resumed c (child.result known) :: (next (child.result known)).trace c)

def Birth.trace (c : Nat) : Birth → List TaskEvent
  | .refused e => [.ended c (.failure e)]
  | .built run => .resumed c .unit :: (run .unit).trace c

end

end Evaluation

/-! ### Where the tasks stand -/

/-- Whose turn it is. -/
inductive Mover where
  | bridge
  /-- The task that settles `c` is at its step. -/
  | task (c : Nat) (d : Doing)
  /-- It has started a child, which settles `k`, and has still to await it. -/
  | joining (c k : Nat) (next : Outcome Value → Doing)

section Standing

variable (known : Nat → Outcome Value) (c₀ : Nat) (w : Nat → Option (Wait C))
  (nodes : Nat → Option Birth)

/-- The tasks that wait for each other, innermost first: the one that settles `c` is
    awaited by the first of them, and the last one settles `c₀`. -/
def Awaited (c : Nat) : List (Nat × (Outcome Value → Doing)) → Prop
  | [] => c = c₀ ∧ w c = some (.pending [])
  | (p, next) :: ps => (∃ task : Task C, task.settler = p ∧ w c = some (.pending [task])) ∧
      c ∉ p :: ps.map Prod.fst ∧ nodes p = some (.built next) ∧ Awaited p ps

/-- What is seen of the tasks that wait, once the innermost is fed. -/
def traceBack : List (Nat × (Outcome Value → Doing)) → Outcome Value → List TaskEvent
  | [], _ => []
  | (p, next) :: ps, o =>
    .resumed p o :: ((next o).trace known p ++ traceBack ps ((next o).result known))

def resultBack : List (Nat × (Outcome Value → Doing)) → Outcome Value → Outcome Value
  | [], o => o
  | (_, next) :: ps, o => resultBack ps ((next o).result known)

/-- The actions and the topmost seats of a bridge in the middle of a direct evaluation,
    with what is still to be seen of it and its final outcome. `done` holds of the outcomes
    in which the outermost task has ended. -/
inductive Poised (done : Outcome Value → Prop) :
    List (Action C) → List (Seat C) → Mover → List TaskEvent → Outcome Value → Prop
  | fresh {c : Nat} {birth : Birth} {ps} (code : C) (hc : nodes c = some birth)
      (hps : Awaited c₀ w nodes c ps) :
      Poised done [.start code c] [.loop] .bridge
        (birth.trace known c ++ traceBack known ps (birth.result known))
        (resultBack known ps (birth.result known))
  | building {c : Nat} {birth : Birth} {ps} (hc : nodes c = some birth)
      (hps : Awaited c₀ w nodes c ps) :
      Poised done [] [.building c, .loop] .bridge
        (birth.trace known c ++ traceBack known ps (birth.result known))
        (resultBack known ps (birth.result known))
  | first {task : Task C} {birth : Birth} {ps} (hc : nodes task.settler = some birth)
      (hps : Awaited c₀ w nodes task.settler ps) :
      Poised done [.resume task none] [.loop] .bridge
        (birth.trace known task.settler ++ traceBack known ps (birth.result known))
        (resultBack known ps (birth.result known))
  | ready {task : Task C} {next} {ps} (o : Outcome Value) (hc : nodes task.settler = some (.built next))
      (hps : Awaited c₀ w nodes task.settler ps) :
      Poised done [.resume task (some o)] [.loop] .bridge
        (traceBack known ((task.settler, next) :: ps) o) (resultBack known ((task.settler, next) :: ps) o)
  | stepping {c : Nat} {ps} (d : Doing) (hps : Awaited c₀ w nodes c ps) :
      Poised done [] [.stepping c, .loop] (.task c d)
        (d.trace known c ++ traceBack known ps (d.result known))
        (resultBack known ps (d.result known))
  | joining {c k : Nat} {birth : Birth} {ps} (code : C) (next : Outcome Value → Doing)
      (hk : nodes k = some birth) (hw : w k = some (.pending [])) (hne : k ∉ c :: ps.map Prod.fst)
      (hps : Awaited c₀ w nodes c ps) :
      Poised done [.start code k] [.stepping c, .loop] (.joining c k next)
        (.awaits c k :: (birth.trace known k ++ traceBack known ((c, next) :: ps) (birth.result known)))
        (resultBack known ((c, next) :: ps) (birth.result known))
  | telling {task : Task C} {next} {ps} (o : Outcome Value) (hc : nodes task.settler = some (.built next))
      (hps : Awaited c₀ w nodes task.settler ps) :
      Poised done [] [.telling [task] o, .loop] .bridge
        (traceBack known ((task.settler, next) :: ps) o) (resultBack known ((task.settler, next) :: ps) o)
  | finished (o : Outcome Value) (hdone : done o) : Poised done [] [.loop] .bridge [] o

/-- The bridge in the middle of a direct evaluation, or after it. Below are the seats from
    before; on top there may be seats that have nothing to tell to any task. -/
inductive Underway (done : Outcome Value → Prop) (below : List (Seat C)) (mover : Mover)
    (rest : List TaskEvent) (o : Outcome Value) (u : Works C) : Prop
  | working {x : Bridge C} (blanks core : List (Seat C)) (hbridge : u.bridge = some x)
      (hrunning : x.running = true) (hseats : u.seats = blanks ++ (core ++ below))
      (hblanks : ∀ s ∈ blanks, ∃ o, s = .telling [] o)
      (hpoised : Poised known c₀ u.waits nodes done x.stack core mover rest o)
  | returned (blanks : List (Seat C)) (hstack : u.stack = []) (hrunning : u.running = false)
      (hseats : u.seats = blanks ++ below) (hblanks : ∀ s ∈ blanks, ∃ o, s = .telling [] o)
      (hmover : mover = .bridge) (hrest : rest = []) (hdone : done o)

theorem trace_call (c k : Nat) (birth : Birth) (next : Outcome Value → Doing)
    (ps : List (Nat × (Outcome Value → Doing))) :
    (Doing.call k birth next).trace known c ++
        traceBack known ps ((Doing.call k birth next).result known) =
      .started k :: .awaits c k :: (birth.trace known k ++
        traceBack known ((c, next) :: ps) (birth.result known)) := by
  simp [Doing.trace, Doing.result, traceBack]

end Standing

section Lemmas

variable {known : Nat → Outcome Value} {c₀ c k : Nat} {w w' : Nat → Option (Wait C)}
  {nodes nodes' : Nat → Option Birth} {ps : List (Nat × (Outcome Value → Doing))}
  {done done' : Outcome Value → Prop} {below core : List (Seat C)} {mover : Mover}
  {rest : List TaskEvent} {o : Outcome Value} {u v : Works C}

theorem Awaited.congr (h : Awaited c₀ w nodes c ps)
    (hw : ∀ p ∈ c :: ps.map Prod.fst, w' p = w p)
    (hnodes : ∀ p ∈ ps.map Prod.fst, nodes' p = nodes p) : Awaited c₀ w' nodes' c ps := by
  induction ps generalizing c with
  | nil => exact ⟨h.1, (hw c (List.mem_cons_self ..)).trans h.2⟩
  | cons p ps ih =>
    obtain ⟨p, next⟩ := p
    obtain ⟨⟨task, htask, hc⟩, hne, hp, hps⟩ := h
    rw [List.map_cons, List.forall_mem_cons] at hnodes
    rw [List.map_cons, List.forall_mem_cons] at hw
    exact ⟨⟨task, htask, hw.1.trans hc⟩, hne, hnodes.1.trans hp, ih hps hw.2 hnodes.2⟩

theorem Awaited.notMem (h : Awaited c₀ w nodes c ps) : c ∉ ps.map Prod.fst := by
  cases ps with
  | nil => exact List.not_mem_nil
  | cons p ps => exact h.2.1

/-- The task goes on in another way. -/
theorem Awaited.proceed (h : Awaited c₀ w nodes c ps) (next : Outcome Value → Doing) :
    Awaited c₀ w (Function.update nodes c (some (.built next))) c ps :=
  h.congr (fun _ _ => rfl) fun _ hp => Function.update_of_ne (ne_of_mem_of_not_mem hp h.notMem) _ _

/-- A completion that none of them settles changes. -/
theorem Awaited.update (h : Awaited c₀ w nodes c ps) (hk : k ∉ c :: ps.map Prod.fst)
    (x : Option (Wait C)) : Awaited c₀ (Function.update w k x) nodes c ps :=
  h.congr (fun _ hp => Function.update_of_ne (ne_of_mem_of_not_mem hp hk) _ _) fun _ _ => rfl

/-- Whoever waits is a listener of one of the others. -/
theorem Awaited.listens (h : Awaited c₀ w nodes c ps) {p : Nat} (hp : p ∈ ps.map Prod.fst) :
    ∃ k x, w k = some x ∧ p ∈ x.settlers := by
  induction ps generalizing c with
  | nil => cases hp
  | cons q ps ih =>
    obtain ⟨q, next⟩ := q
    obtain ⟨⟨task, htask, hc⟩, -, -, hps⟩ := h
    rcases List.mem_cons.mp hp with rfl | hp
    · exact ⟨c, _, hc, by simp [Wait.settlers, htask]⟩
    · exact ih hps hp

theorem Awaited.holds (h : Awaited c₀ u.waits nodes c ps) (hc : u.Holds c) {p : Nat}
    (hp : p ∈ c :: ps.map Prod.fst) : u.Holds p := by
  rcases List.mem_cons.mp hp with rfl | hp
  · exact hc
  · obtain ⟨k, x, hk, hx⟩ := h.listens hp
    exact .waiting hk hx

/-- Only completions of tasks that are somewhere matter. -/
theorem Poised.congr {x : Bridge C} {blanks : List (Seat C)} (hbridge : u.bridge = some x)
    (hseats : u.seats = blanks ++ (core ++ below))
    (h : Poised known c₀ u.waits nodes done x.stack core mover rest o)
    (hw : ∀ c, u.Holds c → w' c = u.waits c) :
    Poised known c₀ w' nodes done x.stack core mover rest o := by
  have hstack : u.stack = x.stack := by simp [Works.stack, hbridge]
  have hawaited {c : Nat} {ps} (hps : Awaited c₀ u.waits nodes c ps) (hc : u.Holds c) :
      Awaited c₀ w' nodes c ps :=
    hps.congr (fun p hp => hw p (hps.holds hc hp)) fun _ _ => rfl
  have hqueued {a : Action C} (ha : a ∈ x.stack) : u.Holds a.settler := .queued (hstack ▸ ha) rfl
  have hseated {s : Seat C} {c : Nat} (hs : s ∈ core) (hc : c ∈ s.settlers) : u.Holds c := by
    refine .seated ?_ hc
    rw [hseats]
    exact List.mem_append_right _ (List.mem_append_left _ hs)
  generalize x.stack = stack at h hqueued
  cases h with
  | fresh code hc hps => exact .fresh code hc (hawaited hps (hqueued (List.mem_singleton_self _)))
  | building hc hps =>
    exact .building hc (hawaited hps (hseated (List.mem_cons_self ..) (List.mem_singleton_self _)))
  | first hc hps => exact .first hc (hawaited hps (hqueued (List.mem_singleton_self _)))
  | ready o hc hps => exact .ready o hc (hawaited hps (hqueued (List.mem_singleton_self _)))
  | stepping d hps =>
    exact .stepping d (hawaited hps (hseated (List.mem_cons_self ..) (List.mem_singleton_self _)))
  | joining code next hk hwk hne hps =>
    exact .joining code next hk ((hw _ (hqueued (List.mem_singleton_self _))).trans hwk) hne
      (hawaited hps (hseated (List.mem_cons_self ..) (List.mem_singleton_self _)))
  | @telling task next ps o hc hps =>
    refine .telling o hc (hawaited hps (hseated (List.mem_cons_self ..) ?_))
    exact List.mem_singleton_self task.settler
  | finished o hdone => exact .finished o hdone

theorem Poised.mono {stack : List (Action C)} (h : Poised known c₀ w nodes done stack core mover rest o)
    (hdone : ∀ o, done o → done' o) : Poised known c₀ w nodes done' stack core mover rest o := by
  cases h with
  | fresh code hc hps => exact .fresh code hc hps
  | building hc hps => exact .building hc hps
  | first hc hps => exact .first hc hps
  | ready o hc hps => exact .ready o hc hps
  | stepping d hps => exact .stepping d hps
  | joining code next hk hwk hne hps => exact .joining code next hk hwk hne hps
  | telling o hc hps => exact .telling o hc hps
  | finished o h => exact .finished o (hdone o h)

theorem Underway.mono (h : Underway known c₀ nodes done below mover rest o u)
    (hdone : ∀ o, done o → done' o) : Underway known c₀ nodes done' below mover rest o u := by
  cases h with
  | working blanks core hbridge hrunning hseats hblanks hpoised =>
    exact .working blanks core hbridge hrunning hseats hblanks (hpoised.mono hdone)
  | returned blanks hstack hrunning hseats hblanks hmover hrest h =>
    exact .returned blanks hstack hrunning hseats hblanks hmover hrest (hdone o h)

/-! ### What a move changes -/

/-- What the moves of a direct evaluation are like: no panic takes off a seat and no task
    goes astray; the seats from before stay; who is somewhere can still be settled, and
    nobody is woken but by a task that ends. -/
structure Smooth (below : List (Seat C)) (e : Option TaskEvent) (u v : Works C) : Prop where
  does : ∃ entered, Does entered False False e u v
  loop : .loop ∈ v.seats → v.bridge ≠ none
  below : below <:+ v.seats
  pending : ∀ c, u.Holds c → ∃ tasks, u.waits c = some (.pending tasks)
  pending' : ∀ c, v.Holds c → ∃ tasks, v.waits c = some (.pending tasks)
  calm : e = none → ∀ c tasks o, u.waits c = some (.pending tasks) → v.waits c = some (.settled o) →
    tasks = []

/-- What has nothing to do with the tasks that are somewhere leaves everything as it is, but
    for a seat that has nothing to tell. -/
theorem Underway.aside (tops : List (Seat C))
    (h : Underway known c₀ nodes done below mover rest o u)
    (hbridge : v.bridge = u.bridge) (hseats : v.seats = tops ++ u.seats)
    (htops : ∀ s ∈ tops, ∃ o, s = .telling [] o) (hw : ∀ c, u.Holds c → v.waits c = u.waits c) :
    Underway known c₀ nodes done below mover rest o v := by
  have hblank {blanks : List (Seat C)} (hblanks : ∀ s ∈ blanks, ∃ o, s = .telling [] o) :
      ∀ s ∈ tops ++ blanks, ∃ o, s = .telling [] o := by
    rw [List.forall_mem_append]
    exact ⟨htops, hblanks⟩
  cases h with
  | working blanks core hx hrunning hs hblanks hpoised =>
    refine .working (tops ++ blanks) core (hbridge.trans hx) hrunning ?_ (hblank hblanks) (hpoised.congr hx hs hw)
    rw [hseats, hs, List.append_assoc]
  | returned blanks hstack hrunning hs hblanks hmover hrest hdone =>
    refine .returned (tops ++ blanks) ?_ ?_ ?_ (hblank hblanks) hmover hrest hdone
    · rw [← hstack, Works.stack, Works.stack, hbridge]
    · rw [← hrunning, Works.running, Works.running, hbridge]
    · rw [hseats, hs, List.append_assoc]

/-- The seat on top has nothing to tell, or is the first of the core, or is one from before. -/
theorem Underway.top {ub : Option (Bridge C)} {s : Seat C} {tail : List (Seat C)}
    (h : Underway known c₀ nodes done below mover rest o ⟨ub, s :: tail, w⟩) :
    (∃ o', s = .telling [] o' ∧ Underway known c₀ nodes done below mover rest o ⟨ub, tail, w⟩) ∨
    (∃ x core, ub = some x ∧ x.running = true ∧ tail = core ++ below ∧
      Poised known c₀ w nodes done x.stack (s :: core) mover rest o) ∨
    below = s :: tail := by
  cases h with
  | @working x blanks core hx hrunning hs hblanks hpoised =>
    cases blanks with
    | cons t blanks =>
      obtain ⟨rfl, rfl⟩ := List.cons.inj hs
      rw [List.forall_mem_cons] at hblanks
      obtain ⟨o', rfl⟩ := hblanks.1
      exact Or.inl ⟨o', rfl, .working blanks core hx hrunning rfl hblanks.2 hpoised⟩
    | nil =>
      cases core with
      | nil => exact Or.inr (Or.inr hs.symm)
      | cons t core =>
        obtain ⟨rfl, rfl⟩ := List.cons.inj hs
        exact Or.inr (Or.inl ⟨x, core, hx, hrunning, rfl, hpoised⟩)
  | returned blanks hstack hrunning hs hblanks hmover hrest hdone =>
    cases blanks with
    | nil => exact Or.inr (Or.inr hs.symm)
    | cons t blanks =>
      obtain ⟨rfl, rfl⟩ := List.cons.inj hs
      rw [List.forall_mem_cons] at hblanks
      obtain ⟨o', rfl⟩ := hblanks.1
      exact Or.inl ⟨o', rfl, .returned blanks hstack hrunning rfl hblanks.2 hmover hrest hdone⟩

theorem Poised.loop_mem {stack : List (Action C)}
    (h : Poised known c₀ w nodes done stack core mover rest o) : .loop ∈ core := by
  cases h <;> simp

theorem eq_of_suffix {α : Type} {a a' : α} {X L : List α} (h : a :: L <:+ X ++ a' :: L) : a = a' := by
  have hsuffix := List.suffix_of_suffix_length_le h (List.suffix_append X (a' :: L)) (by simp)
  exact (List.cons.inj (hsuffix.eq_of_length (by simp))).1

/-- A move in which nothing is seen leaves what is still to be seen. -/
theorem Underway.quiet (h : Underway known c₀ nodes done below mover rest o u)
    (hbelow : Seated false below) (hsmooth : Smooth below none u v) :
    Underway known c₀ nodes done below mover rest o v := by
  obtain ⟨⟨entered, top, top', tail, htop, htop', hdeed⟩, hloop, hsuffix, hpending, hpending', hcalm⟩ :=
    hsmooth
  obtain ⟨ub, us, uw⟩ := u
  obtain ⟨vb, vs, vw⟩ := v
  dsimp only at htop htop' hdeed hloop hsuffix hpending hpending' hcalm
  subst htop htop'
  -- a completion that nobody needs changes
  have haside (k : Nat) (p : Option (Wait C)) (hk : ¬ (⟨ub, top ++ tail, uw⟩ : Works C).Holds k) (c : Nat)
      (hc : (⟨ub, top ++ tail, uw⟩ : Works C).Holds c) : Function.update uw k p c = uw c := by
    refine Function.update_of_ne (fun heq => ?_) _ _
    subst heq
    exact hk hc
  cases hdeed with
  | still => exact h
  | make settings =>
    cases h with
    | working _ _ hx => cases hx
    | returned blanks hstack hrunning hs hblanks hmover hrest hdone =>
      exact .returned blanks rfl rfl hs hblanks hmover hrest hdone
  | scrap x =>
    cases h with
    | working blanks core hx hrunning hs hblanks hpoised =>
      have hs' : [] ++ tail = _ := hs
      rw [hs'] at hloop
      exact absurd rfl (hloop (List.mem_append_right _ (List.mem_append_left _ hpoised.loop_mem)))
    | returned blanks hstack hrunning hs hblanks hmover hrest hdone =>
      exact .returned blanks rfl rfl hs hblanks hmover hrest hdone
  | «open» x hc =>
    refine h.aside [] rfl rfl (List.forall_mem_nil _) (haside _ _ fun hheld => ?_)
    obtain ⟨tasks, htasks⟩ := hpending _ hheld
    cases hc.symm.trans htasks
  | preset x hc o =>
    refine h.aside [] rfl rfl (List.forall_mem_nil _) (haside _ _ fun hheld => ?_)
    obtain ⟨tasks, htasks⟩ := hpending _ hheld
    cases hc.symm.trans htasks
  | forget x hc =>
    refine h.aside [] rfl rfl (List.forall_mem_nil _) (haside _ _ fun hheld => ?_)
    obtain ⟨tasks, htasks⟩ := hpending _ hheld
    cases hc.symm.trans htasks
  | @settle x k tasks w hk o' =>
    obtain rfl := hcalm rfl k tasks o' hk (Function.update_self ..)
    refine h.aside [.telling [] o'] rfl rfl ?_ (haside _ _ fun hheld => ?_)
    · rw [List.forall_mem_singleton]
      exact ⟨o', rfl⟩
    · -- it would be somewhere still, although its completion has settled
      obtain ⟨tasks, htasks⟩ := hpending' k (by
        cases hheld with
        | queued ha hc => exact .queued ha hc
        | seated hs hc => exact .seated (List.mem_cons_of_mem _ hs) hc
        | @waiting k' p hk' hc =>
          refine .waiting (k := k') ((Function.update_of_ne (fun heq => ?_) _ _).trans hk') hc
          subst heq
          cases hk.symm.trans hk'
          cases hc)
      cases (Function.update_self ..).symm.trans htasks
  | tell x task tasks o' w hx =>
    rcases h.top with ⟨o', hs, -⟩ | ⟨x', core, hx', hrunning, rfl, hpoised⟩ | rfl
    · cases hs
    · cases hx'
      generalize hstack : x.stack = stack at hpoised
      cases hpoised with
      | telling o hc hps =>
        refine .working (x := x.wake (.resume task (some o'))) [.telling [] o'] [.loop] rfl rfl ?_ ?_ ?_
        · simp [Bridge.entry, hrunning]
        · rw [List.forall_mem_singleton]
          exact ⟨o', rfl⟩
        · rw [Bridge.wake, hstack]
          exact .ready o' hc hps
    · have heq := eq_of_suffix (X := x.entry) (by simpa using hsuffix)
      cases heq
  | told x o' =>
    rcases h.top with ⟨o', -, h⟩ | ⟨x', core, hx', hrunning, rfl, hpoised⟩ | rfl
    · exact h
    · generalize x'.stack = stack at hpoised
      cases hpoised
    · exact absurd hsuffix.length_le (by simp)
  | @build x code c as hx =>
    rcases h.top with ⟨o', hs, -⟩ | ⟨x', core, hx', hrunning, rfl, hpoised⟩ | rfl
    · cases hs
    · cases hx'
      rw [hx] at hpoised
      cases hpoised with
      | fresh code hc hps =>
        exact .working [] _ rfl hrunning rfl (List.forall_mem_nil _) (.building hc hps)
    · cases hbelow.1
  | rest hx =>
    rcases h.top with ⟨o', hs, -⟩ | ⟨x', core, hx', hrunning, rfl, hpoised⟩ | rfl
    · cases hs
    · cases hx'
      rw [hx] at hpoised
      cases hpoised with
      | finished o hdone => exact .returned [] hx rfl rfl (List.forall_mem_nil _) rfl rfl hdone
    · cases hbelow.1
  | built x task nextId =>
    rcases h.top with ⟨o', hs, -⟩ | ⟨x', core, hx', hrunning, rfl, hpoised⟩ | rfl
    · cases hs
    · cases hx'
      generalize hstack : x.stack = stack at hpoised
      cases hpoised with
      | building hc hps =>
        exact .working [] [.loop] rfl hrunning rfl (List.forall_mem_nil _)
          (.first hc hps)
    · cases (seated_building.mp hbelow).1
  | stray hf => exact hf.elim
  | shed hf => exact hf.elim
  | leave hf => exact hf.elim

/-- A task ends, and whoever awaits it is told next. -/
theorem Awaited.ends {x : Bridge C} (h : Awaited c₀ w nodes c ps) {tasks : List (Task C)}
    (hc : w c = some (.pending tasks)) (hstack : x.stack = []) (hrunning : x.running = true)
    (o : Outcome Value) (hdone : c = c₀ → done o) :
    Underway known c₀ nodes done below .bridge (traceBack known ps o) (resultBack known ps o)
      ⟨some x, .telling tasks o :: .loop :: below, Function.update w c (some (.settled o))⟩ := by
  cases ps with
  | nil =>
    obtain ⟨rfl, hnone⟩ := h
    cases hnone.symm.trans hc
    refine .working [.telling [] o] [.loop] rfl hrunning rfl ?_ ?_
    · rw [List.forall_mem_singleton]
      exact ⟨o, rfl⟩
    · rw [hstack]
      exact .finished o (hdone rfl)
  | cons p ps =>
    obtain ⟨p, next⟩ := p
    obtain ⟨⟨task, rfl, htask⟩, hne, hp, hps⟩ := h
    cases htask.symm.trans hc
    refine .working [] [.telling [task] o, .loop] rfl hrunning rfl
      (List.forall_mem_nil _) ?_
    rw [hstack]
    exact .telling o hp (hps.update hne _)

section Events

variable {i o' : Outcome Value} {x : Bridge C} {run next : Outcome Value → Doing} {birth : Birth}

theorem Underway.refuses {e : Error} (h : Underway known c₀ nodes done below .bridge rest o u)
    (hbelow : Seated false below) (hsmooth : Smooth below (some (.ended c (.failure e))) u v)
    (hc : nodes c = some (.refused e))
    (hdone : ∀ o, v.waits c₀ = some (.settled o) → done o) :
    ∃ rest', rest = .ended c (.failure e) :: rest' ∧
      Underway known c₀ nodes done below .bridge rest' o v := by
  obtain ⟨entered, top, top', tail, htop, htop', hdeed⟩ := hsmooth.does
  obtain ⟨ub, us, uw⟩ := u
  obtain ⟨vb, vs, vw⟩ := v
  dsimp only at htop htop' hdeed hdone
  subst htop htop'
  cases hdeed with
  | ended x hs hpending =>
    rcases h.top with ⟨o', hs', -⟩ | ⟨x', core, hx', hrunning, rfl, hpoised⟩ | rfl
    · rcases hs with rfl | rfl <;> cases hs'
    · subst hx'
      generalize hstack : x'.stack = stack at hpoised
      rcases hs with rfl | rfl
      · cases hpoised with
        | building hbirth hps =>
          cases hbirth.symm.trans hc
          refine ⟨_, rfl, hps.ends hpending hstack hrunning _ fun heq => hdone _ ?_⟩
          rw [← heq]
          exact Function.update_self ..
      · cases hpoised
    · rcases hs with rfl | rfl
      · cases (seated_building.mp hbelow).1
      · cases (seated_stepping.mp hbelow).1

theorem Underway.finishes (h : Underway known c₀ nodes done below (.task c (.finish o')) rest o u)
    (hbelow : Seated false below) (hsmooth : Smooth below (some (.ended c o')) u v)
    (hdone : ∀ o, v.waits c₀ = some (.settled o) → done o) :
    ∃ rest', rest = .ended c o' :: rest' ∧ Underway known c₀ nodes done below .bridge rest' o v := by
  obtain ⟨entered, top, top', tail, htop, htop', hdeed⟩ := hsmooth.does
  obtain ⟨ub, us, uw⟩ := u
  obtain ⟨vb, vs, vw⟩ := v
  dsimp only at htop htop' hdeed hdone
  subst htop htop'
  cases hdeed with
  | ended x hs hpending =>
    rcases h.top with ⟨o'', hs', -⟩ | ⟨x', core, hx', hrunning, rfl, hpoised⟩ | rfl
    · rcases hs with rfl | rfl <;> cases hs'
    · subst hx'
      generalize hstack : x'.stack = stack at hpoised
      rcases hs with rfl | rfl
      · cases hpoised
      · cases hpoised with
        | stepping d hps =>
          refine ⟨_, rfl, hps.ends hpending hstack hrunning _ fun heq => hdone _ ?_⟩
          rw [← heq]
          exact Function.update_self ..
    · rcases hs with rfl | rfl
      · cases (seated_building.mp hbelow).1
      · cases (seated_stepping.mp hbelow).1

theorem Underway.calls (h : Underway known c₀ nodes done below (.task c (.call k birth next)) rest o u)
    (hsmooth : Smooth below (some (.started k)) u v) :
    ∃ rest', rest = .started k :: rest' ∧ Underway known c₀ (Function.update nodes k (some birth)) done
      below (.joining c k next) rest' o v := by
  obtain ⟨entered, top, top', tail, htop, htop', hdeed⟩ := hsmooth.does
  have hpending := hsmooth.pending
  obtain ⟨ub, us, uw⟩ := u
  obtain ⟨vb, vs, vw⟩ := v
  dsimp only at htop htop' hdeed hpending
  subst htop htop'
  cases hdeed with
  | run x hnew code hx =>
    cases h with
    | returned _ _ _ _ _ hmover => cases hmover
    | @working x' blanks core hx' hrunning hs hblanks hpoised =>
      cases hx'
      have hs' : tail = blanks ++ (core ++ below) := hs
      subst hs'
      generalize hstack : x.stack = stack at hpoised
      cases hpoised with
      | @stepping _ ps _ hps =>
        -- the child is new, so that it is none of those that wait
        have hheld : (⟨some x, blanks ++ ([.stepping c, .loop] ++ below), uw⟩ : Works C).Holds c :=
          .seated (List.mem_append_right _ (List.mem_cons_self ..)) (List.mem_singleton_self c)
        have hne : k ∉ c :: ps.map Prod.fst := fun hmem => by
          obtain ⟨tasks, htasks⟩ := hpending k (hps.holds hheld hmem)
          cases hnew.symm.trans htasks
        have hother : ∀ q ∈ ps.map Prod.fst, Function.update nodes k (some birth) q = nodes q :=
          fun q hq => Function.update_of_ne (ne_of_mem_of_not_mem (List.mem_cons_of_mem _ hq) hne) _ _
        refine ⟨_, trace_call known c k birth next ps,
          .working blanks [.stepping c, .loop] rfl rfl ?_ hblanks ?_⟩
        · simp [Bridge.entry, hrunning]
        · rw [Bridge.wake, hstack]
          exact .joining code next (Function.update_self ..) (Function.update_self ..) hne
            ((hps.update hne _).congr (fun _ _ => rfl) hother)

theorem Underway.awaits (h : Underway known c₀ nodes done below (.task c (.await k next)) rest o u)
    (hbelow : Seated false below) (hsmooth : Smooth below (some (.awaits c k)) u v)
    (hk : u.waits k = some (.settled (known k))) :
    ∃ rest', rest = .awaits c k :: rest' ∧
      Underway known c₀ (Function.update nodes c (some (.built next))) done below .bridge rest' o v := by
  obtain ⟨entered, top, top', tail, htop, htop', hdeed⟩ := hsmooth.does
  obtain ⟨ub, us, uw⟩ := u
  obtain ⟨vb, vs, vw⟩ := v
  dsimp only at htop htop' hdeed hk
  subst htop htop'
  cases hdeed with
  | awaits x task hpending => cases hk.symm.trans hpending
  | awaitsSettled x task hsettled hx =>
    cases hk.symm.trans hsettled
    rcases h.top with ⟨o', hs, -⟩ | ⟨x', core, hx', hrunning, rfl, hpoised⟩ | rfl
    · cases hs
    · cases hx'
      generalize hstack : x.stack = stack at hpoised
      cases hpoised with
      | stepping d hps =>
        refine ⟨_, rfl, .working [] [.loop] rfl rfl ?_ (List.forall_mem_nil _) ?_⟩
        · simp [Bridge.entry, hrunning]
        · rw [Bridge.wake, hstack]
          exact .ready (known k) (Function.update_self ..) (hps.proceed next)
    · cases (seated_stepping.mp hbelow).1

/-- The outermost task is started on a bridge that has nothing to do. -/
theorem Works.begins {birth : Birth} (hstack : u.stack = []) (hrunning : u.running = false)
    (hdoes : ∃ entered, Does entered False False (some (.started c)) u v) :
    Underway known c (Function.update (fun _ => none) c (some birth)) done u.seats .bridge
      (birth.trace known c) (birth.result known) v := by
  obtain ⟨entered, top, top', tail, htop, htop', hdeed⟩ := hdoes
  obtain ⟨ub, us, uw⟩ := u
  obtain ⟨vb, vs, vw⟩ := v
  dsimp only at htop htop' hdeed
  subst htop htop'
  cases hdeed with
  | run x hnew code hx =>
    have hidle : x.running = false := hrunning
    have hempty : x.stack = [] := hstack
    refine .working [] [.loop] rfl rfl ?_ (List.forall_mem_nil _) ?_
    · simp [Bridge.entry, hidle]
    · rw [Bridge.wake, hempty]
      have hawaited : Awaited c (Function.update uw c (some (.pending [])))
          (Function.update (fun _ => none) c (some birth)) c [] := ⟨rfl, Function.update_self ..⟩
      have hfresh : Poised known c _ _ done _ _ _ _ _ :=
        .fresh code (Function.update_self c (some birth) fun _ => none) hawaited
      simpa [traceBack, resultBack] using hfresh

end Events

end Lemmas

namespace Machine

variable {B : Behavior C R} {b j : Nat} {m m₀ : Machine C R} {past : List (Machine C R)}
  {known : Nat → Outcome Value} {birth : Birth} {nodes : Nat → Option Birth} {mover : Mover}

variable (B b known m₀ birth) in
/-- In the first `j` moves from `m₀`, the tasks of the bridge do what `birth` says, each
    from when it is resumed to the end of its step. Which task is resumed, and what it is
    fed, is up to the bridge. -/
inductive Performs : Nat → (Nat → Option Birth) → Mover → Prop
  | begin : Performs 1 (Function.update (fun _ => none) m₀.numbers (some birth)) .bridge
  | quiet {j : Nat} {nodes mover} (h : Performs j nodes mover)
      (he : (after B j m₀).taskEvent? b = none) : Performs (j + 1) nodes mover
  | resumed {j c : Nat} {nodes run o} (h : Performs j nodes .bridge)
      (hc : nodes c = some (.built run))
      (he : (after B j m₀).taskEvent? b = some (.resumed c o)) :
      Performs (j + 1) nodes (.task c (run o))
  | refused {j c : Nat} {nodes e} (h : Performs j nodes .bridge)
      (hc : nodes c = some (.refused e))
      (he : (after B j m₀).taskEvent? b = some (.ended c (.failure e))) :
      Performs (j + 1) nodes .bridge
  | finished {j c : Nat} {nodes o} (h : Performs j nodes (.task c (.finish o)))
      (he : (after B j m₀).taskEvent? b = some (.ended c o)) : Performs (j + 1) nodes .bridge
  /-- What is awaited has settled already. -/
  | awaited {j c k : Nat} {nodes next} (h : Performs j nodes (.task c (.await k next)))
      (he : (after B j m₀).taskEvent? b = some (.awaits c k))
      (hk : (after B j m₀).progress? k = some (.settled (known k))) :
      Performs (j + 1) (Function.update nodes c (some (.built next))) .bridge
  | called {j c k : Nat} {nodes child next} (h : Performs j nodes (.task c (.call k child next)))
      (he : (after B j m₀).taskEvent? b = some (.started k)) :
      Performs (j + 1) (Function.update nodes k (some child)) (.joining c k next)
  | joined {j c k : Nat} {nodes next} (h : Performs j nodes (.joining c k next))
      (he : (after B j m₀).taskEvent? b = some (.awaits c k)) :
      Performs (j + 1) (Function.update nodes c (some (.built next))) .bridge

/-- The same number, if both are numbers. -/
def Outcome.sameInt (o o' : Outcome Value) : Bool := o.int?.isSome && o.int? == o'.int?

theorem Outcome.eq_of_sameInt {o o' : Outcome Value} (h : Outcome.sameInt o o' = true) : o = o' := by
  rw [Outcome.sameInt, Bool.and_eq_true, beq_iff_eq] at h
  obtain ⟨n, hn⟩ := Option.isSome_iff_exists.mp h.1
  rw [Outcome.int?_eq_some hn, Outcome.int?_eq_some (h.2.symm.trans hn)]

/-- What the tasks do next, if they do what the tree says. This covers trees in which no
    task is refused, whatever is awaited has been started in the same step, and all outcomes
    are numbers. -/
def proceeds? (b : Nat) (nodes : Nat → Option Birth) (mover : Mover) (m : Machine C R) :
    Option ((Nat → Option Birth) × Mover) :=
  match m.taskEvent? b, mover with
  | none, mover => some (nodes, mover)
  | some (.resumed c o), .bridge =>
    match nodes c with
    | some (.built run) => some (nodes, .task c (run o))
    | _ => none
  | some (.ended c o), .task c' (.finish o') =>
    if c = c' ∧ Outcome.sameInt o o' = true then some (nodes, .bridge) else none
  | some (.awaits c k), .joining c' k' next =>
    if c = c' ∧ k = k' then some (Function.update nodes c (some (.built next)), .bridge) else none
  | some (.started k), .task c (.call k' child next) =>
    if k = k' then some (Function.update nodes k (some child), .joining c k next) else none
  | _, _ => none

theorem Performs.proceed {nodes' : Nat → Option Birth} {mover' : Mover}
    (h : Performs B b m₀ known birth j nodes mover)
    (hproceeds : proceeds? b nodes mover (after B j m₀) = some (nodes', mover')) :
    Performs B b m₀ known birth (j + 1) nodes' mover' := by
  unfold proceeds? at hproceeds
  split at hproceeds
  · next he =>
    cases hproceeds
    exact .quiet h he
  · next c o he =>
    split at hproceeds
    · next run hc =>
      cases hproceeds
      exact .resumed h hc he
    · cases hproceeds
  · next c o c' o' he =>
    split at hproceeds
    · next hsame =>
      cases hproceeds
      obtain ⟨rfl, hint⟩ := hsame
      rw [Outcome.eq_of_sameInt hint] at he
      exact .finished h he
    · cases hproceeds
  · next c k c' k' next he =>
    split at hproceeds
    · next hsame =>
      cases hproceeds
      obtain ⟨rfl, rfl⟩ := hsame
      exact .joined h he
    · cases hproceeds
  · next k c k' child next he =>
    split at hproceeds
    · next hsame =>
      cases hproceeds
      subst hsame
      exact .called h he
    · cases hproceeds
  · cases hproceeds

/-- Whether a task has returned something that is no step of it. -/
def Frame.loses (a : Answer C) : Frame C R → Bool
  | .resuming _ _ _ =>
    match a with
    | .stepped (.done _) _ => false
    | .stepped (.yield (.await _)) _ => false
    | _ => true
  | _ => false

end Machine

end Strand
