import Strand.Proofs.Journeys

/-! # Accounts — the tasks of a bridge along a history

    `taskTrail` is what has been seen of a task. Seen once, it is in some place until it is
    seen to end, or until the bridge loses sight of it.

    * `Follows` says what may be seen of a task next, and `Rests` where it may be meanwhile.
    * `Accounted` joins the two: the trail goes as it should (`Goes`), and the task is where
      its trail says, has ended, or has been forsaken (`Account`). Every move keeps this
      (`Accounted.move`), so it holds of every history (`History.accounted`). -/

namespace Strand

variable {C R : Type}

namespace Machine

variable {B : Behavior C R} {b c : Nat} {m : Machine C R} {past : List (Machine C R)}

/-! ### No task is in two places -/

theorem waits_lt {k : Nat} {x : Wait C} (h : (m.works b).waits k = some x) :
    k < m.store.completions.cells.size := by
  obtain ⟨y, hy, -⟩ := Option.map_eq_some_iff.mp h
  exact Table.lt_size_of_find? hy

theorem count_flatMap_range (n : Nat) (f : Nat → List Nat) (c : Nat) :
    ((List.range n).flatMap f).count c = ∑ k ∈ Finset.range n, (f k).count c := by
  induction n with
  | zero => rfl
  | succ n ih => simp [List.range_succ, Finset.sum_range_succ, List.count_append, ih]

/-- All tasks that are anywhere are on the roll, so often. -/
theorem count_roll (b c : Nat) (m : Machine C R) :
    (((m.works b).roll m.store.completions.cells.size).map Prod.fst).count c = m.headcount b c := by
  have hstack : ((m.works b).stack.map Action.spot).map Prod.fst =
      (m.works b).stack.map Action.settler := by
    rw [List.map_map]
    exact List.map_congr_left fun a _ => a.fst_spot
  have hseats : ((m.works b).seats.flatMap Seat.spots).map Prod.fst =
      (m.works b).seats.flatMap Seat.settlers := by
    rw [List.map_flatMap]
    exact List.flatMap_congr fun x _ => x.fst_spots
  rw [Works.roll, List.map_append, List.map_append, List.count_append, List.count_append, hstack,
    hseats, headcount, ← Nat.add_assoc, List.map_flatMap, count_flatMap_range, Table.total]
  congr 1
  refine Finset.sum_congr rfl fun k _ => ?_
  show _ = Table.weight _ _
  simp only [works]
  cases m.store.completions.find? k with
  | none => rfl
  | some x => simp [Table.weight]

/-- Nobody awaits a completion that is still to be made. -/
theorem roll_of_size_le {n : Nat} (hn : m.store.completions.cells.size ≤ n) (b : Nat) :
    (m.works b).roll n = (m.works b).roll m.store.completions.cells.size := by
  have hnone : ∀ k, m.store.completions.cells.size ≤ k → (m.works b).waits k = none := by
    intro k hk
    cases hx : (m.works b).waits k with
    | none => rfl
    | some x => exact absurd (waits_lt hx) (Nat.not_lt.mpr hk)
  obtain ⟨d, rfl⟩ := Nat.exists_eq_add_of_le hn
  rw [Works.roll, Works.roll, List.range_add, List.flatMap_append]
  congr 2
  rw [List.append_right_eq_self, List.flatMap_eq_nil_iff]
  intro k hk
  obtain ⟨i, -, rfl⟩ := List.mem_map.mp hk
  rw [hnone _ (Nat.le_add_right ..)]
  rfl

theorem rolled {n : Nat} (h : Balanced B m) (hn : m.store.completions.cells.size ≤ n) (b : Nat) :
    (m.works b).Rolled n where
  below k x hk := Nat.lt_of_lt_of_le (waits_lt hk) hn
  once := by
    rw [roll_of_size_le hn, List.nodup_iff_count_le_one]
    intro c
    rw [count_roll]
    exact headcount_le_one h b c

theorem size_completions_step (h : Balanced B m) :
    m.store.completions.cells.size ≤ (m.step B).store.completions.cells.size := by
  rcases numbers_step h with hsame | ⟨hnext, -⟩
  · exact Nat.le_of_eq hsame.symm
  · exact Nat.le_of_lt (Nat.lt_of_lt_of_eq (Nat.lt_succ_self _) hnext.symm)

/-- The bridge loses sight of tasks in this move: a panic gets at them, one of them does
    what no task does, or the bridge is let go of with work to do. -/
def Loses (B : Behavior C R) (b : Nat) (m : Machine C R) : Prop :=
  m.Sheds b ∨ m.Astray b ∨ (m.works b).stack ≠ [] ∧ ((m.step B).works b).bridge = none

/-- What a move is to a task. -/
theorem passage_step (h : Balanced B m) (h' : Balanced B (m.step B)) (b c : Nat) :
    Passage (m.Loses B b) c (m.taskEvent? b) (m.works b) ((m.step B).works b) := by
  have hu := rolled h (size_completions_step h) b
  have hv := rolled h' (Nat.le_refl _) b
  exact ((does_step h).exchanges hu.below hv.below).passage hu hv c

/-! ### What is seen of a task -/

/-- What has been seen of the task that settles `c`. -/
def taskTrail (b c : Nat) (past : List (Machine C R)) : List TaskEvent :=
  (past.filterMap (taskEvent? b)).filter fun e => e.task = c

/-- A completion has settled with this. -/
def SettledWith (past : List (Machine C R)) (k : Nat) (o : Outcome Value) : Prop :=
  ∃ n ∈ past, n.progress? k = some (.settled o)

end Machine

/-- What is seen of a task next. `settled` says which completions have settled with what. -/
inductive Follows (settled : Nat → Outcome Value → Prop) (c : Nat) : TaskEvent → TaskEvent → Prop where
  /-- The first time it is resumed with nothing. -/
  | first : Follows settled c (.started c) (.resumed c .unit)
  /-- It could not be built. -/
  | unbuilt (o : Outcome Value) : Follows settled c (.started c) (.ended c o)
  | awaits (input : Outcome Value) (k : Nat) : Follows settled c (.resumed c input) (.awaits c k)
  /-- Then with the outcome of what it has awaited. -/
  | again {k : Nat} {o : Outcome Value} (hk : settled k o) :
      Follows settled c (.awaits c k) (.resumed c o)
  | done (input o : Outcome Value) : Follows settled c (.resumed c input) (.ended c o)

/-- Where a task may be after what has been seen of it last. -/
inductive Rests (settled : Nat → Outcome Value → Prop) (c : Nat) : TaskEvent → Spot → Prop where
  | fresh : Rests settled c (.started c) .fresh
  | building : Rests settled c (.started c) .building
  | first : Rests settled c (.started c) (.ready none)
  | stepping (input : Outcome Value) : Rests settled c (.resumed c input) .stepping
  | waiting (k : Nat) : Rests settled c (.awaits c k) (.waiting k)
  | told {k : Nat} {o : Outcome Value} (hk : settled k o) : Rests settled c (.awaits c k) (.told o)
  | ready {k : Nat} {o : Outcome Value} (hk : settled k o) :
      Rests settled c (.awaits c k) (.ready (some o))

section Follows

variable {settled settled' : Nat → Outcome Value → Prop} {c : Nat} {e e' : TaskEvent} {s : Spot}

theorem Follows.mono (h : Follows settled c e e') (hle : ∀ k o, settled k o → settled' k o) :
    Follows settled' c e e' := by
  cases h with
  | first => exact .first
  | unbuilt o => exact .unbuilt o
  | awaits input k => exact .awaits input k
  | again hk => exact .again (hle _ _ hk)
  | done input o => exact .done input o

theorem Rests.mono (h : Rests settled c e s) (hle : ∀ k o, settled k o → settled' k o) :
    Rests settled' c e s := by
  cases h with
  | fresh => exact .fresh
  | building => exact .building
  | first => exact .first
  | stepping input => exact .stepping input
  | waiting k => exact .waiting k
  | told hk => exact .told (hle _ _ hk)
  | ready hk => exact .ready (hle _ _ hk)

/-- What is seen of a task, or is not, when it advances. -/
theorem Advances.follows {C : Type} {w w' : Nat → Option (Wait C)} {e' : Option TaskEvent} {s' : Spot}
    (h : Advances w w' c e' s s') (hs : Rests settled c e s)
    (hw : ∀ k o, w k = some (.settled o) → settled k o)
    (hw' : ∀ k o, w' k = some (.settled o) → settled k o) :
    ((∀ x ∈ e', x.task ≠ c) ∧ Rests settled c e s') ∨
      ∃ x, e' = some x ∧ x.task = c ∧ Follows settled c e x ∧ Rests settled c x s' := by
  cases h with
  | stay he => exact Or.inl ⟨he, hs⟩
  | build =>
    cases hs
    exact Or.inl ⟨by simp, .building⟩
  | built =>
    cases hs
    exact Or.inl ⟨by simp, .first⟩
  | resume o =>
    cases hs with
    | first => exact Or.inr ⟨_, rfl, rfl, .first, .stepping _⟩
    | ready hk => exact Or.inr ⟨_, rfl, rfl, .again hk, .stepping _⟩
  | awaits hk =>
    cases hs
    exact Or.inr ⟨_, rfl, rfl, .awaits _ _, .waiting _⟩
  | awaitsSettled hk =>
    cases hs
    exact Or.inr ⟨_, rfl, rfl, .awaits _ _, .ready (hw _ _ hk)⟩
  | settle he hk =>
    cases hs
    exact Or.inl ⟨he, .told (hw' _ _ hk)⟩
  | tell o =>
    cases hs with
    | told hk => exact Or.inl ⟨by simp, .ready hk⟩

/-- A task ends while it is built or advanced. -/
theorem Rests.ends (h : Rests settled c e s) (hs : s = .building ∨ s = .stepping) (o : Outcome Value) :
    Follows settled c e (.ended c o) := by
  rcases hs with rfl | rfl
  · cases h
    exact .unbuilt o
  · cases h
    exact .done _ o

end Follows

namespace Machine

variable {B : Behavior C R} {b c : Nat} {m n : Machine C R} {past : List (Machine C R)}

/-- The bridge has lost sight of the task in the move from `n`. -/
structure Forsakes (B : Behavior C R) (b c : Nat) (n : Machine C R) : Prop where
  loses : n.Loses B b
  held : (n.works b).Holds c
  gone : ¬ ((n.step B).works b).Holds c

/-- What has been seen of a task, and where it is. -/
inductive Account (B : Behavior C R) (b c : Nat) (past : List (Machine C R)) (m : Machine C R) :
    List TaskEvent → Prop where
  | unstarted (hm : ¬ (m.works b).Holds c) : Account B b c past m []
  | placed {es : List TaskEvent} {e : TaskEvent} {s : Spot}
      (hs : Rests (SettledWith (past ++ [m])) c e s) (hm : (m.works b).Stays c s) :
      Account B b c past m (es ++ [e])
  | ended {es : List TaskEvent} {o : Outcome Value} (hm : ¬ (m.works b).Holds c)
      (hc : SettledWith (past ++ [m]) c o) :
      Account B b c past m (es ++ [.ended c o])
  | lost {es : List TaskEvent} (hm : ¬ (m.works b).Holds c)
      (hn : ∃ n ∈ past, n.Forsakes B b c) : Account B b c past m es

theorem SettledWith.mono {past past' : List (Machine C R)} (h : past ⊆ past') {k : Nat}
    {o : Outcome Value} (hk : SettledWith past k o) : SettledWith past' k o := by
  obtain ⟨n, hn, ho⟩ := hk
  exact ⟨n, h hn, ho⟩

theorem settledWith_of_waits {k : Nat} {o : Outcome Value} (hm : m ∈ past)
    (h : (m.works b).waits k = some (.settled o)) : SettledWith past k o := by
  obtain ⟨x, hx, ho⟩ := Option.map_eq_some_iff.mp h
  refine ⟨m, hm, ?_⟩
  rw [progress?_of_find? hx]
  cases hp : x.progress with
  | pending ws =>
    rw [hp] at ho
    cases ho
  | settled o' =>
    rw [hp] at ho
    cases ho
    rfl

theorem taskTrail_move (b c : Nat) (past : List (Machine C R)) (m : Machine C R) :
    taskTrail b c (past ++ [m]) =
      taskTrail b c past ++ (m.taskEvent? b).toList.filter fun e => e.task = c := by
  rw [taskTrail, List.filterMap_append, List.filter_append, ← taskTrail]
  cases h : m.taskEvent? b <;> simp [h]

theorem filter_none {e : Option TaskEvent} (h : ∀ x ∈ e, x.task ≠ c) :
    (e.toList.filter fun e => e.task = c) = [] := by
  cases e with
  | none => rfl
  | some x => simp [h x rfl]

/-- A task begins with being started, and one thing follows another. -/
def Goes (settled : Nat → Outcome Value → Prop) (c : Nat) (es : List TaskEvent) : Prop :=
  es.IsChain (Follows settled c) ∧ ∀ e ∈ es.head?, e = .started c

theorem Goes.mono {settled settled' : Nat → Outcome Value → Prop} {es : List TaskEvent}
    (h : Goes settled c es) (hle : ∀ k o, settled k o → settled' k o) : Goes settled' c es :=
  ⟨h.1.imp fun _ _ hf => hf.mono hle, h.2⟩

theorem Goes.append {settled : Nat → Outcome Value → Prop} {es : List TaskEvent} {e e' : TaskEvent}
    (h : Goes settled c (es ++ [e])) (hf : Follows settled c e e') :
    Goes settled c (es ++ [e] ++ [e']) := by
  refine ⟨List.isChain_append.mpr ⟨h.1, List.isChain_singleton _, ?_⟩, ?_⟩
  · intro x hx y hy
    rw [List.getLast?_append, List.getLast?_singleton, Option.some_or] at hx
    cases hx
    cases hy
    exact hf
  · intro x hx
    refine h.2 x ?_
    rwa [List.head?_append_of_ne_nil _ (List.append_ne_nil_of_right_ne_nil _ (by simp))] at hx

/-- All about one task along a history. -/
structure Accounted (B : Behavior C R) (b c : Nat) (past : List (Machine C R)) (m : Machine C R) :
    Prop where
  goes : Goes (SettledWith (past ++ [m])) c (taskTrail b c past)
  born : taskTrail b c past ≠ [] → c < m.numbers
  account : Account B b c past m (taskTrail b c past)

theorem numbers_of_started (h : m.taskEvent? b = some (.started c)) : c = m.numbers := by
  unfold taskEvent? at h
  split at h
  · next request next hfocus =>
    unfold Request.taskEvent? at h
    split at h
    · obtain ⟨-, heq⟩ := Option.ite_none_right_eq_some.mp h
      cases heq
      rfl
    · cases h
  · next a hfocus =>
    obtain ⟨f, -, hf⟩ := Option.bind_eq_some_iff.mp h
    unfold Frame.answered? at hf
    split at hf
    · split at hf
      · obtain ⟨x, -, hx⟩ := Option.bind_eq_some_iff.mp hf
        obtain ⟨action, -, haction⟩ := Option.bind_eq_some_iff.mp hx
        cases action <;> cases haction
      · cases hf
    · split at hf
      · obtain ⟨-, heq⟩ := Option.ite_none_right_eq_some.mp hf
        cases heq
      · cases hf
    · split at hf
      · obtain ⟨-, heq⟩ := Option.ite_none_right_eq_some.mp hf
        cases heq
      · obtain ⟨-, heq⟩ := Option.ite_none_right_eq_some.mp hf
        cases heq
      · cases hf
    · cases hf
  · next payload salvage hfocus =>
    obtain ⟨f, -, hf⟩ := Option.bind_eq_some_iff.mp h
    unfold Frame.unwound? at hf
    split at hf
    · obtain ⟨-, heq⟩ := Option.ite_none_right_eq_some.mp hf
      cases heq
    · obtain ⟨-, heq⟩ := Option.ite_none_right_eq_some.mp hf
      cases heq
    · cases hf
  · cases h

theorem Accounted.move (h : Accounted B b c past m) (hm : Balanced B m) (hm' : Balanced B (m.step B)) :
    Accounted B b c (past ++ [m]) (m.step B) := by
  have htrail := taskTrail_move b c past m
  have hmono : ∀ k o, SettledWith (past ++ [m]) k o → SettledWith (past ++ [m] ++ [m.step B]) k o :=
    fun k o hk => hk.mono (List.subset_append_left ..)
  have hbefore : ∀ k o, (m.works b).waits k = some (.settled o) →
      SettledWith (past ++ [m] ++ [m.step B]) k o :=
    fun k o hk => settledWith_of_waits (by simp) hk
  have hafter : ∀ k o, ((m.step B).works b).waits k = some (.settled o) →
      SettledWith (past ++ [m] ++ [m.step B]) k o :=
    fun k o hk => settledWith_of_waits (by simp) hk
  have hnumbers : m.numbers ≤ (m.step B).numbers := size_completions_step hm
  have hlost : (∃ n ∈ past, n.Forsakes B b c) → ∃ n ∈ past ++ [m], n.Forsakes B b c := by
    rintro ⟨n, hn, hforsakes⟩
    exact ⟨n, List.mem_append_left _ hn, hforsakes⟩
  obtain ⟨hgoes, hborn, haccount⟩ := h
  have hgoes := hgoes.mono hmono
  have hsilent (hnone : ∀ x ∈ m.taskEvent? b, x.task ≠ c)
      (hnext : Account B b c (past ++ [m]) (m.step B) (taskTrail b c past)) :
      Accounted B b c (past ++ [m]) (m.step B) := by
    have hsame : taskTrail b c (past ++ [m]) = taskTrail b c past := by
      rw [htrail, filter_none hnone, List.append_nil]
    exact ⟨hsame ▸ hgoes, fun hne => Nat.lt_of_lt_of_le (hborn (hsame ▸ hne)) hnumbers, hsame ▸ hnext⟩
  have hseen {es : List TaskEvent} {e x : TaskEvent} (hx : m.taskEvent? b = some x) (htask : x.task = c)
      (hes : taskTrail b c past = es ++ [e])
      (hfollows : Follows (SettledWith (past ++ [m] ++ [m.step B])) c e x)
      (hnext : Account B b c (past ++ [m]) (m.step B) (es ++ [e] ++ [x])) :
      Accounted B b c (past ++ [m]) (m.step B) := by
    have hmore : taskTrail b c (past ++ [m]) = es ++ [e] ++ [x] := by
      rw [htrail, hx, hes]
      simp [htask]
    refine ⟨?_, fun _ => Nat.lt_of_lt_of_le (hborn (by simp [hes])) hnumbers, hmore ▸ hnext⟩
    rw [hes] at hgoes
    exact hmore ▸ hgoes.append hfollows
  -- a task that is somewhere has been seen, and not seen to end
  have hplace {s : Spot} (hs : (m.works b).Stays c s) : ∃ es e, taskTrail b c past = es ++ [e] ∧
      Rests (SettledWith (past ++ [m] ++ [m.step B])) c e s := by
    generalize taskTrail b c past = es at haccount ⊢
    cases haccount with
    | unstarted hm => exact absurd hs.holds hm
    | @placed es e s' hrests hstays =>
      obtain rfl := (rolled hm (Nat.le_refl _) b).unique hs hstays
      exact ⟨es, e, rfl, hrests.mono hmono⟩
    | ended hm => exact absurd hs.holds hm
    | lost hm => exact absurd hs.holds hm
  cases passage_step hm hm' b c with
  | absent he hu hv =>
    refine hsilent he ?_
    generalize taskTrail b c past = es at haccount ⊢
    cases haccount with
    | unstarted => exact .unstarted hv
    | placed _ hstays => exact absurd hstays.holds hu
    | ended _ hc => exact .ended hv (hmono _ _ hc)
    | lost _ hn => exact .lost hv (hlost hn)
  | starts he hu hv =>
    have hnone : taskTrail b c past = [] := by
      by_contra hne
      exact absurd (numbers_of_started he) (Nat.ne_of_lt (hborn hne))
    have hone : taskTrail b c (past ++ [m]) = [] ++ [.started c] := by
      rw [htrail, he, hnone]
      simp [TaskEvent.task]
    refine ⟨?_, fun _ => ?_, ?_⟩
    · rw [hone]
      exact ⟨List.isChain_singleton _, by simp⟩
    · obtain ⟨tasks, hc⟩ := pending_of_holds hm' hv.holds
      exact waits_lt hc
    · rw [hone]
      exact .placed .fresh hv
  | @goes s s' hadvances hu hv =>
    obtain ⟨es, e, hes, hrests⟩ := hplace hu
    rcases hadvances.follows hrests hbefore hafter with ⟨he, hrests⟩ | ⟨x, he, htask, hfollows, hrests⟩
    · exact hsilent he (hes ▸ .placed hrests hv)
    · exact hseen he htask hes hfollows (.placed hrests hv)
  | ends hs he hc hu hv =>
    obtain ⟨es, e, hes, hrests⟩ := hplace hu
    exact hseen he rfl hes (hrests.ends hs _) (.ended hv (hafter _ _ hc))
  | lose h he hu hv =>
    exact hsilent (by simp [he]) (.lost hv ⟨m, by simp, h, hu.holds, hv⟩)

/-- Another operation is nothing to the tasks. -/
theorem Accounted.congr (h : Accounted B b c past m) (hworks : n.works b = m.works b)
    (hprogress : ∀ k, n.progress? k = m.progress? k) (hnumbers : n.numbers = m.numbers) :
    Accounted B b c past n := by
  have hmono : ∀ k o, SettledWith (past ++ [m]) k o → SettledWith (past ++ [n]) k o := by
    rintro k o ⟨x, hx, ho⟩
    rcases List.mem_append.mp hx with hx | hx
    · exact ⟨x, List.mem_append_left _ hx, ho⟩
    · rw [List.mem_singleton.mp hx, ← hprogress] at ho
      exact ⟨n, by simp, ho⟩
  refine ⟨h.goes.mono hmono, fun hne => hnumbers ▸ h.born hne, ?_⟩
  have haccount := h.account
  generalize taskTrail b c past = es at haccount
  cases haccount with
  | unstarted hm => exact .unstarted (hworks ▸ hm)
  | placed hs hm => exact .placed (hs.mono hmono) (hworks ▸ hm)
  | ended hm hc => exact .ended (hworks ▸ hm) (hmono _ _ hc)
  | lost hm hn => exact .lost (hworks ▸ hm) hn

/-- Each machine of a history ends the history up to it. -/
theorem History.upTo (h : History B past m) {before since : List (Machine C R)}
    (hall : past ++ [m] = before ++ n :: since) : History B before n := by
  rcases List.eq_nil_or_concat since with rfl | ⟨since, x, rfl⟩
  · obtain ⟨rfl, heq⟩ := List.append_inj' hall rfl
    cases heq
    exact h
  · rw [List.concat_eq_append, ← List.cons_append, ← List.append_assoc] at hall
    obtain ⟨rfl, -⟩ := List.append_inj' hall rfl
    exact h.before

/-- A completion settles with one outcome only. -/
theorem History.settledWith_unique (h : History B past m) (hB : B.Honest) {k : Nat}
    {o o' : Outcome Value} (ho : SettledWith (past ++ [m]) k o) (ho' : SettledWith (past ++ [m]) k o') :
    o = o' := by
  have hlater {x y : Machine C R} {u v : Outcome Value} {before : List (Machine C R)}
      (hy : History B before y) (hx : x ∈ before) (hu : x.progress? k = some (.settled u))
      (hv : y.progress? k = some (.settled v)) : v = u := by
    rcases (hy.chronicle hB k).lasts hx hu with hsame | hgone
    · cases hv.symm.trans hsame
      rfl
    · cases hv.symm.trans hgone
  obtain ⟨x, hx, hu⟩ := ho
  obtain ⟨y, hy, hv⟩ := ho'
  obtain ⟨before, since, hall⟩ := List.append_of_mem hx
  rw [hall, List.mem_append, List.mem_cons] at hy
  rcases hy with hy | rfl | hy
  · exact hlater (h.upTo hall) hy hv hu
  · cases hu.symm.trans hv
    rfl
  · obtain ⟨between, since', rfl⟩ := List.append_of_mem hy
    rw [← List.cons_append, ← List.append_assoc] at hall
    exact (hlater (h.upTo hall) (by simp) hu hv).symm

/-- Every task is accounted for. -/
theorem History.accounted (hB : B.Honest) (h : History B past m) (b c : Nat) :
    Accounted B b c past m := by
  induction h with
  | begin onward _ hnone =>
    refine ⟨⟨List.isChain_nil, by simp [taskTrail]⟩, fun hne => absurd rfl hne, .unstarted fun hheld => ?_⟩
    obtain ⟨tasks, hc⟩ := pending_of_holds (balanced_empty (B := B) hnone) hheld
    simp [works, Store.empty, Table.empty, Table.find?, Table.cell?] at hc
  | move h ih => exact ih.move (h.balanced hB) (h.move.balanced hB)
  | @anew past m h ended events hs onward _ _ ih =>
    refine ih.congr ?_ (fun _ => rfl) rfl
    simp only [works, ended]

end Machine

end Strand
