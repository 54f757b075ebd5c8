import Mathlib
import Strand.Proofs.Shares

/-! # Holders — counting one more, and letting go

    What the store counts changes in four ways:

    * somebody holds once more what is held already (`Covered.retain`);
    * a completion settles, and its listeners come out (`Covered.settle`);
    * a settler steps down and stays a reader (`Covered.stepDown`);
    * a handle is let go of (`Covered.letGo`). The last holder takes out what
      was held in the cell, and the last settler of a pending completion leaves
      the completion for others to settle.

    Nothing of what a scheduler does is counted, it only moves handles about
    (`Covered.onScheduler`). -/

namespace Strand

variable {C R : Type} {B : Behavior C R} {st st' : Store C} {K : List (Frame C R)}
  {ys : List Share} {x : Handle} {c : Nat}

/-! ### Counting once more -/

/-- What the handle refers to is there. -/
def Store.alive (st : Store C) : Handle → Prop
  | .completion c => ∃ k, st.completions.find? c = some k
  | .settler c => ∃ k, st.completions.find? c = some k
  | .queue q => ∃ k, st.queues.find? q = some k
  | .continuation k => ∃ t, st.snapshots.find? k = some t
  | .reenter _ => True
  | .scheduler p => ∃ s, st.schedulers.find? p = some s
  | .bridge b => ∃ k, st.bridges.find? b = some k
  | .coroutine i => ∃ k, st.kept.find? i = some k

theorem Store.find?_of_tally? {t : Tally} (h : st.tally? c = some t) :
    ∃ k, st.completions.find? c = some k ∧ st.completions.cell? c = some ⟨t.holders, k⟩ ∧
      k.settlers = t.settlers ∧ k.progress.isPending = t.pending := by
  obtain ⟨cell, hcell, rfl⟩ := Option.map_eq_some_iff.mp h
  exact ⟨cell.content, Table.find?_of_cell? hcell, hcell, rfl, rfl⟩

theorem Store.tally?_of_find? {k : Completion C} (hc : st.completions.find? c = some k) :
    ∃ n, st.tally? c = some ⟨n, k.settlers, k.progress.isPending⟩ := by
  obtain ⟨n, hn⟩ := Table.cell?_of_find? hc
  exact ⟨n, by rw [Store.tally?, hn]; rfl⟩

theorem Store.Affords.alive {n : Handle → Nat} (h : st.Affords n) (hx : 0 < n x)
    (hcounted : x.counted = true) : st.alive x := by
  have htally : ∀ c, 0 < n (.completion c) + n (.settler c) →
      ∃ k, st.completions.find? c = some k := by
    intro c hpos
    have hafford := h.completions c
    cases ht : st.tally? c with
    | none =>
      rw [ht] at hafford
      simp only [Tally.Affords] at hafford
      omega
    | some t =>
      obtain ⟨k, hk, -⟩ := Store.find?_of_tally? ht
      exact ⟨k, hk⟩
  cases x with
  | completion c => exact htally c (by omega)
  | settler c => exact htally c (by omega)
  | reenter p => cases hcounted
  | _ => exact Table.find?_of_holders (Nat.lt_of_lt_of_le hx (h.plain _ rfl))

/-- What somebody holds is there. -/
theorem Covered.alive (h : Covered B st K ys) (hx : 0 < holdings B st K ys (.loose x))
    (hcounted : x.counted = true) : st.alive x :=
  h.afford.alive (Nat.lt_of_lt_of_le hx (le_worth _ x)) hcounted

theorem Store.held_retain (held : C → List Handle) (st : Store C) (x : Handle) (y : Share) :
    (st.retain x).held held y = st.held held y := by
  cases x with
  | settler c =>
    have hmodify := Table.total_modify (st.completions.retain c) c
      (fun k => { k with settlers := k.settlers + 1 })
      (fun k => (k.progress.shares held).count y)
    have hsame : ∀ o : Option (Completion C), Table.weight
        (fun k => (k.progress.shares held).count y)
        (o.map fun k => { k with settlers := k.settlers + 1 }) =
          Table.weight (fun k => (k.progress.shares held).count y) o := by
      intro o
      cases o <;> rfl
    rw [hsame, Table.total_retain] at hmodify
    simp only [Store.held, Store.retain]
    omega
  | reenter p => rfl
  | _ => simp only [Store.held, Store.retain, Table.total_retain]

theorem Store.tally?_retain (st : Store C) (x : Handle) (c : Nat) :
    (st.retain x).tally? c = if x = .completion c then
        (st.tally? c).map fun t => { t with holders := t.holders + 1 }
      else if x = .settler c then
        (st.tally? c).map fun t => { t with holders := t.holders + 1, settlers := t.settlers + 1 }
      else st.tally? c := by
  cases x with
  | completion c' =>
    simp only [Handle.completion.injEq, reduceCtorEq, if_false, Store.tally?, Store.retain,
      Table.cell?_retain, eq_comm (a := c) (b := c')]
    split
    · next heq =>
      subst heq
      cases st.completions.cell? c' <;> rfl
    · rfl
  | settler c' =>
    simp only [Handle.settler.injEq, reduceCtorEq, if_false, Store.tally?, Store.retain,
      Table.cell?_modify, Table.cell?_retain, eq_comm (a := c) (b := c')]
    split
    · next heq =>
      subst heq
      cases st.completions.cell? c' <;> rfl
    · rfl
  | _ => simp only [reduceCtorEq, if_false, Store.tally?, Store.retain]

theorem Store.frames?_retain (st : Store C) (x : Handle) (k : Nat) :
    (st.retain x).frames? k = st.frames? k := by
  cases x with
  | continuation k' => simp only [Store.frames?, Store.retain, Table.find?_retain]
  | _ => rfl

theorem Store.holders_retain (h : st.alive x) {z : Handle} (hz : z.plain = true) :
    (st.retain x).holders z = st.holders z + if z = x then 1 else 0 := by
  cases x with
  | completion c => cases z <;> first | rfl | cases hz
  | settler c => cases z <;> first | rfl | cases hz
  | reenter p => cases z <;> first | rfl | cases hz
  | _ =>
    obtain ⟨k, hk⟩ := h
    cases z <;> simp [Store.holders, Store.retain, Table.holders_retain hk]

theorem Store.Affords.retain {n n' : Handle → Nat} (h : st.Affords n) (hx : st.alive x)
    (hle : ∀ z, n' z ≤ n z + [x].count z) : (st.retain x).Affords n' where
  completions c := by
    have hafford := h.completions c
    have hreader := hle (.completion c)
    have hsettler := hle (.settler c)
    simp only [List.count_singleton, beq_iff_eq] at hreader hsettler
    rw [Store.tally?_retain]
    by_cases hcompletion : x = .completion c
    · rw [if_pos hcompletion]
      rw [if_pos hcompletion] at hreader
      rw [if_neg (by simp [hcompletion])] at hsettler
      obtain ⟨k, hk⟩ : ∃ k, st.completions.find? c = some k := by
        rw [hcompletion] at hx
        exact hx
      obtain ⟨m, hm⟩ := Store.tally?_of_find? hk
      rw [hm] at hafford ⊢
      simp only [Tally.Affords, Option.map_some] at hafford ⊢
      split
      · next hpending =>
        rw [if_pos hpending] at hafford
        omega
      · next hsettled =>
        rw [if_neg hsettled] at hafford
        omega
    · rw [if_neg hcompletion]
      rw [if_neg hcompletion] at hreader
      by_cases hset : x = .settler c
      · rw [if_pos hset]
        rw [if_pos hset] at hsettler
        obtain ⟨k, hk⟩ : ∃ k, st.completions.find? c = some k := by
          rw [hset] at hx
          exact hx
        obtain ⟨m, hm⟩ := Store.tally?_of_find? hk
        rw [hm] at hafford ⊢
        simp only [Tally.Affords, Option.map_some] at hafford ⊢
        split
        · next hpending =>
          rw [if_pos hpending] at hafford
          omega
        · next hsettled =>
          rw [if_neg hsettled] at hafford
          omega
      · rw [if_neg hset]
        rw [if_neg hset] at hsettler
        exact hafford.mono hreader hsettler
  plain z hz := by
    have hone := hle z
    have hcounted := h.plain z hz
    rw [Store.holders_retain hx hz]
    simp only [List.count_singleton, beq_iff_eq, eq_comm (a := x)] at hone
    omega

/-- One more holder of what is there, and is not for a task to settle. -/
theorem Covered.retain_one (h : Covered B st K ys)
    (hx : x.counted = true → st.alive x ∧ ∀ c, x = .settler c → holdings B st K ys (.task c) = 0) :
    Covered B (st.retain x) K (.loose x :: ys) := by
  by_cases hcounted : x.counted = true
  · obtain ⟨halive, htask⟩ := hx hcounted
    refine Covered.step [] [x] [] [] h (fun z => ?_)
      (fun c => ?_) (fun n n' _ hle hafford => hafford.retain halive hle) (fun c n hn hpos => ?_)
      (fun c t ht => ?_) (fun k fs _ hfs => ?_)
    · simp only [Store.held_retain]
      exact Nat.le_refl _
    · simp only [Store.held_retain]
      exact Nat.le_refl _
    · rw [Store.tally?_retain]
      split
      · exact ⟨n + 1, by rw [hn]; rfl⟩
      · split
        · next heq =>
          have hzero := htask c heq
          have hpos' : 0 < holdings B st K ys (.task c) := hpos
          omega
        · exact ⟨n, hn⟩
    · rw [Store.tally?_retain] at ht
      split at ht
      · obtain ⟨u, hu, rfl⟩ := Option.map_eq_some_iff.mp ht
        exact h.hopeful c u hu
      · split at ht
        · obtain ⟨u, hu, rfl⟩ := Option.map_eq_some_iff.mp ht
          exact fun _ => Nat.le_add_left _ _
        · exact h.hopeful c t ht
    · rw [Store.frames?_retain]
      exact hfs
  · have hsame : st.retain x = st := by
      cases x with
      | reenter p => rfl
      | _ => exact absurd rfl hcounted
    rw [hsame]
    exact h.uncounted (Bool.eq_false_iff.mpr hcounted)

/-- Handles that somebody holds are held once more. -/
theorem Covered.retain (h : Covered B st K ys) (hs : List Handle)
    (hknown : ∀ x ∈ hs, x.counted = true → 0 < holdings B st K ys (.loose x)) :
    Covered B (st.retainAll hs) K (loose hs ++ ys) := by
  induction hs generalizing st ys with
  | nil => exact h
  | cons x hs ih =>
    have hone : Covered B (st.retain x) K (.loose x :: ys) := by
      refine h.retain_one fun hcounted => ?_
      have hheld := hknown x (List.mem_cons_self ..) hcounted
      refine ⟨h.alive hheld hcounted, fun c hc => ?_⟩
      subst hc
      exact h.not_task hheld
    refine (ih hone fun z hz hcounted => ?_).sub fun y => ?_
    · have hbefore := hknown z (List.mem_cons_of_mem _ hz) hcounted
      simp only [holdings, Store.held_retain] at hbefore ⊢
      have hmore : ys.count (.loose z) ≤ (Share.loose x :: ys).count (.loose z) :=
        List.count_le_count_cons
      omega
    · simp only [loose_cons, List.cons_append, List.count_cons, List.count_append]
      omega

/-! ### Settling -/

theorem Store.tally?_set {k : Completion C} (hc : st.completions.find? c = some k) (k' : Completion C)
    (c' : Nat) :
    ({ st with completions := st.completions.set c k' } : Store C).tally? c' =
      if c' = c then (st.tally? c).map fun t => ⟨t.holders, k'.settlers, k'.progress.isPending⟩
      else st.tally? c' := by
  obtain ⟨n, hn⟩ := Table.cell?_of_find? hc
  simp only [Store.tally?, Table.cell?_replaced]
  split
  · rw [hn]
    rfl
  · rfl

/-- A completion that nobody settles but who does so now. -/
theorem Covered.settle {o : Outcome Value} {listeners : List (Listener C)} {n : Nat}
    (s : Nat) (h : Covered B st K (loose o.handles ++ ys))
    (hc : st.completions.find? c = some ⟨.pending listeners, n⟩)
    (htask : holdings B st K (loose o.handles ++ ys) (.task c) = 0) :
    Covered B { st with completions := st.completions.set c ⟨.settled o, s⟩ } K
      (listeners.flatMap (Listener.shares B.held) ++ ys) := by
  obtain ⟨holders, htally⟩ := Store.tally?_of_find? hc
  have hheld : ∀ y, ({ st with completions := st.completions.set c ⟨.settled o, s⟩ } : Store C).held
      B.held y + (listeners.flatMap (Listener.shares B.held)).count y =
        st.held B.held y + (loose o.handles).count y := by
    intro y
    have htotal : _ + (listeners.flatMap (Listener.shares B.held)).count y =
        _ + (loose o.handles).count y :=
      Table.total_set hc ⟨.settled o, s⟩ (fun k => (k.progress.shares B.held).count y)
    simp only [Store.held]
    omega
  have htally' := Store.tally?_set hc ⟨.settled o, s⟩
  refine Covered.step [] [] _ _ h (fun x => Nat.le_of_eq ?_)
    (fun c' => Nat.le_of_eq (hheld _)) (fun a a' _ hle hafford => ⟨fun c' => ?_, fun z hz => ?_⟩)
    (fun c' m hm hpos => ?_) (fun c' t ht => ?_) (fun _ _ _ h => h)
  · exact congrArg (worth · x) (funext hheld)
  · have hbefore := hafford.completions c'
    have hreader := hle (.completion c')
    have hsettler := hle (.settler c')
    simp only [List.count_nil, Nat.add_zero] at hreader hsettler
    rw [htally']
    split
    · next heq =>
      subst heq
      rw [htally] at hbefore ⊢
      simp only [Tally.Affords, Progress.isPending, if_true, Option.map_some, Bool.false_eq_true,
        if_false] at hbefore ⊢
      omega
    · exact hbefore.mono hreader hsettler
  · have hone := hle z
    simp only [List.count_nil, Nat.add_zero] at hone
    exact Nat.le_trans hone (hafford.plain z hz)
  · rw [htally']
    have hne : c' ≠ c := by
      rintro rfl
      have hpos' : 0 < holdings B st K (loose o.handles ++ ys) (.task c') := hpos
      omega
    rw [if_neg hne]
    exact ⟨m, hm⟩
  · rw [htally'] at ht
    split at ht
    · rw [htally] at ht
      cases ht
      exact fun h => by cases h
    · exact h.hopeful c' t ht

/-! ### Letting go -/

/-- One share less of a plain handle is counted, and what that releases is
    handed out. -/
theorem Covered.letGo_cell {released : List Handle} (h : Covered B st K (.loose x :: ys))
    (n : Share → Nat)
    (hheld : ∀ y, st'.held B.held y + n y = st.held B.held y)
    (hn : ∀ z, worth n z = released.count z)
    (hholders : ∀ z, z.plain = true → st'.holders z = st.holders z - if z = x then 1 else 0)
    (htally : ∀ c, st'.tally? c = st.tally? c)
    (hframes : ∀ k fs, .loose (.continuation k) ∈ K.flatMap (Frame.shares B) →
      st.frames? k = some fs → st'.frames? k = some fs) :
    Covered B st' K (loose released ++ ys) := by
  refine Covered.step [x] [] [] _ h (fun z => ?_) (fun c => ?_)
    (fun a a' hlost hle hafford => ⟨fun c => ?_, fun z hz => ?_⟩)
    (fun c m hm _ => ⟨m, (htally c).trans hm⟩)
    (fun c t ht => h.hopeful c t ((htally c).symm.trans ht)) hframes
  · rw [worth_add, worth_loose, ← hn, ← worth_add]
    exact worth_mono (fun y => Nat.le_of_eq (hheld y)) z
  · have hle := hheld (.task c)
    simp only [count_loose_task, List.count_nil]
    omega
  · have hreader := hle (.completion c)
    have hsettler := hle (.settler c)
    simp only [List.count_nil, Nat.add_zero] at hreader hsettler
    rw [htally]
    exact (hafford.completions c).mono (by omega) (by omega)
  · have hone := hle z
    have hheld := hlost z
    have hcounted := hafford.plain z hz
    rw [hholders z hz]
    simp only [List.count_nil, List.count_singleton, beq_iff_eq, Nat.add_zero,
      eq_comm (a := x)] at hone hheld
    omega

/-- What a scheduler does moves handles about. -/
theorem Covered.onScheduler {ins outs : List Handle} (h : Covered B st K (loose ins ++ ys)) (p : Nat)
    {f : Scheduler C → Scheduler C}
    (hf : ∀ s, st.schedulers.find? p = some s → ∀ x,
      (f s).claims B.held x + outs.count x ≤ s.claims B.held x + ins.count x)
    (hnone : st.schedulers.find? p = none → ∀ x, outs.count x ≤ ins.count x) :
    Covered B (st.onScheduler p f) K (loose outs ++ ys) := by
  have hloose : ∀ y, (loose outs).count y ≤ (loose ins).count y ↔
      ∀ x, y = .loose x → outs.count x ≤ ins.count x := by
    intro y
    cases y with
    | loose x => simp
    | task c => simp
  cases hs : st.schedulers.find? p with
  | none =>
    have hsame : st.onScheduler p f = st := by
      unfold Store.onScheduler
      rw [hs]
    rw [hsame]
    refine h.sub fun y => ?_
    have hle := (hloose y).mpr fun x _ => hnone hs x
    simp only [List.count_append]
    omega
  | some s =>
    have hafter : st.onScheduler p f = { st with
        schedulers := st.schedulers.set p { f s with reports := [] }
        events := (f s).reports.map (fun r => .record (.by (f s).settings.name r)) ++ st.events } := by
      unfold Store.onScheduler
      rw [hs]
    have hclaims : ∀ x, ({ f s with reports := [] } : Scheduler C).claims B.held x =
        (f s).claims B.held x := fun _ => rfl
    generalize ({ f s with reports := [] } : Scheduler C) = s' at hafter hclaims
    rw [hafter]
    refine h.update [] _ _ (fun y => ?_) (fun _ => ⟨rfl, rfl⟩) (fun x _ => ?_) (fun _ => rfl)
      (fun _ _ h => h)
    · have htotal := Table.total_set hs s' (fun s => (loose (s.handles B.held)).count y)
      have hweight : (loose (s'.handles B.held)).count y + (loose outs).count y ≤
          (loose (s.handles B.held)).count y + (loose ins).count y := by
        cases y with
        | loose x =>
          simp only [count_loose]
          rw [Scheduler.count_handles, Scheduler.count_handles, hclaims]
          exact hf s hs x
        | task c => simp
      simp only [Store.held]
      omega
    · cases x <;> simp [Store.holders]

/-- A settler steps down and stays a reader; `progress` is what becomes of the
    completion. -/
theorem Covered.stepDown {k : Completion C} {progress : Progress C}
    (h : Covered B st K (.loose (.settler c) :: ys)) (hc : st.completions.find? c = some k)
    (outs : List Share)
    (hprogress : ∀ y, (progress.shares B.held).count y + outs.count y =
      (k.progress.shares B.held).count y)
    (hsettled : k.progress.isPending = false → progress.isPending = false)
    (hpending : progress.isPending = true → 2 ≤ k.settlers) :
    Covered B { st with completions := st.completions.set c ⟨progress, k.settlers - 1⟩ } K
      (.loose (.completion c) :: (outs ++ ys)) := by
  obtain ⟨holders, htally⟩ := Store.tally?_of_find? hc
  have htask := h.not_task (c := c) (by simp [holdings])
  have htally' := Store.tally?_set hc ⟨progress, k.settlers - 1⟩
  have hheld : ∀ y, ({ st with completions := st.completions.set c ⟨progress, k.settlers - 1⟩ } :
      Store C).held B.held y + outs.count y = st.held B.held y := by
    intro y
    have htotal : _ + (k.progress.shares B.held).count y = _ + (progress.shares B.held).count y :=
      Table.total_set hc ⟨progress, k.settlers - 1⟩ (fun k => (k.progress.shares B.held).count y)
    have hone := hprogress y
    simp only [Store.held]
    omega
  refine Covered.step [.settler c] [.completion c] [] _ h
    (fun x => Nat.le_of_eq (congrArg (worth · x) (funext hheld)))
    (fun c' => Nat.le_of_eq (hheld _))
    (fun a a' hlost hle hafford => ⟨fun c' => ?_, fun z hz => ?_⟩)
    (fun c' m hm hheld' => ?_) (fun c' t ht => ?_) (fun _ _ _ h => h)
  · have hbefore := hafford.completions c'
    have hreader := hle (.completion c')
    have hsettler := hle (.settler c')
    have hone := hlost (.settler c')
    simp only [List.count_singleton, beq_iff_eq, reduceCtorEq, if_false, Nat.add_zero,
      Handle.completion.injEq, Handle.settler.injEq, eq_comm (a := c)] at hreader hsettler hone
    rw [htally']
    by_cases heq : c' = c
    · rw [if_pos heq] at hreader hsettler hone ⊢
      rw [heq] at hbefore hreader hsettler hone ⊢
      rw [htally] at hbefore ⊢
      simp only [Tally.Affords, Option.map_some] at hbefore ⊢
      cases hnow : progress.isPending with
      | true =>
        have hmore := hpending hnow
        have hopen : k.progress.isPending = true := by
          cases hk : k.progress.isPending with
          | true => rfl
          | false => exact absurd hnow (by rw [hsettled hk]; decide)
        rw [hopen] at hbefore
        simp only [if_true] at hbefore ⊢
        omega
      | false =>
        cases hk : k.progress.isPending with
        | true =>
          rw [hk] at hbefore
          simp only [if_true, Bool.false_eq_true, if_false] at hbefore ⊢
          omega
        | false =>
          rw [hk] at hbefore
          simp only [Bool.false_eq_true, if_false] at hbefore ⊢
          omega
    · rw [if_neg heq] at hreader hsettler ⊢
      exact hbefore.mono (by omega) (by omega)
  · have hone := hle z
    have hcounted := hafford.plain z hz
    have hzero : [Handle.completion c].count z = 0 := by
      cases z <;> first | rfl | cases hz
    rw [hzero] at hone
    show a' z ≤ st.holders z
    omega
  · rw [htally']
    have hne : c' ≠ c := by
      rintro rfl
      have hheld'' : 0 < holdings B st K (.loose (.settler c') :: ys) (.task c') := hheld'
      omega
    rw [if_neg hne]
    exact ⟨m, hm⟩
  · rw [htally'] at ht
    split at ht
    · rw [htally] at ht
      cases ht
      intro hopen
      have hmore := hpending hopen
      show 1 ≤ k.settlers - 1
      omega
    · exact h.hopeful c' t ht

theorem Store.tally?_letGoReader (held : C → List Handle) (st : Store C) (c c' : Nat) :
    (st.letGoReader held c).2.tally? c' = if c' = c then
        (st.tally? c).bind fun t =>
          if t.holders ≤ 1 then none else some { t with holders := t.holders - 1 }
      else st.tally? c' := by
  simp only [Store.letGoReader, Store.tally?, Table.cell?_letGo]
  split
  · cases st.completions.cell? c with
    | none => rfl
    | some cell =>
      simp only [Option.bind_some, Option.map_some]
      split <;> rfl
  · rfl

/-- A reader lets go. -/
theorem Covered.letGo_reader (h : Covered B st K (.loose (.completion c) :: ys)) :
    Covered B (st.letGoReader B.held c).2 K
      (loose (((st.completions.letGo c).1.map fun k => k.progress.handles B.held).getD []) ++ ys) := by
  have htally' := Store.tally?_letGoReader B.held st c
  have hheld : ∀ y, (st.letGoReader B.held c).2.held B.held y +
      Table.weight (fun k => (k.progress.shares B.held).count y) (st.completions.letGo c).1 =
        st.held B.held y := by
    intro y
    have htotal := Table.total_letGo st.completions c (fun k => (k.progress.shares B.held).count y)
    simp only [Store.held, Store.letGoReader]
    omega
  -- a pending completion has a settler beside the reader, so it stays
  have hmore : ∀ t, st.tally? c = some t → t.pending = true → 2 ≤ t.holders := by
    intro t ht hpending
    have hafford := h.afford.completions c
    have hhopeful := h.hopeful c t ht hpending
    have hreader : 0 < worth (holdings B st K (.loose (.completion c) :: ys)) (.completion c) := by
      simp [worth, holdings]
    rw [ht] at hafford
    simp only [Tally.Affords, hpending, if_true] at hafford
    omega
  refine Covered.step [.completion c] [] [] _ h (fun z => ?_)
    (fun c' => ?_) (fun a a' hlost hle hafford => ⟨fun c' => ?_, fun z hz => ?_⟩)
    (fun c' m hm _ => ?_) (fun c' u hu => ?_) (fun _ _ _ h => h)
  · rw [worth_add, worth_loose, ← worth_weight _ _ z
      (fun k : Completion C => worth_progress B.held k.progress z), ← worth_add]
    exact worth_mono (fun y => Nat.le_of_eq (hheld y)) z
  · have hle := hheld (.task c')
    simp only [count_loose_task, List.count_nil]
    omega
  · have hbefore := hafford.completions c'
    have hreader := hle (.completion c')
    have hsettler := hle (.settler c')
    have hone := hlost (.completion c')
    simp only [List.count_singleton, beq_iff_eq, reduceCtorEq, if_false, Nat.add_zero,
      Handle.completion.injEq, eq_comm (a := c), List.count_nil] at hreader hsettler hone
    rw [htally']
    by_cases heq : c' = c
    · rw [if_pos heq] at hreader hone ⊢
      rw [heq] at hbefore hreader hsettler hone
      cases ht : st.tally? c with
      | none =>
        rw [ht] at hbefore
        simp only [Tally.Affords, Option.bind_none] at hbefore ⊢
        rw [heq]
        omega
      | some t =>
        have htwo := hmore t ht
        rw [ht] at hbefore
        simp only [Option.bind_some]
        cases hpending : t.pending with
        | true =>
          have hle := htwo hpending
          rw [if_neg (by omega)]
          simp only [Tally.Affords, hpending, if_true] at hbefore ⊢
          rw [heq]
          omega
        | false =>
          simp only [Tally.Affords, hpending, Bool.false_eq_true, if_false] at hbefore
          split
          · simp only [Tally.Affords]
            rw [heq]
            omega
          · simp only [Tally.Affords, Bool.false_eq_true, if_false]
            rw [heq]
            omega
    · rw [if_neg heq] at hreader ⊢
      exact hbefore.mono (by omega) (by omega)
  · have hone := hle z
    have hcounted := hafford.plain z hz
    simp only [List.count_nil, Nat.add_zero] at hone
    show a' z ≤ st.holders z
    omega
  · rw [htally']
    split
    · next heq =>
      rw [heq] at hm
      have htwo := hmore _ hm rfl
      rw [hm, Option.bind_some, if_neg (by omega)]
      exact ⟨m - 1, rfl⟩
    · exact ⟨m, hm⟩
  · rw [htally'] at hu
    split at hu
    · obtain ⟨t, ht, hrest⟩ := Option.bind_eq_some_iff.mp hu
      split at hrest
      · cases hrest
      · obtain rfl := Option.some.inj hrest
        exact h.hopeful c t ht
    · exact h.hopeful c' u hu

/-- What comes of letting go of a handle. The last settler of a pending
    completion leaves the completion behind, for others to settle. -/
inductive Covered.LetGo (B : Behavior C R) (K : List (Frame C R)) (ys : List Share) :
    Store.Aftermath × Store C → Prop where
  | release (hs : List Handle) (st : Store C) (h : Covered B st K (loose hs ++ ys)) :
      LetGo B K ys (.release hs, st)
  | abandoned (c : Nat) (listeners : List (Listener C)) (st : Store C)
      (hc : st.completions.find? c = some ⟨.pending listeners, 0⟩)
      (h : ∀ o : Outcome Value, o.handles = [] →
        Covered B { st with completions := st.completions.set c ⟨.settled o, 0⟩ } K
          (.loose (.completion c) :: (listeners.flatMap (Listener.shares B.held) ++ ys))) :
      LetGo B K ys (.abandoned c, st)

theorem Covered.letGo_settler (h : Covered B st K (.loose (.settler c) :: ys)) :
    Covered.LetGo B K ys (st.letGo B.held (.settler c)) := by
  obtain ⟨k, hc⟩ : ∃ k, st.completions.find? c = some k :=
    h.alive (x := .settler c) (by simp [holdings]) rfl
  have hreads : (k.progress.isPending = true → 2 ≤ k.settlers) →
      Covered.LetGo B K ys (({ st with
        completions := st.completions.set c ⟨k.progress, k.settlers - 1⟩ } :
          Store C).letGoReader B.held c) := by
    intro hmore
    have hdown := h.stepDown hc [] (fun y => rfl) (fun h => h) hmore
    exact .release _ _ hdown.letGo_reader
  unfold Store.letGo
  simp only [hc]
  cases hprogress : k.progress with
  | settled o =>
    rw [hprogress] at hreads
    exact hreads fun h => by cases h
  | pending listeners =>
    rw [hprogress] at hreads
    dsimp only
    by_cases hlast : k.settlers ≤ 1
    · rw [if_pos hlast]
      have hzero : k.settlers - 1 = 0 := by omega
      refine .abandoned c listeners _ ?_ fun o ho => ?_
      · show (st.completions.set c _).find? c = _
        rw [Table.find?_set, if_pos rfl, hc, hzero]
        rfl
      · show Covered B { st with
          completions := (st.completions.set c ⟨.pending listeners, k.settlers - 1⟩).set c
            ⟨.settled o, 0⟩ } K _
        rw [Table.set_set, ← hzero]
        refine h.stepDown hc _ (fun y => ?_) (fun _ => rfl) fun h => by cases h
        rw [hprogress]
        simp [Progress.shares, ho]
    · rw [if_neg hlast]
      exact hreads fun _ => by omega

/-- The continuation is still held by somebody else. -/
theorem Covered.gone_continuation {k : Nat} (h : Covered B st K (.loose (.continuation k) :: ys))
    (hmem : .loose (.continuation k) ∈ K.flatMap (Frame.shares B)) :
    (st.snapshots.letGo k).1 = none := by
  have hcount : 0 < (K.flatMap (Frame.shares B)).count (.loose (.continuation k)) :=
    List.count_pos_iff.mpr hmem
  have hafford := h.afford.plain (.continuation k) rfl
  simp only [worth, holdings, List.count_cons_self, Store.holders] at hafford
  exact Table.gone_of_holders (by omega)

theorem Covered.letGo_continuation {k : Nat} (h : Covered B st K (.loose (.continuation k) :: ys)) :
    Covered.LetGo B K ys (st.letGo B.held (.continuation k)) := by
  have hcell : Covered B { st with snapshots := (st.snapshots.letGo k).2 } K
      (loose (((st.snapshots.letGo k).1.map (Snapshot.handles B.held)).getD []) ++ ys) := by
    refine h.letGo_cell (fun y => Table.weight
      (fun t => (loose (t.handles B.held)).count y) (st.snapshots.letGo k).1) (fun y => ?_)
      (fun z => worth_weight _ _ z (fun t => worth_loose _ z) _) (fun z hz => ?_) (fun _ => rfl)
      fun k' fs hk' hfs => ?_
    · have htotal := Table.total_letGo st.snapshots k
        (fun t => (loose (t.handles B.held)).count y)
      simp only [Store.held]
      omega
    · cases z <;> simp [Store.holders, Table.holders_letGo]
    · by_cases heq : k' = k
      · subst heq
        simp only [Store.frames?, Table.find?_letGo_of_none (h.gone_continuation hk')]
        exact hfs
      · rcases Table.find?_letGo st.snapshots k k' with hsame | ⟨hk, -⟩
        · simp only [Store.frames?, hsame]
          exact hfs
        · exact absurd hk heq
  cases hgone : (st.snapshots.letGo k).1 with
  | none =>
    have hafter : st.letGo B.held (.continuation k) =
        (.release [], { st with snapshots := (st.snapshots.letGo k).2 }) := by
      unfold Store.letGo
      simp only [hgone]
    rw [hgone] at hcell
    rw [hafter]
    exact .release [] _ hcell
  | some snapshot =>
    rw [hgone] at hcell
    unfold Store.letGo
    simp only [hgone]
    refine .release _ _ ?_
    cases snapshot.routines with
    | none => exact hcell
    | some ids =>
      exact hcell.onScheduler snapshot.home (fun s _ x => Nat.le_of_eq rfl) fun _ x => Nat.le_refl _

/-- A handle is let go of. -/
theorem Covered.letGo (h : Covered B st K (.loose x :: ys)) :
    Covered.LetGo B K ys (st.letGo B.held x) := by
  cases x with
  | completion c => exact .release _ _ h.letGo_reader
  | settler c => exact h.letGo_settler
  | continuation k => exact h.letGo_continuation
  | reenter p =>
    exact .release [] st (h.sub fun y => List.count_le_count_cons)
  | queue q =>
    have hcell : Covered B { st with queues := (st.queues.letGo q).2 } K
        (loose (((st.queues.letGo q).1.map (List.flatMap (Job.handles B.held))).getD []) ++ ys) := by
      refine h.letGo_cell (fun y => Table.weight
        (fun t => (loose (List.flatMap (Job.handles B.held) t)).count y) (st.queues.letGo q).1) (fun y => ?_)
        (fun z => worth_weight _ _ z (fun t => worth_loose _ z) _) (fun z hz => ?_) (fun _ => rfl)
        fun _ _ _ h => h
      · have htotal := Table.total_letGo st.queues q (fun t => (loose (List.flatMap (Job.handles B.held) t)).count y)
        simp only [Store.held]
        omega
      · cases z <;> simp [Store.holders, Table.holders_letGo]
    exact .release _ _ hcell
  | scheduler p =>
    have hcell : Covered B { st with schedulers := (st.schedulers.letGo p).2 } K
        (loose (((st.schedulers.letGo p).1.map (Scheduler.handles B.held)).getD []) ++ ys) := by
      refine h.letGo_cell (fun y => Table.weight
        (fun t => (loose (t.handles B.held)).count y) (st.schedulers.letGo p).1) (fun y => ?_)
        (fun z => worth_weight _ _ z (fun t => worth_loose _ z) _) (fun z hz => ?_) (fun _ => rfl)
        fun _ _ _ h => h
      · have htotal := Table.total_letGo st.schedulers p (fun t => (loose (t.handles B.held)).count y)
        simp only [Store.held]
        omega
      · cases z <;> simp [Store.holders, Table.holders_letGo]
    exact .release _ _ hcell
  | bridge b =>
    have hcell : Covered B { st with bridges := (st.bridges.letGo b).2 } K
        (loose (((st.bridges.letGo b).1.map (Bridge.handles B.held)).getD []) ++ ys) := by
      refine h.letGo_cell (fun y => Table.weight
        (fun t => (t.shares B.held).count y) (st.bridges.letGo b).1) (fun y => ?_)
        (fun z => worth_weight _ _ z (fun t => worth_bridge B.held t z) _) (fun z hz => ?_) (fun _ => rfl)
        fun _ _ _ h => h
      · have htotal := Table.total_letGo st.bridges b (fun t => (t.shares B.held).count y)
        simp only [Store.held]
        omega
      · cases z <;> simp [Store.holders, Table.holders_letGo]
    exact .release _ _ hcell
  | coroutine i =>
    have hcell : Covered B { st with kept := (st.kept.letGo i).2 } K
        (loose (((st.kept.letGo i).1.map (Kept.handles B.held)).getD []) ++ ys) := by
      refine h.letGo_cell (fun y => Table.weight
        (fun t => (loose (t.handles B.held)).count y) (st.kept.letGo i).1) (fun y => ?_)
        (fun z => worth_weight _ _ z (fun t => worth_loose _ z) _) (fun z hz => ?_) (fun _ => rfl)
        fun _ _ _ h => h
      · have htotal := Table.total_letGo st.kept i (fun t => (loose (t.handles B.held)).count y)
        simp only [Store.held]
        omega
      · cases z <;> simp [Store.holders, Table.holders_letGo]
    exact .release _ _ hcell

end Strand
