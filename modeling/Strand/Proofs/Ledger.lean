import Mathlib
import Strand.Proofs.Holders

/-! # Ledger — what is put into the store and taken out of it

    Bridges, queues, kept scripts, snapshots and pending completions are given
    handles and give them back. For each of these changes there is one lemma. It
    says what is in transit before the change (`ins`) and after it (`outs`). A
    new cell comes with its first handle. -/

namespace Strand

variable {C R : Type} {B : Behavior C R} {st : Store C} {K : List (Frame C R)}
  {ys ins : List Share} {b c q k i p : Nat}

/-! ### Changes of the store -/

theorem Covered.onBridge (ins outs : List Share) (h : Covered B st K (ins ++ ys))
    (f : Bridge C → Bridge C)
    (hf : ∀ x, st.bridges.find? b = some x → ∀ y,
      ((f x).shares B.held).count y + outs.count y ≤ (x.shares B.held).count y + ins.count y)
    (hnone : st.bridges.find? b = none → ∀ y, outs.count y ≤ ins.count y) :
    Covered B { st with bridges := st.bridges.modify b f } K (outs ++ ys) := by
  refine h.update [] _ _ (fun y => ?_) (fun _ => ⟨rfl, rfl⟩) (fun x _ => ?_) (fun _ => rfl)
    (fun _ _ h => h)
  · have htotal := Table.total_modify st.bridges b f (fun x => (x.shares B.held).count y)
    cases hx : st.bridges.find? b with
    | none =>
      have hle := hnone hx y
      rw [hx] at htotal
      simp only [Table.weight, Option.map_none, Option.getD_none] at htotal
      simp only [Store.held]
      omega
    | some x =>
      have hle := hf x hx y
      rw [hx] at htotal
      simp only [Table.weight, Option.map_some, Option.getD_some] at htotal
      simp only [Store.held]
      omega
  · cases x <;> simp [Store.holders]

/-- What a bridge holds is all in its stack. -/
theorem Covered.onBridge_same (h : Covered B st K ys) (f : Bridge C → Bridge C)
    (hf : ∀ x, (f x).stack = x.stack) :
    Covered B { st with bridges := st.bridges.modify b f } K ys :=
  Covered.onBridge [] [] h f
    (fun x _ y => by rw [Bridge.shares, hf]; exact Nat.le_refl _) fun _ _ => Nat.le_refl _

theorem Covered.onQueue (ins outs : List Share) (h : Covered B st K (ins ++ ys))
    (f : List (Job C) → List (Job C))
    (hf : ∀ x, st.queues.find? q = some x → ∀ y,
      (loose ((f x).flatMap (Job.handles B.held))).count y + outs.count y ≤
        (loose (x.flatMap (Job.handles B.held))).count y + ins.count y)
    (hnone : st.queues.find? q = none → ∀ y, outs.count y ≤ ins.count y) :
    Covered B { st with queues := st.queues.modify q f } K (outs ++ ys) := by
  refine h.update [] _ _ (fun y => ?_) (fun _ => ⟨rfl, rfl⟩) (fun x _ => ?_) (fun _ => rfl)
    (fun _ _ h => h)
  · have htotal := Table.total_modify st.queues q f
      (fun x => (loose (x.flatMap (Job.handles B.held))).count y)
    cases hx : st.queues.find? q with
    | none =>
      have hle := hnone hx y
      rw [hx] at htotal
      simp only [Table.weight, Option.map_none, Option.getD_none] at htotal
      simp only [Store.held]
      omega
    | some x =>
      have hle := hf x hx y
      rw [hx] at htotal
      simp only [Table.weight, Option.map_some, Option.getD_some] at htotal
      simp only [Store.held]
      omega
  · cases x <;> simp [Store.holders]

theorem Covered.onKept (ins outs : List Share) (h : Covered B st K (ins ++ ys))
    (f : Kept C → Kept C)
    (hf : ∀ x, st.kept.find? i = some x → ∀ y,
      (loose ((f x).handles B.held)).count y + outs.count y ≤
        (loose (x.handles B.held)).count y + ins.count y)
    (hnone : st.kept.find? i = none → ∀ y, outs.count y ≤ ins.count y) :
    Covered B { st with kept := st.kept.modify i f } K (outs ++ ys) := by
  refine h.update [] _ _ (fun y => ?_) (fun _ => ⟨rfl, rfl⟩) (fun x _ => ?_) (fun _ => rfl)
    (fun _ _ h => h)
  · have htotal := Table.total_modify st.kept i f (fun x => (loose (x.handles B.held)).count y)
    cases hx : st.kept.find? i with
    | none =>
      have hle := hnone hx y
      rw [hx] at htotal
      simp only [Table.weight, Option.map_none, Option.getD_none] at htotal
      simp only [Store.held]
      omega
    | some x =>
      have hle := hf x hx y
      rw [hx] at htotal
      simp only [Table.weight, Option.map_some, Option.getD_some] at htotal
      simp only [Store.held]
      omega
  · cases x <;> simp [Store.holders]

/-- A completion gets another listener. -/
theorem Covered.listen {listeners : List (Listener C)} {n : Nat} {w : Listener C}
    (h : Covered B st K (w.shares B.held ++ ys))
    (hc : st.completions.find? c = some ⟨.pending listeners, n⟩) :
    Covered B { st with
      completions := st.completions.set c ⟨.pending (listeners ++ [w]), n⟩ } K ys := by
  obtain ⟨holders, htally⟩ := Store.tally?_of_find? hc
  have htally' : ∀ c', ({ st with
      completions := st.completions.set c ⟨.pending (listeners ++ [w]), n⟩ } : Store C).tally? c' =
        st.tally? c' := by
    intro c'
    rw [Store.tally?_set hc]
    split
    · next heq =>
      rw [heq, htally]
      rfl
    · rfl
  refine h.update [] _ [] (fun y => ?_) (fun _ => ⟨rfl, rfl⟩)
    (fun x _ => Nat.le_refl _) htally' (fun _ _ h => h)
  · have htotal : _ + (listeners.flatMap (Listener.shares B.held)).count y =
        _ + ((listeners ++ [w]).flatMap (Listener.shares B.held)).count y :=
      Table.total_set hc ⟨.pending (listeners ++ [w]), n⟩
        (fun k => (k.progress.shares B.held).count y)
    simp only [List.flatMap_append, List.count_append, List.flatMap_singleton] at htotal
    simp only [Store.held, List.count_nil]
    omega

theorem Covered.setSnapshot (h : Covered B st K ys) {t : Snapshot C}
    (ht : st.snapshots.find? k = some t) (routines : Option (List RoutineId)) :
    Covered B { st with snapshots := st.snapshots.set k { t with routines } } K ys := by
  refine h.update [] [] [] (fun y => ?_) (fun _ => ⟨rfl, rfl⟩)
    (fun x _ => ?_) (fun _ => rfl) (fun k' fs hfs => ?_)
  · have htotal : _ + (loose (t.handles B.held)).count y =
        _ + (loose (({ t with routines } : Snapshot C).handles B.held)).count y :=
      Table.total_set ht { t with routines } (fun t => (loose (t.handles B.held)).count y)
    have hsame : ({ t with routines } : Snapshot C).handles B.held = t.handles B.held := rfl
    rw [hsame] at htotal
    simp only [Store.held]
    omega
  · cases x <;> simp [Store.holders]
  · simp only [Store.frames?, Table.find?_set] at hfs ⊢
    split
    · next heq =>
      rw [heq, ht] at hfs
      rw [heq, ht]
      exact hfs
    · exact hfs

theorem Covered.replaceShared {shared : List (String × Value)} (ins outs : List Share)
    (h : Covered B st K (ins ++ ys))
    (hle : ∀ y, (loose (shared.flatMap fun entry => entry.2.handles)).count y + outs.count y ≤
      (loose (st.shared.flatMap fun entry => entry.2.handles)).count y + ins.count y) :
    Covered B { st with shared } K (outs ++ ys) := by
  refine h.update [] ins outs (fun y => ?_) (fun _ => ⟨rfl, rfl⟩) (fun _ _ => Nat.le_refl _)
    (fun _ => rfl) fun _ _ h => h
  have hone := hle y
  simp only [Store.held]
  omega

theorem Covered.logged (h : Covered B st K ys) (events : List Event) :
    Covered B { st with events } K ys :=
  h.update [] [] [] (fun _ => Nat.le_refl _) (fun _ => ⟨rfl, rfl⟩)
    (fun _ _ => Nat.le_refl _) (fun _ => rfl) fun _ _ h => h

theorem Covered.bridgeReport (h : Covered B st K ys) (b : Nat) (r : Report) :
    Covered B (st.bridgeReport b r) K ys := by
  unfold Store.bridgeReport
  split
  · exact h.logged _
  · exact h

/-! ### New cells -/

theorem Table.cell?_size {α : Type} (t : Table α) : t.cell? t.cells.size = none := by
  rw [Table.cell?, Array.getElem?_eq_none (Nat.le_refl _)]
  rfl

theorem Store.tally?_alloc (st : Store C) (n : Nat) (x : Completion C) (c : Nat) :
    ({ st with completions := (st.completions.alloc n x).2 } : Store C).tally? c =
      if c = st.completions.cells.size then some ⟨n, x.settlers, x.progress.isPending⟩
      else st.tally? c := by
  simp only [Store.tally?, Table.cell?_alloc]
  split <;> rfl

/-- A new completion. `new` are its first handles, of which `settlers` can settle
    it. -/
theorem Covered.allocCompletion {n : Nat} {x : Completion C} {new : List Handle}
    (ins : List Share) (h : Covered B st K (ins ++ ys))
    (hnew : new = List.replicate (n - x.settlers) (.completion st.completions.cells.size) ++
      List.replicate x.settlers (.settler st.completions.cells.size))
    (hsettlers : x.settlers ≤ n) (hhopeful : x.progress.isPending = true → 1 ≤ x.settlers)
    (hins : ∀ y, (x.progress.shares B.held).count y ≤ ins.count y) :
    Covered B { st with completions := (st.completions.alloc n x).2 } K (loose new ++ ys) := by
  have htally := st.tally?_alloc n x
  have hfresh : st.tally? st.completions.cells.size = none := by
    rw [Store.tally?, Table.cell?_size]
    rfl
  have hheld : ∀ y, ({ st with completions := (st.completions.alloc n x).2 } : Store C).held
      B.held y ≤ st.held B.held y + ins.count y := by
    intro y
    have htotal := Table.total_alloc st.completions n x (fun k => (k.progress.shares B.held).count y)
    have hle := hins y
    simp only [Store.held]
    omega
  refine Covered.step [] _ _ [] h (fun z => worth_mono hheld z) (fun c => hheld _)
    (fun a a' _ hle hafford => ⟨fun c => ?_, fun z hz => ?_⟩) (fun c' m hm _ => ⟨m, ?_⟩)
    (fun c' t ht => ?_) (fun _ _ _ h => h)
  · have hbefore := hafford.completions c
    have hreader := hle (.completion c)
    have hsettler := hle (.settler c)
    rw [hnew] at hreader hsettler
    simp only [List.count_append, List.count_replicate, beq_iff_eq, Handle.completion.injEq,
      Handle.settler.injEq, reduceCtorEq, if_false, List.count_nil, Nat.add_zero, Nat.zero_add,
      eq_comm (a := st.completions.cells.size)] at hreader hsettler
    rw [htally]
    by_cases heq : c = st.completions.cells.size
    · rw [if_pos heq] at hreader hsettler ⊢
      rw [heq] at hbefore hreader hsettler ⊢
      rw [hfresh] at hbefore
      simp only [Tally.Affords] at hbefore ⊢
      split <;> omega
    · rw [if_neg heq] at hreader hsettler ⊢
      exact hbefore.mono hreader hsettler
  · have hone := hle z
    have hcounted := hafford.plain z hz
    have hzero : new.count z = 0 := by
      rw [hnew]
      cases z <;> first
        | (simp [List.count_append, List.count_replicate]; done)
        | cases hz
    simp only [hzero, List.count_nil, Nat.add_zero] at hone
    exact Nat.le_trans hone hcounted
  · rw [htally, if_neg]
    · exact hm
    · rintro rfl
      exact absurd (hfresh.symm.trans hm) (by simp)
  · rw [htally] at ht
    split at ht
    · cases ht
      exact hhopeful
    · exact h.hopeful c' t ht

theorem Covered.allocQueue (h : Covered B st K ys) :
    Covered B { st with queues := (st.queues.alloc 1 []).2 } K
      (.loose (.queue st.queues.cells.size) :: ys) := by
  refine h.update [.queue st.queues.cells.size] [] [] (fun y => ?_)
    (fun _ => ⟨rfl, rfl⟩) (fun x _ => ?_) (fun _ => rfl) (fun _ _ h => h)
  · have htotal : _ = _ + (loose ([] : List Handle)).count y := Table.total_alloc st.queues 1 []
      (fun x => (loose (x.flatMap (Job.handles B.held))).count y)
    simp only [loose_nil, List.count_nil] at htotal
    simp only [Store.held]
    omega
  · cases x <;> simp [Store.holders, Table.holders_alloc, List.count_singleton,
      eq_comm (a := st.queues.cells.size)]

theorem Covered.allocSnapshot (ys : List Share) {t : Snapshot C}
    (h : Covered B st K (loose (t.handles B.held) ++ ys)) :
    Covered B { st with snapshots := (st.snapshots.alloc 1 t).2 } K
      (.loose (.continuation st.snapshots.cells.size) :: ys) := by
  refine h.update [.continuation st.snapshots.cells.size] _ [] (fun y => ?_)
    (fun _ => ⟨rfl, rfl⟩) (fun x _ => ?_) (fun _ => rfl) (fun k' fs hfs => ?_)
  · have htotal := Table.total_alloc st.snapshots 1 t (fun t => (loose (t.handles B.held)).count y)
    simp only [Store.held, List.count_nil]
    omega
  · cases x <;> simp [Store.holders, Table.holders_alloc, List.count_singleton,
      eq_comm (a := st.snapshots.cells.size)]
  · simp only [Store.frames?, Table.find?_alloc] at hfs ⊢
    rw [if_neg]
    · exact hfs
    · rintro rfl
      rw [Table.find?_of_size_le (Nat.le_refl _)] at hfs
      cases hfs

theorem Covered.allocScheduler (h : Covered B st K ys) (settings : Settings) :
    Covered B { st with schedulers := (st.schedulers.alloc 1 (.new settings)).2 } K
      (.loose (.scheduler st.schedulers.cells.size) :: ys) := by
  refine h.update [.scheduler st.schedulers.cells.size] [] []
    (fun y => ?_) (fun _ => ⟨rfl, rfl⟩) (fun x _ => ?_) (fun _ => rfl) (fun _ _ h => h)
  · have hempty : (Scheduler.new settings : Scheduler C).handles B.held = [] := by
      simp [Scheduler.handles, Scheduler.new, Roster.entries, Roster.empty]
    have htotal := Table.total_alloc st.schedulers 1 (.new settings)
      (fun s => (loose (s.handles B.held)).count y)
    rw [hempty] at htotal
    simp only [loose_nil, List.count_nil] at htotal
    simp only [Store.held]
    omega
  · cases x <;> simp [Store.holders, Table.holders_alloc, List.count_singleton,
      eq_comm (a := st.schedulers.cells.size)]

theorem Covered.allocBridge (h : Covered B st K ys) {x : Bridge C} (hx : x.stack = []) :
    Covered B { st with bridges := (st.bridges.alloc 1 x).2 } K
      (.loose (.bridge st.bridges.cells.size) :: ys) := by
  refine h.update [.bridge st.bridges.cells.size] [] []
    (fun y => ?_) (fun _ => ⟨rfl, rfl⟩) (fun x _ => ?_) (fun _ => rfl) (fun _ _ h => h)
  · have htotal := Table.total_alloc st.bridges 1 x (fun x => (x.shares B.held).count y)
    rw [Bridge.shares, hx] at htotal
    simp only [List.flatMap_nil, List.count_nil] at htotal
    simp only [Store.held]
    omega
  · cases x <;> simp [Store.holders, Table.holders_alloc, List.count_singleton,
      eq_comm (a := st.bridges.cells.size)]

theorem Covered.allocKept (ys : List Share) {x : Kept C}
    (h : Covered B st K (loose (x.handles B.held) ++ ys)) :
    Covered B { st with kept := (st.kept.alloc 1 x).2 } K
      (.loose (.coroutine st.kept.cells.size) :: ys) := by
  refine h.update [.coroutine st.kept.cells.size] _ []
    (fun y => ?_) (fun _ => ⟨rfl, rfl⟩) (fun x _ => ?_) (fun _ => rfl) (fun _ _ h => h)
  · have htotal := Table.total_alloc st.kept 1 x (fun x => (loose (x.handles B.held)).count y)
    simp only [Store.held, List.count_nil]
    omega
  · cases x <;> simp [Store.holders, Table.holders_alloc, List.count_singleton,
      eq_comm (a := st.kept.cells.size)]

end Strand
