import Strand.Proofs.Honesty
import Strand.Proofs.Runs

/-! # Histories — all that a machine has been through

    A history begins with an empty store. The machine makes its moves; once nothing is
    left undone, it may be given another operation, which brings no handles along but
    those that the last one has left. `History` keeps the machines from which a move
    has been made, so that what has been seen on the way can be read off. -/

namespace Strand

/-- An operation begins code, or only lets go of something. -/
def Onward.starts {C R : Type} : Onward C R → Bool
  | .begin _ _ => true
  | .give .nothing => true
  | _ => false

namespace Machine

variable {C R : Type} {B : Behavior C R} {past : List (Machine C R)} {m : Machine C R}

/-- `m` has come about by moves from the machines `past`, the first one first. -/
inductive History (B : Behavior C R) : List (Machine C R) → Machine C R → Prop where
  | begin (onward : Onward C R) (hstarts : onward.starts = true) (hnone : onward.handles B = []) :
      History B [] ⟨.empty, [], .release [] onward⟩
  | move {past : List (Machine C R)} {m : Machine C R} (h : History B past m) :
      History B (past ++ [m]) (m.step B)
  /-- The next operation; the events so far may have been read. -/
  | anew {past : List (Machine C R)} {m : Machine C R} (h : History B past m)
      (ended : m.control = []) (events : List Event) (hs : List Handle) (onward : Onward C R)
      (hstarts : onward.starts = true)
      (hle : ∀ y, (loose (hs ++ onward.handles B)).count y ≤ (m.focus.shares B).count y) :
      History B past ⟨{ m.store with events }, [], .release hs onward⟩

theorem balanced_empty {onward : Onward C R} (hnone : onward.handles B = []) :
    Balanced B ⟨.empty, [], .release [] onward⟩ := by
  have hheld (y : Share) : holdings B .empty [] [] y = 0 := by
    simp [holdings, Store.held, Store.empty, Table.empty, Table.total]
  have hworth (x : Handle) : worth (holdings B .empty [] []) x = 0 := by
    cases x <;> simp [worth, hheld]
  have hcells (c : Nat) : (Store.empty : Store C).tally? c = none := by
    simp [Store.tally?, Store.empty, Table.empty, Table.cell?]
  have hcovered : Covered B .empty [] [] := by
    refine ⟨⟨fun c => ?_, fun x _ => ?_⟩, fun c hc => ?_, fun c t hc => ?_, trivial⟩
    · rw [hcells, hworth, hworth]
      rfl
    · rw [hworth]
      exact Nat.zero_le _
    · rw [hheld] at hc
      cases hc
    · rw [hcells] at hc
      cases hc
  refine balanced_release hcovered fun y => ?_
  rw [hnone]
  exact Nat.le_refl _

/-- Honest programs hold no more than has been counted, all along. -/
theorem History.balanced (hB : B.Honest) (h : History B past m) : Balanced B m := by
  induction h with
  | begin onward _ hnone => exact balanced_empty hnone
  | move h ih => exact balanced_step hB ih
  | @anew past m h ended events hs onward _ hle ih =>
    have hcovered := ih.covered
    rw [ended] at hcovered
    exact balanced_release ((hcovered.logged events)) hle

theorem History.reachable (h : History B past m) : Reachable B m := by
  induction h with
  | begin onward => exact ⟨_, .refl⟩
  | move h ih => exact ih.later (.step .refl)
  | anew h ended events hs onward _ _ ih => exact ih.later (.anew .refl ended events _)

/-- Each machine of the past has a history of its own. -/
theorem History.before {before since : List (Machine C R)} {n : Machine C R}
    (h : History B (before ++ n :: since) m) : History B before n := by
  generalize hpast : before ++ n :: since = past at h
  induction h generalizing since with
  | begin => cases before <;> cases hpast
  | anew _ _ _ _ _ _ _ ih => exact ih hpast
  | @move past m h ih =>
    rcases List.eq_nil_or_concat since with rfl | ⟨since, x, rfl⟩
    · obtain ⟨rfl, heq⟩ := List.append_inj' hpast rfl
      cases heq
      exact h
    · rw [List.concat_eq_append, ← List.cons_append, ← List.append_assoc] at hpast
      exact ih (List.append_inj' hpast rfl).1

/-- After each machine of the past comes what its move has made of it; the events may have
    been read meanwhile. -/
theorem History.successor {before since : List (Machine C R)} {x : Machine C R}
    (h : History B (before ++ x :: since) m) :
    ∃ y events, (since ++ [m]).head? = some y ∧ y.store = { (x.step B).store with events } := by
  generalize hpast : before ++ x :: since = past at h
  induction h generalizing since with
  | begin => cases before <;> cases hpast
  | @anew past m h ended events hs onward _ _ ih =>
    obtain ⟨y, events', hy, hstore⟩ := ih hpast
    cases since with
    | nil =>
      cases hy
      exact ⟨_, events, rfl, by rw [hstore]⟩
    | cons z since => exact ⟨y, events', hy, hstore⟩
  | @move past m h ih =>
    rcases List.eq_nil_or_concat since with rfl | ⟨since, z, rfl⟩
    · obtain ⟨-, heq⟩ := List.append_inj' hpast rfl
      cases heq
      exact ⟨_, (x.step B).store.events, rfl, rfl⟩
    · rw [List.concat_eq_append, ← List.cons_append, ← List.append_assoc] at hpast
      obtain ⟨hbefore, heq⟩ := List.append_inj' hpast rfl
      cases heq
      obtain ⟨y, events, hy, hstore⟩ := ih hbefore
      refine ⟨y, events, ?_, hstore⟩
      rw [List.concat_eq_append, List.head?_append, hy]
      rfl

variable (B) in
/-- The machines from which the next moves are made. -/
def moves : Nat → Machine C R → List (Machine C R)
  | 0, _ => []
  | j + 1, m => m :: moves j (m.step B)

theorem moves_add (i j : Nat) (m : Machine C R) :
    moves B (i + j) m = moves B i m ++ moves B j (after B i m) := by
  induction i generalizing m with
  | zero =>
    rw [Nat.zero_add]
    rfl
  | succ i ih =>
    rw [Nat.add_right_comm]
    exact congrArg (m :: ·) (ih (m.step B))

theorem mem_moves {x : Machine C R} {j : Nat} : x ∈ moves B j m ↔ ∃ i < j, x = after B i m := by
  induction j generalizing m with
  | zero => simp [moves]
  | succ j ih =>
    rw [moves, List.mem_cons, ih]
    constructor
    · rintro (rfl | ⟨i, hi, rfl⟩)
      · exact ⟨0, Nat.succ_pos j, rfl⟩
      · exact ⟨i + 1, Nat.succ_lt_succ hi, rfl⟩
    · rintro ⟨i, hi, rfl⟩
      cases i with
      | zero => exact Or.inl rfl
      | succ i => exact Or.inr ⟨i, Nat.lt_of_succ_lt_succ hi, rfl⟩

theorem History.moves (h : History B past m) (j : Nat) :
    History B (past ++ moves B j m) (after B j m) := by
  induction j generalizing past m with
  | zero => rwa [Machine.moves, List.append_nil]
  | succ j ih =>
    have hmoved := ih h.move
    rwa [List.append_assoc] at hmoved

end Machine

end Strand
