import Strand.Proofs.Acts
import Strand.Proofs.Turns

/-! # Issued identifiers — no frame knows a routine before it is there

    An identifier has been issued once an entry has been known by it, and
    stays so when the entry is gone.

    * No change of a roster takes an identifier back (`closed_issued`).
    * A frame of a pass names a routine only when it has been picked or lifted.
      So what the frames of a reachable machine name has been issued
      (`Reachable.issued`).

    A new routine therefore is none of those that a pass is busy with. -/

namespace Strand

namespace Roster

variable {α : Type} {r r' : Roster α} {a id : RoutineId} {e : α}

/-- Some entry is known by this identifier, or has been. -/
def Issued (r : Roster α) (a : RoutineId) : Prop :=
  r.contains a = true ∨ a.generation.toNat < r.vacated a

theorem issued_of_find? (h : r.find? a = some e) : r.Issued a :=
  Or.inl (contains_iff.mpr ⟨e, h⟩)

theorem generation_le_vacated (h : r.find? a = some e) : a.generation.toNat ≤ r.vacated a := by
  obtain ⟨v, hv, hgen⟩ := find?_eq_some.mp h
  have hvacated : r.vacated a = v := by simp [vacated, hv]
  rw [hvacated, ← hgen, UInt32.toNat_ofNat']
  exact Nat.mod_le _ _

theorem Issued.modify (h : r.Issued a) (id : RoutineId) (f : α → α) :
    (r.modify id f).Issued a := by
  rw [Issued, contains_modify, vacated_modify]
  exact h

theorem contains_insert (e : α) (h : r.contains a = true) :
    (r.insert e).2.contains a = true := by
  obtain ⟨x, hx⟩ := contains_iff.mp h
  obtain ⟨v, hv, hgen⟩ := find?_eq_some.mp hx
  rw [contains_iff]
  unfold insert
  split
  · next index vacant hvacant =>
    split
    · next slot hslot =>
      rw [find?_put (index_lt_of_slot hslot)]
      split
      · next hidx =>
        -- the slot was not vacant, and its new entry has the name of the old
        rw [← hidx, hv, Option.some.injEq] at hslot
        subst hslot
        exact ⟨e, if_pos hgen⟩
      · exact ⟨x, hx⟩
    · exact ⟨x, hx⟩
  · have hlt := index_lt_of_slot hv
    have hslot : (r.slots.push ⟨0, some e⟩)[a.index.toNat]? = some ⟨v, some x⟩ := by
      rw [Array.getElem?_push, if_neg (Nat.ne_of_lt hlt), hv]
    exact ⟨x, (find?_of_slot hslot).trans (if_pos hgen)⟩

theorem Issued.insert (h : r.Issued a) (e : α) : (r.insert e).2.Issued a := by
  rcases h with hlive | hgone
  · exact Or.inl (contains_insert e hlive)
  · exact Or.inr (Nat.lt_of_lt_of_le hgone (vacated_insert r e a))

theorem Issued.remove (h : r.Issued a) (hr : r.remove id = some (e, r')) : r'.Issued a := by
  rcases h with hlive | hgone
  · obtain ⟨x, hx⟩ := contains_iff.mp hlive
    by_cases ha : a = id
    · subst ha
      have hle := generation_le_vacated hx
      have hvacated := vacated_remove hr a
      rw [if_pos rfl] at hvacated
      exact Or.inr (by omega)
    · refine issued_of_find? (e := x) ?_
      rw [find?_remove hr, if_neg ha]
      exact hx
  · exact Or.inr (Nat.lt_of_lt_of_le hgone ((grows_remove hr).vacated a))

/-- A new entry gets an identifier that has not been issued, as long as 32 bits
    number the slots and tell the generations of its slot apart. -/
theorem Sound.not_issued_insert_fst (hs : r.Sound) (e : α)
    (hroom : (r.insert e).2.slots.size ≤ 2 ^ 32)
    (hwrap : r.vacated (r.insert e).1 < 2 ^ 32) : ¬ r.Issued (r.insert e).1 := by
  rintro (hlive | hgone)
  · obtain ⟨x, hx⟩ := contains_iff.mp hlive
    rw [hs.find?_insert_fst e hroom] at hx
    cases hx
  · unfold Roster.insert at hroom hwrap hgone
    split at hgone
    · next index vacant hvacant =>
      obtain ⟨v, hv⟩ := hs.vacant index (by simp [hvacant])
      simp only [hvacant, hv, vacated, Slot.generation, Option.map_some, Option.getD_some,
        UInt32.toNat_ofNat'] at hwrap hgone
      omega
    · next hvacant =>
      simp only [hvacant, Array.size_push] at hroom
      have hidx : (UInt32.ofNat r.slots.size).toNat = r.slots.size := by
        rw [UInt32.toNat_ofNat', Nat.mod_eq_of_lt (by omega)]
      simp [vacated, hidx] at hgone

theorem closed_issued (a : RoutineId) : Closed fun r : Roster α => r.Issued a :=
  ⟨fun id f h => h.modify id f, fun e h => h.insert e, fun hr h => h.remove hr⟩

end Roster

variable {C R : Type}

/-- The routines that a frame knows. -/
def Frame.names : Frame C R → List RoutineId
  | .stepping _ id => [id]
  | .building _ id _ => [id]
  | .capturing _ id _ frames _ _ => id :: frames.map Lifted.id
  | _ => []

namespace Scheduler

/-- Only live routines are lifted, with the scripts and the parents that they
    have. -/
theorem live_of_liftFrom (stack : List StackEntry) (lifted : List (Lifted C)) (s : Scheduler C) :
    ∀ f ∈ (liftFrom stack lifted s).1, f ∈ lifted ∨
      ∃ x, s.routines.find? f.id = some x ∧ x.script = some f.script ∧ x.parent = f.parent := by
  induction stack generalizing lifted s with
  | nil => exact fun f hf => Or.inl hf
  | cons entry rest ih =>
    cases entry with
    | boundary => exact fun f hf => Or.inl hf
    | routine id =>
      unfold liftFrom
      split
      · exact ih lifted s
      · next x hx =>
        split
        · exact ih lifted s
        · next script hscript =>
          intro f hf
          rcases ih _ _ f hf with hmem | ⟨y, hy, hyscript, hyparent⟩
          · rcases List.mem_cons.mp hmem with rfl | hmem
            · exact Or.inr ⟨x, hx, hscript, rfl⟩
            · exact Or.inl hmem
          · rw [modify, Roster.find?_modify] at hy
            split at hy
            · obtain ⟨z, -, rfl⟩ := Option.map_eq_some_iff.mp hy
              cases hyscript
            · exact Or.inr ⟨y, hy, hyscript, hyparent⟩

theorem live_of_lift {s s' : Scheduler C} {frames : List (Lifted C)} (h : s.lift = (frames, s')) :
    ∀ f ∈ frames, ∃ x, s.routines.find? f.id = some x ∧ x.script = some f.script ∧
      x.parent = f.parent := by
  intro f hf
  have hlifted : (liftFrom s.stack [] s).1 = frames := congrArg Prod.fst h
  rcases live_of_liftFrom s.stack [] s f (hlifted ▸ hf) with hnil | hlive
  · cases hnil
  · exact hlive

theorem contains_shelve (s : Scheduler C) (id : RoutineId) (script : Script C) (a : RoutineId) :
    (s.shelve id script).routines.contains a = s.routines.contains a := by
  unfold shelve giveBack
  split
  · exact Roster.contains_modify _ _ _ _
  · rfl

end Scheduler

/-- A routine that a frame names has been named before, or is live. -/
theorem Act.names {p : Nat} {panicked : Prop} {x y : Realm C R} (h : Act p panicked x y) :
    ∀ f ∈ y.frames, ∀ a ∈ f.names, (∃ g ∈ x.frames, a ∈ g.names) ∨
      ∃ s, x.scheduler = some s ∧ s.routines.contains a = true := by
  cases h with
  | @pick s s' id script h t =>
    intro f hf a ha
    obtain ⟨r, hr, -⟩ := Machine.live_of_pickFrom h
    simp only [List.mem_cons, List.not_mem_nil, or_false] at hf
    rcases hf with rfl | rfl
    · simp only [Frame.names, List.mem_singleton] at ha
      exact Or.inr ⟨s, rfl, Roster.contains_iff.mpr ⟨r, ha ▸ hr⟩⟩
    · cases ha
  | @lift s s' id script frames h handler left t =>
    intro f hf a ha
    simp only [List.mem_singleton] at hf
    subst hf
    rcases List.mem_cons.mp ha with rfl | hmem
    · exact Or.inl ⟨_, List.mem_singleton_self _, List.mem_singleton_self _⟩
    · obtain ⟨frame, hframe, rfl⟩ := List.mem_map.mp hmem
      obtain ⟨x, hx, -⟩ := Scheduler.live_of_lift h frame hframe
      have hlive := Roster.contains_iff.mpr ⟨x, hx⟩
      rw [Scheduler.contains_shelve] at hlive
      exact Or.inr ⟨s, rfl, hlive⟩
  | copied s id handler frames copies copies' left left' t =>
    intro f hf a ha
    simp only [List.mem_singleton] at hf
    subst hf
    exact Or.inl ⟨_, List.mem_singleton_self _, ha⟩
  | _ => simp [Frame.names]

namespace Machine

/-- The frames of scheduler `p` name routines that have been issued. -/
structure Tidy (p : Nat) (m : Machine C R) : Prop where
  /-- Before there is a scheduler, they name none. -/
  early : m.store.schedulers.cells.size ≤ p → ∀ f ∈ (m.realm p).frames, f.names = []
  issued : ∀ s, m.scheduler? p = some s →
    ∀ f ∈ (m.realm p).frames, ∀ a ∈ f.names, s.routines.Issued a

theorem Tidy.of_nil {p : Nat} {m : Machine C R} (h : m.control = []) : m.Tidy p := by
  constructor <;> simp [realm, h]

/-- What is named after a move was named before, or is live. -/
theorem named_step {p : Nat} (m : Machine C R) (B : Behavior C R) :
    ∀ f ∈ ((m.step B).realm p).frames, ∀ a ∈ f.names,
      (∃ g ∈ (m.realm p).frames, a ∈ g.names) ∨
        ∃ s, m.scheduler? p = some s ∧ s.routines.contains a = true := by
  obtain ⟨top, top', below, hm, hn, -, hact⟩ := moves_step (p := p) m B
  intro f hf a ha
  rw [hn] at hf
  rw [hm]
  rcases List.mem_append.mp hf with hf | hf
  · rcases hact.names f hf a ha with ⟨g, hg, hag⟩ | hlive
    · exact Or.inl ⟨g, List.mem_append_left _ hg, hag⟩
    · exact Or.inr hlive
  · exact Or.inl ⟨f, List.mem_append_right _ hf, ha⟩

theorem Tidy.step {p : Nat} {m : Machine C R} (h : m.Tidy p) (B : Behavior C R) :
    (m.step B).Tidy p := by
  have hback := named_step (p := p) m B
  have hedited := edited_step m B
  have hearly : m.store.schedulers.cells.size ≤ p →
      ∀ f ∈ ((m.step B).realm p).frames, f.names = [] := by
    intro hle f hf
    rw [List.eq_nil_iff_forall_not_mem]
    intro a ha
    rcases hback f hf a ha with ⟨g, hg, hag⟩ | ⟨s, hs, -⟩
    · rw [h.early hle g hg] at hag
      cases hag
    · exact Nat.not_lt_of_le hle (Table.lt_size_of_find? hs)
  refine ⟨fun hle => hearly (Nat.le_trans hedited.size hle), ?_⟩
  intro s' hs' f hf a ha
  rcases hedited.edits hs' with ⟨s, hs, hedits⟩ | ⟨hle, -⟩
  · refine hedits.closed (Roster.closed_issued a) ?_
    rcases hback f hf a ha with ⟨g, hg, hag⟩ | ⟨s₀, hs₀, hlive⟩
    · exact h.issued s hs g hg a hag
    · have heq : s₀ = s := Option.some.inj (hs₀.symm.trans hs)
      exact Or.inl (heq ▸ hlive)
  · rw [hearly hle f hf] at ha
    cases ha

/-- What a frame of a reachable machine names has been issued. -/
theorem Reachable.issued {B : Behavior C R} {m : Machine C R} (h : Reachable B m) {p : Nat}
    {s : Scheduler C} (hs : m.scheduler? p = some s) {f : Frame C R} (hf : f ∈ m.control)
    (hp : f.of p = true) {a : RoutineId} (ha : a ∈ f.names) : s.routines.Issued a := by
  obtain ⟨focus, hm⟩ := h
  have htidy : m.Tidy p := by
    clear hs hf
    induction hm with
    | refl => exact Tidy.of_nil rfl
    | step _ ih => exact ih.step B
    | anew => exact Tidy.of_nil rfl
  exact htidy.issued s hs f (List.mem_filter.mpr ⟨hf, hp⟩) a ha

end Machine

end Strand
