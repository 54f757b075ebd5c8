import Strand.Proofs.Handbacks
import Strand.Proofs.Observations
import Strand.Program

/-! # Sequential evaluation — a scheduler comes to what its program comes to

    The induction is on sequential evaluation (`Runs.finishes`): a routine that is fed
    comes to the outcome and feeds what evaluation feeds, above whatever is on the
    stack. Its own work has left nothing there, and no routine behind but handlers that
    sleep under it.

    With a scheduler that has nothing to do, that makes up a whole evaluation. -/

namespace Strand

variable {C : Type}

/-! ### How many routines there are -/

namespace Roster

variable {α : Type} {r r' : Roster α}

theorem length_filterMap_entry {slots slots' : List (Slot α)}
    (h : ∀ i : Nat, (slots[i]?.bind Slot.entry).isSome = (slots'[i]?.bind Slot.entry).isSome) :
    (slots.filterMap Slot.entry).length = (slots'.filterMap Slot.entry).length := by
  have hnil : ∀ slots : List (Slot α), (∀ i : Nat, (slots[i]?.bind Slot.entry).isSome = false) →
      slots.filterMap Slot.entry = [] := by
    intro slots hnone
    refine List.filterMap_eq_nil_iff.mpr fun slot hslot => ?_
    obtain ⟨i, hi⟩ := List.mem_iff_getElem?.mp hslot
    simpa [hi] using hnone i
  induction slots generalizing slots' with
  | nil => rw [hnil slots' fun i => (h i).symm]; rfl
  | cons slot slots ih =>
    cases slots' with
    | nil => rw [hnil (slot :: slots) h]; rfl
    | cons slot' slots' =>
      have htail : (slots.filterMap Slot.entry).length = (slots'.filterMap Slot.entry).length :=
        ih fun i => h (i + 1)
      have hhead : slot.entry.isSome = slot'.entry.isSome := h 0
      cases hentry : slot.entry <;> cases hentry' : slot'.entry <;>
        simp_all

/-- An entry in some slot is found under its generation. -/
theorem isSome_entry {i : Nat} (hi : i < 2 ^ 32) :
    (r.slots[i]?.bind Slot.entry).isSome ↔ ∃ a : RoutineId, a.index.toNat = i ∧ (r.find? a).isSome := by
  have hindex : (UInt32.ofNat i).toNat = i := by
    rw [UInt32.toNat_ofNat']
    exact Nat.mod_eq_of_lt hi
  constructor
  · intro h
    cases hslot : r.slots[i]? with
    | none => simp [hslot] at h
    | some slot =>
      refine ⟨⟨UInt32.ofNat i, slot.generation⟩, hindex, ?_⟩
      rw [find?, slot?, hindex, hslot, Option.filter_some, if_pos (decide_eq_true rfl)]
      rwa [hslot] at h
  · rintro ⟨a, rfl, h⟩
    obtain ⟨x, hx⟩ := Option.isSome_iff_exists.mp h
    obtain ⟨slot, hslot, hentry⟩ := Option.bind_eq_some_iff.mp hx
    rw [(Option.filter_eq_some_iff.mp hslot).1, Option.bind_some, hentry]
    rfl

/-- With the same identifiers there are as many entries. -/
theorem Sound.size_eq (h : r.Sound) (h' : r'.Sound) (hroom : r.slots.size ≤ 2 ^ 32)
    (hroom' : r'.slots.size ≤ 2 ^ 32) (hsame : ∀ a, (r.find? a).isSome = (r'.find? a).isSome) :
    r.size = r'.size := by
  rw [h.counted, h'.counted]
  refine length_filterMap_entry fun i => ?_
  rw [Array.getElem?_toList, Array.getElem?_toList]
  by_cases hi : i < 2 ^ 32
  · rw [Bool.eq_iff_iff, isSome_entry hi, isSome_entry hi]
    simp only [hsame]
  · rw [Array.getElem?_eq_none (by omega), Array.getElem?_eq_none (by omega)]

end Roster

namespace Scheduler

variable {shifts strict : Prop} {s t : Scheduler C} {c X : RoutineId} {x : Routine C}
  {naps : List (RoutineId × Stage C)}

/-- Those beneath `X` wait on while it is at work. -/
theorem Queued.worked (h : Queued s X s.stack) (hwork : Worked shifts strict X naps s t)
    (hX : s.routines.find? X = some x) : Queued t X t.stack := by
  obtain ⟨j, hstack, -⟩ := hwork.stack
  have hroutines : routinesOf t.stack = routinesOf s.stack := by
    rw [hstack, routinesOf_append, ← List.append_nil (List.replicate j _), routinesOf_boundaries,
      routinesOf_nil, List.append_nil]
  refine ⟨hroutines ▸ h.nodup, fun a ha => ?_⟩
  rw [hroutines] at ha
  obtain ⟨y, hy, hscript⟩ := h.waits a ha
  have hne : a ≠ X := by
    rintro rfl
    exact (List.nodup_cons.mp h.nodup).1 ha
  obtain ⟨parent, hy', -⟩ :=
    hwork.beside.entry (hwork.not_taken hX hy hne) (Or.inr (mem_routinesOf.mp ha)) hy
  exact ⟨_, hy', hscript⟩

/-- When `X` waits for child `c`, it is among those beneath `c`. -/
theorem Queued.spawned {later : Script C} {bounds : Nat} (h : Queued s X s.stack)
    (hX : s.routines.find? X = some x)
    (hstack : t.stack = List.replicate bounds .boundary ++ .routine X :: s.stack)
    (hvacant : ∀ a, a.index = c.index → s.routines.find? a = none)
    (hspawned : Beside strict (InSlots [c]) (Apart (InSlots [c]) t.stack)
      (fun a y => joined c X a (if a = X then { y with script := some later } else y)) s t) :
    Queued t c t.stack := by
  have hroutines : routinesOf t.stack = X :: routinesOf s.stack := by
    rw [hstack, routinesOf_boundaries, routinesOf_routine]
  have hlive : ∀ a ∈ X :: routinesOf s.stack, ∃ y, s.routines.find? a = some y ∧
      (a = X ∨ y.script ≠ none) := by
    intro a ha
    rcases List.mem_cons.mp ha with rfl | ha
    · exact ⟨x, hX, Or.inl rfl⟩
    · obtain ⟨y, hy, hscript⟩ := h.waits a ha
      exact ⟨y, hy, Or.inr hscript⟩
  have hfresh : ∀ a ∈ X :: routinesOf s.stack, ¬ InSlots [c] a := by
    intro a ha hin
    obtain ⟨y, hy, -⟩ := hlive a ha
    rw [hvacant a (inSlots_singleton.mp hin).symm] at hy
    cases hy
  refine ⟨hroutines ▸ List.nodup_cons.mpr ⟨fun hc => ?_, h.nodup⟩, fun a ha => ?_⟩
  · exact hfresh c hc (.of_mem (List.mem_singleton.mpr rfl))
  · rw [hroutines] at ha
    obtain ⟨y, hy, hscript⟩ := hlive a ha
    obtain ⟨parent, hy', -⟩ := hspawned.entry (hfresh a ha)
      ⟨mem_routinesOf.mp (hroutines ▸ ha), hfresh a ha⟩ hy
    refine ⟨_, hy', ?_⟩
    rcases hscript with rfl | hscript
    · simp [joined]
    · simp only [joined]
      split <;> simp [hscript]

/-! ### What is seen -/

/-- What is seen while `X` is at work, which feeds `fed`. Nobody who waits on the stack is
    fed, and unless there are handlers nobody is made to exit. -/
structure Shows (shifts : Prop) (s : Scheduler C) (X : RoutineId) (evs : List (PassEvent C))
    (fed : List (Feed C)) : Prop where
  fed : fedIn evs = fed
  waits : ∀ a y script input, s.routines.find? a = some y → .routine a ∈ s.stack → a ≠ X →
    .resumed a script input ∉ evs
  unforced : shifts ∨ Unforced evs

section Shows

variable {evs evs' : List (PassEvent C)} {fed fed' : List (Feed C)}

/-- One routine is fed, and that is not among those that wait. -/
theorem Shows.resumed {id : RoutineId} (script : Script C) (input : Outcome Value)
    (hid : id = X ∨ s.routines.find? id = none) :
    Shows shifts s X [.resumed id script input] [(script, input)] where
  fed := rfl
  waits a y script' input' hy _ hne hmem := by
    obtain ⟨rfl, -⟩ := PassEvent.resumed.inj (List.mem_singleton.mp hmem)
    rcases hid with heq | hnone
    · exact hne heq
    · rw [hnone] at hy
      cases hy
  unforced := Or.inr fun e he => by rw [List.mem_singleton.mp he]; rfl

theorem Shows.trans (h : Shows shifts s X evs fed) (hwork : Worked shifts strict X naps s t)
    (h' : Shows shifts t X evs' fed') :
    Shows shifts s X (evs ++ evs') (fed ++ fed') where
  fed := by rw [fedIn_append, h.fed, h'.fed]
  waits a y script input hy hon hne hmem := by
    rcases List.mem_append.mp hmem with hmem | hmem
    · exact h.waits a y script input hy hon hne hmem
    · obtain ⟨z, hz⟩ := hwork.beside.stays a y (Or.inr hon) hy
      exact h'.waits a z script input hz (hwork.stays a hon) hne hmem
  unforced := by
    rcases h.unforced with hs | hu
    · exact Or.inl hs
    · exact h'.unforced.imp_right fun hu' e he => (List.mem_append.mp he).elim (hu e) (hu' e)

/-- After that nobody is fed. -/
theorem Shows.quiet (h : Shows shifts s X evs fed) (hfed : fedIn evs' = [])
    (hunforced : shifts ∨ Unforced evs') : Shows shifts s X (evs ++ evs') fed where
  fed := by rw [fedIn_append, h.fed, hfed, List.append_nil]
  waits a y script input hy hon hne hmem := by
    rcases List.mem_append.mp hmem with hmem | hmem
    · exact h.waits a y script input hy hon hne hmem
    · have := mem_fedIn hmem
      rw [hfed] at this
      cases this
  unforced := by
    rcases h.unforced with hs | hu
    · exact Or.inl hs
    · exact hunforced.imp_right fun hu' e he => (List.mem_append.mp he).elim (hu e) (hu' e)

/-- What is seen of a child. -/
theorem Shows.child {f : RoutineId → Routine C → Routine C} (h : Shows shifts t c evs fed)
    (hstack : ∀ a, .routine a ∈ s.stack → .routine a ∈ t.stack)
    (hvacant : ∀ a, a.index = c.index → s.routines.find? a = none)
    (hspawned : Beside strict (InSlots [c]) (Apart (InSlots [c]) t.stack) f s t) :
    Shows shifts s X evs fed where
  fed := h.fed
  waits a y script input hy hon _ := by
    have hnot : ¬ InSlots [c] a := by
      intro hin
      rw [hvacant a (inSlots_singleton.mp hin).symm] at hy
      cases hy
    obtain ⟨z, hz⟩ := hspawned.stays a y ⟨hstack a hon, hnot⟩ hy
    refine h.waits a z script input hz (hstack a hon) ?_
    rintro rfl
    exact hnot (.of_mem (List.mem_singleton.mpr rfl))
  unforced := h.unforced

end Shows

/-! ### Roots -/

/-- How a root comes onto the stack. -/
theorem scheduleRoot_spec (hs : s.routines.Sound) {script : Script C}
    (hroom : (s.scheduleRoot script).routines.slots.size ≤ 2 ^ 32) :
    (∀ a, a.index = s.fresh.index → s.routines.find? a = none) ∧
    ∃ routines reports,
      s.scheduleRoot script =
        { s with routines, reports, register := .unit, stack := .routine s.fresh :: s.stack } ∧
      ∀ a, routines.find? a =
        if a = s.fresh then some ⟨.root, some script, none, []⟩ else s.routines.find? a := by
  let r : Routine C := ⟨.root, some script, none, []⟩
  have hfst : (s.add .root script).1 = s.fresh := s.insert_fst r
  have hroutines : (s.scheduleRoot script).routines =
      (s.routines.insert r).2.modify s.fresh fun y => { y with parent := none } := by
    rw [← hfst]
    exact routines_link_none (s.add .root script).2 (s.add .root script).1
  have hroom' : (s.routines.insert r).2.slots.size ≤ 2 ^ 32 := by
    rwa [hroutines, Roster.size_slots_modify] at hroom
  refine ⟨fun a ha => hs.find?_insert_slot r hroom' (ha.trans ?_), (s.scheduleRoot script).routines,
    (s.scheduleRoot script).reports, ?_, fun a => ?_⟩
  · exact congrArg RoutineId.index (s.insert_fst r).symm
  · rw [← hfst]
    rfl
  · rw [hroutines, Roster.find?_modify, hs.find?_insert r hroom', s.insert_fst]
    split <;> rfl

/-- With nothing but boundaries on the stack, nobody is picked. -/
theorem pick_of_spent {j : Nat} (hstack : s.stack = List.replicate j .boundary) :
    ∃ reports, s.pick = (none, { s with stack := [], reports }) := by
  have hfrom : ∀ j (t : Scheduler C), ∃ reports,
      pickFrom (List.replicate j .boundary) t = (none, { t with stack := [], reports }) := by
    intro j
    induction j with
    | zero => exact fun t => ⟨t.reports, rfl⟩
    | succ j ih =>
      intro t
      obtain ⟨reports, h⟩ := ih (t.report .boundaryConsumed)
      exact ⟨reports, h⟩
  rw [pick, hstack]
  exact hfrom j s

end Scheduler

namespace Machine

open Scheduler

variable {R : Type} {B : Behavior C R} {p : Nat} {K : List (Frame C R)} {s t : Scheduler C}
  {m n m₀ : Machine C R} {X : RoutineId} {x : Routine C} {π : Conduct C} {N : Nat}
  {shifts strict : Prop} {h fed : List (Feed C)} {script : Script C} {input o : Outcome Value}
  {evs : List (PassEvent C)}

/-- A routine that is fed comes to what evaluation comes to, and feeds what it feeds. -/
theorem Runs.finishes (hrun : Runs π shifts h script input fed o) (hstrict : shifts → strict)
    (hplays : Plays B p K π N strict m₀) (hr : Reaches B p m₀ evs m) (hevs : fedIn evs = h)
    (hN : h.length + fed.length ≤ N)
    (hat : At p K [.stepping p X] (.advance script input) s m)
    (hX : s.routines.find? X = some x) (hout : x.script = none)
    (hqueued : shifts → Queued s X s.stack) :
    ∃ evs' n t naps, Reaches B p m evs' n ∧ Shows shifts s X evs' fed ∧ Finishes p K X o t n ∧
      Worked shifts strict X naps s t := by
  induction hrun generalizing evs m s X x with
  | @done h script input later o hstep =>
    subst hevs
    obtain ⟨n, t, hr', hfinish, hspared⟩ := hplays.finishes hr (by simpa using hN) hat hstep
    exact ⟨_, n, t, [], hr', .resumed script input (Or.inl rfl), hfinish, .of_spared hspared⟩
  | @call h script input i later child fed fed' r o hstep hchild hinner hrest ihinner ihrest =>
    subst hevs
    have hlen : (fedIn evs).length + (1 + fed.length + fed'.length) ≤ N := by
      have : ((script, input) :: fed ++ fed').length = 1 + fed.length + fed'.length := by
        simp; omega
      omega
    obtain ⟨n₁, s₁, hr₁, hat₁, hspared⟩ := hplays.yields hr (by omega) hat hstep
    have hr₁' := hr.trans hr₁
    have hfirst : Worked shifts strict X [] s s₁ := .of_spared hspared
    have hfed₁ : fedIn (evs ++ [.resumed X script input]) = fedIn evs ++ [(script, input)] := by
      simp
    have hX₁ : s₁.routines.find? X = some x := by rw [hspared.routines, hX]
    -- the child works, and returns
    obtain ⟨n₂, s₂, origin, parent, hr₂, hat₂, hstack₂, hc, hvacant, hspawned⟩ :=
      hplays.spawns hr₁' (by simp; omega) hat₁ (hfed₁ ▸ hchild) hX₁
    obtain ⟨bounds, hbounds⟩ : ∃ bounds, i.bounds = List.replicate bounds .boundary := by
      cases i with
      | reset block => exact ⟨1, rfl⟩
      | splice nested => exact ⟨0, rfl⟩
      | shift handler => cases hchild
      | suspend => cases hchild
      | await c => cases hchild
    rw [hbounds] at hstack₂ hspawned
    have hqueued₁ : shifts → Queued s₁ X s₁.stack := fun hs => (hqueued hs).worked
      hfirst hX
    obtain ⟨evs₃, n₃, s₃, naps, hr₃, hshows₃, hfinish, hwork⟩ := ihinner (hr₁'.quietly hr₂) hfed₁
      (by simp; omega) hat₂ hc rfl fun hs =>
        (hqueued₁ hs).spawned hX₁ hstack₂ hvacant (hstack₂.symm ▸ hspawned)
    have hnew : s₁.fresh ∉ x.children := by
      intro hmem
      obtain ⟨y, hy, -⟩ := (hplays.linked hr₁' hat₁.scheduler).child hX₁ hmem
      rw [hvacant _ rfl] at hy
      cases hy
    have hr₃' := (hr₁'.quietly hr₂).trans hr₃
    have hfed₃ := hshows₃.fed
    obtain ⟨evs₄, n₄, s₄, hr₄, hfed₄, hunforced, hat₄, hwork₄⟩ := hplays.returns hr₃'
      (by simp [hfed₃]; omega) hstrict hfinish hwork hstack₂ hc hX₁ hout hnew hvacant hspawned
    -- the rest
    obtain ⟨parent', hX₄, -⟩ := hwork₄.entry x hX₁ hout
    obtain ⟨evs₅, n₅, s₅, naps', hr₅, hshows₅, hfinish₅, hwork₅⟩ := ihrest (hr₃'.trans hr₄)
      (by simp [hfed₃, hfed₄]) (by simp; omega) hat₄ hX₄ hout fun hs => (hqueued₁ hs).worked hwork₄ hX₁
    have hchild' : Shows shifts s₁ X evs₃ fed := hshows₃.child
      (fun a ha => hstack₂ ▸ List.mem_append_right _ (List.mem_cons_of_mem _ ha)) hvacant
      (hstack₂.symm ▸ hspawned)
    have hself : Shows shifts s X [.resumed X script input] [(script, input)] :=
      .resumed script input (Or.inl rfl)
    have hshows := hself.trans hfirst
      ((hchild'.quiet hfed₄ hunforced).trans hwork₄ hshows₅)
    refine ⟨_, n₅, s₅, naps', hr₁.trans (hr₂.trans ((hr₃.trans hr₄).trans hr₅)), ?_, hfinish₅, ?_⟩
    · simpa using hshows
    · exact (hfirst.trans hwork₄ hstrict hX hout).trans hwork₅ hstrict hX hout
  | @shift h script input later handler v fed o hallowed hstep hhands hrest ih =>
    subst hevs
    have hlen : (fedIn evs).length + (2 + fed.length) ≤ N := by
      simp only [List.length_cons] at hN
      omega
    obtain ⟨n₁, s₁, hr₁, hat₁, hspared⟩ := hplays.yields hr (by omega) hat hstep
    have hr₁' := hr.trans hr₁
    have hfirst : Worked shifts strict X [] s s₁ := .of_spared hspared
    have hfed₁ : fedIn (evs ++ [.resumed X script input]) = fedIn evs ++ [(script, input)] := by
      simp
    have hX₁ : s₁.routines.find? X = some x := by rw [hspared.routines, hX]
    have hqueued₁ : Queued s₁ X s₁.stack := (hqueued hallowed).worked
      hfirst hX
    obtain ⟨n₂, s₂, nap, hr₂, hat₂, hwork₂⟩ := hplays.hands_back hr₁'
      (by simp; omega) hallowed (hstrict hallowed) hat₁ hX₁ hout hqueued₁ (hfed₁ ▸ hhands)
    rw [hfed₁] at hr₂
    obtain ⟨parent, hX₂, -⟩ := hwork₂.entry x hX₁ hout
    obtain ⟨evs₃, n₃, s₃, naps, hr₃, hshows₃, hfinish, hwork₃⟩ := ih (hr₁'.trans hr₂)
      (by simp) (by simp; omega) hat₂ hX₂ hout fun _ => hqueued₁.worked hwork₂ hX₁
    have hnap : s₁.routines.find? nap.1 = none := hwork₂.vacant _ (.of_mem (List.mem_singleton.mpr rfl))
    have hself : Shows shifts s X [.resumed X script input] [(script, input)] :=
      .resumed script input (Or.inl rfl)
    have hshows := hself.trans hfirst
      ((Shows.resumed (π.build (fedIn evs ++ [(script, input)]) handler) .unit (Or.inr hnap)).trans
        hwork₂ hshows₃)
    refine ⟨_, n₃, s₃, [nap] ++ naps, hr₁.trans (hr₂.trans hr₃), hshows, hfinish, ?_⟩
    exact (hfirst.trans hwork₂ hstrict hX hout).trans hwork₃ hstrict hX hout

/-! ### Evaluations -/

/-- A root has been built, and the pass begins. -/
theorem enters {a : Answer C} (hcontrol : m.control = .opening p none :: K)
    (hfocus : m.focus = .release [] (.give a)) (hs : m.scheduler? p = some s) :
    m.event? p = none ∧ At p K [] (.release s.register.handles (.give .nothing))
      { s.scheduleRoot a.script with running := true, reports := [] } (m.step B) := by
  refine ⟨by simp [event?, hfocus, hcontrol], ?_⟩
  have hs' : ({ m with control := K } : Machine C R).scheduler? p = some s := hs
  have hstep : m.step B = ({ m with control := K } : Machine C R).openRoot p none a.script := by
    simp only [step, hfocus, goOn, hcontrol]
    rfl
  rw [hstep]
  refine ⟨rfl, ?_, ?_⟩
  · show Focus.release (registerHandles _ p) _ = _
    rw [registerHandles, hs']
    rfl
  · exact scheduler?_onScheduler_some (scheduler?_onScheduler_some hs' _) _

/-- With nothing but boundaries on the stack, the pass ends in the register. -/
theorem At.ends {j : Nat} (h : AtHead p K s m) (hstack : s.stack = List.replicate j .boundary)
    (hcurrent : s.current = none) :
    (m.step B).control = K ∧ (m.step B).focus = .release [] (.give (.outcome s.register)) ∧
      (m.step B).scheduler? p =
        some { s with stack := [], register := .unit, running := false, reports := [] } := by
  obtain ⟨reports, hpick⟩ := pick_of_spent hstack
  obtain ⟨hcontrol, hfocus⟩ := h.leaves (B := B) hpick
  refine ⟨hcontrol, hfocus, ?_⟩
  have hs : ({ m with control := K } : Machine C R).scheduler? p = some s := h.scheduler
  have hstep : m.step B = ({ m with control := K } : Machine C R).passHead p := by
    simp only [step, h.focus, goOn, h.control]
    rfl
  rw [hstep, passHead]
  simp only [hs, hpick]
  refine (scheduler?_onScheduler_some hs _).trans ?_
  unfold leave
  split
  · simp only [abandon, hcurrent]
    rfl
  · rw [hcurrent]

/-- Somebody asks an idle scheduler to evaluate code. -/
theorem asks_evaluate {code : C} {next : R}
    (hfocus : m.focus = .release [] (.act (.ask (.evaluate p code) next)))
    (hs : m.scheduler? p = some s) (hidle : s.running = false) :
    m.event? p = none ∧
      (m.step B).control = .opening p none :: .holding [.scheduler p] :: .code next :: m.control ∧
      (m.step B).focus = .release [] (.begin code .begin) ∧ (m.step B).scheduler? p = some s := by
  have hstep : m.step B = (m.push (.code next)).evaluate B.held p code := by
    simp only [step, hfocus, goOn, act]
    rfl
  have hrunning : isRunning ((m.push (.code next)).push (.holding [.scheduler p])) (.scheduler p) =
      false := by
    show ((m.scheduler? p).map Scheduler.running).getD false = false
    rw [hs, Option.map_some, hidle]
    rfl
  refine ⟨by simp [event?, hfocus], ?_⟩
  rw [hstep, evaluate]
  simp only [hrunning]
  exact ⟨rfl, rfl, hs⟩

/-- Letting go of a scheduler that others hold changes nothing else. -/
theorem letGo_scheduler {hs : List Handle} {onward : Onward C R}
    (hfocus : m.focus = .release (.scheduler p :: hs) onward)
    (hothers : m.lightly (.scheduler p) = true) :
    (m.step B).control = m.control ∧ (m.step B).focus = .release hs onward ∧
      (m.step B).scheduler? p = m.scheduler? p := by
  have hgone : (m.store.schedulers.letGo p).1 = none := by
    cases hlast : (m.store.schedulers.letGo p).1 with
    | none => rfl
    | some s =>
      have hnone := (Table.find?_letGo_of_some hlast).2 p
      rw [if_pos rfl] at hnone
      simp [lightly, hnone] at hothers
  obtain ⟨handles, hcontrol, -, hsched⟩ := lightly_letGo (B := B) hothers hs onward
  have hstep : m.step B = m.letGo B (.scheduler p) hs onward := by simp only [step, hfocus]
  rw [hstep]
  refine ⟨hcontrol, ?_, hsched p⟩
  simp only [letGo, Store.letGo, hgone]
  rfl

/-- The pass of an evaluation has ended in `o`, and somebody else holds the scheduler: `o`
    is what is replied. -/
theorem replies {next : R}
    (hcontrol : m.control = .holding [.scheduler p] :: .code next :: K)
    (hfocus : m.focus = .release [] (.give (.outcome o)))
    (hothers : ∀ n, Reaches B p m [] n → n.control = .code next :: K →
      n.focus = .release [.scheduler p] (.give (.outcome o)) → n.lightly (.scheduler p) = true) :
    ∃ n, Reaches B p m [] n ∧ n.control = K ∧
      n.focus = .release [] (.tell next (.reply (.outcome o))) ∧
      n.scheduler? p = m.scheduler? p := by
  obtain ⟨hcontrol₁, hfocus₁, hsched₁⟩ : (m.step B).control = .code next :: K ∧
      (m.step B).focus = .release [.scheduler p] (.give (.outcome o)) ∧
      (m.step B).scheduler? p = m.scheduler? p := by
    simp only [step, hfocus, goOn, hcontrol]
    exact ⟨rfl, rfl, rfl⟩
  have hr₁ : Reaches B p m [] (m.step B) := Reaches.unseen (.refl m) (by
    simp [event?, hfocus, hcontrol])
  obtain ⟨hcontrol₂, hfocus₂, hsched₂⟩ :=
    letGo_scheduler (B := B) hfocus₁ (hothers _ hr₁ hcontrol₁ hfocus₁)
  have hr₂ := hr₁.unseen (event?_dropping hfocus₁)
  rw [hcontrol₁] at hcontrol₂
  obtain ⟨hcontrol₃, hfocus₃, hsched₃⟩ : ((m.step B).step B |>.step B).control = K ∧
      ((m.step B).step B |>.step B).focus = .release [] (.tell next (.reply (.outcome o))) ∧
      ((m.step B).step B |>.step B).scheduler? p = ((m.step B).step B).scheduler? p := by
    generalize (m.step B).step B = n at *
    simp only [step, hfocus₂, goOn, hcontrol₂]
    exact ⟨rfl, rfl, rfl⟩
  have hr₃ := hr₂.unseen (show ((m.step B).step B).event? p = none by
    simp [event?, hfocus₂, hcontrol₂])
  exact ⟨_, hr₃, hcontrol₃, hfocus₃, hsched₃.trans (hsched₂.trans hsched₁)⟩

/-- A root has been built, and is fed unit. -/
theorem Plays.opens {a : Answer C} (hplays : Plays B p K π N strict m₀) (hr : Reaches B p m₀ evs m)
    (hN : (fedIn evs).length ≤ N) (hcontrol : m.control = .opening p none :: K)
    (hfocus : m.focus = .release [] (.give a)) (hs : m.scheduler? p = some s) :
    ∃ n t, Reaches B p m [] n ∧ At p K [.stepping p s.fresh] (.advance a.script .unit) t n ∧
      t.stack = s.stack ∧ (∀ a, a.index = s.fresh.index → s.routines.find? a = none) ∧
      ∀ a, t.routines.find? a =
        if a = s.fresh then some ⟨.root, none, none, []⟩ else s.routines.find? a := by
  obtain ⟨hquiet, hat⟩ := enters (B := B) hcontrol hfocus hs
  have hr₁ : Reaches B p m [] (m.step B) := Reaches.unseen (.refl m) hquiet
  have hroom : (s.scheduleRoot a.script).routines.slots.size ≤ 2 ^ 32 := by
    have hroom := hplays.room _ _ _ (hr.quietly hr₁) hat.scheduler
    exact hroom
  obtain ⟨hvacant, routines, reports, heq, hfind⟩ :=
    scheduleRoot_spec (hplays.linked hr hs).sound hroom
  rw [heq] at hat
  obtain ⟨n, t, hr₂, hhead, hspared⟩ := hat.dropped
    (quietly_of_fed hplays.drops (hr.quietly hr₁) hN [] _ (.refl _) rfl (hat.atLoop nofun))
  obtain ⟨unhandled, unclaimed, reports', rfl⟩ := hspared
  have hroot : routines.find? s.fresh = some ⟨.root, some a.script, none, []⟩ := by
    rw [hfind, if_pos rfl]
  obtain ⟨u, hr₃, hfed, hstack, hroutines⟩ := hhead.feeds (B := B) (j := 0) rfl hroot rfl
  refine ⟨_, u, (hr₁.quietly hr₂).quietly hr₃, hfed, hstack, hvacant, fun a => ?_⟩
  rw [hroutines, Roster.find?_modify]
  by_cases ha : a = s.fresh
  · rw [if_pos ha, if_pos ha, ha, hroot]
    rfl
  · rw [if_neg ha, if_neg ha, hfind, if_neg ha]

/-- A root is done, and so are those that sleep under it. -/
theorem Plays.ends {naps : List (RoutineId × Stage C)} {s' : Scheduler C}
    (hplays : Plays B p K π N True m₀) (hr : Reaches B p m₀ evs m) (hN : (fedIn evs).length ≤ N)
    (hfinish : Finishes p K X o s' m) (hwork : Worked shifts True X naps t s')
    (hstack : t.stack = []) (hX : t.routines.find? X = some ⟨.root, none, none, []⟩) :
    ∃ evs' n u, Reaches B p m evs' n ∧ fedIn evs' = [] ∧ n.control = K ∧
      n.focus = .release [] (.give (.outcome o)) ∧ n.scheduler? p = some u ∧
      u.running = false ∧ u.stack = [] ∧ u.register = .unit ∧ u.Tidy ∧
      ∀ a, u.routines.find? a = if a.index = X.index then none else t.routines.find? a := by
  obtain ⟨parent, hX', hparent⟩ := hwork.entry _ hX rfl
  obtain rfl := hparent trivial
  obtain ⟨evs', n, v, hr', hfed, -, hhead, hregister, hstack', hturned⟩ :=
    hplays.empties (T := asleep naps) hr hN hfinish (by rw [hX', roots_asleep]; rfl)
      (stands_asleep hwork.sleep) fun _ n _ _ _ c hc => by
        obtain ⟨stage, hstage⟩ := exits_asleep naps c hc
        rw [hstage]
        exact exitReturns_oneStage stage n
  rw [ids_asleep] at hturned
  obtain ⟨j, hj, -⟩ := hwork.stack
  rw [hj, hstack, List.nil_append] at hstack'
  obtain ⟨hcontrol, hfocus, hsched⟩ := hhead.ends (B := B) hstack' hturned.tidy.current
  rw [hregister] at hfocus
  refine ⟨evs', _, _, hr'.unseen hhead.event?_head, hfed, hcontrol, hfocus, hsched, rfl, rfl, rfl,
    ⟨hturned.tidy.current, hturned.tidy.retired, hturned.tidy.unclaimed⟩, fun a => ?_⟩
  show v.routines.find? a = _
  by_cases hin : InSlots (X :: naps.map Prod.fst) a
  · rw [hturned.vacant trivial a hin inSlots_nil]
    rcases inSlots_cons.mp hin with hindex | hnap
    · rw [if_pos hindex.symm]
    · rw [hwork.vacant a hnap, ite_self]
  · have hindex : a.index ≠ X.index := fun heq => hin (inSlots_cons.mpr (Or.inl heq.symm))
    rw [if_neg hindex, hturned.beside.exact trivial a hin, hwork.beside.exact trivial a hin,
      Option.map_id']
    cases t.routines.find? a <;> rfl

/-- An idle scheduler evaluates code whose program conducts itself as `π` says. It
    replies with what sequential evaluation comes to, and feeds what that feeds.
    Afterwards there are the same routines as before, each of them as it was. -/
theorem evaluation_is_sequential {code : C} {next : R}
    (hfocus : m.focus = .release [] (.act (.ask (.evaluate p code) next)))
    (hs : m.scheduler? p = some s) (hidle : s.running = false) (hstack : s.stack = [])
    (hplays : Plays B p (.holding [.scheduler p] :: .code next :: m.control) π fed.length True m)
    (hbuilds : Answered B p (m.step B) fun f =>
      ∃ a : Answer C, a.script = π.build [] code ∧ f = .release [] (.give a))
    (hrun : Runs π True [] (π.build [] code) .unit fed o)
    (hothers : ∀ evs n, Reaches B p m evs n → n.control = .code next :: m.control →
      n.focus = .release [.scheduler p] (.give (.outcome o)) → n.lightly (.scheduler p) = true) :
    ∃ evs n t, Reaches B p m evs n ∧ fedIn evs = fed ∧ n.control = m.control ∧
      n.focus = .release [] (.tell next (.reply (.outcome o))) ∧
      n.scheduler? p = some t ∧ t.running = false ∧ t.stack = [] ∧ t.register = .unit ∧ t.Tidy ∧
      (∀ a, t.routines.find? a = s.routines.find? a) ∧ t.routines.size = s.routines.size := by
  obtain ⟨hquiet, hcontrol₁, hfocus₁, hs₁⟩ := asks_evaluate (B := B) hfocus hs hidle
  have hr₁ : Reaches B p m [] (m.step B) := Reaches.unseen (.refl m) hquiet
  -- the root is built, and works
  obtain ⟨n₂, hr₂, hcontrol₂, ⟨a, hscript, hfocus₂⟩, hsched₂⟩ := hbuilds
  rw [show (m.step B).event? p = none by simp [event?, hfocus₁]] at hr₂
  obtain ⟨s₂, hs₂, hspared⟩ := hsched₂ s hs₁
  obtain ⟨n₃, s₃, hr₃, hfed, hstack₃, hvacant, hentries⟩ := hplays.opens (hr₁.quietly hr₂)
    (Nat.zero_le _) (hcontrol₂.trans hcontrol₁) hfocus₂ hs₂
  rw [hspared.routines] at hvacant hentries
  have hstack₃' : s₃.stack = [] := by
    obtain ⟨_, _, _, rfl⟩ := hspared
    exact hstack₃.trans hstack
  have hX : s₃.routines.find? s₂.fresh = some ⟨.root, none, none, []⟩ := by
    rw [hentries, if_pos rfl]
  have hr₃' := (hr₁.quietly hr₂).quietly hr₃
  rw [hscript] at hfed
  obtain ⟨evs₄, n₄, s₄, naps, hr₄, hshows, hfinish, hwork⟩ := Runs.finishes hrun (fun _ => trivial) hplays
    hr₃' rfl (by simp) hfed hX rfl fun _ => ⟨by simp [hstack₃'], by simp [hstack₃']⟩
  have hfed₄ := hshows.fed
  -- it is done, and the outcome is replied
  obtain ⟨evs₅, n₅, t, hr₅, hfed₅, hcontrol₅, hfocus₅, hs₅, hrunning, hempty, hregister, htidy,
    hsame⟩ := hplays.ends (hr₃'.trans hr₄) (by simp [hfed₄]) hfinish hwork hstack₃' hX
  have hr₅' := (hr₃'.trans hr₄).trans hr₅
  obtain ⟨n₆, hr₆, hcontrol₆, hfocus₆, hsched₆⟩ := replies (B := B) hcontrol₅ hfocus₅
    fun n₆ hr₆ hcontrol₆ hfocus₆ => hothers _ _ (hr₅'.quietly hr₆) hcontrol₆ hfocus₆
  have hr₇ := hr₅'.quietly hr₆
  have hs₇ := hsched₆.trans hs₅
  have hfind : ∀ a, t.routines.find? a = s.routines.find? a := by
    intro a
    rw [hsame]
    split
    · next hindex => exact (hvacant a hindex).symm
    · next hindex =>
      rw [hentries, if_neg fun heq => hindex (congrArg RoutineId.index heq)]
  refine ⟨_, _, t, hr₇, by simp [hfed₄, hfed₅], hcontrol₆, hfocus₆, hs₇, hrunning, hempty, hregister,
    htidy, hfind, Roster.Sound.size_eq ?_ ?_ ?_ ?_ fun a => by rw [hfind a]⟩
  · exact (hplays.linked hr₇ hs₇).sound
  · exact (hplays.linked (.refl m) hs).sound
  · exact hplays.room _ _ _ hr₇ hs₇
  · exact hplays.room _ _ _ (.refl m) hs

/-- If an evaluation is over and lets go of its scheduler, others hold that. -/
def heldElsewhere (m : Machine C R) : Bool :=
  match m.focus with
  | .release [.scheduler p] (.give (.outcome _)) => m.lightly (.scheduler p)
  | _ => true

end Machine

open Machine Strand.Language in
/-- A root that resets a body and shifts, and adds 1 to what it is fed then. The body
    splices a script, shifts, and doubles what it is fed. Each handler resumes at once
    with 10. -/
def substituting : Machine Code Running :=
  let script stages := Term.apply (.staged (stages.map .onSuccess) none) []
  let int n := Operand.mk (.type .int) (.literal (.int n))
  let input := Operand.mk (.type .int) (.apply .input [])
  let done t := Term.apply .done [.mk .outcome t]
  let resume := script [.apply .resume [.mk (.type .continuation) (.apply (.lookup "k") []),
    .mk .any (.literal (.int 10))]]
  let shift := Term.apply (.shift (.mk resume (some "k") none none none)) []
  let body := script [.apply .splice [.mk .script (script [done (.literal (.int 1))])], shift,
    done (.apply .multiply [input, int 2])]
  let root := script [.apply (.reset body) [], shift, done (.apply .add [input, int 1])]
  Program.machine [] .empty (.bind "s" (.apply (.newScheduler {}) [])
    (.apply (.evaluate root) [.mk (.type .scheduler) (.apply (.lookup "s") [])]))

open Machine Strand.Language in
/-- The evaluation is asked for after 15 moves. It feeds scripts nine times, comes to
    11 and leaves no routine behind. -/
theorem evaluation_is_sequential_substituting :
    ∃ (m n : Machine Code Running) (code : Code) (next : Running) (evs : List (PassEvent Code))
      (t : Scheduler Code), m = after behavior 15 substituting ∧
      m.focus = .release [] (.act (.ask (.evaluate 0 code) next)) ∧ Reaches behavior 0 m evs n ∧
      (fedIn evs).length = 9 ∧
      n.focus = .release [] (.tell next (.reply (.outcome (.success (.int 11))))) ∧
      n.scheduler? 0 = some t ∧ t.routines.size = 0 := by
  obtain ⟨m, hm⟩ : ∃ m, m = after behavior 15 substituting := ⟨_, rfl⟩
  have hreach : Reachable behavior m := by
    rw [hm]
    exact ⟨_, Reaches.later (p := 0) ⟨15, rfl, rfl⟩⟩
  have hasked : m.evaluation?.map Prod.fst = some 0 := by
    rw [hm]
    decide +kernel
  obtain ⟨⟨p, code, next⟩, heval, rfl⟩ := Option.map_eq_some_iff.mp hasked
  have hbefore : (m.scheduler? 0).map (fun s => (s.running, s.stack, s.routines.size)) =
      some (false, [], 0) := by
    rw [hm]
    decide +kernel
  obtain ⟨s, hs, hempty⟩ := Option.map_eq_some_iff.mp hbefore
  simp only [Prod.mk.injEq] at hempty
  have hcomposed : throughout behavior (fun _ => false) (composed behavior 0 60) 330 m = true := by
    rw [hm]
    decide +kernel
  have hspaced : Moment.spaced (moments behavior 0 60 330 m) = true := by
    rw [hm]
    decide +kernel
  have hplays := fun K N => plays_of_handsBack (K := K) (N := N) (v := 10) hreach
    (by rw [hm]; decide +kernel) hcomposed hspaced (fun (_ : True) => by rw [hm]; decide +kernel)
    (by rw [hm]; decide +kernel)
  have hruns : ((Moment.conduct (moments behavior 0 60 330 m) fun _ _ => some (.int 10)).run? 20 []
      ((Moment.conduct (moments behavior 0 60 330 m) fun _ _ => some (.int 10)).build [] .passing)
      .unit).map (fun r => (r.1.length, r.2.int?)) = some (9, some 11) := by
    rw [hm]
    decide +kernel
  obtain ⟨⟨fed, o⟩, hrun, hresult⟩ := Option.map_eq_some_iff.mp hruns
  obtain ⟨hlength, ho⟩ := Prod.mk.inj hresult
  obtain rfl := Outcome.int?_eq_some ho
  have hgiven : ((answer? behavior 0 60 (m.step behavior)).map Focus.given) = some true := by
    rw [hm]
    decide +kernel
  have hothers : throughout behavior (fun _ => false) heldElsewhere 330 m = true := by
    rw [hm]
    decide +kernel
  have hfocus := of_evaluation? heval
  obtain ⟨hquiet, hcontrol, hbegin, -⟩ := asks_evaluate (B := behavior) hfocus hs hempty.1
  obtain ⟨g, hg, hbuilt⟩ := built_of_moment (fun _ _ => some (.int 10)) hcontrol hbegin
    (Or.inr ⟨none, rfl⟩) hcomposed hspaced ((Reaches.refl m).unseen hquiet) code
  have hbuilds : Answered behavior 0 (m.step behavior) fun f => ∃ a : Answer Code,
      a.script = (Moment.conduct (moments behavior 0 60 330 m) fun _ _ => some (.int 10)).build [] code ∧
        f = .release [] (.give a) := by
    rw [hg] at hgiven
    exact given_of_answer? hg (Option.some.inj hgiven) hbuilt
  obtain ⟨evs, n, t, hr, hfed, -, hreply, ht, -, -, -, -, -, hsize⟩ := evaluation_is_sequential
    hfocus hs hempty.1 hempty.2.1 (hplays _ _) hbuilds (runs_of_run? (.inl trivial) hrun) fun _ n hr _ hf => by
      obtain ⟨i, rfl, rfl⟩ := hr
      have hcheck := check_after hothers i fun _ _ => rfl
      rw [heldElsewhere, hf] at hcheck
      exact hcheck
  refine ⟨m, n, code, next, evs, t, hm, hfocus, hr, by rw [hfed, hlength], hreply, ht, ?_⟩
  rw [hsize, hempty.2.2]

end Strand
